import PlonkVerifier.Gate.Basic

/-!
# Gate/Elliptic — addition on the embedded curve

A row holds two points `(a, b)` and `(c, d)`; the next row holds their sum `(x₃, y₃)` and the product
`x₁ y₂` that both coordinates of the sum need.
-/

namespace PlonkVerifier

namespace Elliptic

/-- The sub-identities of a row followed by the sum `(x₃, y₃)` and the product `p` of `x₁` and `y₂`. -/
def subIdentities (row : Row) (x₃ y₃ p : Scalar) : List Scalar :=
  let ⟨x₁, y₁, x₂, y₂⟩ := row
  let crossed := y₁ * x₂
  let dxy := Scalar.ofNat Edwards.d * p * crossed
  [x₁ * y₂ - p,
    p + crossed - (x₃ + x₃ * dxy),
    y₁ * y₂ - Scalar.ofNat Edwards.a * x₁ * x₂ - (y₃ - y₃ * dxy)]

end Elliptic

/-- The gate of a curve addition. -/
def Gate.elliptic : Gate where
  selector := "q_elliptic"
  separation := "ecc_separation"
  inputs := ["w_1_omega", "w_2_omega", "w_4_omega"]
  subIdentities evaluation := do
    let row ← Row.read evaluation
    let x₃ ← evaluation "w_1_omega"
    let y₃ ← evaluation "w_2_omega"
    let p ← evaluation "w_4_omega"
    return Elliptic.subIdentities row x₃ y₃ p

end PlonkVerifier
