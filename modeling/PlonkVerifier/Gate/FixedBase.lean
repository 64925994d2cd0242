import PlonkVerifier.Gate.Basic

/-!
# Gate/FixedBase — one step of a fixed-base scalar multiplication

A row holds the accumulated point `(a, b)`, the scalar accumulator `d` and in `c` the product of the
coordinates of the point that is added.  That point is the table point `(q₁, q₂)` times the signed bit
`d' - 2d`, which is `-1`, `0` or `1`.
-/

namespace PlonkVerifier

namespace FixedBase

/-- The sub-identities of a row with table point `(q₁, q₂)`, followed by the point `(aNext, bNext)` and
the accumulator `dNext`. -/
def subIdentities (row : Row) (aNext bNext dNext q₁ q₂ : Scalar) : List Scalar :=
  let bit := dNext - (row.d + row.d)
  let x := q₁ * bit
  let y := bit * bit * (q₂ - 1) + 1
  let dxy := Scalar.ofNat Edwards.d * row.a * row.b * row.c
  [bit * (bit - 1) * (bit + 1),
    row.c - x * y,
    aNext * (1 + dxy) - (row.a * y + row.b * x),
    bNext * (1 - dxy) - (row.b * y - Scalar.ofNat Edwards.a * row.a * x)]

end FixedBase

/-- The gate of a fixed-base step. -/
def Gate.fixedBase : Gate where
  selector := "q_fixed_base"
  separation := "fixed_base_separation"
  inputs := ["w_1_omega", "w_2_omega", "w_4_omega", "q_1", "q_2"]
  subIdentities evaluation := do
    let row ← Row.read evaluation
    let aNext ← evaluation "w_1_omega"
    let bNext ← evaluation "w_2_omega"
    let dNext ← evaluation "w_4_omega"
    let q₁ ← evaluation "q_1"
    let q₂ ← evaluation "q_2"
    return FixedBase.subIdentities row aNext bNext dNext q₁ q₂

end PlonkVerifier
