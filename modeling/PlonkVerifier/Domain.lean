import PlonkVerifier.Error
import PlonkVerifier.Field.Scalar

/-!
# Domain — polynomials of the evaluation domain at a point

The domain is the group of `n`-th roots of unity, `n` a power of two, generated by `root`.  Its vanishing
polynomial and two of its Lagrange polynomials have short closed forms; `publicInputDelta` is the value
that the public inputs give to the grand product.
-/

namespace PlonkVerifier

namespace Domain

/-- `zⁿ - 1`. -/
def vanishing (z : Scalar) (n : Nat) : Scalar := Residue.pow z n - 1

/-- The inverse of a denominator. -/
def invert (x : Scalar) : Except VerifierError Scalar :=
  if x = 0 then .error .divisionByZero else .ok (Residue.inverse x)

/-- The Lagrange polynomial of the first point: `(zⁿ - 1) / (n (z - 1))`. -/
def firstLagrange (z : Scalar) (n : Nat) : Except VerifierError Scalar := do
  return vanishing z n * (← invert (Scalar.ofNat n * (z - 1)))

/-- The Lagrange polynomial of the last point but one: `(zⁿ - 1) / (n (z ω² - 1))`. -/
def penultimateLagrange (z : Scalar) (n : Nat) (root : Scalar) : Except VerifierError Scalar := do
  return vanishing z n * (← invert (Scalar.ofNat n * (z * (root * root) - 1)))

/-- `∏ (xᵢ + γ + β k ωⁱ)` over the public inputs, counted from zero. -/
def publicInputProduct (inputs : List Scalar) (beta gamma root coset : Scalar) : Scalar :=
  Residue.product (inputs.zipWith (fun x power => x + gamma + beta * power * coset)
    (Residue.powers root inputs.length))

/-- `∏ (xᵢ + β ωⁱ + γ) / (xᵢ + β k ωⁱ + γ)` for the external coset generator `k`. -/
def publicInputDelta (inputs : List Scalar) (beta gamma root external : Scalar) :
    Except VerifierError Scalar := do
  return publicInputProduct inputs beta gamma root 1
    * (← invert (publicInputProduct inputs beta gamma root external))

end Domain

end PlonkVerifier
