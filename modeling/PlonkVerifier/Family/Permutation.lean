import PlonkVerifier.Domain
import PlonkVerifier.Label
import PlonkVerifier.Terms

/-!
# Family/Permutation — the grand product of the copy constraints

With the separation challenge `s` the constraint of the family is

  `(z - ω⁻¹) (Z(z) ∏ (wᵢ + β idᵢ + γ) - Z(z ω) ∏ (wᵢ + β σᵢ + γ))`
  `+ s (Z(z) - 1) L₀(z) + s² (Z(z ω) - δ) Lₙ₋₂(z)`

where `δ` is the value that the public inputs give to the product.  Linearised, `Z(z)` and the last `σᵢ`
stay committed, and `constraint` splits into their two coefficients and a remainder.
-/

namespace PlonkVerifier

/-- The values of the grand product at the evaluation point. -/
structure GrandProduct where
  beta : Scalar
  gamma : Scalar
  separation : Scalar
  /-- `z - ω⁻¹`, which switches the recurrence off in the last row. -/
  lastRow : Scalar
  firstLagrange : Scalar
  penultimateLagrange : Scalar
  /-- The value `δ` of the public inputs. -/
  publicInputDelta : Scalar
  /-- `Z(z ω)`. -/
  shifted : Scalar
  /-- `∏ (wᵢ + β idᵢ + γ)`. -/
  identityProduct : Scalar
  /-- `∏ (wᵢ + β σᵢ + γ)` over all wires but the last. -/
  sigmaProduct : Scalar
  lastWire : Scalar
  deriving DecidableEq, Repr

namespace GrandProduct

variable {G : Type}

/-- `∏ (wᵢ + β pᵢ + γ)` over wires `wᵢ` and positions `pᵢ`. -/
def product (beta gamma : Scalar) (wires positions : List Scalar) : Scalar :=
  Residue.product (wires.zipWith (fun w p => w + beta * p + gamma) positions)

/-- The identity positions: evaluated, or the evaluation point in the coset of each wire. -/
def identityPositions (key : VerificationKey G) (transcript : Transcript G) (mode : Mode)
    (z : Scalar) : Except VerifierError (List Scalar) :=
  if mode.identityPolynomials then
    (Label.numbered "id" key.programWidth).mapM transcript.evaluation
  else (List.range key.programWidth).mapM fun i => return (← key.cosetGenerator i) * z

/-- Reads the grand product from a transcript. -/
def read (key : VerificationKey G) (transcript : Transcript G) (mode : Mode) :
    Except VerifierError GrandProduct := do
  let beta ← transcript.challenge Challenge.beta
  let gamma ← transcript.challenge Challenge.gamma
  let separation ← transcript.challenge Challenge.permutation
  let z ← transcript.challenge Challenge.point
  let wires ← (Label.wires key.programWidth).mapM transcript.evaluation
  let shifted ← transcript.evaluation "z_omega"
  let inputs ← transcript.vector publicInputsLabel
  if inputs.length ≠ key.publicInputs then
    throw (.publicInputCountMismatch key.publicInputs inputs.length)
  let identities ← identityPositions key transcript mode z
  let sigmas ← (Label.numbered "sigma" (key.programWidth - 1)).mapM transcript.evaluation
  let firstLagrange ← Domain.firstLagrange z key.circuitSize
  let penultimateLagrange ← Domain.penultimateLagrange z key.circuitSize key.root
  let external ← key.externalCosetGenerator
  let publicInputDelta ← Domain.publicInputDelta inputs beta gamma key.root external
  return {
    beta, gamma, separation, firstLagrange, penultimateLagrange, publicInputDelta, shifted
    lastRow := z - key.rootInverse
    identityProduct := product beta gamma wires identities
    sigmaProduct := product beta gamma wires sigmas
    lastWire := wires.getLast?.getD 0 }

variable (gp : GrandProduct)

/-- `s² (Z(z ω) - δ) Lₙ₋₂(z)`. -/
def endCondition : Scalar :=
  gp.separation * gp.separation * (gp.shifted - gp.publicInputDelta) * gp.penultimateLagrange

/-- The constraint at the values `z = Z(z)` and `sigma` of the last permutation polynomial. -/
def constraint (z sigma : Scalar) : Scalar :=
  gp.lastRow * (z * gp.identityProduct
      - gp.shifted * gp.sigmaProduct * (gp.lastWire + gp.beta * sigma + gp.gamma))
    + gp.separation * (z - 1) * gp.firstLagrange + gp.endCondition

/-- The coefficient of `Z` in the linearised constraint. -/
def zCoefficient : Scalar := gp.lastRow * gp.identityProduct + gp.separation * gp.firstLagrange

/-- The coefficient of the last permutation polynomial in the linearised constraint. -/
def sigmaCoefficient : Scalar := -(gp.lastRow * gp.shifted * gp.beta * gp.sigmaProduct)

/-- The part of the linearised constraint without a committed polynomial. -/
def remainder : Scalar :=
  gp.endCondition - gp.lastRow * gp.shifted * gp.sigmaProduct * (gp.lastWire + gp.gamma)
    - gp.separation * gp.firstLagrange

end GrandProduct

namespace Permutation

variable {G : Type}

/-- The committed part of the linearised constraint, times `base`. -/
def linearisedTerms (key : VerificationKey G) (base : Scalar) (transcript : Transcript G)
    (mode : Mode) : Except VerifierError Terms := do
  let gp ← GrandProduct.read key transcript mode
  (Terms.add .empty "Z" (base * gp.zCoefficient)).addKeyed key
    ("SIGMA_" ++ toString key.programWidth) (base * gp.sigmaCoefficient)

/-- The scalar part of the constraint: all of it, or what linearisation leaves. -/
def scalarPart (key : VerificationKey G) (transcript : Transcript G) (mode : Mode) :
    Except VerifierError Scalar := do
  let gp ← GrandProduct.read key transcript mode
  if mode.linearised then return gp.remainder
  let z ← transcript.evaluation "z"
  let sigma ← transcript.evaluation ("sigma_" ++ toString key.programWidth)
  return gp.constraint z sigma

end Permutation

end PlonkVerifier
