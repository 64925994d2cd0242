import PlonkVerifier.Composition

/-!
# Opening — from a composition to the pairing check

The evaluation of the quotient polynomial follows from the combined constraint.  Then all polynomials are
opened in one batch: the map challenge weighs each evaluation, and the separator tells the openings at
`z ω` from those at `z`.  `pairingInput` turns the batch into the two points of the pairing check

  `e(P₀, [1]₂) = e(P₁, [x]₂)`.
-/

namespace PlonkVerifier

variable {G : Type}

/-- The batched opening of all committed polynomials at `z` and `z ω`. -/
structure BatchOpening where
  /-- The batched commitment, as a formal sum. -/
  terms : Terms
  /-- The claimed value of the batched polynomial. -/
  evaluation : Scalar
  z : Scalar
  zOmega : Scalar
  separator : Scalar
  /-- Whether the circuit verifies another proof. -/
  isRecursive : Bool
  deriving DecidableEq

namespace BatchOpening

/-- The pieces of the quotient polynomial: `ν_t ∑ z^(n (i - 1)) T_i`. -/
def addQuotient (terms : Terms) (width : Nat) (nu zn : Scalar) : Terms :=
  (List.range width).foldl
    (fun terms i => terms.add ("T_" ++ toString (i + 1)) (nu * Residue.pow zn i)) terms

/-- Adds the opening of one evaluation to the formal sum and to the claimed value.  Commitments that
`opened` names have their term already. -/
def addEvaluation (key : VerificationKey G) (transcript : Transcript G) (separator : Scalar)
    (opened : List String) (sum : Terms × Scalar) (label : String) :
    Except VerifierError (Terms × Scalar) := do
  let (commitment, shifted) := Label.opened label
  let nu ← transcript.mapMember Challenge.nu label
  let coefficient := if shifted then nu * separator else nu
  let value ← transcript.evaluation label
  let evaluation := sum.2 + coefficient * value
  if opened.contains label then return (sum.1, evaluation)
  if Label.isProverCommitment commitment then
    return (sum.1.add commitment coefficient, evaluation)
  return (← sum.1.addKeyed key commitment coefficient, evaluation)

/-- The formal sum and the claimed value of the linearisation polynomial, together with the value the
quotient polynomial accounts for. -/
def linearisation (variant : Variant) (transcript : Transcript G) (composition : Composition) :
    Except VerifierError (Terms × Scalar × Scalar) := do
  if variant.linearised then
    let r ← transcript.evaluation "r"
    let nu ← transcript.mapMember Challenge.nu "r"
    return (composition.terms.scale nu, nu * r, composition.r₀ + r)
  return (composition.terms, 0, composition.r₀)

end BatchOpening

/-- Opens all committed polynomials in one batch. -/
def batchOpening (variant : Variant) (key : VerificationKey G) (transcript : Transcript G) :
    Except VerifierError BatchOpening := do
  let composition ← compose variant key transcript
  let z ← transcript.challenge Challenge.point
  let separator ← transcript.challenge Challenge.separator
  let (terms, evaluation, identity) ← BatchOpening.linearisation variant transcript composition
  let quotient := identity * (← Domain.invert (Domain.vanishing z key.circuitSize))
  let nu ← transcript.mapMember Challenge.nu "t"
  let terms := BatchOpening.addQuotient terms variant.programWidth nu
    (Residue.pow z key.circuitSize)
  let (terms, evaluation) ← (variant.evaluationLabels.filter (· != "r")).foldlM
    (BatchOpening.addEvaluation key transcript separator variant.rawOpenings)
    (terms, evaluation + nu * quotient)
  return {
    terms, evaluation, z, zOmega := z * key.root, separator, isRecursive := key.isRecursive }

/-! ## The pairing check -/

/-- What the pairing check is run on. -/
structure PairingInput (G : Type) where
  /-- The point `P₀`. -/
  lhs : G
  /-- The point `P₁`. -/
  witness : G
  /-- Whether the check has to accumulate a further point of a recursive circuit. -/
  isRecursive : Bool
  deriving DecidableEq

/-- `P₀ = F - E [1] + z Π + u z ω Π'` and `P₁ = Π + u Π'` for the batched commitment `F`, its claimed
value `E`, the separator `u` and the opening proofs `Π` at `z` and `Π'` at `z ω`. -/
def BatchOpening.aggregate [CommitmentGroup G] (opening : BatchOpening) (key : VerificationKey G)
    (transcript : Transcript G) : Except VerifierError (G × G) := do
  let batch ← opening.terms.evaluate key transcript
  let proof ← transcript.commitment "PI_Z"
  let shiftedProof ← transcript.commitment "PI_Z_OMEGA"
  let lhs := CommitmentGroup.weightedSum [(1, batch), (-opening.evaluation, CommitmentGroup.base),
    (opening.z, proof), (opening.separator * opening.zOmega, shiftedProof)]
  let witness := CommitmentGroup.weightedSum [(1, proof), (opening.separator, shiftedProof)]
  return (lhs, witness)

/-- The input of the pairing check for a proof. -/
def pairingInput [CommitmentGroup G] (variant : Variant) (key : VerificationKey G)
    (transcript : Transcript G) : Except VerifierError (PairingInput G) := do
  let opening ← batchOpening variant key transcript
  let (lhs, witness) ← opening.aggregate key transcript
  return { lhs, witness, isRecursive := opening.isRecursive }

/-- Verifies a proof with a given pairing check. -/
def verify [CommitmentGroup G] (variant : Variant) (key : VerificationKey G)
    (transcript : Transcript G) (check : PairingInput G → Bool) : Except VerifierError Unit := do
  if check (← pairingInput variant key transcript) then return ()
  throw .verification

end PlonkVerifier
