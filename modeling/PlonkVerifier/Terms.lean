import PlonkVerifier.Commitment.Group
import PlonkVerifier.Key
import PlonkVerifier.Transcript.Query

/-!
# Terms — formal sums of commitments

A formal sum has a coefficient for each commitment label; coefficients of one label add up.  `evaluate`
replaces the labels by commitments, of the key first and of the prover otherwise.
-/

namespace PlonkVerifier

/-- The coefficients of a formal sum of commitments. -/
abbrev Terms := LabelMap Scalar

namespace Terms

variable {G : Type}

/-- Adds a multiple of one commitment. -/
def add (terms : Terms) (label : String) (coefficient : Scalar) : Terms :=
  terms.insertWith (· + ·) label coefficient

/-- Adds a multiple of a commitment the key has to hold. -/
def addKeyed (terms : Terms) (key : VerificationKey G) (label : String) (coefficient : Scalar) :
    Except VerifierError Terms := do
  let _ ← key.commitment label
  return terms.add label coefficient

/-- The sum times a scalar. -/
def scale (terms : Terms) (factor : Scalar) : Terms := terms.map (· * factor)

/-- The sum of two formal sums. -/
def merge (terms other : Terms) : Terms :=
  other.entries.foldl (fun sum term => sum.add term.1 term.2) terms

/-- The commitment with a label, of the key or else of the prover. -/
def lookup (key : VerificationKey G) (transcript : Transcript G) (label : String) :
    Except VerifierError G :=
  match key.commitments.find? label with
  | some commitment => .ok commitment
  | none => transcript.commitment label

/-- Coefficients with their commitments, in the order of the labels. -/
def resolve (terms : Terms) (key : VerificationKey G) (transcript : Transcript G) :
    Except VerifierError (List (Scalar × G)) :=
  terms.entries.mapM fun (label, coefficient) =>
    return (coefficient, ← lookup key transcript label)

/-- The commitment a formal sum stands for. -/
def evaluate [CommitmentGroup G] (terms : Terms) (key : VerificationKey G)
    (transcript : Transcript G) : Except VerifierError G := do
  return CommitmentGroup.weightedSum (← terms.resolve key transcript)

end Terms

end PlonkVerifier
