import PlonkVerifier.LabelMap
import PlonkVerifier.Transcript.Query

/-!
# Transcript/Table — a transcript written down as tables

Each kind of answer is a map from labels; a label outside the map is a missing answer.
-/

namespace PlonkVerifier

/-- The recorded answers of a transcript. -/
structure TranscriptTable (G : Type) where
  hash : ChallengeHash
  challengeBytes : Nat
  challenges : LabelMap Scalar
  /-- The members of each map challenge. -/
  maps : LabelMap (LabelMap Scalar)
  evaluations : LabelMap Scalar
  vectors : LabelMap (List Scalar)
  commitments : LabelMap G

/-- The name of a member of a map challenge. -/
def memberName (challenge label : String) : String := challenge ++ "[" ++ label ++ "]"

/-- The value, or the error that names what is missing. -/
def orMissing {α : Type} (missing : VerifierError) : Option α → Except VerifierError α
  | some a => .ok a
  | none => .error missing

/-- The transcript that answers from the tables. -/
def TranscriptTable.transcript {G : Type} (table : TranscriptTable G) : Transcript G where
  hash := table.hash
  challengeBytes := table.challengeBytes
  challenge label := orMissing (.missingChallenge label) (table.challenges.find? label)
  mapMember challenge label :=
    orMissing (.missingChallenge (memberName challenge label))
      ((table.maps.find? challenge).bind (·.find? label))
  evaluation label := orMissing (.missingEvaluation label) (table.evaluations.find? label)
  vector label := orMissing (.missingEvaluation label) (table.vectors.find? label)
  commitment label := orMissing (.missingCommitment label) (table.commitments.find? label)

end PlonkVerifier
