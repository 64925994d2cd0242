import PlonkVerifier.AlgebraError
import PlonkVerifier.Family
import PlonkVerifier.Hash.Challenge

/-!
# Error — why a proof is not accepted

A well-formed proof that fails the final check is `verification`; every other cause says that the proof,
the key or the configuration is malformed.
-/

namespace PlonkVerifier

/-- Why verification ended without acceptance. -/
inductive VerifierError where
  /-- An algebraic operation failed. -/
  | algebra (cause : AlgebraError)
  /-- No variant is registered under this tag. -/
  | unknownVariant (tag : String)
  /-- The families of a variant do not fit its configuration. -/
  | invalidVariant (reason : String)
  /-- Neither the key nor the transcript holds this commitment. -/
  | missingCommitment (label : String)
  /-- The transcript cannot derive this challenge. -/
  | missingChallenge (label : String)
  /-- The transcript does not hold this field element or vector. -/
  | missingEvaluation (label : String)
  /-- The transcript derives challenges by another hash or of another width. -/
  | transcriptMismatch (expected found : ChallengeHash × Nat)
  /-- Key and variant differ in the number of wires. -/
  | programWidthMismatch (expected found : Nat)
  /-- Key and transcript differ in the number of public inputs. -/
  | publicInputCountMismatch (expected found : Nat)
  /-- The two passes of a family consumed different powers of alpha. -/
  | alphaPowerDesync (family : Family)
  /-- The transcript does not follow its manifest. -/
  | manifest (reason : String)
  /-- A denominator is zero. -/
  | divisionByZero
  /-- The pairing check failed. -/
  | verification
  deriving DecidableEq, Repr

namespace VerifierError

/-- A hash and a challenge width, in words. -/
def schemeText (scheme : ChallengeHash × Nat) : String :=
  scheme.1.name ++ "/" ++ toString scheme.2 ++ " bytes"

/-- The cause in words. -/
def message : VerifierError → String
  | algebra cause => "Algebra: " ++ cause.message
  | unknownVariant tag => "Unknown protocol variant: " ++ tag ++ "."
  | invalidVariant reason => "Invalid protocol variant: " ++ reason ++ "."
  | missingCommitment label => "Missing commitment " ++ label ++ "."
  | missingChallenge label => "Missing challenge " ++ label ++ "."
  | missingEvaluation label => "Missing evaluation " ++ label ++ "."
  | transcriptMismatch expected found =>
    "Transcript mismatch: expected " ++ schemeText expected ++ ", found " ++ schemeText found ++ "."
  | programWidthMismatch expected found =>
    "Program width mismatch: expected " ++ toString expected ++ ", found " ++ toString found ++ "."
  | publicInputCountMismatch expected found =>
    "Public input count mismatch: expected " ++ toString expected ++ ", found " ++ toString found
      ++ "."
  | alphaPowerDesync family => "Alpha power desync in " ++ family.name ++ " widget."
  | manifest reason => "Manifest error: " ++ reason ++ "."
  | divisionByZero => "Division by zero."
  | verification => "Verification error."

/-- Whether the input is at fault, rather than a well-formed proof that failed the final check. -/
def isMalformedInput : VerifierError → Bool
  | verification => false
  | _ => true

end VerifierError

/-- An algebraic outcome inside verification. -/
def liftAlgebra {α : Type} : Except AlgebraError α → Except VerifierError α
  | .ok a => .ok a
  | .error cause => .error (.algebra cause)

end PlonkVerifier
