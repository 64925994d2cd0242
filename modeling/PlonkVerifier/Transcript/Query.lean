import PlonkVerifier.Error
import PlonkVerifier.Field.Scalar

/-!
# Transcript/Query — a transcript as the answers a verifier asks for

Verification reads a transcript only through the queries of `Transcript`, by label.  Two transcripts with
the same answers are the same to a verifier, however they came about: recorded in a table
(`Transcript/Table`) or derived from the bytes of a proof (`Transcript/Session`).
-/

namespace PlonkVerifier

/-- The answers of a Fiat–Shamir transcript, with commitments in `G`. -/
structure Transcript (G : Type) where
  /-- The hash that derives challenges. -/
  hash : ChallengeHash
  /-- The width of a challenge. -/
  challengeBytes : Nat
  /-- The challenge with a label. -/
  challenge : String → Except VerifierError Scalar
  /-- The member of a map challenge with a label. -/
  mapMember : (challenge label : String) → Except VerifierError Scalar
  /-- The field element the prover sent under a label. -/
  evaluation : String → Except VerifierError Scalar
  /-- The vector the prover sent under a label. -/
  vector : String → Except VerifierError (List Scalar)
  /-- The commitment the prover sent under a label. -/
  commitment : String → Except VerifierError G

/-! ## The challenges of the protocol -/

namespace Challenge

/-- Drawn from the circuit's metadata. -/
def init : String := "init"

/-- Of the permutation argument. -/
def beta : String := "beta"

/-- Of the permutation argument. -/
def gamma : String := "gamma"

/-- Combines the families. -/
def alpha : String := "alpha"

/-- The evaluation point. -/
def point : String := "z"

/-- The map challenge that batches the opened polynomials. -/
def nu : String := "nu"

/-- Separates the openings at `z` and `z ω`. -/
def separator : String := "separator"

/-- Separates the grand product from its boundary conditions. -/
def permutation : String := "permutation_separation"

end Challenge

/-- The label of the public input vector. -/
def publicInputsLabel : String := "public_inputs"

end PlonkVerifier
