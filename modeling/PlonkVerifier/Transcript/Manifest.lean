import PlonkVerifier.Arithmetic

/-!
# Transcript/Manifest — the rounds of a proof

A manifest lists, round by round, the messages a prover sends with their sizes and the challenges drawn
when the round is complete.  A message derived by the verifier is listed but takes no bytes of the proof.

Sizes are added up without a bound here; `Manifest.sizeWords` is the number that a program finds.
-/

namespace PlonkVerifier

/-- One message of a round. -/
structure ManifestEntry where
  name : String
  /-- The encoded size in bytes. -/
  size : Nat
  /-- Whether the verifier computes the message itself. -/
  derived : Bool
  deriving DecidableEq, Repr

/-- The messages of a round and the challenges drawn at its end. -/
structure ManifestRound where
  elements : List ManifestEntry
  challenges : List String
  /-- Whether the challenges are maps, with a member for every label. -/
  isMap : Bool
  deriving DecidableEq, Repr

/-- The rounds of a proof, in order. -/
structure Manifest where
  rounds : List ManifestRound
  deriving DecidableEq, Repr

/-- A message sent by the prover. -/
def ManifestEntry.sent (name : String) (size : Nat) : ManifestEntry := ⟨name, size, false⟩

namespace ManifestRound

/-- The messages the prover sends. -/
def sent (round : ManifestRound) : List ManifestEntry := round.elements.filter (!·.derived)

/-- The number of bytes the prover sends. -/
def size (round : ManifestRound) : Nat := (round.sent.map (·.size)).foldr (· + ·) 0

end ManifestRound

namespace Manifest

/-- The number of bytes of a proof. -/
def size (manifest : Manifest) : Nat := (manifest.rounds.map (·.size)).foldr (· + ·) 0

/-- The number of bytes of a proof, as a sum of 64-bit numbers. -/
def sizeWords (arithmetic : Arithmetic) (manifest : Manifest) : Except Crash Nat :=
  arithmetic.sum ((manifest.rounds.flatMap (·.sent)).map (·.size))

/-- The first round that draws a challenge. -/
def roundOf? (manifest : Manifest) (challenge : String) : Option ManifestRound :=
  manifest.rounds.find? fun round => round.challenges.contains challenge

end Manifest

end PlonkVerifier
