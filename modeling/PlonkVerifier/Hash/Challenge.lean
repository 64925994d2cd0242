import PlonkVerifier.Hash.Blake2s
import PlonkVerifier.Hash.Keccak

/-!
# Hash/Challenge — the hash that derives challenges

A proof system instance fixes one of two hashes.  Both have 32-byte digests.
-/

namespace PlonkVerifier

/-- The hash used to derive challenges. -/
inductive ChallengeHash where
  /-- Keccak-256. -/
  | keccak256
  /-- BLAKE2s, whose input a circuit pre-compresses with a Pedersen hash; the pre-compression plays no
  part outside the circuit. -/
  | pedersenBlake2s
  deriving DecidableEq, Repr

namespace ChallengeHash

/-- Every hash. -/
def all : List ChallengeHash := [keccak256, pedersenBlake2s]

/-- The name of a hash. -/
def name : ChallengeHash → String
  | keccak256 => "Keccak256"
  | pedersenBlake2s => "PedersenBlake2s"

/-- The digest of `data`. -/
def digest : ChallengeHash → Bytes → Bytes
  | keccak256 => Keccak.digest
  | pedersenBlake2s => Blake2s.digest

/-- The length of a digest. -/
def digestSize : ChallengeHash → Nat := fun _ => 32

end ChallengeHash

end PlonkVerifier
