/-!
# Bytes — little-endian numbers

Every number of the protocol is written least significant byte first.  `ofNat count n` and `toNat`
are inverse on the numbers that fit into `count` bytes (`Bytes/Lemmas`).
-/

namespace PlonkVerifier

/-- A byte string. -/
abbrev Bytes := List UInt8

namespace Bytes

/-- The number written by `bytes`, least significant byte first. -/
def toNat : Bytes → Nat
  | [] => 0
  | b :: rest => b.toNat + 256 * toNat rest

/-- The low `count` bytes of `n`, least significant first. -/
def ofNat : (count n : Nat) → Bytes
  | 0, _ => []
  | count + 1, n => UInt8.ofNat n :: ofNat count (n / 256)

@[simp] theorem length_ofNat : ∀ count n : Nat, (ofNat count n).length = count
  | 0, _ => rfl
  | count + 1, n => by simp [ofNat, length_ofNat count]

end Bytes

end PlonkVerifier
