import Mathlib
import PlonkVerifier.Bytes

/-!
# Bytes/Lemmas — which numbers fit into bytes

`count` bytes hold exactly the numbers below `256 ^ count`: reading stays below that bound
(`toNat_lt`), writing keeps a number modulo it (`toNat_ofNat`), and what was read is written back (`ofNat_toNat`).
-/

namespace PlonkVerifier

namespace Bytes

/-- **Writing keeps the number modulo `256 ^ count`.** -/
theorem toNat_ofNat : ∀ count n : Nat, toNat (ofNat count n) = n % 256 ^ count
  | 0, n => by simp [ofNat, toNat, Nat.mod_one]
  | count + 1, n => by
      rw [ofNat, toNat, toNat_ofNat count, UInt8.toNat_ofNat',
        show 256 ^ (count + 1) = 256 * 256 ^ count from Nat.pow_succ', Nat.mod_mul]

theorem toNat_ofNat_of_lt {count n : Nat} (h : n < 256 ^ count) : toNat (ofNat count n) = n := by
  rw [toNat_ofNat, Nat.mod_eq_of_lt h]

theorem toNat_lt : ∀ bytes : Bytes, toNat bytes < 256 ^ bytes.length
  | [] => by simp [toNat]
  | b :: rest => by
      have hb : b.toNat < 256 := b.toNat_lt
      have hr := toNat_lt rest
      rw [toNat, List.length_cons, Nat.pow_succ']
      omega

/-- **Writing gives back what was read.** -/
theorem ofNat_toNat : ∀ bytes : Bytes, ofNat bytes.length (toNat bytes) = bytes
  | [] => rfl
  | b :: rest => by
      have hb : b.toNat < 256 := b.toNat_lt
      have hlow : UInt8.ofNat (b.toNat + 256 * toNat rest) = b := by
        rw [← UInt8.toNat_inj, UInt8.toNat_ofNat']
        omega
      have hhigh : (b.toNat + 256 * toNat rest) / 256 = toNat rest := by omega
      rw [toNat, List.length_cons, ofNat, hlow, hhigh, ofNat_toNat rest]

end Bytes

end PlonkVerifier
