import Mathlib
import PlonkVerifier.Arithmetic
import PlonkVerifier.Proofs.Except

/-!
# Proofs/Arithmetic — sums of 64-bit numbers

A number that is reduced on the way is reduced at the end (`word_bind_add`), with checked arithmetic as with wrapping:
so a sum of sizes is the one that is taken without a bound, and then made a 64-bit number (`sum_eq`).
-/

namespace PlonkVerifier

namespace Arithmetic

variable {arithmetic : Arithmetic} {n m : ℕ}

/-- A number below `2 ^ 64` is its own word in either build. -/
theorem word_of_lt (h : n < UInt64.size) : arithmetic.word n = .ok n := if_pos h

/-- The checked build refuses a number at or above `2 ^ 64`. -/
theorem word_checked (h : UInt64.size ≤ n) : checked.word n = .error .overflow := if_neg h.not_gt

/-- The wrapping build keeps the residue modulo `2 ^ 64`, and never fails. -/
theorem word_wrapping (n : ℕ) : wrapping.word n = .ok (n % UInt64.size) := by
  rw [word]
  split
  · next h => rw [Nat.mod_eq_of_lt h]
  · rfl

/-- A 64-bit number that becomes of another is the same modulo `2 ^ 64`. -/
theorem word_eq_ok (h : arithmetic.word n = .ok m) : m = n % UInt64.size := by
  by_cases hlt : n < UInt64.size
  · rw [word_of_lt hlt] at h
    rw [Nat.mod_eq_of_lt hlt, Except.ok.inj h]
  · cases arithmetic with
    | checked =>
      rw [word_checked (not_lt.mp hlt)] at h
      cases h
    | wrapping =>
      rw [word_wrapping] at h
      exact (Except.ok.inj h).symm

/-- **Sums that are reduced on the way are reduced at the end.** -/
theorem word_bind_add (arithmetic : Arithmetic) (n m : ℕ) :
    (arithmetic.word n >>= fun a => arithmetic.add a m) = arithmetic.word (n + m) := by
  cases arithmetic with
  | checked =>
    by_cases h : n < UInt64.size
    · rw [word_of_lt h]
      rfl
    · rw [word_checked (not_lt.mp h), word_checked (by omega)]
      rfl
  | wrapping =>
    rw [word_wrapping, word_wrapping]
    change wrapping.word (n % UInt64.size + m) = _
    rw [word_wrapping, Nat.mod_add_mod]

/-- The rounds of a sum, begun at any number. -/
theorem word_bind_foldlM (arithmetic : Arithmetic) (sizes : List ℕ) (n : ℕ) :
    (arithmetic.word n >>= fun a => sizes.foldlM arithmetic.add a) = arithmetic.word (n + sizes.sum) := by
  induction sizes generalizing n with
  | nil =>
    simp only [List.foldlM_nil, List.sum_nil, Nat.add_zero]
    exact bind_pure _
  | cons size sizes ih =>
    simp only [List.foldlM_cons, List.sum_cons]
    rw [← bind_assoc, word_bind_add, ih, Nat.add_assoc]

/-- **A sum of 64-bit numbers is the sum, made a 64-bit number.** -/
theorem sum_eq (sizes : List ℕ) : arithmetic.sum sizes = arithmetic.word sizes.sum := by
  have h := arithmetic.word_bind_foldlM sizes 0
  rwa [Nat.zero_add] at h

end Arithmetic

end PlonkVerifier
