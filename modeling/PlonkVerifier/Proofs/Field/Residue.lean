import Mathlib
import PlonkVerifier.Field.Residue

/-!
# Proofs/Field/Residue — the residues modulo an odd prime are a field

`Residue n` is `Fin n`, which is a commutative ring; repeated squaring is its power (`pow_eq`), and by
Fermat's little theorem the power `n - 2` inverts (`mul_inverse`).  So the operations that run are those of a
field, `Residue.field`.

The field structure is a definition and not an instance: modules that run see only the operations of `Fin`.
-/

namespace PlonkVerifier

/-- An odd prime modulus. -/
class PrimeModulus (n : Nat) : Prop where
  prime : n.Prime
  two_lt : 2 < n

namespace Residue

open scoped Fin.CommRing

variable {n : Nat} [Modulus n]

/-! ## Powers, sums and products -/

/-- Square and multiply is the power, as long as the exponent fits the bits. -/
theorem powBits_eq : ∀ (bits : ℕ) (x : Residue n) (k : ℕ), k < 2 ^ bits → powBits bits x k = x ^ k
  | 0, x, k, h => by
      obtain rfl : k = 0 := by simpa using h
      simp [powBits]
  | bits + 1, x, k, h => by
      have hk : k / 2 < 2 ^ bits := by rw [pow_succ] at h; omega
      rw [powBits, powBits_eq bits (x * x) (k / 2) hk, ← sq, ← pow_mul]
      split
      · rw [← pow_succ']
        congr 1
        omega
      · congr 1
        omega

/-- **Repeated squaring is the power** — `k` has `k.log2 + 1` bits. -/
theorem pow_eq (x : Residue n) (k : ℕ) : pow x k = x ^ k :=
  powBits_eq _ x k Nat.lt_log2_self

theorem product_eq (xs : List (Residue n)) : product xs = xs.prod :=
  (List.prod_eq_foldl).symm

theorem sum_eq (xs : List (Residue n)) : sum xs = xs.sum :=
  (List.sum_eq_foldl).symm

theorem powers_eq (x : Residue n) (count : ℕ) :
    powers x count = (List.range count).map (x ^ ·) :=
  List.map_congr_left fun k _ => pow_eq x k

/-! ## Primality

Lucas's test runs on the residues themselves, so that a certificate is checked by `pow`. -/

/-- A residue whose power `n - 1` is one and whose powers `(n - 1) / q` are not, for the prime factors `q` of
`n - 1`. -/
structure LucasCertificate (a : Residue n) (factors : List ℕ) : Prop where
  prime : ∀ q ∈ factors, q.Prime
  prod : factors.prod = n - 1
  pow_eq_one : pow a (n - 1) = 1
  pow_div_ne_one : ∀ q ∈ factors, pow a ((n - 1) / q) ≠ 1

namespace LucasCertificate

variable {a : Residue n} {factors : List ℕ}

/-- The witness to the power `(n - 1) / q` is not one, for any prime `q` that divides `n - 1`. -/
theorem pow_ne_one (h : LucasCertificate a factors) {q : ℕ} (hq : q.Prime) (hdvd : q ∣ n - 1) :
    a ^ ((n - 1) / q) ≠ 1 := by
  obtain ⟨f, hf, hqf⟩ := (Prime.dvd_prod_iff hq.prime).mp (h.prod ▸ hdvd)
  obtain rfl := (Nat.prime_dvd_prime_iff_eq hq (h.prime f hf)).mp hqf
  rw [← pow_eq]
  exact h.pow_div_ne_one q hf

/-- **The certified residue generates the multiplicative group.** -/
theorem orderOf_eq (h : LucasCertificate a factors) : orderOf a = n - 1 := by
  have hpos : 0 < n - 1 := h.prod ▸ List.prod_pos fun q hq => (h.prime q hq).pos
  exact orderOf_eq_of_pow_and_pow_div_prime hpos ((pow_eq a _).symm.trans h.pow_eq_one) fun q => h.pow_ne_one

end LucasCertificate

/-- **Lucas's test**: a modulus with a certificate is prime. -/
theorem prime_of_lucas (a : Residue n) (factors : List ℕ) (h : LucasCertificate a factors) : n.Prime := by
  have hone : a ^ (n - 1) = 1 := (pow_eq a _).symm.trans h.pow_eq_one
  have hne : ∀ q : ℕ, q.Prime → q ∣ n - 1 → a ^ ((n - 1) / q) ≠ 1 := fun q => h.pow_ne_one
  obtain ⟨m, rfl⟩ := Nat.exists_eq_succ_of_ne_zero (NeZero.ne n)
  exact lucas_primality (m + 1) (a : ZMod (m + 1)) hone hne

/-! ## The field -/

variable [PrimeModulus n]

theorem one_ne_zero_of_prime : (1 : Residue n) ≠ 0 := by
  intro h
  have hlt := PrimeModulus.two_lt (n := n)
  have hval := congrArg Fin.val h
  rw [Fin.val_one', Nat.mod_eq_of_lt (by omega)] at hval
  simp at hval

/-- Fermat's little theorem. -/
theorem pow_pred {x : Residue n} (hx : x ≠ 0) : x ^ (n - 1) = 1 := by
  obtain ⟨m, rfl⟩ := Nat.exists_eq_succ_of_ne_zero (NeZero.ne n)
  have : Fact (m + 1).Prime := ⟨PrimeModulus.prime⟩
  exact ZMod.pow_card_sub_one_eq_one (p := m + 1) hx

/-- **`inverse` inverts** every residue but zero. -/
theorem mul_inverse {x : Residue n} (hx : x ≠ 0) : x * inverse x = 1 := by
  have hlt := PrimeModulus.two_lt (n := n)
  rw [inverse, pow_eq, ← pow_succ', show n - 2 + 1 = n - 1 by omega]
  exact pow_pred hx

/-- The inverse by Fermat sends zero to zero. -/
theorem inverse_zero : inverse (0 : Residue n) = 0 := by
  have hlt := PrimeModulus.two_lt (n := n)
  rw [inverse, pow_eq, zero_pow (by omega)]

variable (n) in
/-- The field of residues: the ring of `Fin n` with `inverse`. -/
@[reducible] def field : Field (Residue n) :=
  { Fin.instCommRing n with
    inv := inverse
    div := fun x y => x * inverse y
    div_eq_mul_inv := fun _ _ => rfl
    exists_pair_ne := ⟨1, 0, one_ne_zero_of_prime⟩
    mul_inv_cancel := fun _ hx => mul_inverse hx
    inv_zero := inverse_zero
    nnqsmul := _
    nnqsmul_def := fun _ _ => rfl
    qsmul := _
    qsmul_def := fun _ _ => rfl }

end Residue

end PlonkVerifier
