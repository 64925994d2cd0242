import Mathlib
import PlonkVerifier.Curve.Compressed
import PlonkVerifier.Proofs.Field.Scalar

/-!
# Proofs/Field/Coordinate — the coordinates are a field, with square roots

The characteristic of the coordinates is prime (`prime_coordinateModulus`, by the same certificates as the group
order) and three modulo four, so that `Coordinate.sqrt` is a root of every square (`sqrt_mul_self`), and up to its
sign the only one.  Of a nonzero coordinate and its negative one is the larger (`isLarger_neg`); no point of the
curve has the ordinate zero (`cubic_ne_zero`).  So a point is its abscissa and one bit.
-/

namespace PlonkVerifier

/-! ## The characteristic is prime -/

namespace CoordinateField

private theorem prime_11465965001 : Nat.Prime 11465965001 :=
  Residue.prime_of_lucas 3 [2, 2, 2, 5, 5, 5, 5, 7, 327599]
    ⟨by norm_num, by norm_num, by decide +kernel, by decide +kernel⟩

private theorem prime_173171039 : Nat.Prime 173171039 :=
  Residue.prime_of_lucas 13 [2, 73, 89, 13327]
    ⟨by norm_num, by norm_num, by decide +kernel, by decide +kernel⟩

private theorem prime_1263766531 : Nat.Prime 1263766531 :=
  Residue.prime_of_lucas 10 [2, 3, 5, 13, 911, 3557]
    ⟨by norm_num, by norm_num, by decide +kernel, by decide +kernel⟩

private theorem prime_35385462869 : Nat.Prime 35385462869 :=
  Residue.prime_of_lucas 2 [2, 2, 7, 1263766531]
    ⟨by simpa using ⟨Nat.prime_two, by norm_num, prime_1263766531⟩, by norm_num, by decide +kernel,
      by decide +kernel⟩

private theorem prime_2480874801745591 : Nat.Prime 2480874801745591 :=
  Residue.prime_of_lucas 6 [2, 3, 3, 5, 19, 41, 35385462869]
    ⟨by simpa using ⟨Nat.prime_two, Nat.prime_three, Nat.prime_five, by norm_num, by norm_num, prime_35385462869⟩,
      by norm_num, by decide +kernel, by decide +kernel⟩

private theorem prime_13427688667394608761327070753331941386769 :
    Nat.Prime 13427688667394608761327070753331941386769 :=
  Residue.prime_of_lucas 17 [2, 2, 2, 2, 3, 7, 11, 1853641, 4562087, 173171039, 2480874801745591]
    ⟨by simpa using ⟨Nat.prime_two, Nat.prime_three, by norm_num, by norm_num, by norm_num, by norm_num,
        prime_173171039, prime_2480874801745591⟩,
      by norm_num, by decide +kernel, by decide +kernel⟩

private theorem lucasCertificate_three :
    Residue.LucasCertificate (3 : Coordinate) [2, 3, 3, 13, 29, 67, 229, 311, 983, 11003, 405928799, 11465965001,
      13427688667394608761327070753331941386769] where
  prime := by
    simp only [List.mem_cons, List.not_mem_nil, or_false]
    rintro q (rfl | rfl | rfl | rfl | rfl | rfl | rfl | rfl | rfl | rfl | rfl | rfl | rfl)
    · exact Nat.prime_two
    · exact Nat.prime_three
    · exact Nat.prime_three
    · norm_num
    · norm_num
    · norm_num
    · norm_num
    · norm_num
    · norm_num
    · norm_num
    · exact ScalarField.prime_405928799
    · exact prime_11465965001
    · exact prime_13427688667394608761327070753331941386769
  prod := by norm_num
  pow_eq_one := by decide +kernel
  pow_div_ne_one := by decide +kernel

end CoordinateField

/-- **The characteristic of the coordinates is prime** — `3` generates the nonzero residues. -/
theorem prime_coordinateModulus : coordinateModulus.Prime :=
  Residue.prime_of_lucas _ _ CoordinateField.lucasCertificate_three

instance : PrimeModulus coordinateModulus := ⟨prime_coordinateModulus, by decide⟩

namespace CoordinateField

scoped instance field : Field Coordinate := Residue.field coordinateModulus

end CoordinateField

open scoped CoordinateField

/-! ## Square roots -/

namespace Coordinate

/-- **A square has its candidate root.** -/
theorem sqrt_mul_self (y : Coordinate) : sqrt (y * y) * sqrt (y * y) = y * y := by
  by_cases hy : y = 0
  · subst hy
    decide +kernel
  · have hexponent : 2 * ((coordinateModulus + 1) / 4 + (coordinateModulus + 1) / 4)
        = coordinateModulus - 1 + 2 := by decide
    rw [sqrt, Residue.pow_eq, ← pow_add, ← sq, ← pow_mul, hexponent, pow_add, Residue.pow_pred hy, one_mul]

/-- The root of a square is one of its two roots. -/
theorem sqrt_eq_or_eq_neg (y : Coordinate) : sqrt (y * y) = y ∨ sqrt (y * y) = -y :=
  mul_self_eq_mul_self_iff.mp (sqrt_mul_self y)

/-- **Of a nonzero coordinate and its negative one is the larger.** -/
theorem isLarger_neg {y : Coordinate} (hy : y ≠ 0) : isLarger (-y) = !isLarger y := by
  have hne : -y ≠ y := by
    intro h
    have htwo : (2 : Coordinate) * y = 0 := by linear_combination -h
    rcases mul_eq_zero.mp htwo with h2 | h0
    · exact absurd h2 (by decide)
    · exact hy h0
  rw [isLarger, isLarger, neg_neg, ← decide_not, decide_eq_decide, not_lt]
  exact ⟨le_of_lt, fun h => lt_of_le_of_ne h hne.symm⟩

end Coordinate

/-! ## The curve -/

namespace Point

/-- **The cubic has no root**: `-3` is no third power. -/
theorem cubic_ne_zero (x : Coordinate) : cubic x ≠ 0 := by
  intro h
  have hcube : x ^ 3 = -3 := by
    rw [cubic] at h
    linear_combination h
  have hx : x ≠ 0 := by
    rintro rfl
    exact absurd hcube (by decide +kernel)
  have hpow : (-3 : Coordinate) ^ ((coordinateModulus - 1) / 3) = 1 := by
    rw [← hcube, ← pow_mul, show 3 * ((coordinateModulus - 1) / 3) = coordinateModulus - 1 by decide]
    exact Residue.pow_pred hx
  have hne : Residue.pow (-3 : Coordinate) ((coordinateModulus - 1) / 3) ≠ 1 := by decide +kernel
  exact hne ((Residue.pow_eq _ _).trans hpow)

/-- A point of the curve has a nonzero ordinate. -/
theorem OnCurve.ordinate_ne_zero {x y : Coordinate} (h : (affine x y).OnCurve) : y ≠ 0 := by
  rintro rfl
  exact cubic_ne_zero x (h.symm.trans (mul_zero 0))

end Point

end PlonkVerifier
