import Mathlib
import PlonkVerifier.Proofs.Cosets

/-!
# Proofs/LagrangeBasis — the two short formulas of the domain are Lagrange polynomials

A Lagrange polynomial of the domain is a product over all points but its own.  Two of them are read through short
formulas, quotients of `zⁿ - 1` by one factor, and the two forms agree wherever the quotient has a value, for every
number of points (`lagrange_short_forms`): `zⁿ - 1` is the product over all points (`nodal_eq`), and without the factor
of `ωⁱ` its value there is the derivative `n ω⁻ⁱ` (`nodalWeight_eq`).

The two forms differ at one point.  A Lagrange polynomial is one at its own point (`eval_lagrange_pow`), where numerator
and denominator of the quotient vanish and it is refused; at the other points of the domain only the numerator vanishes.
-/

namespace PlonkVerifier

open scoped ScalarField
open Finset (range)
open Polynomial

namespace Domain

variable {n i j : ℕ} {ω z : Scalar}

/-! ## The Lagrange basis on the powers of a primitive root -/

/-- The Lagrange polynomial of `ωⁱ` among the first `n` powers of `ω`. -/
noncomputable def lagrange (n : ℕ) (ω : Scalar) (i : ℕ) : Scalar[X] := Lagrange.basis (range n) (ω ^ ·) i

/-- The Lagrange polynomial as the product over the other points. -/
theorem eval_lagrange_eq_prod :
    (lagrange n ω i).eval z = ∏ j ∈ (range n).erase i, (z - ω ^ j) * (ω ^ i - ω ^ j)⁻¹ := by
  rw [lagrange, Lagrange.basis, eval_prod]
  refine Finset.prod_congr rfl fun j _ => ?_
  rw [Lagrange.basisDivisor, eval_mul, eval_C, eval_sub, eval_X, eval_C, mul_comm]

/-- **The nodal polynomial of the domain is `X ^ n - 1`.** -/
theorem nodal_eq (hn : 0 < n) (hω : IsPrimitiveRoot ω n) : Lagrange.nodal (range n) (ω ^ ·) = X ^ n - 1 := by
  have hroots := X_pow_sub_C_eq_prod hω hn (one_pow n)
  simp only [mul_one, C_1] at hroots
  rw [hroots, Lagrange.nodal]

/-- The weight of a domain point, from the derivative of `X ^ n - 1`. -/
theorem nodalWeight_eq (hω : IsPrimitiveRoot ω n) (hi : i < n) :
    Lagrange.nodalWeight (range n) (ω ^ ·) i = ω ^ i * (n : Scalar)⁻¹ := by
  have hn : 0 < n := i.zero_le.trans_lt hi
  -- the derivative of `Xⁿ - 1` is `n Xⁿ⁻¹`, and on a root of unity this power inverts
  have hinv : (ω ^ i) ^ (n - 1) = (ω ^ i)⁻¹ := by
    refine eq_inv_of_mul_eq_one_left ?_
    rw [← pow_succ, Nat.sub_add_cancel hn, pow_right_comm, hω.pow_eq_one, one_pow]
  rw [Lagrange.nodalWeight_eq_eval_derivative_nodal (Finset.mem_range.mpr hi), nodal_eq hn hω]
  simp only [derivative_sub, derivative_X_pow, derivative_one, sub_zero, eval_mul, eval_pow, eval_X, map_natCast,
    eval_natCast, hinv, mul_inv, inv_inv]
  exact mul_comm _ _

/-- **Away from its own point, a Lagrange polynomial has its short form** — also at the other points of the domain,
where both are zero. -/
theorem eval_lagrange_of_ne (hω : IsPrimitiveRoot ω n) (hi : i < n) (hz : z ≠ ω ^ i) :
    (lagrange n ω i).eval z = ω ^ i * (z ^ n - 1) * ((n : Scalar) * (z - ω ^ i))⁻¹ := by
  rw [lagrange, Lagrange.eval_basis_not_at_node (Finset.mem_range.mpr hi) hz,
    nodal_eq (i.zero_le.trans_lt hi) hω, nodalWeight_eq hω hi, eval_sub, eval_pow, eval_X, eval_one, mul_inv]
  ring

/-- **On the domain, it is one at its own point and zero elsewhere.** -/
theorem eval_lagrange_pow (hω : IsPrimitiveRoot ω n) (hi : i < n) (hj : j < n) :
    (lagrange n ω i).eval (ω ^ j) = if j = i then 1 else 0 := by
  have hinj : Set.InjOn (ω ^ ·) (range n : Set ℕ) := hω.injOn_pow
  split
  · next heq =>
    subst heq
    exact Lagrange.eval_basis_self hinj (Finset.mem_range.mpr hi)
  · next hne => exact Lagrange.eval_basis_of_ne (Ne.symm hne) (Finset.mem_range.mpr hj)

/-! ## The short formulas -/

/-- The number of points is invertible: it divides the order of the multiplicative group. -/
theorem natCast_ne_zero (hω : IsPrimitiveRoot ω n) (hn : 0 < n) : (n : Scalar) ≠ 0 := by
  have : NeZero n := ⟨hn.ne'⟩
  exact hω.neZero'.ne

/-- **The vanishing polynomial over the factor of `ωⁱ`, up to the weight of `ωⁱ`, is its Lagrange polynomial** — with
no value at `ωⁱ`, and only there. -/
theorem vanishing_mul_invert (hω : IsPrimitiveRoot ω n) (hi : i < n) {d : Scalar}
    (hd : d = (n : Scalar) * ((z - ω ^ i) * (ω ^ i)⁻¹)) :
    (do return vanishing z n * (← invert d))
      = if z = ω ^ i then .error .divisionByZero else .ok ((lagrange n ω i).eval z) := by
  have hpos : 0 < n := i.zero_le.trans_lt hi
  have hn := natCast_ne_zero hω hpos
  have hpow : ω ^ i ≠ 0 := pow_ne_zero i (hω.ne_zero hpos.ne')
  have hzero : d = 0 ↔ z = ω ^ i := by simp [hd, hn, hpow, sub_eq_zero]
  by_cases hz : z = ω ^ i
  · rw [invert, if_pos (hzero.mpr hz), if_pos hz]
    rfl
  · rw [bind_of_eq_ok (invert_eq_ok.mpr ⟨mt hzero.mp hz, rfl⟩), if_neg hz, vanishing_eq,
      eval_lagrange_of_ne hω hi hz, hd, mul_inv, mul_inv, inv_inv, mul_inv]
    exact congrArg Except.ok (by ring)

/-- The first short form fails at one only, and is the Lagrange polynomial elsewhere. -/
theorem firstLagrange_eq (hω : IsPrimitiveRoot ω n) (hn : 0 < n) :
    firstLagrange z n = if z = 1 then .error .divisionByZero else .ok ((lagrange n ω 0).eval z) := by
  have hd : Scalar.ofNat n * (z - 1) = (n : Scalar) * ((z - ω ^ 0) * (ω ^ 0)⁻¹) := by
    rw [Scalar.ofNat_eq, pow_zero, inv_one, mul_one]
  rw [firstLagrange, vanishing_mul_invert hω hn hd, pow_zero]

/-- The second short form fails at `ω ^ (n - 2)` only. -/
theorem penultimateLagrange_eq (hω : IsPrimitiveRoot ω n) (hn : 2 ≤ n) :
    penultimateLagrange z n ω
      = if z = ω ^ (n - 2) then .error .divisionByZero else .ok ((lagrange n ω (n - 2)).eval z) := by
  have hd : Scalar.ofNat n * (z * (ω * ω) - 1) = (n : Scalar) * ((z - ω ^ (n - 2)) * (ω ^ (n - 2))⁻¹) := by
    rw [Scalar.ofNat_eq, mul_root_sub_one hω.pow_eq_one hn]
  rw [penultimateLagrange, vanishing_mul_invert hω (by omega) hd]

/-- At the other domain points the first short form is zero. -/
theorem firstLagrange_pow (hω : IsPrimitiveRoot ω n) (hj : j < n) (hne : j ≠ 0) :
    firstLagrange (ω ^ j) n = .ok 0 := by
  have hpos : 0 < n := j.zero_le.trans_lt hj
  rw [firstLagrange_eq hω hpos, if_neg (hω.pow_ne_one_of_pos_of_lt hne hj), eval_lagrange_pow hω hpos hj, if_neg hne]

theorem penultimateLagrange_pow (hω : IsPrimitiveRoot ω n) (hn : 2 ≤ n) (hj : j < n) (hne : j ≠ n - 2) :
    penultimateLagrange (ω ^ j) n ω = .ok 0 := by
  have hi : n - 2 < n := by omega
  rw [penultimateLagrange_eq hω hn, if_neg (mt (hω.pow_inj hj hi) hne), eval_lagrange_pow hω hi hj, if_neg hne]

/-- **The short formulas are the Lagrange polynomials of the first point and of the last point but one**, as products
over the other points.  Each is refused at its own point, has a value everywhere else, and is zero at the other points
of the domain. -/
theorem lagrange_short_forms (hn : 2 ≤ n) (hω : IsPrimitiveRoot ω n) (z : Scalar) :
    firstLagrange z n = (if z = 1 then .error .divisionByZero
      else .ok (∏ j ∈ (range n).erase 0, (z - ω ^ j) * (1 - ω ^ j)⁻¹))
    ∧ penultimateLagrange z n ω = (if z = ω ^ (n - 2) then .error .divisionByZero
      else .ok (∏ j ∈ (range n).erase (n - 2), (z - ω ^ j) * (ω ^ (n - 2) - ω ^ j)⁻¹))
    ∧ ∀ j < n, (j ≠ 0 → firstLagrange (ω ^ j) n = .ok 0)
      ∧ (j ≠ n - 2 → penultimateLagrange (ω ^ j) n ω = .ok 0) := by
  refine ⟨?_, ?_, fun j hj => ⟨firstLagrange_pow hω hj, penultimateLagrange_pow hω hn hj⟩⟩
  · rw [firstLagrange_eq hω (by omega), eval_lagrange_eq_prod, pow_zero]
  · rw [penultimateLagrange_eq hω hn, eval_lagrange_eq_prod]

/-- Eight rows, at a point off the domain and at two points of it. -/
theorem lagrange_short_forms_eight :
    ∃ ω, Scalar.rootOfUnity 8 = .ok ω ∧ IsPrimitiveRoot ω 8
      ∧ firstLagrange 7 8 = .ok (∏ j ∈ (range 8).erase 0, (7 - ω ^ j) * (1 - ω ^ j)⁻¹)
      ∧ penultimateLagrange 7 8 ω = .ok (∏ j ∈ (range 8).erase 6, (7 - ω ^ j) * (ω ^ 6 - ω ^ j)⁻¹)
      ∧ penultimateLagrange (ω ^ 6) 8 ω = .error .divisionByZero
      ∧ penultimateLagrange (ω ^ 2) 8 ω = .ok 0 := by
  obtain ⟨ω, hroot⟩ : ∃ ω, Scalar.rootOfUnity 8 = .ok ω :=
    ⟨_, Scalar.rootOfUnity_eq_ok.mpr ⟨by decide, by decide, rfl⟩⟩
  have hω := Scalar.isPrimitiveRoot_of_rootOfUnity hroot
  have hoff : (7 : Scalar) ≠ ω ^ 6 := by
    intro h
    have hpow : (7 : Scalar) ^ 8 = 1 := by rw [h, pow_right_comm, hω.pow_eq_one, one_pow]
    rw [← Residue.pow_eq] at hpow
    exact absurd hpow (by decide +kernel)
  obtain ⟨hfirst, hpenultimate, hdomain⟩ := lagrange_short_forms (by decide) hω 7
  obtain ⟨-, hown, -⟩ := lagrange_short_forms (by decide) hω (ω ^ 6)
  exact ⟨ω, hroot, hω, hfirst.trans (if_neg (by decide)), hpenultimate.trans (if_neg hoff), hown.trans (if_pos rfl),
    (hdomain 2 (by decide)).2 (by decide)⟩

end Domain

end PlonkVerifier
