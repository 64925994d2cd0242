import Mathlib
import PlonkVerifier.Domain
import PlonkVerifier.Proofs.Field.Residue

/-!
# Proofs/Field/Scalar — the scalars are a field

The group order is prime (`prime_scalarModulus`): the certificate is a chain of factorisations of `p - 1`, each
closed by Lucas's test, and its last link says that `5` has full order.  Modules about scalars open `ScalarField`, which makes the field structure of
`Residue.field` an instance; there `Residue.inverse` is `⁻¹` and the operations of `Domain` are the usual ones.
-/

namespace PlonkVerifier

/-! ## The group order is prime -/

namespace ScalarField

private theorem prime_237073 : Nat.Prime 237073 := by norm_num

theorem prime_405928799 : Nat.Prime 405928799 :=
  Residue.prime_of_lucas 22 [2, 11, 3691, 4999]
    ⟨by norm_num, by norm_num, by decide +kernel, by decide +kernel⟩

private theorem prime_12048837557 : Nat.Prime 12048837557 :=
  Residue.prime_of_lucas 2 [2, 2, 7, 7, 661, 93001]
    ⟨by norm_num, by norm_num, by decide +kernel, by decide +kernel⟩

private theorem prime_5156902474397 : Nat.Prime 5156902474397 :=
  Residue.prime_of_lucas 2 [2, 2, 107, 12048837557]
    ⟨by simpa using ⟨Nat.prime_two, by norm_num, prime_12048837557⟩, by norm_num, by decide +kernel,
      by decide +kernel⟩

private theorem prime_1670836401704629 : Nat.Prime 1670836401704629 :=
  Residue.prime_of_lucas 2 [2, 2, 3, 3, 3, 3, 5156902474397]
    ⟨by simpa using ⟨Nat.prime_two, Nat.prime_three, prime_5156902474397⟩, by norm_num, by decide +kernel,
      by decide +kernel⟩

private theorem prime_639533339 : Nat.Prime 639533339 :=
  Residue.prime_of_lucas 2 [2, 229, 853, 1637]
    ⟨by norm_num, by norm_num, by decide +kernel, by decide +kernel⟩

private theorem prime_65865678001877903 : Nat.Prime 65865678001877903 :=
  Residue.prime_of_lucas 5 [2, 83, 379, 1637, 639533339]
    ⟨by simpa using ⟨Nat.prime_two, by norm_num, by norm_num, by norm_num, prime_639533339⟩, by norm_num,
      by decide +kernel, by decide +kernel⟩

private theorem prime_13818364434197438864469338081 :
    Nat.Prime 13818364434197438864469338081 :=
  Residue.prime_of_lucas 3 [2, 2, 2, 2, 2, 5, 823, 1593227, 65865678001877903]
    ⟨by simpa using ⟨Nat.prime_two, Nat.prime_five, by norm_num, by norm_num, prime_65865678001877903⟩,
      by norm_num, by decide +kernel, by decide +kernel⟩

/-- **`5` generates the nonzero scalars**, by the factors of their number. -/
theorem lucasCertificate_generator :
    Residue.LucasCertificate Scalar.generator
      (List.replicate Scalar.twoAdicity 2 ++ [3, 3, 13, 29, 983, 11003, 237073, 405928799,
        1670836401704629, 13818364434197438864469338081]) where
  prime := by
    simp only [List.mem_append, List.mem_replicate, List.mem_cons, List.not_mem_nil, or_false]
    rintro q (⟨-, rfl⟩ | rfl | rfl | rfl | rfl | rfl | rfl | rfl | rfl | rfl | rfl)
    · exact Nat.prime_two
    · exact Nat.prime_three
    · exact Nat.prime_three
    · norm_num
    · norm_num
    · norm_num
    · norm_num
    · exact prime_237073
    · exact prime_405928799
    · exact prime_1670836401704629
    · exact prime_13818364434197438864469338081
  prod := by norm_num [Scalar.twoAdicity]
  pow_eq_one := by decide +kernel
  pow_div_ne_one := by decide +kernel

end ScalarField

/-- **The order of the curve group is prime** — `5` generates the nonzero residues. -/
theorem prime_scalarModulus : scalarModulus.Prime :=
  Residue.prime_of_lucas _ _ ScalarField.lucasCertificate_generator

instance : PrimeModulus scalarModulus := ⟨prime_scalarModulus, by decide⟩

/-! ## The field of scalars -/

namespace ScalarField

scoped instance field : Field Scalar := Residue.field scalarModulus

end ScalarField

open scoped ScalarField

theorem Residue.inverse_eq (x : Scalar) : Residue.inverse x = x⁻¹ := rfl

namespace Scalar

theorem ofNat_eq (n : ℕ) : ofNat n = (n : Scalar) := rfl

/-- The bit test holds exactly of the powers of two. -/
theorem isPowerOfTwo_iff {n : ℕ} : isPowerOfTwo n = true ↔ n = 2 ^ n.log2 := by
  rw [isPowerOfTwo, beq_iff_eq, Nat.one_shiftLeft]

/-- **The generator has full order.** -/
theorem isPrimitiveRoot_generator : IsPrimitiveRoot generator (scalarModulus - 1) :=
  IsPrimitiveRoot.iff_orderOf.mpr ScalarField.lucasCertificate_generator.orderOf_eq

end Scalar

/-! ## The domain -/

namespace Domain

theorem vanishing_eq (z : Scalar) (n : ℕ) : vanishing z n = z ^ n - 1 := by
  rw [vanishing, Residue.pow_eq]

/-- **Denominators are inverted exactly when they are not zero.** -/
theorem invert_eq_ok {x y : Scalar} : invert x = .ok y ↔ x ≠ 0 ∧ x⁻¹ = y := by
  rw [invert]
  split
  · next h => simp [h]
  · next h => simp [h, Residue.inverse_eq]

/-- The denominator for the last point but one is the factor of that point, divided by the point. -/
theorem mul_root_sub_one {z ω : Scalar} {n : ℕ} (hω : ω ^ n = 1) (hn : 2 ≤ n) :
    z * (ω * ω) - 1 = (z - ω ^ (n - 2)) * (ω ^ (n - 2))⁻¹ := by
  have hinv : ω ^ (n - 2) * (ω * ω) = 1 := by
    rw [← sq, ← pow_add, Nat.sub_add_cancel hn, hω]
  rw [inv_eq_of_mul_eq_one_right hinv, sub_mul, hinv]

theorem publicInputProduct_eq_prod (inputs : List Scalar) (beta gamma root coset : Scalar) :
    publicInputProduct inputs beta gamma root coset
      = (inputs.mapIdx fun i x => x + beta * (coset * root ^ i) + gamma).prod := by
  rw [publicInputProduct, Residue.product_eq, Residue.powers_eq]
  refine congrArg _ (List.ext_getElem (by simp) fun i _ _ => ?_)
  simp only [List.getElem_zipWith, List.getElem_map, List.getElem_range, List.getElem_mapIdx]
  ring

end Domain

end PlonkVerifier
