import Mathlib
import PlonkVerifier.Proofs.Composition

/-!
# Proofs/Cosets — the domain of a key and its cosets

The wires of a gate and the public inputs live on cosets of the evaluation domain, so a key needs a primitive root and
generators of different cosets.  A primitive `n`-th root generates all `n`-th roots of unity, so two generators share
their coset exactly if their `n`-th powers agree (`coset_ne_iff`).

The constructor of keys provides both (`create_distinctCosets`): the multiplicative generator has full order, and its
powers up to the number of wires stay far below the index of the domain.  Validation provides neither; what it leaves
open is `wellFormed_iff_of_validate`.
-/

namespace PlonkVerifier

open scoped ScalarField

variable {G : Type} {key : VerificationKey G}

/-! ## Cosets of the roots of unity -/

/-- **Two cosets of the `n`-th roots of unity are different exactly if the `n`-th powers of their generators are.** -/
theorem coset_ne_iff {n : ℕ} (hn : 0 < n) {ω k k' : Scalar} (hω : IsPrimitiveRoot ω n) :
    (∀ a b : ℕ, k * ω ^ a ≠ k' * ω ^ b) ↔ k ^ n ≠ k' ^ n := by
  have : NeZero n := ⟨hn.ne'⟩
  have hone : ∀ a : ℕ, (ω ^ a) ^ n = 1 := fun a => by rw [pow_right_comm, hω.pow_eq_one, one_pow]
  constructor
  · intro hne hpow
    by_cases hk' : k' = 0
    · obtain rfl : k = 0 := by
        rw [hk', zero_pow hn.ne'] at hpow
        exact eq_zero_of_pow_eq_zero hpow
      exact hne 0 0 (by rw [hk'])
    · -- the quotient of the generators is a root of unity, hence a power of `ω`
      have hquotient : (k * k'⁻¹) ^ n = 1 := by
        rw [mul_pow, hpow, ← mul_pow, mul_inv_cancel₀ hk', one_pow]
      obtain ⟨b, -, hb⟩ := hω.eq_pow_of_pow_eq_one hquotient
      refine hne 0 b ?_
      rw [pow_zero, mul_one, hb, mul_left_comm, mul_inv_cancel₀ hk', mul_one]
  · intro hne a b heq
    apply hne
    calc k ^ n = (k * ω ^ a) ^ n := by rw [mul_pow, hone, mul_one]
      _ = (k' * ω ^ b) ^ n := by rw [heq]
      _ = k' ^ n := by rw [mul_pow, hone, mul_one]

namespace Scalar

/-! ## Roots of unity of the scalar field -/

/-- **A power of two up to `2 ^ 28` divides the order of the multiplicative group.** -/
theorem dvd_of_log2_le {n : ℕ} (hn : isPowerOfTwo n = true) (hlog : n.log2 ≤ twoAdicity) : n ∣ scalarModulus - 1 := by
  rw [isPowerOfTwo_iff.mp hn]
  exact (pow_dvd_pow 2 hlog).trans (by decide)

theorem le_of_log2_le {n : ℕ} (hn : isPowerOfTwo n = true) (hlog : n.log2 ≤ twoAdicity) : n ≤ 2 ^ twoAdicity := by
  rw [isPowerOfTwo_iff.mp hn]
  exact Nat.pow_le_pow_right two_pos hlog

/-- A root exists exactly for powers of two the field admits, and is a power of the generator. -/
theorem rootOfUnity_eq_ok {n : ℕ} {ω : Scalar} :
    rootOfUnity n = .ok ω ↔
      isPowerOfTwo n = true ∧ n.log2 ≤ twoAdicity ∧ generator ^ ((scalarModulus - 1) / n) = ω := by
  rw [rootOfUnity, Residue.pow_eq]
  split <;> simp_all

/-- **The chosen roots are primitive.** -/
theorem isPrimitiveRoot_of_rootOfUnity {n : ℕ} {ω : Scalar} (h : rootOfUnity n = .ok ω) : IsPrimitiveRoot ω n := by
  obtain ⟨hn, hlog, rfl⟩ := rootOfUnity_eq_ok.mp h
  exact isPrimitiveRoot_generator.pow (by decide) (Nat.div_mul_cancel (dvd_of_log2_le hn hlog)).symm

/-- The domain has an index beyond any number of wires. -/
theorem two_pow_lt_index {n : ℕ} (hn : isPowerOfTwo n = true) (hlog : n.log2 ≤ twoAdicity) :
    2 ^ 64 < (scalarModulus - 1) / n := by
  have hpos : 0 < n := Nat.pos_of_dvd_of_pos (dvd_of_log2_le hn hlog) (by decide)
  calc 2 ^ 64 < (scalarModulus - 1) / 2 ^ twoAdicity := by decide
    _ ≤ (scalarModulus - 1) / n := Nat.div_le_div_left (le_of_log2_le hn hlog) hpos

theorem invert_eq_ok {x y : Scalar} : invert x = .ok y ↔ x ≠ 0 ∧ x⁻¹ = y := by
  rw [invert]
  split <;> simp_all [Residue.inverse_eq]

end Scalar

namespace VerificationKey

/-! ## Created keys -/

/-- The generators lie in pairwise different cosets of the group that the root generates. -/
def DistinctCosets (key : VerificationKey G) : Prop :=
  key.cosetGenerators.Pairwise fun k k' => ∀ a b : ℕ, k * key.root ^ a ≠ k' * key.root ^ b

/-- **Cosets of a cyclic group differ exactly when the powers `k ^ n` of their generators do.** -/
theorem distinctCosets_iff (hpos : 0 < key.circuitSize) (hroot : IsPrimitiveRoot key.root key.circuitSize) :
    key.DistinctCosets ↔ (key.cosetGenerators.map (· ^ key.circuitSize)).Nodup := by
  rw [DistinctCosets, List.Nodup, List.pairwise_map]
  exact List.Pairwise.iff fun _ _ => coset_ne_iff hpos hroot

/-- What the constructor establishes. -/
structure Standard (key : VerificationKey G) : Prop where
  isPowerOfTwo : Scalar.isPowerOfTwo key.circuitSize = true
  log2_le : key.circuitSize.log2 ≤ Scalar.twoAdicity
  root : IsPrimitiveRoot key.root key.circuitSize
  root_mul_rootInverse : key.root * key.rootInverse = 1
  cosetGenerators_eq : key.cosetGenerators = (List.range (key.programWidth + 1)).map (Scalar.generator ^ ·)

variable {circuitSize publicInputs programWidth : ℕ} {commitments : LabelMap G}

/-- A created key is standard: its root and generators come from the field's generator. -/
theorem standard_of_create (h : create circuitSize publicInputs programWidth commitments = .ok key) :
    key.Standard ∧ key.circuitSize = circuitSize ∧ key.programWidth = programWidth := by
  simp only [create, bind_eq_ok, pure_eq_ok] at h
  obtain ⟨root, hroot, rootInverse, hinverse, rfl⟩ := h
  rw [liftAlgebra_eq_ok] at hroot hinverse
  obtain ⟨hsize, hlog, -⟩ := Scalar.rootOfUnity_eq_ok.mp hroot
  obtain ⟨hne, rfl⟩ := Scalar.invert_eq_ok.mp hinverse
  exact ⟨⟨hsize, hlog, Scalar.isPrimitiveRoot_of_rootOfUnity hroot, mul_inv_cancel₀ hne, Residue.powers_eq _ _⟩,
    rfl, rfl⟩

namespace Standard

/-- The domain is a subgroup of the units, so its size divides their number. -/
theorem circuitSize_dvd (h : key.Standard) : key.circuitSize ∣ scalarModulus - 1 :=
  Scalar.dvd_of_log2_le h.isPowerOfTwo h.log2_le

theorem circuitSize_pos (h : key.Standard) : 0 < key.circuitSize :=
  Nat.pos_of_dvd_of_pos h.circuitSize_dvd (by decide)

/-- One generator for every wire and one for the public inputs. -/
theorem length_cosetGenerators (h : key.Standard) : key.cosetGenerators.length = key.programWidth + 1 := by
  rw [h.cosetGenerators_eq, List.length_map, List.length_range]

/-- **Small powers of the multiplicative generator lie in different cosets** — the `n`-th powers of the group are the
powers of an element whose order is the index of the domain. -/
theorem distinctCosets (h : key.Standard) (hwidth : key.programWidth + 1 < 2 ^ 64) : key.DistinctCosets := by
  have hindex := Scalar.two_pow_lt_index h.isPowerOfTwo h.log2_le
  have hgenerator : IsPrimitiveRoot (Scalar.generator ^ key.circuitSize) ((scalarModulus - 1) / key.circuitSize) :=
    Scalar.isPrimitiveRoot_generator.pow_of_dvd h.circuitSize_pos.ne' h.circuitSize_dvd
  rw [distinctCosets_iff h.circuitSize_pos h.root, h.cosetGenerators_eq, List.map_map]
  refine List.nodup_range.map_on fun i hi j hj heq => ?_
  rw [List.mem_range] at hi hj
  simp only [Function.comp_apply, pow_right_comm _ _ key.circuitSize] at heq
  exact hgenerator.pow_inj (by omega) (by omega) heq

/-- A created key can only fail validation for being too small. -/
theorem validate_iff (h : key.Standard) : key.validate = .ok () ↔ 4 ≤ key.circuitSize :=
  validate_eq_ok.trans ⟨Consistent.four_le, fun hfour =>
    ⟨h.isPowerOfTwo, hfour, h.root.pow_eq_one, h.root_mul_rootInverse, h.length_cosetGenerators⟩⟩

end Standard

/-- **A created key has a primitive root and disjoint cosets**, one for each wire and one more; it is accepted exactly
if its domain has at least four points. -/
theorem create_distinctCosets (h : create circuitSize publicInputs programWidth commitments = .ok key)
    (hwidth : programWidth + 1 < 2 ^ 64) :
    orderOf key.root = circuitSize
    ∧ key.root * key.rootInverse = 1
    ∧ key.cosetGenerators.length = programWidth + 1
    ∧ key.DistinctCosets
    ∧ (key.validate = .ok () ↔ 4 ≤ circuitSize) := by
  obtain ⟨hkey, rfl, rfl⟩ := standard_of_create h
  exact ⟨hkey.root.eq_orderOf.symm, hkey.root_mul_rootInverse, hkey.length_cosetGenerators,
    hkey.distinctCosets hwidth, hkey.validate_iff⟩

theorem create_small (width publicInputs : ℕ) :
    create 4 publicInputs width (small width publicInputs).commitments = .ok (small width publicInputs) := by
  have hroot : Scalar.rootOfUnity 4 = .ok Scalar.fourthRoot := by decide +kernel
  have hinverse : Scalar.invert Scalar.fourthRoot = .ok (Residue.inverse Scalar.fourthRoot) := by decide +kernel
  simp only [create, bind_eq_ok, pure_eq_ok, liftAlgebra_eq_ok]
  exact ⟨_, hroot, _, hinverse, rfl⟩

/-- Four rows and five cosets. -/
theorem create_distinctCosets_small :
    create 4 2 4 (small 4 2).commitments = .ok (small 4 2)
    ∧ orderOf (small 4 2).root = 4
    ∧ (small 4 2).root * (small 4 2).rootInverse = 1
    ∧ (small 4 2).cosetGenerators.length = 4 + 1
    ∧ (small 4 2).DistinctCosets
    ∧ ((small 4 2).validate = .ok () ↔ 4 ≤ 4) :=
  ⟨create_small 4 2, create_distinctCosets (create_small 4 2) (by decide)⟩

/-! ## Accepted keys

A key from elsewhere is accepted for an equation of its root and for the number of its generators. -/

/-- What the fields of a key promise. -/
structure WellFormed (key : VerificationKey G) : Prop where
  root : IsPrimitiveRoot key.root key.circuitSize
  first : key.cosetGenerators.head? = some 1
  cosets : key.DistinctCosets

/-- The constructor keeps the promise. -/
theorem Standard.wellFormed (h : key.Standard) (hwidth : key.programWidth + 1 < 2 ^ 64) : key.WellFormed where
  root := h.root
  first := by rw [h.cosetGenerators_eq, List.head?_map, List.head?_range, if_neg (Nat.succ_ne_zero _)]; rfl
  cosets := h.distinctCosets hwidth

/-- **One more power decides whether the root is primitive** — its order is a power of two. -/
theorem Consistent.isPrimitiveRoot_iff (h : key.Consistent) :
    IsPrimitiveRoot key.root key.circuitSize ↔ key.root ^ (key.circuitSize / 2) ≠ 1 := by
  have hfour := h.four_le
  constructor
  · intro hroot
    exact hroot.pow_ne_one_of_pos_of_lt (by omega) (by omega)
  · intro hhalf
    obtain ⟨k, hk⟩ : ∃ k, key.circuitSize = 2 ^ (k + 1) := by
      have hpow := Scalar.isPowerOfTwo_iff.mp h.isPowerOfTwo
      cases hlog : key.circuitSize.log2 with
      | zero => rw [hlog, pow_zero] at hpow; omega
      | succ k => exact ⟨k, hlog ▸ hpow⟩
    have hroot := h.root_pow
    rw [hk, pow_succ, Nat.mul_div_cancel _ two_pos] at hhalf
    rw [hk] at hroot ⊢
    exact IsPrimitiveRoot.iff_orderOf.mpr (orderOf_eq_prime_pow hhalf hroot)

/-- **What validation leaves open.**  The order of an accepted root divides the size of the domain.  The key is what
its fields promise exactly if, further, the power of the root to half the size is not one, the first generator is one,
and the powers of the generators to the size are pairwise different. -/
theorem wellFormed_iff_of_validate (h : key.validate = .ok ()) :
    orderOf key.root ∣ key.circuitSize
    ∧ (key.WellFormed ↔ key.root ^ (key.circuitSize / 2) ≠ 1
      ∧ key.cosetGenerators.head? = some 1
      ∧ (key.cosetGenerators.map (· ^ key.circuitSize)).Nodup) := by
  have hkey := validate_eq_ok.mp h
  have hpos : 0 < key.circuitSize := lt_of_lt_of_le (by decide) hkey.four_le
  refine ⟨orderOf_dvd_of_pow_eq_one hkey.root_pow, ?_⟩
  constructor
  · intro hformed
    exact ⟨hkey.isPrimitiveRoot_iff.mp hformed.root, hformed.first,
      (distinctCosets_iff hpos hformed.root).mp hformed.cosets⟩
  · rintro ⟨hhalf, hfirst, hpowers⟩
    have hroot := hkey.isPrimitiveRoot_iff.mpr hhalf
    exact ⟨hroot, hfirst, (distinctCosets_iff hpos hroot).mpr hpowers⟩

/-- The small key validates, and is well formed exactly where the conditions that validation leaves out hold. -/
theorem wellFormed_iff_of_validate_small :
    (small 4 2).validate = .ok ()
    ∧ orderOf (small 4 2).root ∣ 4
    ∧ ((small 4 2).WellFormed ↔ (small 4 2).root ^ 2 ≠ 1
      ∧ (small 4 2).cosetGenerators.head? = some 1
      ∧ ((small 4 2).cosetGenerators.map (· ^ 4)).Nodup) := by
  have hkey : (small 4 2).validate = .ok () := by decide +kernel
  exact ⟨hkey, wellFormed_iff_of_validate hkey⟩

/-- A key whose root generates one point, with one generator for all wires. -/
def degenerate : VerificationKey Point where
  circuitSize := 4
  publicInputs := 0
  programWidth := 3
  isRecursive := false
  root := 1
  rootInverse := 1
  cosetGenerators := [7, 7, 7, 7]
  commitments := .empty

/-- **Validation does not establish what the fields promise**: it accepts a key with a root of order one and with equal
cosets, none of which is the domain. -/
theorem validate_degenerate :
    degenerate.validate = .ok ()
    ∧ ¬ IsPrimitiveRoot degenerate.root degenerate.circuitSize
    ∧ degenerate.cosetGenerators.head? ≠ some 1
    ∧ ¬ degenerate.DistinctCosets := by
  refine ⟨by decide +kernel, fun hroot => ?_, by decide, fun hcosets => ?_⟩
  · exact hroot.pow_ne_one_of_pos_of_lt one_ne_zero (by decide) (one_pow 1)
  · exact List.rel_of_pairwise_cons hcosets List.mem_cons_self 0 0 rfl

end VerificationKey

end PlonkVerifier
