import Mathlib
import PlonkVerifier.Proofs.Cosets

/-!
# Proofs/PublicInputs — the grand product binds the public inputs

The value of the public inputs is a quotient of two products with one factor for each input: `x + β p + γ` at a point
`p` of the domain in the numerator, and in the external coset in the denominator.  Up to `γ` a factor is a line in `β`,
and `γ` decides at which height the lines are cut: the product vanishes if one of its lines passes there.

Let two vectors differ in one input.  The line of this input is none of the other lines, as the points of the domain are
different and the external coset is disjoint from it, so that it meets each of them at most once
(`Line.exists_value_ne`).  At any other `β` and at its height, the first vector has the value zero and the second has
not (`publicInputDelta_injective`).
-/

namespace PlonkVerifier

open scoped ScalarField

variable {G : Type} {key : VerificationKey G}

/-! ## Lines -/

/-- An input with its point: the line `input + β point` in `β`. -/
structure Line where
  input : Scalar
  point : Scalar

namespace Line

/-- The height of the line over `β`. -/
def value (line : Line) (beta : Scalar) : Scalar := line.input + beta * line.point

/-- **A line avoids finitely many others over some `β`** — it meets each of them at most once. -/
theorem exists_value_ne {line : Line} {others : List Line} (hmem : line ∉ others)
    (hcount : others.length < scalarModulus) : ∃ beta, ∀ l ∈ others, l.value beta ≠ line.value beta := by
  let meetings := others.map fun l => (l.input - line.input) * (line.point - l.point)⁻¹
  have hcard : meetings.toFinset.card < (Finset.univ : Finset Scalar).card := by
    rw [Finset.card_univ, Fintype.card_fin]
    exact (List.toFinset_card_le meetings).trans_lt (by rwa [List.length_map])
  obtain ⟨beta, -, hbeta⟩ := Finset.exists_mem_notMem_of_card_lt_card hcard
  refine ⟨beta, fun l hl heq => ?_⟩
  rw [value, value] at heq
  by_cases hpoint : l.point = line.point
  · -- parallel lines that meet are equal
    rw [hpoint] at heq
    obtain rfl : l = line := by
      cases l
      cases line
      exact congr (congrArg _ (add_right_cancel heq)) hpoint
    exact hmem hl
  · have hslope : line.point - l.point ≠ 0 := sub_ne_zero_of_ne (Ne.symm hpoint)
    refine hbeta (List.mem_toFinset.mpr (List.mem_map.mpr ⟨l, hl, ?_⟩))
    rw [show l.input - line.input = beta * (line.point - l.point) by linear_combination heq,
      mul_inv_cancel_right₀ hslope]

end Line

namespace Domain

/-! ## Factors of the public inputs -/

/-- The lines of inputs at the points of a coset. -/
def inputLines (root coset : Scalar) (inputs : List Scalar) : List Line :=
  inputs.mapIdx fun i x => ⟨x, coset * root ^ i⟩

theorem mem_inputLines {root coset : Scalar} {inputs : List Scalar} {l : Line} :
    l ∈ inputLines root coset inputs ↔ ∃ i, ∃ h : i < inputs.length, ⟨inputs[i], coset * root ^ i⟩ = l :=
  List.mem_mapIdx

theorem length_inputLines (root coset : Scalar) (inputs : List Scalar) :
    (inputLines root coset inputs).length = inputs.length := List.length_mapIdx

/-- **The product vanishes where one of its lines is cut.** -/
theorem publicInputProduct_eq_zero_iff {inputs : List Scalar} {beta root coset height : Scalar} :
    publicInputProduct inputs beta (-height) root coset = 0
      ↔ ∃ l ∈ inputLines root coset inputs, l.value beta = height := by
  rw [publicInputProduct_eq_prod, List.prod_eq_zero_iff, List.mem_mapIdx]
  simp only [mem_inputLines, ← sub_eq_add_neg, sub_eq_zero]
  constructor
  · rintro ⟨i, hi, h⟩
    exact ⟨_, ⟨i, hi, rfl⟩, h⟩
  · rintro ⟨_, ⟨i, hi, rfl⟩, h⟩
    exact ⟨i, hi, h⟩

/-- The product vanishes only where one of the lines does. -/
theorem publicInputProduct_ne_zero {inputs : List Scalar} {beta root coset height : Scalar}
    (h : ∀ l ∈ inputLines root coset inputs, l.value beta ≠ height) :
    publicInputProduct inputs beta (-height) root coset ≠ 0 := fun hzero => by
  obtain ⟨l, hl, hcut⟩ := publicInputProduct_eq_zero_iff.mp hzero
  exact h l hl hcut

/-- Where the external product does not vanish, the delta is the quotient. -/
theorem publicInputDelta_of_ne_zero {inputs : List Scalar} {beta gamma root external : Scalar}
    (h : publicInputProduct inputs beta gamma root external ≠ 0) :
    publicInputDelta inputs beta gamma root external
      = .ok (publicInputProduct inputs beta gamma root 1
        * (publicInputProduct inputs beta gamma root external)⁻¹) :=
  bind_of_eq_ok (invert_eq_ok.mpr ⟨h, rfl⟩)

variable {n : ℕ} {root external : Scalar} {xs ys : List Scalar}

/-- The line of an input that another vector has not at its place is none of the other lines. -/
theorem inputLine_notMem (xs : List Scalar) (hroot : IsPrimitiveRoot root n)
    (hexternal : ∀ a b : ℕ, root ^ a ≠ external * root ^ b) (hcount : ys.length ≤ n) {i : ℕ} (hi : i < ys.length)
    {x : Scalar} (hne : x ≠ ys[i]) :
    (⟨x, 1 * root ^ i⟩ : Line)
      ∉ inputLines root 1 ys ++ inputLines root external xs ++ inputLines root external ys := by
  simp only [List.mem_append, mem_inputLines]
  rintro ((⟨j, hj, heq⟩ | ⟨j, hj, heq⟩) | ⟨j, hj, heq⟩) <;> obtain ⟨hinput, hpoint⟩ := Line.mk.inj heq
  · rw [one_mul, one_mul] at hpoint
    obtain rfl := hroot.pow_inj (by omega) (by omega) hpoint
    exact hne hinput.symm
  · exact hexternal i j ((one_mul _).symm.trans hpoint.symm)
  · exact hexternal i j ((one_mul _).symm.trans hpoint.symm)

/-- **Two vectors that differ have different values for some challenges.** -/
theorem exists_publicInputDelta_ne (hroot : IsPrimitiveRoot root n)
    (hexternal : ∀ a b : ℕ, root ^ a ≠ external * root ^ b) (hsize : 3 * n < scalarModulus)
    (hlength : xs.length = ys.length) (hcount : ys.length ≤ n) (hne : xs ≠ ys) :
    ∃ beta gamma x y, publicInputDelta xs beta gamma root external = .ok x
      ∧ publicInputDelta ys beta gamma root external = .ok y ∧ x ≠ y := by
  obtain ⟨i, hi, hi', hinput⟩ : ∃ i, ∃ (h : i < xs.length) (h' : i < ys.length), xs[i] ≠ ys[i] := by
    by_contra! hsame
    exact hne (List.ext_getElem hlength hsame)
  have hmem := inputLine_notMem xs hroot hexternal hcount hi' hinput
  obtain ⟨beta, hbeta⟩ := Line.exists_value_ne hmem (by simp only [List.length_append, length_inputLines]; omega)
  simp only [List.forall_mem_append] at hbeta
  obtain ⟨⟨hys, hxsExternal⟩, hysExternal⟩ := hbeta
  -- the line of the input is cut, and none of the others
  have hzero : publicInputProduct xs beta (-Line.value ⟨xs[i], 1 * root ^ i⟩ beta) root 1 = 0 :=
    publicInputProduct_eq_zero_iff.mpr ⟨_, mem_inputLines.mpr ⟨i, hi, rfl⟩, rfl⟩
  have hysExternal := publicInputProduct_ne_zero hysExternal
  refine ⟨beta, _, _, _, publicInputDelta_of_ne_zero (publicInputProduct_ne_zero hxsExternal),
    publicInputDelta_of_ne_zero hysExternal, ?_⟩
  rw [hzero, zero_mul]
  exact (mul_ne_zero (publicInputProduct_ne_zero hys) (inv_ne_zero hysExternal)).symm

end Domain

/-! ## Created keys -/

namespace VerificationKey

variable {circuitSize publicInputs programWidth : ℕ} {commitments : LabelMap G}

/-- The public inputs get the first power of the generator no wire takes. -/
theorem Standard.externalCosetGenerator_eq (h : key.Standard) :
    key.externalCosetGenerator = .ok (Scalar.generator ^ key.programWidth) := by
  rw [externalCosetGenerator, cosetGenerator, h.cosetGenerators_eq]
  simp

/-- **The external coset is disjoint from the domain.** -/
theorem Standard.root_pow_ne (h : key.Standard) (hpos : 0 < key.programWidth)
    (hwidth : key.programWidth + 1 < 2 ^ 64) (a b : ℕ) :
    key.root ^ a ≠ Scalar.generator ^ key.programWidth * key.root ^ b := by
  have hcosets := h.distinctCosets hwidth
  rw [DistinctCosets, h.cosetGenerators_eq, List.pairwise_map, List.pairwise_iff_getElem] at hcosets
  have hends := hcosets 0 key.programWidth (by simp) (by simp) hpos a b
  rwa [List.getElem_range, List.getElem_range, pow_zero, one_mul] at hends

/-- **The public inputs are bound by their value.**  With a created key, two vectors that have the same value wherever
both values are defined are the same vector. -/
theorem publicInputDelta_injective (h : create circuitSize publicInputs programWidth commitments = .ok key)
    (hwidth : programWidth = 3 ∨ programWidth = 4) (hcount : publicInputs ≤ circuitSize) :
    ∃ external, key.externalCosetGenerator = .ok external
      ∧ ∀ xs ys : List Scalar, xs.length = publicInputs → ys.length = publicInputs →
        ((∀ beta gamma x y, Domain.publicInputDelta xs beta gamma key.root external = .ok x →
          Domain.publicInputDelta ys beta gamma key.root external = .ok y → x = y) ↔ xs = ys) := by
  obtain ⟨hkey, rfl, rfl⟩ := standard_of_create h
  refine ⟨_, hkey.externalCosetGenerator_eq, fun xs ys hxs hys => ⟨fun hsame => ?_, ?_⟩⟩
  · by_contra hne
    have hsize : 3 * key.circuitSize < scalarModulus :=
      calc 3 * key.circuitSize ≤ 3 * 2 ^ Scalar.twoAdicity :=
            Nat.mul_le_mul_left 3 (Scalar.le_of_log2_le hkey.isPowerOfTwo hkey.log2_le)
        _ < scalarModulus := by decide
    obtain ⟨beta, gamma, x, y, hx, hy, hxy⟩ := Domain.exists_publicInputDelta_ne hkey.root
      (hkey.root_pow_ne (by omega) (by omega)) hsize (hxs.trans hys.symm) (hys.trans_le hcount) hne
    exact hxy (hsame beta gamma x y hx hy)
  · rintro rfl beta gamma x y hx hy
    exact Except.ok.inj (hx.symm.trans hy)

/-- Swapped public inputs are told apart. -/
theorem publicInputDelta_injective_small :
    create 4 2 4 (small 4 2).commitments = .ok (small 4 2)
    ∧ ∃ external, (small 4 2).externalCosetGenerator = .ok external
      ∧ ¬ ∀ beta gamma x y, Domain.publicInputDelta [5, 7] beta gamma (small 4 2).root external = .ok x →
        Domain.publicInputDelta [7, 5] beta gamma (small 4 2).root external = .ok y → x = y := by
  have hcreate := create_small 4 2
  obtain ⟨external, hexternal, hinjective⟩ := publicInputDelta_injective hcreate (.inr rfl) (by decide)
  refine ⟨hcreate, external, hexternal, fun hsame => ?_⟩
  exact absurd ((hinjective [5, 7] [7, 5] rfl rfl).mp hsame) (by decide)

end VerificationKey

end PlonkVerifier
