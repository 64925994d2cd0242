import Mathlib
import PlonkVerifier.Proofs.Labels
import PlonkVerifier.Variant

/-!
# Proofs/Validity — what an accepted variant looks like

`validate` walks through the families and stops at the first fault.  A variant without fault is `Composable`:
its families are distinct, begin with the permutation, fit its width and open no evaluation twice
(`validate_eq_ok_iff`).  From this follow the facts about its evaluations that composition and opening rely on.
-/

namespace PlonkVerifier

namespace Variant

/-- A variant whose families can be applied one after the other. -/
structure Composable (variant : Variant) : Prop where
  challengeBytes_pos : 0 < variant.challengeBytes
  challengeBytes_le : variant.challengeBytes ≤ variant.hash.digestSize
  width : GateWidth variant.programWidth
  head : variant.families.head? = some .permutation
  nodup : variant.families.Nodup
  minWidth_le : ∀ family ∈ variant.families, family.minWidth ≤ variant.programWidth
  nodup_rawOpenings : variant.rawOpenings.Nodup

theorem firstRepeated_eq_none_iff : ∀ {opened labels : List String},
    firstRepeated opened labels = none ↔ labels.Nodup ∧ ∀ l ∈ labels, l ∉ opened
  | _, [] => by simp [firstRepeated]
  | opened, label :: labels => by
      rw [firstRepeated]
      by_cases h : label ∈ opened
      · simp [h]
      · rw [if_neg (by simpa using h), firstRepeated_eq_none_iff, List.nodup_cons]
        simp only [List.mem_append, List.mem_singleton, not_or, List.forall_mem_cons]
        grind

/-- **No fault is found exactly when families and raw openings are distinct and wide enough.** -/
theorem familyFault?_eq_none_iff (width : ℕ) (mode : Mode) :
    ∀ (seen : List Family) (opened : List String) (families : List Family),
      familyFault? width mode seen opened families = none ↔
        (families.Nodup ∧ ∀ f ∈ families, f ∉ seen ∧ f.minWidth ≤ width)
          ∧ (families.flatMap (·.rawOpenings width mode)).Nodup
          ∧ ∀ l ∈ families.flatMap (·.rawOpenings width mode), l ∉ opened
  | _, _, [] => by simp [familyFault?]
  | seen, opened, family :: families => by
      have ih := familyFault?_eq_none_iff width mode (seen ++ [family])
        (opened ++ family.rawOpenings width mode) families
      rw [familyFault?]
      by_cases hseen : family ∈ seen
      · simp [hseen]
      by_cases hwidth : width < family.minWidth
      · simp [hseen, hwidth]
      rw [if_neg (by simpa using hseen), if_neg hwidth]
      cases hraw : firstRepeated opened (family.rawOpenings width mode) with
      | some label =>
        have hne : ¬ ((family.rawOpenings width mode).Nodup
            ∧ ∀ l ∈ family.rawOpenings width mode, l ∉ opened) := by
          rw [← firstRepeated_eq_none_iff, hraw]
          simp
        simp only [List.flatMap_cons, List.nodup_append, List.mem_append]
        grind
      | none =>
        obtain ⟨hnodup, hfresh⟩ := firstRepeated_eq_none_iff.mp hraw
        simp only [ih, List.flatMap_cons, List.nodup_append, List.mem_append, List.nodup_cons,
          List.forall_mem_cons]
        grind

/-- **Acceptance is composability.** -/
theorem validate_eq_ok_iff {variant : Variant} :
    variant.validate = .ok () ↔ variant.Composable := by
  have hok : variant.validate = .ok () ↔ variant.fault? = none := by
    rw [validate]
    cases variant.fault? <;> simp
  rw [hok, fault?]
  constructor
  · intro h
    split at h
    · simp at h
    next hbytes =>
    split at h
    · simp at h
    next hwidth =>
    split at h
    · simp at h
    · next rest hfamilies =>
      obtain ⟨⟨hnodup, hmin⟩, hraw, -⟩ := (familyFault?_eq_none_iff _ _ _ _ _).mp h
      exact ⟨by omega, by omega, by unfold GateWidth; omega, by rw [hfamilies]; rfl, hnodup,
        fun f hf => (hmin f hf).2, hraw⟩
    · simp at h
  · intro h
    have hwidth := h.width
    have hbytes := h.challengeBytes_pos
    have hbytes' := h.challengeBytes_le
    obtain ⟨rest, hfamilies⟩ := List.head?_eq_some_iff.mp h.head
    unfold GateWidth at hwidth
    rw [if_neg (by omega), if_neg (by omega)]
    simp only [hfamilies]
    rw [← hfamilies, familyFault?_eq_none_iff]
    exact ⟨⟨h.nodup, fun f hf => ⟨by simp, h.minWidth_le f hf⟩⟩, h.nodup_rawOpenings, by simp⟩

/-! ## The evaluations of a composable variant -/

theorem nodup_eraseDups : ∀ labels : List String, labels.eraseDups.Nodup
  | [] => List.nodup_nil
  | label :: labels => by
      rw [List.eraseDups_cons]
      refine List.nodup_cons.mpr ⟨?_, nodup_eraseDups _⟩
      rw [List.mem_eraseDups]
      simp
  termination_by labels => labels.length
  decreasing_by exact Nat.lt_succ_of_le (List.length_filter_le _ _)

theorem mem_familyEvaluations {variant : Variant} {l : String} :
    l ∈ variant.familyEvaluations ↔
      ∃ f ∈ variant.families, l ∈ f.requiredEvaluations variant.programWidth variant.mode := by
  rw [familyEvaluations, List.mem_eraseDups, List.mem_flatMap]

/-- The evaluation that opens a commitment at the unshifted point. -/
def openingOf (variant : Variant) (commitment : String) : String :=
  (variant.familyEvaluations.find? fun l => Label.opened l = (commitment, false)).getD ""

/-- Without linearisation there is no `r` to evaluate. -/
theorem evaluationLabels_of_unrolled {variant : Variant} (h : variant.linearised = false) :
    variant.evaluationLabels = variant.familyEvaluations := by
  rw [evaluationLabels, h]
  exact List.append_nil _

theorem nodup_familyEvaluations (variant : Variant) : variant.familyEvaluations.Nodup :=
  nodup_eraseDups _

namespace Composable

variable {variant : Variant}

/-- Every evaluation a variant declares is in the vocabulary of its width. -/
theorem mem_vocabulary (h : variant.Composable) {l : String} (hl : l ∈ variant.familyEvaluations) :
    l ∈ Label.vocabulary variant.programWidth := by
  obtain ⟨f, -, hl⟩ := mem_familyEvaluations.mp hl
  exact f.requiredEvaluations_subset h.width variant.mode hl

/-- **No two evaluations open the same commitment at the same point.** -/
theorem opened_injOn (h : variant.Composable) {l l' : String} (hl : l ∈ variant.familyEvaluations)
    (hl' : l' ∈ variant.familyEvaluations) (heq : Label.opened l = Label.opened l') : l = l' :=
  Label.opened_injOn h.width (h.mem_vocabulary hl) (h.mem_vocabulary hl') heq

/-- The evaluations of the families are those of the variant without the linearisation polynomial. -/
theorem filter_evaluationLabels (h : variant.Composable) :
    variant.evaluationLabels.filter (· != "r") = variant.familyEvaluations := by
  have hr : ∀ l ∈ variant.familyEvaluations, (l != "r") = true := fun l hl =>
    bne_iff_ne.mpr fun heq =>
      (Label.reserved_notMem_vocabulary h.width).1 (heq ▸ h.mem_vocabulary hl)
  rw [evaluationLabels, List.filter_append, List.filter_eq_self.mpr hr]
  split <;> simp

theorem mem_familyEvaluations_iff (h : variant.Composable) {l : String} :
    l ∈ variant.familyEvaluations ↔ l ∈ variant.evaluationLabels ∧ l ≠ "r" := by
  rw [← h.filter_evaluationLabels, List.mem_filter, bne_iff_ne]

theorem toFinset_familyEvaluations (h : variant.Composable) :
    variant.familyEvaluations.toFinset = {l ∈ variant.evaluationLabels.toFinset | l ≠ "r"} := by
  ext l
  simp only [List.mem_toFinset, Finset.mem_filter, h.mem_familyEvaluations_iff]

theorem nodup_evaluationLabels (h : variant.Composable) : variant.evaluationLabels.Nodup := by
  have hr : "r" ∉ variant.familyEvaluations := fun hl =>
    (Label.reserved_notMem_vocabulary h.width).1 (h.mem_vocabulary hl)
  rw [evaluationLabels]
  refine List.Nodup.append (nodup_familyEvaluations _) (by split <;> simp) ?_
  split <;> simp [hr]

/-- What is opened raw is also evaluated. -/
theorem rawOpenings_subset (h : variant.Composable) :
    variant.rawOpenings ⊆ variant.familyEvaluations := by
  intro l hl
  obtain ⟨f, hf, hl⟩ := List.mem_flatMap.mp hl
  exact mem_familyEvaluations.mpr ⟨f, hf, f.rawOpenings_subset h.width _ hl⟩

/-- No variant opens a raw polynomial at the shifted point. -/
theorem unshifted_of_mem_rawOpenings (h : variant.Composable) {l : String}
    (hl : l ∈ variant.rawOpenings) : (Label.opened l).2 = false := by
  obtain ⟨f, -, hl⟩ := List.mem_flatMap.mp hl
  exact Family.unshifted_of_mem_rawOpenings h.width hl

/-- **A raw opening is the only evaluation that opens its commitment at the unshifted point.** -/
theorem opened_eq_iff_of_mem_rawOpenings (h : variant.Composable) {l : String}
    (hl : l ∈ variant.rawOpenings) (l' : String) :
    l' ∈ variant.familyEvaluations ∧ Label.opened l' = ((Label.opened l).1, false) ↔ l' = l := by
  have hopened : Label.opened l = ((Label.opened l).1, false) :=
    Prod.ext rfl (h.unshifted_of_mem_rawOpenings hl)
  constructor
  · rintro ⟨hl', heq⟩
    exact h.opened_injOn hl' (h.rawOpenings_subset hl) (heq.trans hopened.symm)
  · rintro rfl
    exact ⟨h.rawOpenings_subset hl, hopened⟩

/-- A raw opening is found again by the polynomial it opens. -/
theorem openingOf_opened (h : variant.Composable) {l : String} (hl : l ∈ variant.rawOpenings) :
    variant.openingOf (Label.opened l).1 = l := by
  obtain ⟨hmem, hopened⟩ := (h.opened_eq_iff_of_mem_rawOpenings hl l).mpr rfl
  rw [openingOf]
  cases hfind : variant.familyEvaluations.find? fun l' => Label.opened l' = ((Label.opened l).1, false) with
  | none => exact absurd (decide_eq_true hopened) (List.find?_eq_none.mp hfind l hmem)
  | some l' =>
    have hl' := List.find?_some hfind
    exact (h.opened_eq_iff_of_mem_rawOpenings hl l').mp
      ⟨List.mem_of_find?_eq_some hfind, of_decide_eq_true hl'⟩

end Composable

end Variant

end PlonkVerifier
