import Mathlib
import PlonkVerifier.Proofs.Validity

/-!
# Proofs/Acceptance — acceptance read off the fields

Validation walks through the families and compares the labels that each opens with all labels opened before.  What it
accepts can be read off the fields of a variant (`Variant.Admissible`): two families open the same label only if they
are the two arithmetic gates and leave no selector committed (`Family.disjoint_rawOpenings_iff`), so that the walk over
labels comes down to one pair of families.

The identity permutation adds labels that no other family opens; the outcome does not depend on it, message included
(`Variant.familyFault?_congr`).
-/

namespace PlonkVerifier

namespace Family

variable {width : ℕ} {family family' : Family} {mode mode' : Mode}

/-- A family asks for a raw opening at most once, so a repeat is always between two families. -/
theorem nodup_rawOpenings (hw : GateWidth width) (family : Family) (mode : Mode) :
    (family.rawOpenings width mode).Nodup := by
  have h : ∀ (family : Family) (mode : Mode), ∀ w ∈ [3, 4], (family.rawOpenings w mode).Nodup := by decide +kernel
  exact h family mode width hw.mem

/-- The two families whose gates are sums of the same selectors. -/
def SharesSelectors (family family' : Family) : Prop :=
  family = .arithmetic ∧ family' = .turboArithmetic ∨ family = .turboArithmetic ∧ family' = .arithmetic

instance : DecidableRel SharesSelectors := fun _ _ => inferInstanceAs (Decidable (_ ∨ _))

/-- **Two families open a label in common only if they share selectors**, and if these are evaluated. -/
theorem disjoint_rawOpenings_iff (hw : GateWidth width) (mode : Mode) (hne : family ≠ family') :
    (family.rawOpenings width mode).Disjoint (family'.rawOpenings width mode) ↔
      (mode.linearised = false → ¬ SharesSelectors family family') := by
  have h : ∀ (family family' : Family) (mode : Mode), ∀ w ∈ [3, 4], family ≠ family' →
      ((∀ l ∈ family.rawOpenings w mode, l ∉ family'.rawOpenings w mode) ↔
        (mode.linearised = false → ¬ SharesSelectors family family')) := by decide +kernel
  exact h family family' mode width hw.mem hne

theorem minWidth_le_three_iff : family.minWidth ≤ 3 ↔ family = .permutation ∨ family = .arithmetic := by
  cases family <;> decide

theorem minWidth_le_four (family : Family) : family.minWidth ≤ 4 := by cases family <;> decide

/-- The permutation opens no label of another family. -/
theorem notMem_rawOpenings_permutation (hw : GateWidth width) (mode mode' : Mode) (hne : family ≠ .permutation)
    {l : String} (hl : l ∈ family.rawOpenings width mode) : l ∉ permutation.rawOpenings width mode' := by
  have h : ∀ (family : Family) (mode mode' : Mode), ∀ w ∈ [3, 4], family ≠ .permutation →
      ∀ l ∈ family.rawOpenings w mode, l ∉ permutation.rawOpenings w mode' := by decide +kernel
  exact h family mode mode' width hw.mem hne l hl

/-- Families behind the permutation open the same labels, wherever the identity permutation is read. -/
theorem rawOpenings_congr (hmode : mode.linearised = mode'.linearised) (hne : family ≠ .permutation) :
    family.rawOpenings width mode = family.rawOpenings width mode' := by
  cases family <;> simp_all [rawOpenings]

end Family

namespace Variant

/-! ## The labels that are opened -/

/-- **Distinct families open distinct labels** unless both arithmetic gates are there and selectors are evaluated. -/
theorem nodup_rawOpenings_iff {variant : Variant} (hw : GateWidth variant.programWidth)
    (hnodup : variant.families.Nodup) :
    variant.rawOpenings.Nodup ↔ (variant.linearised = false →
      ¬ (.arithmetic ∈ variant.families ∧ .turboArithmetic ∈ variant.families)) := by
  rw [rawOpenings, List.nodup_flatMap]
  constructor
  · rintro ⟨-, hpairwise⟩ hunrolled ⟨harithmetic, hturbo⟩
    have : Std.Symm (Function.onFun List.Disjoint
        fun family : Family => family.rawOpenings variant.programWidth variant.mode) := ⟨fun _ _ h => h.symm⟩
    have hdisjoint := hpairwise.forall harithmetic hturbo (by decide)
    exact (Family.disjoint_rawOpenings_iff hw _ (by decide)).mp hdisjoint hunrolled (.inl ⟨rfl, rfl⟩)
  · intro h
    refine ⟨fun family _ => family.nodup_rawOpenings hw _, hnodup.pairwise_of_forall_ne fun f hf g hg hne => ?_⟩
    refine (Family.disjoint_rawOpenings_iff hw _ hne).mpr fun hunrolled hshares => h hunrolled ?_
    rcases hshares with ⟨rfl, rfl⟩ | ⟨rfl, rfl⟩
    · exact ⟨hf, hg⟩
    · exact ⟨hg, hf⟩

/-! ## The fields of an accepted variant -/

/-- The conditions on the fields of a variant under which its families can be applied. -/
@[mk_iff admissible_iff]
structure Admissible (variant : Variant) : Prop where
  one_le_challengeBytes : 1 ≤ variant.challengeBytes
  challengeBytes_le : variant.challengeBytes ≤ 32
  programWidth : variant.programWidth = 3 ∨ variant.programWidth = 4
  nodup : variant.families.Nodup
  head : variant.families.head? = some .permutation
  narrow : variant.programWidth = 3 → ∀ family ∈ variant.families, family = .permutation ∨ family = .arithmetic
  arithmetic : variant.linearised = false →
    ¬ (.arithmetic ∈ variant.families ∧ .turboArithmetic ∈ variant.families)

instance : DecidablePred Admissible := fun _ => decidable_of_iff' _ (admissible_iff _)

/-- **What the fields of a variant have to be is what its composition needs.** -/
theorem admissible_iff_composable {variant : Variant} : variant.Admissible ↔ variant.Composable := by
  constructor
  · intro h
    have hmin : ∀ family ∈ variant.families, family.minWidth ≤ variant.programWidth := by
      intro family hfamily
      rcases h.programWidth with hwidth | hwidth
      · rw [hwidth]
        exact Family.minWidth_le_three_iff.mpr (h.narrow hwidth family hfamily)
      · rw [hwidth]
        exact family.minWidth_le_four
    exact ⟨h.one_le_challengeBytes, h.challengeBytes_le, h.programWidth, h.head, h.nodup, hmin,
      (nodup_rawOpenings_iff h.programWidth h.nodup).mpr h.arithmetic⟩
  · intro h
    refine ⟨h.challengeBytes_pos, h.challengeBytes_le, h.width, h.nodup, h.head, fun hwidth family hfamily => ?_,
      (nodup_rawOpenings_iff h.width h.nodup).mp h.nodup_rawOpenings⟩
    exact Family.minWidth_le_three_iff.mp (hwidth ▸ h.minWidth_le family hfamily)

/-! ## The identity permutation -/

/-- The first repeat depends on which labels are already open, not on their order. -/
theorem firstRepeated_congr {labels opened opened' : List String} (h : ∀ l ∈ labels, l ∈ opened ↔ l ∈ opened') :
    firstRepeated opened labels = firstRepeated opened' labels := by
  induction labels generalizing opened opened' with
  | nil => rfl
  | cons label labels ih =>
    obtain ⟨hlabel, hlabels⟩ := List.forall_mem_cons.mp h
    have hgrown : ∀ l ∈ labels, l ∈ opened ++ [label] ↔ l ∈ opened' ++ [label] := fun l hl => by
      rw [List.mem_append, List.mem_append, hlabels l hl]
    rw [firstRepeated, firstRepeated, ih hgrown]
    simp only [List.contains_iff_mem, hlabel]

/-- **Behind the permutation, only labels of other families count.** -/
theorem familyFault?_congr {width : ℕ} {mode mode' : Mode} (hmode : mode.linearised = mode'.linearised)
    {seen families : List Family} {opened opened' : List String} (hseen : .permutation ∈ seen)
    (hopened : ∀ family : Family, family ≠ .permutation →
      ∀ l ∈ family.rawOpenings width mode, l ∈ opened ↔ l ∈ opened') :
    familyFault? width mode seen opened families = familyFault? width mode' seen opened' families := by
  induction families generalizing seen opened opened' with
  | nil => rfl
  | cons family families ih =>
    rw [familyFault?, familyFault?]
    by_cases hrepeated : family ∈ seen
    · rw [if_pos (List.contains_iff_mem.mpr hrepeated), if_pos (List.contains_iff_mem.mpr hrepeated)]
    have hne : family ≠ .permutation := fun heq => hrepeated (heq ▸ hseen)
    have hgrown : ∀ g : Family, g ≠ .permutation → ∀ l ∈ g.rawOpenings width mode,
        l ∈ opened ++ family.rawOpenings width mode ↔ l ∈ opened' ++ family.rawOpenings width mode :=
      fun g hg l hl => by rw [List.mem_append, List.mem_append, hopened g hg l hl]
    rw [← Family.rawOpenings_congr hmode hne, firstRepeated_congr (hopened family hne),
      ih (List.mem_append_left [family] hseen) hgrown]

/-- The permutation family at the head is never at fault; the others see it as already opened. -/
theorem familyFault?_permutation_cons {width : ℕ} (hw : GateWidth width) (mode : Mode) (families : List Family) :
    familyFault? width mode [] [] (.permutation :: families)
      = familyFault? width mode [.permutation] (Family.permutation.rawOpenings width mode) families := by
  have hfits : ¬ width < Family.permutation.minWidth := by
    rcases hw with rfl | rfl <;> decide
  have hopens : firstRepeated [] (Family.permutation.rawOpenings width mode) = none :=
    firstRepeated_eq_none_iff.mpr ⟨Family.nodup_rawOpenings hw _ mode, fun _ _ => List.not_mem_nil⟩
  rw [familyFault?, if_neg (by simp), if_neg hfits, hopens]
  rfl

/-- **Tag and identity permutation play no part in the first fault.** -/
theorem fault?_congr (variant : Variant) (tag : Option VariantTag) (identityPolynomials : Bool) :
    { variant with tag, identityPolynomials }.fault? = variant.fault? := by
  simp only [fault?]
  split
  · rfl
  split
  · rfl
  next hwidth =>
  have hw : GateWidth variant.programWidth := by
    unfold GateWidth
    omega
  cases variant.families with
  | nil => rfl
  | cons family families =>
    cases family with
    | permutation =>
      simp only [familyFault?_permutation_cons hw]
      have hmode : { variant with tag, identityPolynomials }.mode.linearised = variant.mode.linearised := rfl
      refine familyFault?_congr hmode List.mem_cons_self fun family hne l hl => ?_
      exact iff_of_false (Family.notMem_rawOpenings_permutation hw _ _ hne hl)
        (Family.notMem_rawOpenings_permutation hw _ _ hne hl)
    | _ => rfl

/-- **A variant is accepted exactly if its fields are admissible**, and refused as an invalid variant otherwise.  The
outcome does not depend on the tag or on where the identity permutation is read. -/
theorem validate_eq_ok_iff_admissible (variant : Variant) :
    (variant.validate = .ok () ↔ variant.Admissible)
    ∧ (variant.Admissible ∨ ∃ fault : VariantFault, variant.validate = .error (.invalidVariant fault.reason))
    ∧ ∀ (tag : Option VariantTag) (identityPolynomials : Bool),
      { variant with tag, identityPolynomials }.validate = variant.validate := by
  have hiff : variant.validate = .ok () ↔ variant.Admissible :=
    validate_eq_ok_iff.trans admissible_iff_composable.symm
  refine ⟨hiff, ?_, fun tag identityPolynomials => ?_⟩
  · rw [← hiff, validate]
    cases variant.fault? with
    | none => exact .inl rfl
    | some fault => exact .inr ⟨fault, rfl⟩
  · rw [validate, validate, fault?_congr]

/-- Both arithmetic gates may stand in one variant if their selectors stay committed. -/
example : ∀ linearised, { Variant.ofTag .turbo with
      linearised, families := [.permutation, .turboArithmetic, .arithmetic] }.Admissible ↔ linearised = true := by
  decide

end Variant

end PlonkVerifier
