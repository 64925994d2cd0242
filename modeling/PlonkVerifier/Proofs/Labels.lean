import Mathlib
import PlonkVerifier.Family.Labels

/-!
# Proofs/Labels — the labels of evaluations, and what they open

Gates have three or four wires, so the families ask for finitely many evaluations: `Label.vocabulary`.  No two
words of it open the same commitment at the same point (`opened_injOn`), which is why an opening can be named by
its commitment.

A family opens some of the evaluations it asks for itself (`rawOpenings_subset`), all of them at the unshifted
point (`unshifted_of_mem_rawOpenings`).
-/

namespace PlonkVerifier

instance : Fintype Family := ⟨⟨Family.all, by decide⟩, fun family => by cases family <;> decide⟩

instance : Fintype Mode :=
  .ofEquiv (Bool × Bool)
    ⟨fun p => ⟨p.1, p.2⟩, fun mode => (mode.linearised, mode.identityPolynomials), fun _ => rfl,
      fun _ => rfl⟩

/-- The widths of gates there are families for. -/
abbrev GateWidth (width : ℕ) : Prop := width = 3 ∨ width = 4

theorem GateWidth.mem {width : ℕ} (hw : GateWidth width) : width ∈ [3, 4] := by simpa using hw

theorem GateWidth.pos {width : ℕ} (hw : GateWidth width) : 0 < width := by
  rcases hw with rfl | rfl <;> decide

namespace Label

/-- The evaluations any family can ask for. -/
def vocabulary (width : ℕ) : List String :=
  wires width ++ ["w_1_omega", "w_2_omega", "w_4_omega", "z", "z_omega"] ++ numbered "sigma" width
    ++ numbered "id" width ++ ["q_m", "q_1", "q_2", "q_3", "q_4", "q_5", "q_c", "q_arith",
      "q_fixed_base", "q_range", "q_logic", "q_elliptic"]

/-- **Two evaluation labels never open the same polynomial at the same point.** -/
theorem nodup_opened_vocabulary {width : ℕ} (hw : GateWidth width) :
    ((vocabulary width).map opened).Nodup := by
  rcases hw with rfl | rfl <;> decide +kernel

/-- **An opening is determined by its commitment and its point.** -/
theorem opened_injOn {width : ℕ} (hw : GateWidth width) {l l' : String}
    (hl : l ∈ vocabulary width) (hl' : l' ∈ vocabulary width) (h : opened l = opened l') : l = l' :=
  List.inj_on_of_nodup_map (nodup_opened_vocabulary hw) hl hl' h

/-- The linearisation polynomial and the quotient are no evaluations of families. -/
theorem reserved_notMem_vocabulary {width : ℕ} (hw : GateWidth width) :
    "r" ∉ vocabulary width ∧ "t" ∉ vocabulary width := by
  rcases hw with rfl | rfl <;> decide +kernel

/-- No evaluation opens a piece of the quotient. -/
theorem opened_ne_quotientPiece {width : ℕ} (hw : GateWidth width) {l : String}
    (hl : l ∈ vocabulary width) {i : ℕ} (hi : i < width) :
    (opened l).1 ≠ "T_" ++ toString (i + 1) := by
  have h : ∀ w ∈ [3, 4], ∀ l ∈ vocabulary w, ∀ i ∈ List.range w,
      (opened l).1 ≠ "T_" ++ toString (i + 1) := by decide +kernel
  exact h width hw.mem l hl i (List.mem_range.mpr hi)

end Label

namespace Family

/-- Every family's evaluations come from one vocabulary. -/
theorem requiredEvaluations_subset {width : ℕ} (hw : GateWidth width) (family : Family)
    (mode : Mode) : family.requiredEvaluations width mode ⊆ Label.vocabulary width := by
  have h : ∀ (family : Family) (mode : Mode), ∀ w ∈ [3, 4],
      family.requiredEvaluations w mode ⊆ Label.vocabulary w := by decide +kernel
  exact h family mode width hw.mem

/-- **A family opens only evaluations it asks for.** -/
theorem rawOpenings_subset {width : ℕ} (hw : GateWidth width) (family : Family) (mode : Mode) :
    family.rawOpenings width mode ⊆ family.requiredEvaluations width mode := by
  have h : ∀ (family : Family) (mode : Mode), ∀ w ∈ [3, 4],
      family.rawOpenings w mode ⊆ family.requiredEvaluations w mode := by decide +kernel
  exact h family mode width hw.mem

/-- Raw openings are all at the unshifted point. -/
theorem unshifted_of_mem_rawOpenings {width : ℕ} (hw : GateWidth width) {family : Family}
    {mode : Mode} {l : String} (hl : l ∈ family.rawOpenings width mode) :
    (Label.opened l).2 = false := by
  have h : ∀ (family : Family) (mode : Mode), ∀ w ∈ [3, 4],
      ∀ l ∈ family.rawOpenings w mode, (Label.opened l).2 = false := by decide +kernel
  exact h family mode width hw.mem l hl

/-- Linearised, no family opens anything itself. -/
theorem rawOpenings_of_linearised (family : Family) (width : ℕ) {mode : Mode}
    (h : mode.linearised = true) : family.rawOpenings width mode = [] := by
  simp [rawOpenings, h]

end Family

end PlonkVerifier
