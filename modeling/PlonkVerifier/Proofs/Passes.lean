import Mathlib
import PlonkVerifier.Family.Passes
import PlonkVerifier.Proofs.Except
import PlonkVerifier.Proofs.FormalSum
import PlonkVerifier.Proofs.Labels

/-!
# Proofs/Passes — what a successful pass of a family contributes

The formal sums that passes build are given here by their summands: an opening pass adds `ν_l` at the commitment
of each label `l` (`openingTerms_eq_ok`), a linearised gate its multipliers at the commitments of its selectors
(`selectorTerms_eq_ok`).  Four families share one shape, a selector times a separated sum, and are treated through
their `Gate`.
-/

namespace PlonkVerifier

open scoped ScalarField

variable {G : Type} {key : VerificationKey G} {transcript : Transcript G}

/-- Adding a term of the key fails exactly when the key lacks the commitment. -/
theorem Terms.addKeyed_eq_ok {terms terms' : Terms} {label : String} {c : Scalar} :
    terms.addKeyed key label c = .ok terms' ↔
      (∃ g, key.commitment label = .ok g) ∧ terms.add label c = terms' := by
  simp only [addKeyed, bind_eq_ok, pure_eq_ok, exists_and_right]

/-! ## Openings -/

/-- The summands that open the commitments of `labels`. -/
def openingSummands (transcript : Transcript G) (labels : List String) : List (String × Scalar) :=
  labels.map fun l => ((Label.opened l).1, answer (transcript.mapMember Challenge.nu l))

/-- **An opening pass opens each of its labels once.** -/
theorem openingTerms_eq_ok {labels : List String} {terms : Terms}
    (h : openingTerms key transcript labels = .ok terms) :
    terms = .ofSummands (openingSummands transcript labels)
      ∧ ∀ l ∈ labels, ∃ nu, transcript.mapMember Challenge.nu l = .ok nu := by
  refine foldlM_invariant
    (fun done terms => terms = .ofSummands (openingSummands transcript done)
      ∧ ∀ l ∈ done, ∃ nu, transcript.mapMember Challenge.nu l = .ok nu)
    h ⟨rfl, by simp⟩ fun done l terms terms' _ _ hdone hstep => ?_
  obtain ⟨rfl, hreads⟩ := hdone
  obtain ⟨nu, hnu, hstep⟩ := bind_eq_ok.mp hstep
  have hadd : terms' = (Terms.ofSummands (openingSummands transcript done)).add
      (Label.opened l).1 nu := by
    split at hstep
    · exact (pure_eq_ok.mp hstep).symm
    · exact (Terms.addKeyed_eq_ok.mp hstep).2.symm
  refine ⟨?_, List.forall_mem_append.mpr ⟨hreads, List.forall_mem_singleton.mpr ⟨nu, hnu⟩⟩⟩
  rw [hadd, Terms.add_ofSummands, openingSummands, openingSummands, List.map_append,
    List.map_singleton, hnu, answer_ok]

/-! ## Arithmetic gates -/

namespace Arithmetic

/-- The terms of the selectors are their multipliers, scaled. -/
theorem selectorTerms_eq_ok {scale : Scalar} {selectors : List (String × String)}
    {multipliers : List Scalar} {terms : Terms}
    (h : selectorTerms key scale selectors multipliers = .ok terms) :
    terms = .ofSummands ((selectors.zip multipliers).map fun x => (x.1.2, scale * x.2)) := by
  refine foldlM_invariant
    (fun done terms => terms = .ofSummands (done.map fun x => (x.1.2, scale * x.2)))
    h rfl fun done x terms terms' _ _ hdone hstep => ?_
  obtain ⟨-, rfl⟩ := Terms.addKeyed_eq_ok.mp hstep
  rw [hdone, Terms.add_ofSummands, List.map_append]
  rfl

theorem selectorSum_eq_ok {selectors : List (String × String)} {multipliers : List Scalar}
    {sum : Scalar} (h : selectorSum transcript selectors multipliers = .ok sum) :
    sum = ((selectors.zip multipliers).map fun x =>
        answer (transcript.evaluation x.1.1) * x.2).sum
      ∧ ∀ x ∈ selectors.zip multipliers, ∃ y, transcript.evaluation x.1.1 = .ok y := by
  refine foldlM_invariant
    (fun done sum => sum = (done.map fun x : (String × String) × Scalar =>
        answer (transcript.evaluation x.1.1) * x.2).sum
      ∧ ∀ x ∈ done, ∃ y, transcript.evaluation x.1.1 = .ok y)
    h ⟨rfl, by simp⟩ fun done x sum sum' _ _ hdone hstep => ?_
  obtain ⟨rfl, hreads⟩ := hdone
  obtain ⟨y, hy, hstep⟩ := bind_eq_ok.mp hstep
  obtain rfl := pure_eq_ok.mp hstep
  refine ⟨?_, List.forall_mem_append.mpr ⟨hreads, List.forall_mem_singleton.mpr ⟨y, hy⟩⟩⟩
  rw [List.map_append, List.sum_append, List.map_singleton, List.sum_singleton, hy, answer_ok]

end Arithmetic

/-! ## Gates with one selector -/

namespace Family

variable {family : Family} {gate : Gate} {mode : Mode} {base : Scalar}

/-- A gate family's commitment pass is one term. -/
theorem linearisedTerms_of_gate (h : family.gate? = some gate) :
    family.linearisedTerms key base transcript mode = (do
      let identity ← gate.identity transcript
      Terms.addKeyed .empty key (Label.opened gate.selector).1 (base * identity)) := by
  simp only [linearisedTerms, h]

/-- A gate family's scalar pass reads the selector only without linearisation. -/
theorem scalarPart_of_gate (h : family.gate? = some gate) :
    family.scalarPart key transcript mode =
      if mode.linearised then .ok 0
      else do
        let selector ← transcript.evaluation gate.selector
        return selector * (← gate.identity transcript) := by
  cases family <;> simp only [gate?, reduceCtorEq, Option.some.injEq] at h <;> subst h <;> rfl

theorem rawOpenings_of_gate (h : family.gate? = some gate) (width : ℕ) :
    family.rawOpenings width mode = if mode.linearised then [] else [gate.selector] := by
  cases family <;> simp only [gate?, reduceCtorEq, Option.some.injEq] at h <;> subst h <;> rfl

end Family

end PlonkVerifier
