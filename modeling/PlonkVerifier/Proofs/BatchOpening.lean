import Mathlib
import PlonkVerifier.Opening
import PlonkVerifier.Proofs.Composition

/-!
# Proofs/BatchOpening — every committed polynomial is opened once at each point

Terms enter a batch from the composition, from the quotient and from the loop over the evaluations.  Together
they are the formal sum of one list, `BatchOpening.summands`, with one entry for each evaluation
(`batchOpening_eq_ok`): of the evaluations that an unrolled family has opened itself the loop only adds the
values.
-/

namespace PlonkVerifier

open scoped ScalarField

variable {G : Type} {variant : Variant} {key : VerificationKey G} {transcript : Transcript G}

/-! ## What the composition contributes -/

/-- **Unrolled families contribute their raw openings, and nothing else.** -/
theorem Composition.terms_of_unrolled {mode : Mode} (hmode : mode.linearised = false)
    {power : AlphaPower} {families : List Family} {composition : Composition}
    (h : families.foldlM (apply key transcript mode) (.start power) = .ok composition) :
    composition.terms = .ofSummands
      (openingSummands transcript (families.flatMap (·.rawOpenings key.programWidth mode))) := by
  refine foldlM_invariant (fun done c => c.terms = .ofSummands
      (openingSummands transcript (done.flatMap (·.rawOpenings key.programWidth mode))))
    h rfl fun done family c c' _ _ hdone hstep => ?_
  obtain ⟨terms, part, hterms, -, rfl⟩ := apply_eq_ok.mp hstep
  rw [Family.committedPart, if_neg (by simp [hmode])] at hterms
  obtain ⟨rfl, -⟩ := openingTerms_eq_ok hterms
  rw [extend, hdone, Terms.merge_ofSummands, List.flatMap_append, List.flatMap_singleton,
    openingSummands, openingSummands, openingSummands, List.map_append]

/-- An unrolled composition leaves nothing but the raw openings, each with its own separator. -/
theorem terms_of_unrolled {power : AlphaPower} {composition : Composition}
    (hunrolled : variant.linearised = false)
    (h : composeFrom variant key transcript power = .ok composition) :
    composition.terms = .ofSummands (openingSummands transcript variant.rawOpenings) := by
  obtain ⟨hfits, hrun⟩ := composeFrom_eq_ok.mp h
  rw [Composition.terms_of_unrolled hunrolled hrun, Variant.rawOpenings, hfits.width]

/-- A composition that succeeds has found `alpha`, and started from it. -/
theorem compose_eq_ok {composition : Composition}
    (h : compose variant key transcript = .ok composition) :
    ∃ alpha, transcript.challenge Challenge.alpha = .ok alpha
      ∧ composeFrom variant key transcript (.ofChallenge alpha) = .ok composition :=
  bind_eq_ok.mp h

namespace BatchOpening

/-! ## Summands -/

/-- The weight of an evaluation in the batch. -/
def weight (transcript : Transcript G) (separator : Scalar) (l : String) : Scalar :=
  answer (transcript.mapMember Challenge.nu l) * if (Label.opened l).2 then separator else 1

/-- What the opening of each evaluation adds. -/
def evaluationSummands (transcript : Transcript G) (separator : Scalar) (labels : List String) :
    List (String × Scalar) :=
  labels.map fun l => ((Label.opened l).1, weight transcript separator l)

/-- What the pieces of the quotient add. -/
def quotientSummands (width : ℕ) (nu zn : Scalar) : List (String × Scalar) :=
  (List.range width).map fun i => ("T_" ++ toString (i + 1), nu * zn ^ i)

/-- What the linearisation polynomial adds. -/
def linearisationSummands (variant : Variant) (transcript : Transcript G) (composition : Composition) :
    List (String × Scalar) :=
  if variant.linearised then
    composition.terms.entries.map fun term =>
      (term.1, term.2 * answer (transcript.mapMember Challenge.nu "r"))
  else []

/-- All that a batch adds up. -/
def summands (variant : Variant) (transcript : Transcript G) (composition : Composition)
    (separator zn : Scalar) : List (String × Scalar) :=
  linearisationSummands variant transcript composition
    ++ quotientSummands variant.programWidth (answer (transcript.mapMember Challenge.nu "t")) zn
    ++ evaluationSummands transcript separator variant.familyEvaluations

/-- The quotient parts are appended to the summands, powers of `z ^ n` as coefficients. -/
theorem addQuotient_ofSummands (summands : List (String × Scalar)) (nu zn : Scalar) (width : ℕ) :
    addQuotient (.ofSummands summands) width nu zn
      = .ofSummands (summands ++ quotientSummands width nu zn) := by
  rw [addQuotient, quotientSummands]
  induction width with
  | zero => simp
  | succ n ih =>
    rw [List.range_succ, List.foldl_append, ih, List.map_append, ← List.append_assoc,
      List.map_singleton, ← Terms.add_ofSummands, ← Residue.pow_eq]
    rfl

/-- A step of the loop adds the value of an evaluation, and its commitment unless that has its term. -/
theorem addEvaluation_eq_ok {separator : Scalar} {opened : List String} {l : String}
    {xs : List (String × Scalar)} {ev : Scalar} {sum : Terms × Scalar}
    (h : addEvaluation key transcript separator opened (.ofSummands xs, ev) l = .ok sum) :
    sum = (.ofSummands (xs ++ evaluationSummands transcript separator ([l].filter (· ∉ opened))),
        ev + weight transcript separator l * answer (transcript.evaluation l))
      ∧ (∃ nu, transcript.mapMember Challenge.nu l = .ok nu)
      ∧ ∃ value, transcript.evaluation l = .ok value := by
  simp only [addEvaluation, bind_eq_ok] at h
  obtain ⟨nu, hnu, value, hvalue, h⟩ := h
  have hweight : (if (Label.opened l).2 = true then nu * separator else nu)
      = weight transcript separator l := by
    rw [weight, hnu, answer_ok]
    split <;> simp
  rw [hweight] at h
  refine ⟨?_, ⟨nu, hnu⟩, value, hvalue⟩
  rw [hvalue, answer_ok]
  split at h
  · next hopened =>
    obtain rfl := pure_eq_ok.mp h
    simp [List.contains_iff_mem.mp hopened, evaluationSummands]
  · next hopened =>
    have hnot : l ∉ opened := fun hl => hopened (List.contains_iff_mem.mpr hl)
    have hadd : sum = ((Terms.ofSummands xs).add (Label.opened l).1 (weight transcript separator l),
        ev + weight transcript separator l * value) := by
      split at h
      · exact (pure_eq_ok.mp h).symm
      · obtain ⟨terms, hterms, h⟩ := bind_eq_ok.mp h
        obtain ⟨-, rfl⟩ := Terms.addKeyed_eq_ok.mp hterms
        exact (pure_eq_ok.mp h).symm
    rw [hadd, Terms.add_ofSummands]
    simp [hnot, evaluationSummands]

/-- The pass over the evaluations: a summand for every label not yet opened, a weighted value for every label. -/
theorem foldlM_addEvaluation_eq_ok {separator : Scalar} {opened labels : List String}
    {xs : List (String × Scalar)} {ev : Scalar} {sum : Terms × Scalar}
    (h : labels.foldlM (addEvaluation key transcript separator opened) (.ofSummands xs, ev) = .ok sum) :
    sum = (.ofSummands (xs ++ evaluationSummands transcript separator (labels.filter (· ∉ opened))),
        ev + (labels.map fun l => weight transcript separator l * answer (transcript.evaluation l)).sum)
      ∧ ∀ l ∈ labels, (∃ nu, transcript.mapMember Challenge.nu l = .ok nu)
        ∧ ∃ value, transcript.evaluation l = .ok value := by
  refine foldlM_invariant (fun done sum =>
      sum = (.ofSummands (xs ++ evaluationSummands transcript separator (done.filter (· ∉ opened))),
        ev + (done.map fun l => weight transcript separator l * answer (transcript.evaluation l)).sum)
      ∧ ∀ l ∈ done, (∃ nu, transcript.mapMember Challenge.nu l = .ok nu)
        ∧ ∃ value, transcript.evaluation l = .ok value)
    h (by simp [evaluationSummands]) fun done l sum sum' _ _ hdone hstep => ?_
  obtain ⟨rfl, hreads⟩ := hdone
  obtain ⟨rfl, hread⟩ := addEvaluation_eq_ok hstep
  refine ⟨?_, List.forall_mem_append.mpr ⟨hreads, List.forall_mem_singleton.mpr hread⟩⟩
  simp only [evaluationSummands, List.filter_append, List.map_append, List.append_assoc,
    List.sum_append, List.map_singleton, List.sum_singleton, add_assoc]

/-- **The raw openings and the loop together open each evaluation once.** -/
theorem openingSummands_append_perm (hvalid : variant.Composable) (transcript : Transcript G)
    (separator : Scalar) :
    (openingSummands transcript variant.rawOpenings ++ evaluationSummands transcript separator
      (variant.familyEvaluations.filter (· ∉ variant.rawOpenings))).Perm
      (evaluationSummands transcript separator variant.familyEvaluations) := by
  have hraw : openingSummands transcript variant.rawOpenings
      = evaluationSummands transcript separator variant.rawOpenings := by
    refine List.map_congr_left fun l hl => ?_
    rw [weight, hvalid.unshifted_of_mem_rawOpenings hl]
    simp
  rw [hraw, evaluationSummands, evaluationSummands, ← List.map_append]
  refine List.Perm.map _ ((List.perm_ext_iff_of_nodup ?_ variant.nodup_familyEvaluations).mpr fun l => ?_)
  · refine hvalid.nodup_rawOpenings.append (variant.nodup_familyEvaluations.filter _) fun l hl hl' => ?_
    exact of_decide_eq_true (List.mem_filter.mp hl').2 hl
  · have hsubset : l ∈ variant.rawOpenings → l ∈ variant.familyEvaluations :=
      fun hl => hvalid.rawOpenings_subset hl
    simp only [List.mem_append, List.mem_filter, decide_eq_true_eq]
    tauto

/-! ## The batch -/

/-- The value of a linearised variant's linearisation polynomial. -/
def linearisationValue (variant : Variant) (transcript : Transcript G) : Scalar :=
  if variant.linearised then answer (transcript.evaluation "r") else 0

/-- The linearisation polynomial takes the place of the raw openings. -/
theorem linearisation_eq_ok {composition : Composition} {terms : Terms} {ev identity : Scalar}
    (hcompose : compose variant key transcript = .ok composition)
    (h : linearisation variant transcript composition = .ok (terms, ev, identity)) :
    terms = .ofSummands (linearisationSummands variant transcript composition
        ++ openingSummands transcript variant.rawOpenings)
      ∧ ev = answer (transcript.mapMember Challenge.nu "r") * linearisationValue variant transcript
      ∧ identity = composition.r₀ + linearisationValue variant transcript
      ∧ (variant.linearised = true → (∃ nu, transcript.mapMember Challenge.nu "r" = .ok nu)
        ∧ ∃ r, transcript.evaluation "r" = .ok r) := by
  rw [linearisation] at h
  rw [linearisationSummands, linearisationValue]
  cases hmode : variant.linearised with
  | true =>
    rw [hmode, if_pos rfl] at h
    obtain ⟨r, hr, h⟩ := bind_eq_ok.mp h
    obtain ⟨nu, hnu, h⟩ := bind_eq_ok.mp h
    obtain ⟨rfl, rfl, rfl⟩ : composition.terms.scale nu = terms ∧ nu * r = ev
        ∧ composition.r₀ + r = identity := by simpa using pure_eq_ok.mp h
    have hraw : variant.rawOpenings = [] := List.flatMap_eq_nil_iff.mpr fun f _ =>
      f.rawOpenings_of_linearised _ hmode
    refine ⟨?_, ?_, ?_, fun _ => ⟨⟨nu, hnu⟩, r, hr⟩⟩
    · rw [hraw, hnu, if_pos rfl, answer_ok, openingSummands, List.map_nil, List.append_nil,
        ← Terms.scale_ofSummands, Terms.ofSummands_entries]
    · rw [hnu, hr, answer_ok, answer_ok, if_pos rfl]
    · rw [hr, answer_ok, if_pos rfl]
  | false =>
    rw [hmode, if_neg Bool.false_ne_true] at h
    obtain ⟨rfl, rfl, rfl⟩ : composition.terms = terms ∧ 0 = ev ∧ composition.r₀ = identity := by
      simpa using pure_eq_ok.mp h
    obtain ⟨alpha, -, hcompose⟩ := compose_eq_ok hcompose
    refine ⟨?_, ?_, ?_, fun h => absurd h Bool.false_ne_true⟩
    · rw [if_neg Bool.false_ne_true, List.nil_append, terms_of_unrolled hmode hcompose]
    · rw [if_neg Bool.false_ne_true, mul_zero]
    · rw [if_neg Bool.false_ne_true, add_zero]

/-- What a batch is made of. -/
structure Batches (variant : Variant) (key : VerificationKey G) (transcript : Transcript G)
    (composition : Composition) (opening : BatchOpening) : Prop where
  composable : variant.Composable
  compose : compose variant key transcript = .ok composition
  point : transcript.challenge Challenge.point = .ok opening.z
  separator : transcript.challenge Challenge.separator = .ok opening.separator
  zOmega : opening.zOmega = opening.z * key.root
  vanishing_ne_zero : opening.z ^ key.circuitSize - 1 ≠ 0
  nu : ∀ l ∈ "t" :: variant.evaluationLabels, ∃ nu, transcript.mapMember Challenge.nu l = .ok nu
  evaluated : ∀ l ∈ variant.evaluationLabels, ∃ value, transcript.evaluation l = .ok value
  terms : opening.terms = .ofSummands (summands variant transcript composition opening.separator
    (opening.z ^ key.circuitSize))
  evaluation : opening.evaluation
    = answer (transcript.mapMember Challenge.nu "r") * linearisationValue variant transcript
      + answer (transcript.mapMember Challenge.nu "t")
        * ((composition.r₀ + linearisationValue variant transcript)
          * (opening.z ^ key.circuitSize - 1)⁻¹)
      + (variant.familyEvaluations.map fun l =>
          weight transcript opening.separator l * answer (transcript.evaluation l)).sum

end BatchOpening

/-- **A batch opens the linearisation, the quotient and each evaluation.** -/
theorem batchOpening_eq_ok {opening : BatchOpening}
    (h : batchOpening variant key transcript = .ok opening) :
    ∃ composition, opening.Batches variant key transcript composition := by
  simp only [batchOpening, bind_eq_ok, pure_eq_ok, Prod.exists] at h
  obtain ⟨c, hc, z, hz, u, hu, terms, ev, identity, hlin, d, hd, nu, hnu, terms', ev', hloop, rfl⟩ := h
  obtain ⟨alpha, -, hfrom⟩ := compose_eq_ok hc
  have hvalid := (composeFrom_eq_ok.mp hfrom).1.composable
  obtain ⟨rfl, rfl, rfl, hr⟩ := BatchOpening.linearisation_eq_ok hc hlin
  rw [BatchOpening.addQuotient_ofSummands, hvalid.filter_evaluationLabels] at hloop
  obtain ⟨hsum, hreads⟩ := BatchOpening.foldlM_addEvaluation_eq_ok hloop
  obtain ⟨rfl, rfl⟩ := Prod.mk.inj hsum
  have hlabels : ∀ l ∈ variant.evaluationLabels, (∃ nu, transcript.mapMember Challenge.nu l = .ok nu)
      ∧ ∃ value, transcript.evaluation l = .ok value := by
    intro l hl
    rw [Variant.evaluationLabels, List.mem_append] at hl
    rcases hl with hl | hl
    · exact hreads l hl
    · split at hl
      · next hlinearised => exact List.mem_singleton.mp hl ▸ hr hlinearised
      · cases hl
  refine ⟨c, hvalid, hc, hz, hu, rfl, ?_, ?_, fun l hl => (hlabels l hl).2, ?_, ?_⟩
  · rw [← Domain.vanishing_eq]
    exact (Domain.invert_eq_ok.mp hd).1
  · exact List.forall_mem_cons.mpr ⟨⟨nu, hnu⟩, fun l hl => (hlabels l hl).1⟩
  · rw [BatchOpening.summands, hnu, answer_ok, ← Residue.pow_eq]
    refine Terms.ofSummands_perm ?_
    simp only [List.append_assoc]
    refine List.Perm.append_left _ (List.perm_append_comm_assoc _ _ _ |>.trans ?_)
    exact List.Perm.append_left _ (BatchOpening.openingSummands_append_perm hvalid transcript u)
  · rw [← Domain.vanishing_eq, (Domain.invert_eq_ok.mp hd).2, hnu, answer_ok]

namespace BatchOpening

/-! ## Coefficients -/

/-- A sum over a list without repetitions is one over a finite set. -/
theorem sum_filter_eq {α : Type} [DecidableEq α] {xs : List α} (h : xs.Nodup) (p : α → Prop)
    [DecidablePred p] (f : α → Scalar) :
    ((xs.filter p).map f).sum = ∑ x ∈ xs.toFinset with p x, f x := by
  rw [← List.sum_toFinset f (h.filter _), List.toFinset_filter]
  simp only [decide_eq_true_eq]

/-- A batch that opens each evaluation with weight `nu`, at the value `value`, once. -/
structure OpensOnce (variant : Variant) (key : VerificationKey G) (composition : Composition)
    (nu value : String → Scalar) (opening : BatchOpening) : Prop where
  /-- No two evaluations open the same commitment at the same point. -/
  injOn : Set.InjOn Label.opened {l | l ∈ variant.evaluationLabels ∧ l ≠ "r"}
  coefficient : ∀ L, (opening.terms.find? L).getD 0
    = (if variant.linearised then nu "r" * (composition.terms.find? L).getD 0 else 0)
      + (∑ l ∈ variant.evaluationLabels.toFinset with l ≠ "r" ∧ (Label.opened l).1 = L,
          nu l * if (Label.opened l).2 then opening.separator else 1)
      + ∑ i ∈ Finset.range variant.programWidth with "T_" ++ toString (i + 1) = L,
          nu "t" * opening.z ^ (key.circuitSize * i)
  absent : ∀ L, opening.terms.find? L = none ↔
    (variant.linearised = true → composition.terms.find? L = none)
      ∧ (∀ l ∈ variant.evaluationLabels, l ≠ "r" → (Label.opened l).1 ≠ L)
      ∧ ∀ i < variant.programWidth, "T_" ++ toString (i + 1) ≠ L
  vanishing_ne_zero : opening.z ^ key.circuitSize - 1 ≠ 0
  evaluation : opening.evaluation
    = (if variant.linearised then nu "r" * value "r" else 0)
      + nu "t" * (composition.r₀ + if variant.linearised then value "r" else 0)
          * (opening.z ^ key.circuitSize - 1)⁻¹
      + ∑ l ∈ variant.evaluationLabels.toFinset with l ≠ "r",
          nu l * (if (Label.opened l).2 then opening.separator else 1) * value l
  /-- Unrolled, families open their raw openings and nothing else, and after the batch each evaluation counts
  once, whether it was one of these or not. -/
  unrolled : variant.linearised = false → ∀ l ∈ variant.evaluationLabels, (Label.opened l).2 = false →
    composition.terms.find? (Label.opened l).1
        = (if l ∈ variant.rawOpenings then some (nu l) else none)
      ∧ opening.terms.find? (Label.opened l).1
        = some (nu l + ∑ l' ∈ variant.evaluationLabels.toFinset
            with Label.opened l' = ((Label.opened l).1, true), nu l' * opening.separator)

variable {composition : Composition} {opening : BatchOpening}

namespace Batches

/-- The term of a label collects its linearised part, its quotient part and its openings, in this order. -/
theorem find?_eq (h : opening.Batches variant key transcript composition) (L : String) :
    opening.terms.find? L = Terms.collect none
      ((if variant.linearised then
          (composition.terms.find? L).toList.map (· * answer (transcript.mapMember Challenge.nu "r"))
        else [])
      ++ ((List.range variant.programWidth).filter fun i => "T_" ++ toString (i + 1) = L).map (fun i =>
          answer (transcript.mapMember Challenge.nu "t") * (opening.z ^ key.circuitSize) ^ i)
      ++ (variant.familyEvaluations.filter fun l => (Label.opened l).1 = L).map
          (weight transcript opening.separator)) := by
  have hlinearisation : Terms.multiples L (linearisationSummands variant transcript composition)
      = if variant.linearised then
          (composition.terms.find? L).toList.map (· * answer (transcript.mapMember Challenge.nu "r"))
        else [] := by
    rw [linearisationSummands]
    split
    · rw [Terms.multiples_scale, Terms.multiples_entries]
    · rfl
  rw [h.terms, Terms.find?_ofSummands, summands, Terms.multiples_append, Terms.multiples_append,
    hlinearisation, quotientSummands, evaluationSummands, Terms.multiples_map, Terms.multiples_map]

/-- The coefficient of a label is the sum of the same three parts. -/
theorem coefficient (h : opening.Batches variant key transcript composition) (L : String) :
    (opening.terms.find? L).getD 0
    = (if variant.linearised then
        answer (transcript.mapMember Challenge.nu "r") * (composition.terms.find? L).getD 0 else 0)
      + (∑ l ∈ variant.familyEvaluations.toFinset with (Label.opened l).1 = L,
          weight transcript opening.separator l)
      + ∑ i ∈ Finset.range variant.programWidth with "T_" ++ toString (i + 1) = L,
          answer (transcript.mapMember Challenge.nu "t") * opening.z ^ (key.circuitSize * i) := by
  rw [h.find?_eq, Terms.getD_collect, List.sum_append, List.sum_append,
    sum_filter_eq variant.nodup_familyEvaluations, sum_filter_eq List.nodup_range, List.toFinset_range]
  simp only [pow_mul, Option.getD_none, zero_add, add_assoc]
  rw [add_comm (∑ i ∈ _ with _, _)]
  congr 1
  split
  · cases composition.terms.find? L <;> simp [mul_comm]
  · rfl

/-- A label has no term exactly when none of the three parts mentions it. -/
theorem absent (h : opening.Batches variant key transcript composition) (L : String) :
    opening.terms.find? L = none ↔
      (variant.linearised = true → composition.terms.find? L = none)
        ∧ (∀ l ∈ variant.familyEvaluations, (Label.opened l).1 ≠ L)
        ∧ ∀ i < variant.programWidth, "T_" ++ toString (i + 1) ≠ L := by
  have hlinearisation : (if variant.linearised then
      (composition.terms.find? L).toList.map (· * answer (transcript.mapMember Challenge.nu "r"))
      else []) = [] ↔ (variant.linearised = true → composition.terms.find? L = none) := by
    cases variant.linearised <;> cases composition.terms.find? L <;> simp
  rw [h.find?_eq, Terms.collect_eq_none_iff, List.append_eq_nil_iff, List.append_eq_nil_iff,
    hlinearisation, List.map_eq_nil_iff, List.map_eq_nil_iff, List.filter_eq_nil_iff,
    List.filter_eq_nil_iff]
  simp only [List.mem_range, decide_eq_true_eq, true_and, and_assoc]
  tauto

/-- Unrolled, a composition has a term for the raw openings only. -/
theorem find?_composition (h : opening.Batches variant key transcript composition)
    (hunrolled : variant.linearised = false) {l : String} (hl : l ∈ variant.familyEvaluations)
    (hshift : (Label.opened l).2 = false) :
    composition.terms.find? (Label.opened l).1
      = if l ∈ variant.rawOpenings then some (answer (transcript.mapMember Challenge.nu l)) else none := by
  obtain ⟨alpha, -, hcompose⟩ := compose_eq_ok h.compose
  rw [terms_of_unrolled hunrolled hcompose, Terms.find?_ofSummands, openingSummands, Terms.multiples_map]
  have hsame : ∀ l' ∈ variant.rawOpenings,
      (decide ((Label.opened l').1 = (Label.opened l).1)) = decide (l' = l) := by
    intro l' hl'
    have hiff := h.composable.opened_eq_iff_of_mem_rawOpenings hl' l
    rw [decide_eq_decide]
    refine ⟨fun heq => (hiff.mp ⟨hl, ?_⟩).symm, fun heq => heq ▸ rfl⟩
    rw [heq, ← hshift]
  rw [List.filter_congr hsame, List.filter_eq, h.composable.nodup_rawOpenings.count]
  split <;> simp [Terms.collect]

/-- Besides its own evaluation, a commitment may be opened at the shifted point. -/
theorem sum_weight_eq (hvalid : variant.Composable) (separator : Scalar) {l : String}
    (hl : l ∈ variant.familyEvaluations) (hshift : (Label.opened l).2 = false) :
    ∑ l' ∈ variant.familyEvaluations.toFinset with (Label.opened l').1 = (Label.opened l).1,
        weight transcript separator l'
      = answer (transcript.mapMember Challenge.nu l)
        + ∑ l' ∈ variant.familyEvaluations.toFinset with Label.opened l' = ((Label.opened l).1, true),
            answer (transcript.mapMember Challenge.nu l') * separator := by
  have hpoints : {l' ∈ variant.familyEvaluations.toFinset | (Label.opened l').1 = (Label.opened l).1}
      = insert l {l' ∈ variant.familyEvaluations.toFinset
          | Label.opened l' = ((Label.opened l).1, true)} := by
    ext l'
    simp only [Finset.mem_filter, Finset.mem_insert, List.mem_toFinset]
    constructor
    · rintro ⟨hl', heq⟩
      cases hshift' : (Label.opened l').2 with
      | true => exact .inr ⟨hl', Prod.ext heq hshift'⟩
      | false => exact .inl (hvalid.opened_injOn hl' hl (Prod.ext heq (hshift'.trans hshift.symm)))
    · rintro (rfl | ⟨hl', heq⟩)
      · exact ⟨hl, rfl⟩
      · exact ⟨hl', by rw [heq]⟩
  rw [hpoints, Finset.sum_insert (by simp [Prod.ext_iff, hshift]), weight, hshift]
  congr 1
  · simp
  · refine Finset.sum_congr rfl fun l' hl' => ?_
    rw [weight, (Finset.mem_filter.mp hl').2, if_pos rfl]

/-- Without linearisation a raw opening and the shifted opening of the same polynomial share one term. -/
theorem find?_of_unrolled (h : opening.Batches variant key transcript composition)
    (hunrolled : variant.linearised = false) {l : String} (hl : l ∈ variant.familyEvaluations)
    (hshift : (Label.opened l).2 = false) :
    opening.terms.find? (Label.opened l).1
      = some (answer (transcript.mapMember Challenge.nu l)
        + ∑ l' ∈ variant.familyEvaluations.toFinset with Label.opened l' = ((Label.opened l).1, true),
            answer (transcript.mapMember Challenge.nu l') * opening.separator) := by
  have hpresent : opening.terms.find? (Label.opened l).1 ≠ none := fun hnone =>
    ((h.absent _).mp hnone).2.1 l hl rfl
  obtain ⟨c, hc⟩ := Option.ne_none_iff_exists'.mp hpresent
  have hcoefficient := h.coefficient (Label.opened l).1
  have hquotient : ∑ i ∈ Finset.range variant.programWidth
      with "T_" ++ toString (i + 1) = (Label.opened l).1,
      answer (transcript.mapMember Challenge.nu "t") * opening.z ^ (key.circuitSize * i) = 0 := by
    refine Finset.sum_eq_zero fun i hi => ?_
    obtain ⟨hi, heq⟩ := Finset.mem_filter.mp hi
    exact absurd heq.symm (Label.opened_ne_quotientPiece h.composable.width
      (h.composable.mem_vocabulary hl) (Finset.mem_range.mp hi))
  rw [hc, Option.getD_some, if_neg (by simp [hunrolled]), zero_add, hquotient, add_zero,
    sum_weight_eq h.composable _ hl hshift] at hcoefficient
  rw [hc, hcoefficient]

/-- **A batch opens every commitment once at each of its points.** -/
theorem opensOnce (h : opening.Batches variant key transcript composition) :
    opening.OpensOnce variant key composition (fun l => answer (transcript.mapMember Challenge.nu l))
      (fun l => answer (transcript.evaluation l)) := by
  have hlabels := h.composable.toFinset_familyEvaluations
  refine ⟨?_, fun L => ?_, fun L => ?_, h.vanishing_ne_zero, ?_, fun hunrolled l hl hshift => ?_⟩
  · intro l hl l' hl' heq
    exact h.composable.opened_injOn (h.composable.mem_familyEvaluations_iff.mpr hl)
      (h.composable.mem_familyEvaluations_iff.mpr hl') heq
  · rw [h.coefficient, hlabels, Finset.filter_filter]
    rfl
  · simp only [h.absent, h.composable.mem_familyEvaluations_iff, and_imp]
  · rw [h.evaluation, ← List.sum_toFinset _ variant.nodup_familyEvaluations, hlabels, linearisationValue,
      mul_ite, mul_zero, mul_assoc (answer (transcript.mapMember Challenge.nu "t"))]
    rfl
  · rw [Variant.evaluationLabels_of_unrolled hunrolled] at hl ⊢
    exact ⟨h.find?_composition hunrolled hl hshift, h.find?_of_unrolled hunrolled hl hshift⟩

end Batches

end BatchOpening

/-- **Every committed polynomial is opened exactly once at each point.** -/
theorem batchOpening_opensOnce {opening : BatchOpening}
    (h : batchOpening variant key transcript = .ok opening) :
    ∃ (composition : Composition) (nu value : String → Scalar),
      compose variant key transcript = .ok composition
      ∧ transcript.challenge Challenge.point = .ok opening.z
      ∧ transcript.challenge Challenge.separator = .ok opening.separator
      ∧ (∀ l ∈ "t" :: variant.evaluationLabels, transcript.mapMember Challenge.nu l = .ok (nu l))
      ∧ (∀ l ∈ variant.evaluationLabels, transcript.evaluation l = .ok (value l))
      ∧ opening.OpensOnce variant key composition nu value := by
  obtain ⟨composition, hbatch⟩ := batchOpening_eq_ok h
  refine ⟨composition, fun l => answer (transcript.mapMember Challenge.nu l),
    fun l => answer (transcript.evaluation l), hbatch.compose, hbatch.point, hbatch.separator,
    fun l hl => ?_, fun l hl => ?_, hbatch.opensOnce⟩
  · obtain ⟨nu, hnu⟩ := hbatch.nu l hl
    exact eq_ok_answer hnu
  · obtain ⟨value, hvalue⟩ := hbatch.evaluated l hl
    exact eq_ok_answer hvalue

/-- The unrolled turbo variant, where raw and shifted openings meet in one term. -/
theorem batchOpening_opensOnce_turboUnrolled :
    ∃ (opening : BatchOpening) (composition : Composition) (nu value : String → Scalar),
      batchOpening (.ofTag .turboUnrolled) (.small 4 1) (.small (.ofTag .turboUnrolled)) = .ok opening
      ∧ opening.OpensOnce (.ofTag .turboUnrolled) (VerificationKey.small 4 1) composition nu value := by
  obtain ⟨opening, h⟩ : ∃ opening, batchOpening (.ofTag .turboUnrolled) (.small 4 1)
      (.small (.ofTag .turboUnrolled)) = .ok opening := exists_ok_of_isOk (by decide +kernel)
  obtain ⟨composition, nu, value, -, -, -, -, -, hopens⟩ := batchOpening_opensOnce h
  exact ⟨opening, composition, nu, value, h, hopens⟩

end PlonkVerifier
