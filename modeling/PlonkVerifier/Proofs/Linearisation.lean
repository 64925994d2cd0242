import Mathlib
import PlonkVerifier.Proofs.Composition

/-!
# Proofs/Linearisation — linearised and unrolled composition compute the same identity

A linearised composition leaves the selectors, the grand product and the last permutation polynomial committed.
Replacing each of these commitments by the evaluation that the unrolled variant opens for it gives back the full
identity (`linearised_eq_unrolled`).

The bridge is `Family.exists_selected`: the committed part of a linearised constraint is a list of multiples of
*evaluations*, each among those the unrolled family opens itself, and with them the constraint is whole.
-/

namespace PlonkVerifier

open scoped ScalarField

variable {G : Type} {key : VerificationKey G} {transcript : Transcript G}

/-! ## Selected evaluations -/

/-- Multiples of evaluations, as multiples of the commitments they open. -/
def atCommitments (selected : List (String × Scalar)) : List (String × Scalar) :=
  selected.map fun s => ((Label.opened s.1).1, s.2)

/-- The value of multiples of evaluations. -/
def evaluated (transcript : Transcript G) (selected : List (String × Scalar)) : Scalar :=
  (selected.map fun s => s.2 * answer (transcript.evaluation s.1)).sum

/-! ## One family -/

namespace GrandProduct

/-- **The constraint splits into its two committed coefficients and the remainder.** -/
theorem constraint_eq (gp : GrandProduct) (z sigma : Scalar) :
    gp.constraint z sigma = gp.zCoefficient * z + gp.sigmaCoefficient * sigma + gp.remainder := by
  rw [constraint, zCoefficient, sigmaCoefficient, remainder]
  ring

end GrandProduct

namespace Label

theorem opened_z : opened "z" = ("Z", false) := by decide +kernel

/-- The last permutation polynomial is opened under its own name. -/
theorem opened_lastSigma {width : ℕ} (hw : GateWidth width) :
    opened ("sigma_" ++ toString width) = ("SIGMA_" ++ toString width, false) := by
  rcases hw with rfl | rfl <;> decide +kernel

theorem lastSigma_mem_rawOpenings {width : ℕ} (hw : GateWidth width) (ids : Bool) :
    "sigma_" ++ toString width ∈ Family.permutation.rawOpenings width ⟨false, ids⟩ := by
  rcases hw with rfl | rfl <;> cases ids <;> decide +kernel

end Label

variable {ids : Bool} {base part full : Scalar} {terms : Terms}

/-- The permutation family: what linearisation leaves out of the scalar part is its terms at the evaluations. -/
theorem Permutation.exists_selected (hw : GateWidth key.programWidth)
    (hterms : linearisedTerms key base transcript ⟨true, ids⟩ = .ok terms)
    (hpart : scalarPart key transcript ⟨true, ids⟩ = .ok part)
    (hfull : scalarPart key transcript ⟨false, ids⟩ = .ok full) :
    ∃ selected, terms = .ofSummands (atCommitments selected)
      ∧ (∀ s ∈ selected, s.1 ∈ Family.permutation.rawOpenings key.programWidth ⟨false, ids⟩
        ∧ ∃ x, transcript.evaluation s.1 = .ok x)
      ∧ evaluated transcript selected + base * part = base * full := by
  obtain ⟨gp, hread, hterms⟩ := bind_eq_ok.mp hterms
  obtain ⟨-, rfl⟩ := Terms.addKeyed_eq_ok.mp hterms
  obtain ⟨gp', hread', hpart⟩ := bind_eq_ok.mp hpart
  obtain rfl : gp = gp' := Except.ok.inj (hread.symm.trans hread')
  obtain rfl := pure_eq_ok.mp hpart
  obtain ⟨gp', hread', hfull⟩ := bind_eq_ok.mp hfull
  obtain rfl : gp = gp' := Except.ok.inj (hread.symm.trans hread')
  obtain ⟨z, hz, hfull⟩ := bind_eq_ok.mp hfull
  obtain ⟨sigma, hsigma, hfull⟩ := bind_eq_ok.mp hfull
  obtain rfl := pure_eq_ok.mp hfull
  refine ⟨[("z", base * gp.zCoefficient),
    ("sigma_" ++ toString key.programWidth, base * gp.sigmaCoefficient)], ?_, ?_, ?_⟩
  · rw [atCommitments, List.map_cons, List.map_singleton, Label.opened_z, Label.opened_lastSigma hw]
    rfl
  · simp only [List.forall_mem_cons, List.not_mem_nil, false_implies, implies_true, and_true]
    exact ⟨⟨by simp [Family.rawOpenings], z, hz⟩, Label.lastSigma_mem_rawOpenings hw ids, sigma, hsigma⟩
  · simp only [evaluated, List.map_cons, List.map_nil, List.sum_cons, List.sum_nil, hz, hsigma,
      answer_ok, gp.constraint_eq]
    ring

/-- The selectors of a sum of products, as multiples of their evaluations. -/
theorem Arithmetic.exists_selected {selectors : List (String × String)} {scale factor : Scalar}
    {multipliers : List Scalar} (raw : List String)
    (hopened : ∀ s ∈ selectors, (Label.opened s.1).1 = s.2) (hraw : ∀ s ∈ selectors, s.1 ∈ raw)
    (hterms : selectorTerms key scale selectors multipliers = .ok terms)
    (hsum : selectorSum transcript selectors multipliers = .ok full) (hscale : scale = base * factor) :
    ∃ selected, terms = .ofSummands (atCommitments selected)
      ∧ (∀ s ∈ selected, s.1 ∈ raw ∧ ∃ x, transcript.evaluation s.1 = .ok x)
      ∧ evaluated transcript selected = base * (factor * full) := by
  obtain ⟨rfl, hreads⟩ := selectorSum_eq_ok hsum
  refine ⟨(selectors.zip multipliers).map fun x => (x.1.1, scale * x.2), ?_, ?_, ?_⟩
  · rw [selectorTerms_eq_ok hterms, atCommitments, List.map_map]
    refine congrArg _ (List.map_congr_left fun x hx => ?_)
    rw [Function.comp_apply, hopened _ (List.of_mem_zip hx).1]
  · rintro s hs
    obtain ⟨x, hx, rfl⟩ := List.mem_map.mp hs
    exact ⟨hraw _ (List.of_mem_zip hx).1, hreads x hx⟩
  · rw [evaluated, List.map_map, ← mul_assoc, ← hscale, ← List.sum_map_mul_left]
    refine congrArg _ (List.map_congr_left fun x _ => ?_)
    rw [Function.comp_apply]
    ring

namespace Family

variable {family : Family}

/-- A gate family: linearisation leaves out the selector, which comes back as the only term. -/
theorem exists_selected_of_gate {gate : Gate} (hgate : family.gate? = some gate)
    (hterms : family.linearisedTerms key base transcript ⟨true, ids⟩ = .ok terms)
    (hpart : family.scalarPart key transcript ⟨true, ids⟩ = .ok part)
    (hfull : family.scalarPart key transcript ⟨false, ids⟩ = .ok full) (width : ℕ) :
    ∃ selected, terms = .ofSummands (atCommitments selected)
      ∧ (∀ s ∈ selected, s.1 ∈ family.rawOpenings width ⟨false, ids⟩
        ∧ ∃ x, transcript.evaluation s.1 = .ok x)
      ∧ evaluated transcript selected + base * part = base * full := by
  rw [linearisedTerms_of_gate hgate] at hterms
  rw [scalarPart_of_gate hgate] at hpart hfull
  obtain ⟨identity, hidentity, hterms⟩ := bind_eq_ok.mp hterms
  obtain ⟨-, rfl⟩ := Terms.addKeyed_eq_ok.mp hterms
  obtain rfl : 0 = part := Except.ok.inj hpart
  obtain ⟨selector, hselector, hfull⟩ := bind_eq_ok.mp hfull
  obtain ⟨identity', hidentity', hfull⟩ := bind_eq_ok.mp hfull
  obtain rfl : identity = identity' := Except.ok.inj (hidentity.symm.trans hidentity')
  obtain rfl := pure_eq_ok.mp hfull
  refine ⟨[(gate.selector, base * identity)], rfl, ?_, ?_⟩
  · simp [rawOpenings_of_gate hgate, hselector]
  · simp only [evaluated, List.map_singleton, List.sum_singleton, hselector, answer_ok]
    ring

/-- **The committed part of a linearised constraint is a combination of evaluations that the unrolled family
opens, and completes the scalar part to the unrolled constraint.** -/
theorem exists_selected (hw : GateWidth key.programWidth)
    (hterms : family.linearisedTerms key base transcript ⟨true, ids⟩ = .ok terms)
    (hpart : family.scalarPart key transcript ⟨true, ids⟩ = .ok part)
    (hfull : family.scalarPart key transcript ⟨false, ids⟩ = .ok full) :
    ∃ selected, terms = .ofSummands (atCommitments selected)
      ∧ (∀ s ∈ selected, s.1 ∈ family.rawOpenings key.programWidth ⟨false, ids⟩
        ∧ ∃ x, transcript.evaluation s.1 = .ok x)
      ∧ evaluated transcript selected + base * part = base * full := by
  cases hgate : family.gate? with
  | some gate => exact exists_selected_of_gate hgate hterms hpart hfull _
  | none =>
    cases family with
    | permutation => exact Permutation.exists_selected hw hterms hpart hfull
    | arithmetic =>
      obtain rfl : 0 = part := Except.ok.inj hpart
      obtain ⟨ms, hms, hterms⟩ := bind_eq_ok.mp hterms
      obtain ⟨ms', hms', hfull⟩ := bind_eq_ok.mp hfull
      obtain rfl : ms = ms' := Except.ok.inj (hms.symm.trans hms')
      obtain ⟨selected, hsum, hmem, hvalue⟩ := Arithmetic.exists_selected
        (arithmetic.rawOpenings key.programWidth ⟨false, ids⟩) (by decide +kernel)
        (fun s hs => List.mem_map_of_mem hs) hterms hfull (mul_one base).symm
      exact ⟨selected, hsum, hmem, by rw [hvalue]; ring⟩
    | turboArithmetic =>
      obtain rfl : 0 = part := Except.ok.inj hpart
      obtain ⟨ms, hms, hterms⟩ := bind_eq_ok.mp hterms
      obtain ⟨q, hq, hterms⟩ := bind_eq_ok.mp hterms
      obtain ⟨ms', hms', hfull⟩ := bind_eq_ok.mp hfull
      obtain rfl : ms = ms' := Except.ok.inj (hms.symm.trans hms')
      obtain ⟨sum, hsum, hfull⟩ := bind_eq_ok.mp hfull
      obtain ⟨q', hq', hfull⟩ := bind_eq_ok.mp hfull
      obtain rfl : q = q' := Except.ok.inj (hq.symm.trans hq')
      obtain rfl := pure_eq_ok.mp hfull
      obtain ⟨selected, hterms, hmem, hvalue⟩ := Arithmetic.exists_selected
        (turboArithmetic.rawOpenings key.programWidth ⟨false, ids⟩) (by decide +kernel)
        (fun s hs => List.mem_cons_of_mem _ (List.mem_map_of_mem hs)) hterms hsum rfl
      exact ⟨selected, hterms, hmem, by rw [hvalue]; ring⟩
    | _ => simp [gate?] at hgate

end Family

/-! ## Transcripts of the two variants -/

/-- Transcripts that answer the queries of a scalar pass alike. -/
structure Transcript.Agrees (transcript transcript' : Transcript G) : Prop where
  challenge : ∀ label, transcript.challenge label = transcript'.challenge label
  evaluation : ∀ label, transcript.evaluation label = transcript'.evaluation label
  vector : ∀ label, transcript.vector label = transcript'.vector label

namespace Transcript.Agrees

variable {transcript' : Transcript G}

/-- Transcripts that agree give a family one scalar part. -/
theorem scalarPart_eq (h : transcript.Agrees transcript') (family : Family) (mode : Mode) :
    family.scalarPart key transcript mode = family.scalarPart key transcript' mode := by
  obtain ⟨hash, bytes, challenge, mapMember, evaluation, vector, commitment⟩ := transcript
  obtain ⟨hash', bytes', challenge', mapMember', evaluation', vector', commitment'⟩ := transcript'
  obtain rfl : challenge = challenge' := funext h.challenge
  obtain rfl : evaluation = evaluation' := funext h.evaluation
  obtain rfl : vector = vector' := funext h.vector
  cases family <;> rfl

end Transcript.Agrees

/-! ## All families -/

namespace Composition

variable {transcript' : Transcript G} {linearised unrolled linearised' unrolled' : Composition}

/-- The two compositions of the same families: what the linearised one leaves committed has, at evaluations
among `raw`, the value by which the other is ahead. -/
structure Linearises (transcript : Transcript G) (raw : List String)
    (linearised unrolled : Composition) : Prop where
  power : linearised.power = unrolled.power
  exists_selected : ∃ selected, linearised.terms = .ofSummands (atCommitments selected)
    ∧ (∀ s ∈ selected, s.1 ∈ raw ∧ ∃ x, transcript.evaluation s.1 = .ok x)
    ∧ evaluated transcript selected + linearised.r₀ = unrolled.r₀

/-- **One family keeps the two compositions in step.** -/
theorem Linearises.apply {raw : List String} {family : Family} (hw : GateWidth key.programWidth)
    (hagrees : transcript.Agrees transcript') (h : Linearises transcript raw linearised unrolled)
    (hc : linearised.apply key transcript ⟨true, ids⟩ family = .ok linearised')
    (hc' : unrolled.apply key transcript' ⟨false, ids⟩ family = .ok unrolled') :
    Linearises transcript (raw ++ family.rawOpenings key.programWidth ⟨false, ids⟩)
      linearised' unrolled' := by
  obtain ⟨terms, part, hterms, hpart, rfl⟩ := apply_eq_ok.mp hc
  obtain ⟨terms', full, -, hfull, rfl⟩ := apply_eq_ok.mp hc'
  rw [← hagrees.scalarPart_eq] at hfull
  obtain ⟨selected, hsum, hmem, hvalue⟩ := h.exists_selected
  obtain ⟨fresh, rfl, hfresh, hnew⟩ := Family.exists_selected hw hterms hpart hfull
  refine ⟨by rw [extend, extend, h.power], selected ++ fresh, ?_, ?_, ?_⟩
  · rw [extend, hsum, Terms.merge_ofSummands, atCommitments, atCommitments, atCommitments,
      List.map_append]
  · refine List.forall_mem_append.mpr ⟨fun s hs => ?_, fun s hs => ?_⟩
    · exact ⟨List.mem_append_left _ (hmem s hs).1, (hmem s hs).2⟩
    · exact ⟨List.mem_append_right _ (hfresh s hs).1, (hfresh s hs).2⟩
  · rw [extend, extend, ← hvalue, ← h.power, evaluated, List.map_append, List.sum_append]
    simp only [evaluated] at hnew ⊢
    linear_combination hnew

/-- **Runs over the same families stay together.** -/
theorem linearises_of_run {power : AlphaPower} {families : List Family}
    (hw : GateWidth key.programWidth) (hagrees : transcript.Agrees transcript')
    (hc : families.foldlM (Composition.apply key transcript ⟨true, ids⟩) (.start power)
      = .ok linearised)
    (hc' : families.foldlM (Composition.apply key transcript' ⟨false, ids⟩) (.start power)
      = .ok unrolled) :
    Linearises transcript (families.flatMap (·.rawOpenings key.programWidth ⟨false, ids⟩))
      linearised unrolled := by
  refine foldlM_invariant (fun done c => ∀ c',
      done.foldlM (Composition.apply key transcript' ⟨false, ids⟩) (.start power) = .ok c' →
        Linearises transcript (done.flatMap (·.rawOpenings key.programWidth ⟨false, ids⟩)) c c')
    hc ?_ ?_ unrolled hc'
  · intro c' hc'
    obtain rfl := pure_eq_ok.mp hc'
    exact ⟨rfl, [], rfl, by simp, add_zero 0⟩
  · intro done family c d _ _ ih hd d' hd'
    obtain ⟨c', hdone, hfamily⟩ := foldlM_append_eq_ok.mp hd'
    rw [List.flatMap_append, List.flatMap_singleton]
    exact (ih c' hdone).apply hw hagrees hd (foldlM_singleton_eq_ok.mp hfamily)

end Composition

/-! ## The identity -/

/-- A linearised variant beside the one that evaluates the same families without linearisation. -/
structure Variant.UnrollsTo (variant unrolled : Variant) : Prop where
  linearised : variant.linearised = true
  not_linearised : unrolled.linearised = false
  families : unrolled.families = variant.families
  programWidth : unrolled.programWidth = variant.programWidth
  identityPolynomials : unrolled.identityPolynomials = variant.identityPolynomials

namespace Variant.UnrollsTo

variable {variant unrolled : Variant} {transcript' : Transcript G} {power : AlphaPower}
  {c c' : Composition}

/-- Compositions of twins are in step from any power on. -/
theorem linearises (htwin : variant.UnrollsTo unrolled) (hagrees : transcript.Agrees transcript')
    (hc : composeFrom variant key transcript power = .ok c)
    (hc' : composeFrom unrolled key transcript' power = .ok c') :
    c.Linearises transcript unrolled.rawOpenings c' := by
  obtain ⟨-, hrun⟩ := composeFrom_eq_ok.mp hc
  obtain ⟨hfits, hrun'⟩ := composeFrom_eq_ok.mp hc'
  have hmode : variant.mode = ⟨true, variant.identityPolynomials⟩ := by
    rw [mode, htwin.linearised]
  have hmode' : unrolled.mode = ⟨false, variant.identityPolynomials⟩ := by
    rw [mode, htwin.not_linearised, htwin.identityPolynomials]
  rw [rawOpenings, htwin.families, ← hfits.width, hmode']
  rw [hmode] at hrun
  rw [hmode', htwin.families] at hrun'
  exact Composition.linearises_of_run hfits.gateWidth hagrees hrun hrun'

end Variant.UnrollsTo

/-- **Linearised and unrolled composition compute the same identity.**  Each commitment of the linearised
composition is opened by exactly one unshifted evaluation of the unrolled variant, and at these evaluations the
composition has the value of the unrolled one. -/
theorem linearised_eq_unrolled {variant unrolled : Variant} {transcript' : Transcript G}
    {power : AlphaPower} {c c' : Composition} (htwin : variant.UnrollsTo unrolled)
    (hagrees : transcript.Agrees transcript')
    (hc : composeFrom variant key transcript power = .ok c)
    (hc' : composeFrom unrolled key transcript' power = .ok c') :
    (∀ L ∈ c.terms.labels,
      ∃! l, l ∈ unrolled.evaluationLabels ∧ Label.opened l = (L, false))
    ∧ ∃ e : String → Scalar,
      (∀ L ∈ c.terms.labels, ∀ l ∈ unrolled.evaluationLabels, Label.opened l = (L, false) →
        transcript'.evaluation l = .ok (e L))
      ∧ c.r₀ + c.terms.value e = c'.r₀ := by
  have hvalid : unrolled.Composable := (composeFrom_eq_ok.mp hc').1.composable
  obtain ⟨selected, hterms, hmem, hvalue⟩ := (htwin.linearises hagrees hc hc').exists_selected
  have hselected : ∀ L ∈ c.terms.labels, ∃ s ∈ selected, (Label.opened s.1).1 = L := by
    intro L hL
    rw [hterms, Terms.mem_labels_ofSummands] at hL
    obtain ⟨_, hx, rfl⟩ := hL
    obtain ⟨s, hs, rfl⟩ := List.mem_map.mp hx
    exact ⟨s, hs, rfl⟩
  rw [Variant.evaluationLabels_of_unrolled htwin.not_linearised]
  refine ⟨fun L hL => ?_, fun L => answer (transcript.evaluation (unrolled.openingOf L)),
    fun L hL l hl hLl => ?_, ?_⟩
  · obtain ⟨s, hs, rfl⟩ := hselected L hL
    have hopens := hvalid.opened_eq_iff_of_mem_rawOpenings (hmem s hs).1
    exact ⟨s.1, (hopens s.1).mpr rfl, fun l hl => (hopens l).mp hl⟩
  · obtain ⟨s, hs, rfl⟩ := hselected L hL
    obtain rfl := (hvalid.opened_eq_iff_of_mem_rawOpenings (hmem s hs).1 l).mp ⟨hl, hLl⟩
    obtain ⟨x, hx⟩ := (hmem s hs).2
    simp only [hvalid.openingOf_opened (hmem s hs).1, ← hagrees.evaluation, hx, answer_ok]
  · rw [← hvalue, add_comm, hterms, Terms.value_ofSummands, atCommitments, List.map_map, evaluated]
    refine congrArg (List.sum · + c.r₀) (List.map_congr_left fun s hs => ?_)
    rw [Function.comp_apply, hvalid.openingOf_opened (hmem s hs).1, smul_eq_mul]

/-- The turbo variant against its unrolled twin. -/
theorem linearised_eq_unrolled_turbo :
    ∃ c c', composeFrom (.ofTag .turbo) (.small 4 1) (.small (.ofTag .turbo)) (.unit 2) = .ok c
      ∧ composeFrom { Variant.ofTag .turbo with linearised := false } (.small 4 1)
          (.small (.ofTag .turbo)) (.unit 2) = .ok c'
      ∧ ∃ e : String → Scalar, c.r₀ + c.terms.value e = c'.r₀ := by
  obtain ⟨c, hc⟩ : ∃ c, composeFrom (.ofTag .turbo) (.small 4 1) (.small (.ofTag .turbo)) (.unit 2)
      = .ok c := exists_ok_of_isOk (by decide +kernel)
  obtain ⟨c', hc'⟩ : ∃ c', composeFrom { Variant.ofTag .turbo with linearised := false } (.small 4 1)
      (.small (.ofTag .turbo)) (.unit 2) = .ok c' := exists_ok_of_isOk (by decide +kernel)
  have htwin : Variant.UnrollsTo (.ofTag .turbo) { Variant.ofTag .turbo with linearised := false } :=
    ⟨rfl, rfl, rfl, rfl, rfl⟩
  obtain ⟨-, e, -, hvalue⟩ := linearised_eq_unrolled htwin
    ⟨fun _ => rfl, fun _ => rfl, fun _ => rfl⟩ hc hc'
  exact ⟨c, c', hc, hc', e, hvalue⟩

end PlonkVerifier
