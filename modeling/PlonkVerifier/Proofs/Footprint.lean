import Mathlib
import PlonkVerifier.Proofs.Pairing
import PlonkVerifier.Proofs.Queries

/-!
# Proofs/Footprint — verification asks for what a variant declares

The queries of a variant are those of its families and the few of composition and opening: `Variant.queries`.  No
stage of verification makes another one, and a formal sum that is looked up names commitments of the key or of
`Label.proverCommitments` only (`Terms.Held`).  So verification does not tell two transcripts apart that agree on
the declared messages (`verification_footprint`): whatever else the prover says, and under whatever label of the
key, it is not heard.
-/

namespace PlonkVerifier

open scoped ScalarField

variable {G : Type} {E : VerifierError → Prop}

/-! ## What a variant declares -/

/-- A family that leaves selectors committed asks for no evaluation that it would not ask for otherwise. -/
theorem Family.requiredEvaluations_subset_unrolled {width : ℕ} (hw : GateWidth width) (family : Family)
    (mode : Mode) :
    family.requiredEvaluations width mode ⊆ family.requiredEvaluations width ⟨false, mode.identityPolynomials⟩ := by
  have h : ∀ (family : Family) (mode : Mode), ∀ w ∈ [3, 4],
      family.requiredEvaluations w mode ⊆ family.requiredEvaluations w ⟨false, mode.identityPolynomials⟩ := by
    decide +kernel
  exact h family mode width hw.mem

namespace Variant

/-- The variant that evaluates its constraints without linearisation. -/
def unrolled (variant : Variant) : Variant := { variant with linearised := false }

/-- What a variant asks for. -/
def queries (variant : Variant) : Queries where
  challenges := [Challenge.alpha, Challenge.beta, Challenge.gamma, Challenge.point, Challenge.separator]
    ++ variant.separationChallenges
  members := "t" :: variant.evaluationLabels
  evaluations := variant.evaluationLabels
  keyed := Label.keyCommitments variant.unrolled.evaluationLabels

theorem familyEvaluations_subset (variant : Variant) : variant.familyEvaluations ⊆ variant.evaluationLabels :=
  List.subset_append_left _ _

/-- Unrolling only adds evaluations. -/
theorem familyEvaluations_subset_unrolled {variant : Variant} (hw : GateWidth variant.programWidth) :
    variant.familyEvaluations ⊆ variant.unrolled.familyEvaluations := by
  intro l hl
  obtain ⟨family, hfamily, hl⟩ := mem_familyEvaluations.mp hl
  exact mem_familyEvaluations.mpr ⟨family, hfamily, family.requiredEvaluations_subset_unrolled hw _ hl⟩

/-- **Families ask for nothing that their variant does not declare.** -/
theorem family_queries_within {variant : Variant} (hw : GateWidth variant.programWidth) {family : Family}
    (hfamily : family ∈ variant.families) :
    (family.queries variant.programWidth variant.mode).Within variant.queries := by
  have hevaluations : family.requiredEvaluations variant.programWidth variant.mode ⊆ variant.evaluationLabels :=
    fun l hl => variant.familyEvaluations_subset (mem_familyEvaluations.mpr ⟨family, hfamily, hl⟩)
  have hseparation : ∀ l, family.separation? = some l → l ∈ variant.separationChallenges :=
    fun l hl => List.mem_filterMap.mpr ⟨family, hfamily, hl⟩
  refine ⟨fun l hl => ?_, fun l hl => ?_, hevaluations, fun L hL => ?_⟩
  · cases family with
    | permutation =>
      have hpermutation := hseparation Challenge.permutation rfl
      simp only [Family.queries, Family.scalarQueries, List.mem_cons, List.not_mem_nil, or_false] at hl
      rcases hl with rfl | rfl | rfl | rfl <;> simp [queries, hpermutation]
    | _ => exact List.mem_append_right _ (hseparation l (Option.mem_toList.mp hl))
  · exact List.mem_cons_of_mem _ (hevaluations (family.rawOpenings_subset hw _ hl))
  · obtain ⟨hL, hprover⟩ := List.mem_filter.mp hL
    obtain ⟨l, hl, rfl⟩ := List.mem_map.mp hL
    have hunrolled : l ∈ variant.unrolled.evaluationLabels :=
      variant.unrolled.familyEvaluations_subset (mem_familyEvaluations.mpr ⟨family, hfamily, hl⟩)
    exact List.mem_filter.mpr ⟨List.mem_map_of_mem hunrolled, hprover⟩

namespace Composable

variable {variant : Variant} {l : String}

/-- A prover commitment that the families open is among those that the variant has sent. -/
theorem mem_proverCommitments (h : variant.Composable) (hl : l ∈ variant.familyEvaluations)
    (hprover : Label.isProverCommitment (Label.opened l).1 = true) :
    (Label.opened l).1 ∈ Label.proverCommitments variant.programWidth := by
  obtain ⟨family, hfamily, hl⟩ := mem_familyEvaluations.mp hl
  exact Family.mem_proverCommitments h.width (h.minWidth_le family hfamily) hl hprover

/-- A polynomial the families open and the prover does not send is asked of the key. -/
theorem mem_keyed (h : variant.Composable) (hl : l ∈ variant.familyEvaluations)
    (hprover : Label.isProverCommitment (Label.opened l).1 = false) : (Label.opened l).1 ∈ variant.queries.keyed :=
  Label.mem_keyCommitments (variant.unrolled.familyEvaluations_subset
    (familyEvaluations_subset_unrolled h.width hl)) hprover

end Composable

end Variant

variable {variant : Variant} {key : VerificationKey G} {transcript transcript' : Transcript G}

/-! ## Composition -/

/-- **A step of the composition makes declared queries only.** -/
theorem Composition.apply_coincide (hfits : Fits variant key transcript)
    (h : Supplied E variant.queries key transcript transcript') {family : Family}
    (hfamily : family ∈ variant.families) {composition : Composition} (hheld : composition.terms.Held key) :
    Coincide E (fun c => c.terms.Held key) (apply key transcript variant.mode composition family)
      (apply key transcript' variant.mode composition family) := by
  have hmin : family.minWidth ≤ key.programWidth := by
    rw [hfits.width]
    exact hfits.composable.minWidth_le family hfamily
  have hsupplied := h.restrict (Variant.family_queries_within hfits.composable.width hfamily)
  rw [← hfits.width] at hsupplied
  rw [apply_eq, apply_eq]
  refine (Family.committedPart_coincide hfits.consistent hfits.gateWidth hmin hsupplied _).bind
    fun terms _ hterms => ?_
  have hscalar := hsupplied.restrict (family.scalarQueries_within _ _)
  refine (Family.scalarPart_coincide hfits.consistent hfits.gateWidth hmin hscalar).bind fun part _ _ => ?_
  exact .ok (hheld.merge hterms)

/-- Two transcripts of one scheme that answer the queries of a variant alike, where every cause of failure before
the pairing check is in `E`. -/
structure Declared (E : VerifierError → Prop) (variant : Variant) (key : VerificationKey G)
    (transcript transcript' : Transcript G) : Prop
    extends Supplied E variant.queries key transcript transcript' where
  scheme : (transcript.hash, transcript.challengeBytes) = (transcript'.hash, transcript'.challengeBytes)
  configuration : ∀ e, checkConfiguration variant key transcript = .error e → E e

namespace Declared

/-- More causes of failure. -/
theorem imp_error {E' : VerifierError → Prop} (h : Declared E variant key transcript transcript')
    (hE : ∀ e, E e → E' e) : Declared E' variant key transcript transcript' where
  challenge l hl := (h.challenge l hl).imp_error hE
  member l hl := (h.member l hl).imp_error hE
  evaluation l hl := (h.evaluation l hl).imp_error hE
  publicInputs := h.publicInputs.imp_error hE
  inputCount inputs hinputs hcount := hE _ (h.inputCount inputs hinputs hcount)
  keyed L hL hnone := hE _ (h.keyed L hL hnone)
  division hdegenerate := hE _ (h.division hdegenerate)
  scheme := h.scheme
  configuration e he := hE e (h.configuration e he)

theorem checkConfiguration_coincide (h : Declared E variant key transcript transcript') :
    Coincide E (fun _ => Fits variant key transcript) (checkConfiguration variant key transcript)
      (checkConfiguration variant key transcript') := by
  have hsame : checkConfiguration variant key transcript' = checkConfiguration variant key transcript := by
    rw [checkConfiguration, checkConfiguration, h.scheme]
  rw [hsame]
  exact (Coincide.refl h.configuration).mono fun _ hok => checkConfiguration_eq_ok.mp hok

/-- The composition sees no difference, from any power, and its terms resolve in the key or the proof. -/
theorem composeFrom_coincide (h : Declared E variant key transcript transcript') (power : AlphaPower) :
    Coincide E (fun c => Fits variant key transcript ∧ c.terms.Held key)
      (composeFrom variant key transcript power) (composeFrom variant key transcript' power) := by
  refine h.checkConfiguration_coincide.bind fun _ _ hfits => ?_
  refine Coincide.mono (Coincide.foldlM Terms.Held.empty fun family hfamily composition hheld => ?_)
    fun _ hheld => ⟨hfits, hheld⟩
  exact Composition.apply_coincide hfits h.toSupplied hfamily hheld

/-- The five challenges every variant draws are declared. -/
theorem challenge_mem (h : Declared E variant key transcript transcript') {l : String}
    (hl : l ∈ [Challenge.alpha, Challenge.beta, Challenge.gamma, Challenge.point, Challenge.separator]) :
    Coincide E (fun _ => True) (transcript.challenge l) (transcript'.challenge l) :=
  h.challenge l (List.mem_append_left _ hl)

theorem compose_coincide (h : Declared E variant key transcript transcript') :
    Coincide E (fun c => Fits variant key transcript ∧ c.terms.Held key) (compose variant key transcript)
      (compose variant key transcript') :=
  (h.challenge_mem (by simp)).bind fun alpha _ _ => h.composeFrom_coincide (.ofChallenge alpha)

end Declared

/-! ## Opening -/

namespace BatchOpening

theorem linearisation_coincide (h : Declared E variant key transcript transcript') {composition : Composition}
    (hheld : composition.terms.Held key) :
    Coincide E (fun x => x.1.Held key) (linearisation variant transcript composition)
      (linearisation variant transcript' composition) := by
  rw [linearisation, linearisation]
  split
  · next hlinearised =>
    have hr : "r" ∈ variant.evaluationLabels := by simp [Variant.evaluationLabels, hlinearised]
    refine (h.evaluation "r" hr).bind fun r _ _ => ?_
    exact (h.member "r" (List.mem_cons_of_mem _ hr)).bind fun nu _ _ => .ok (hheld.scale nu)
  · exact .ok hheld

/-- The pieces of the quotient are sent by the prover. -/
theorem held_addQuotient {terms : Terms} (hheld : terms.Held key) (nu zn : Scalar) {width : ℕ}
    (hwidth : width ≤ key.programWidth) : (addQuotient terms width nu zn).Held key := by
  rw [addQuotient]
  induction width with
  | zero => exact hheld
  | succ n ih =>
    have hpiece : "T_" ++ toString (n + 1) ∈ Label.proverCommitments key.programWidth :=
      List.mem_append_right _ (List.mem_map_of_mem (List.mem_range.mpr (by omega)))
    rw [List.range_succ, List.foldl_append]
    exact (ih (by omega)).add (.inr hpiece) _

/-- **The loop over the evaluations makes declared queries only.** -/
theorem addEvaluation_coincide (h : Declared E variant key transcript transcript')
    (hfits : Fits variant key transcript) (separator : Scalar) (opened : List String) {l : String}
    (hl : l ∈ variant.familyEvaluations) {sum : Terms × Scalar} (hheld : sum.1.Held key) :
    Coincide E (fun x => x.1.Held key) (addEvaluation key transcript separator opened sum l)
      (addEvaluation key transcript' separator opened sum l) := by
  have hdeclared := variant.familyEvaluations_subset hl
  simp only [addEvaluation]
  refine (h.member l (List.mem_cons_of_mem _ hdeclared)).bind fun nu _ _ => ?_
  refine (h.evaluation l hdeclared).bind fun value _ _ => ?_
  generalize (if (Label.opened l).2 = true then nu * separator else nu) = coefficient
  split
  · exact .ok hheld
  · cases hprover : Label.isProverCommitment (Label.opened l).1 with
    | true =>
      have hsent := hfits.composable.mem_proverCommitments hl hprover
      rw [← hfits.width] at hsent
      exact .ok (hheld.add (.inr hsent) _)
    | false =>
      have hkeyed := h.keyed _ (hfits.composable.mem_keyed hl hprover)
      exact (hheld.addKeyed_coincide hkeyed _).bind fun terms _ hterms => .ok hterms

end BatchOpening

/-- **A batch is made of declared queries**, and opens commitments that can be looked up. -/
theorem Declared.batchOpening_coincide (h : Declared E variant key transcript transcript') :
    Coincide E (fun opening => Fits variant key transcript ∧ opening.terms.Held key)
      (batchOpening variant key transcript) (batchOpening variant key transcript') := by
  rw [batchOpening, batchOpening]
  refine h.compose_coincide.bind fun composition _ hcomposition => ?_
  obtain ⟨hfits, hheld⟩ := hcomposition
  refine (h.challenge_mem (l := Challenge.point) (by simp)).bind fun z hz _ => ?_
  refine (h.challenge_mem (l := Challenge.separator) (by simp)).bind fun separator _ _ => ?_
  refine (BatchOpening.linearisation_coincide h hheld).bind fun x _ hx => ?_
  obtain ⟨terms, evaluation, identity⟩ := x
  refine (Domain.invert_coincide fun hzero => ?_).bind fun inverse _ _ => ?_
  · rw [Domain.vanishing_eq, sub_eq_zero] at hzero
    exact h.division_of_pow_eq_one hz hzero
  refine (h.member "t" List.mem_cons_self).bind fun nu _ _ => ?_
  rw [hfits.composable.filter_evaluationLabels]
  have hquotient := BatchOpening.held_addQuotient hx nu (Residue.pow z key.circuitSize) hfits.width.ge
  refine (Coincide.foldlM (Q := fun sum : Terms × Scalar => sum.1.Held key) hquotient
    fun l hl sum hsum => ?_).bind fun sum _ hsum => .ok ⟨hfits, hsum⟩
  exact BatchOpening.addEvaluation_coincide h hfits separator _ hl hsum

/-! ## The pairing check -/

section Check

/-- Answers alike for all commitments that the prover sends. -/
abbrev CommitmentsCoincide (E : VerifierError → Prop) (width : ℕ) (transcript transcript' : Transcript G) : Prop :=
  ∀ L ∈ Label.proverCommitments width,
    Coincide E (fun _ => True) (transcript.commitment L) (transcript'.commitment L)

/-- **A commitment of the key is not looked up in the transcript.** -/
theorem Held.lookup_coincide {L : String} (hheld : Held key L)
    (hcommitment : CommitmentsCoincide E key.programWidth transcript transcript') :
    Coincide E (fun _ => True) (Terms.lookup key transcript L) (Terms.lookup key transcript' L) := by
  rw [Terms.lookup, Terms.lookup]
  cases hfind : key.commitments.find? L with
  | some g => exact .ok trivial
  | none =>
    refine hcommitment L (hheld.resolve_left fun hkey => ?_)
    obtain ⟨g, hg⟩ := hkey
    rw [hfind] at hg
    cases hg

variable [CommitmentGroup G]

/-- A map whose labels the key or the prover holds resolves alike. -/
theorem Terms.Held.evaluate_coincide {terms : Terms} (hheld : terms.Held key)
    (hcommitment : CommitmentsCoincide E key.programWidth transcript transcript') :
    Coincide E (fun _ => True) (terms.evaluate key transcript) (terms.evaluate key transcript') := by
  refine (Coincide.mapM fun term hterm => ?_).bind fun points _ _ => .ok trivial
  have hlabel : term.1 ∈ terms.labels := List.mem_map_of_mem hterm
  exact ((hheld _ hlabel).lookup_coincide hcommitment).bind fun point _ _ => .ok trivial

theorem BatchOpening.aggregate_coincide
    (hcommitment : CommitmentsCoincide E key.programWidth transcript transcript') {opening : BatchOpening}
    (hheld : opening.terms.Held key) :
    Coincide E (fun _ => True) (opening.aggregate key transcript) (opening.aggregate key transcript') := by
  refine (hheld.evaluate_coincide hcommitment).bind fun batch _ _ => ?_
  refine (hcommitment "PI_Z" (by simp [Label.proverCommitments])).bind fun proof _ _ => ?_
  exact (hcommitment "PI_Z_OMEGA" (by simp [Label.proverCommitments])).bind fun shiftedProof _ _ => .ok trivial

/-- **The points of the check come from the batch, the key and the commitments of the prover.** -/
theorem pairingInput_coincide
    (hopening : Coincide E (fun opening => Fits variant key transcript ∧ opening.terms.Held key)
      (batchOpening variant key transcript) (batchOpening variant key transcript'))
    (hcommitment : CommitmentsCoincide E variant.programWidth transcript transcript') :
    Coincide E (fun _ => True) (pairingInput variant key transcript) (pairingInput variant key transcript') := by
  refine hopening.bind fun opening _ hopens => ?_
  obtain ⟨hfits, hheld⟩ := hopens
  rw [← hfits.width] at hcommitment
  exact (BatchOpening.aggregate_coincide hcommitment hheld).bind fun points _ _ => .ok trivial

/-- **Verdicts coincide once the pairing inputs do.** -/
theorem verify_coincide {check : PairingInput G → Bool}
    (hinput : Coincide E (fun _ => True) (pairingInput variant key transcript)
      (pairingInput variant key transcript')) (hverification : E .verification) :
    Coincide E (fun _ => True) (verify variant key transcript check) (verify variant key transcript' check) := by
  refine hinput.bind fun input _ _ => ?_
  split
  · exact .ok trivial
  · exact .error hverification

end Check

/-! ## Noninterference -/

/-- Two transcripts that agree on all that a variant declares. -/
structure Transcript.AgreesOn (variant : Variant) (transcript transcript' : Transcript G) : Prop where
  hash : transcript.hash = transcript'.hash
  challengeBytes : transcript.challengeBytes = transcript'.challengeBytes
  challenge : ∀ l ∈ variant.queries.challenges, transcript.challenge l = transcript'.challenge l
  member : ∀ l ∈ variant.queries.members,
    transcript.mapMember Challenge.nu l = transcript'.mapMember Challenge.nu l
  evaluation : ∀ l ∈ variant.evaluationLabels, transcript.evaluation l = transcript'.evaluation l
  publicInputs : transcript.vector publicInputsLabel = transcript'.vector publicInputsLabel
  commitment : ∀ L ∈ Label.proverCommitments variant.programWidth,
    transcript.commitment L = transcript'.commitment L

/-- Equal answers coincide, whatever they are. -/
theorem Coincide.of_eq {ε α : Type} {x y : Except ε α} (h : x = y) :
    Coincide (fun _ => True) (fun _ => True) x y := by
  subst h
  exact .raised fun _ _ => trivial

/-- Transcripts that agree on the declared messages are nowhere told apart. -/
theorem Transcript.AgreesOn.declared (h : transcript.AgreesOn variant transcript') (key : VerificationKey G) :
    Declared (fun _ => True) variant key transcript transcript' where
  challenge l hl := .of_eq (h.challenge l hl)
  member l hl := .of_eq (h.member l hl)
  evaluation l hl := .of_eq (h.evaluation l hl)
  publicInputs := .of_eq h.publicInputs
  inputCount _ _ _ := trivial
  keyed _ _ _ := trivial
  division _ := trivial
  scheme := by rw [h.hash, h.challengeBytes]
  configuration _ _ := trivial

/-- **Verification hears the declared messages only.**  Transcripts that agree on what a variant declares have one
composition, one batch and one verdict, errors included, whatever else they say; in particular no answer under the
label of a commitment of the key is heard. -/
theorem verification_footprint [CommitmentGroup G] (variant : Variant) (key : VerificationKey G)
    {transcript transcript' : Transcript G} (h : transcript.AgreesOn variant transcript') :
    compose variant key transcript = compose variant key transcript'
      ∧ batchOpening variant key transcript = batchOpening variant key transcript'
      ∧ ∀ check : PairingInput G → Bool,
        verify variant key transcript check = verify variant key transcript' check := by
  have hdeclared := h.declared key
  have hopening := hdeclared.batchOpening_coincide
  have hinput := pairingInput_coincide hopening fun L hL => .of_eq (h.commitment L hL)
  exact ⟨hdeclared.compose_coincide.eq, hopening.eq, fun check => (verify_coincide hinput trivial).eq⟩

/-- A transcript with another answer for one commitment and one evaluation. -/
def Transcript.forge (transcript : Transcript G) (L l : String) (g : G) (x : Scalar) : Transcript G :=
  { transcript with
    commitment := fun L' => if L' = L then .ok g else transcript.commitment L'
    evaluation := fun l' => if l' = l then .ok x else transcript.evaluation l' }

open ScalarField in
/-- A commitment forged under a name the key holds changes no verdict. -/
theorem verification_footprint_forged :
    (Transcript.small (.ofTag .turboUnrolled)).commitment "SIGMA_1"
        ≠ ((Transcript.small (.ofTag .turboUnrolled)).forge "SIGMA_1" "t" 0 0).commitment "SIGMA_1"
      ∧ verify (.ofTag .turboUnrolled) (.small 4 1) (.small (.ofTag .turboUnrolled)) (fun _ => true) = .ok ()
      ∧ verify (.ofTag .turboUnrolled) (.small 4 1)
          ((Transcript.small (.ofTag .turboUnrolled)).forge "SIGMA_1" "t" 0 0) (fun _ => true) = .ok () := by
  have hagrees : (Transcript.small (.ofTag .turboUnrolled)).AgreesOn (.ofTag .turboUnrolled)
      ((Transcript.small (.ofTag .turboUnrolled)).forge "SIGMA_1" "t" 0 0) := by
    refine ⟨rfl, rfl, fun _ _ => rfl, fun _ _ => rfl, fun l hl => ?_, rfl, fun L hL => ?_⟩
    · exact (if_neg fun heq => absurd (heq ▸ hl) (by decide +kernel)).symm
    · exact (if_neg fun heq => absurd (heq ▸ hL) (by decide +kernel)).symm
  obtain ⟨-, -, hverify⟩ := verification_footprint (.ofTag .turboUnrolled) (.small 4 1) hagrees
  have haccepted : verify (.ofTag .turboUnrolled) (.small 4 1) (.small (.ofTag .turboUnrolled))
      (fun _ => true) = .ok () := by decide +kernel
  exact ⟨by decide +kernel, haccepted, (hverify _).symm.trans haccepted⟩

end PlonkVerifier
