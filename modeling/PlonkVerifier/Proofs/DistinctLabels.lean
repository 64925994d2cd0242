import Mathlib
import PlonkVerifier.Proofs.BatchOpening
import PlonkVerifier.Proofs.Layout

/-!
# Proofs/DistinctLabels — the labels of an accepted variant do not collide

Messages, challenges and commitments are told apart by text alone.  In an accepted variant no two messages of the
manifest have one name, derived messages included, no two challenges one label, and no two evaluations open one
commitment at one point (`Variant.Labelled`).

An evaluation opens a commitment of the prover or one of the key.  The first are the wires and the grand product, each
at both points (`Label.proverEvaluations`); the key is asked for all others, by the families that open selectors
themselves or by the loop over the evaluations, so that a key that lacks one of them opens no batch
(`exists_commitment_of_batchOpening`).
-/

namespace PlonkVerifier

open scoped ScalarField

namespace Label

/-- The evaluations of commitments that the prover sends. -/
def proverEvaluations (width : ℕ) : List String :=
  wires width ++ (wires width).map (· ++ "_omega") ++ ["z", "z_omega"]

end Label

namespace Family

variable {width : ℕ} {family : Family} {l : String}

/-- **Wires and the grand product are sent, all else is in the key.** -/
theorem isProverCommitment_iff (hw : GateWidth width) (hmin : family.minWidth ≤ width) {mode : Mode}
    (hl : l ∈ family.requiredEvaluations width mode) :
    Label.isProverCommitment (Label.opened l).1 = true ↔ l ∈ Label.proverEvaluations width := by
  have h : ∀ (family : Family) (mode : Mode), ∀ w ∈ [3, 4], family.minWidth ≤ w →
      ∀ l ∈ family.requiredEvaluations w mode,
        (Label.isProverCommitment (Label.opened l).1 = true ↔ l ∈ Label.proverEvaluations w) := by decide +kernel
  exact h family mode width hw.mem hmin l hl

/-- A challenge separates the sub-identities of one family only. -/
theorem separation?_inj {family' : Family} (h : family.separation? = some l) (h' : family'.separation? = some l) :
    family = family' := by
  have hinj : ∀ family family' : Family, family.separation?.isSome → family.separation? = family'.separation? →
      family = family' := by decide +kernel
  exact hinj family family' (by rw [h]; rfl) (h.trans h'.symm)

end Family

/-! ## Messages and challenges -/

namespace Variant

/-- The challenges beside those that separate sub-identities. -/
def fixedChallenges : List String :=
  [Challenge.init, Challenge.beta, Challenge.gamma, Challenge.alpha, Challenge.point, Challenge.nu, Challenge.separator]

/-- The declared names round by round: the fixed ones, the derived `t`, the evaluations, the openings. -/
theorem elements_manifest (variant : Variant) (publicInputs : ℕ) :
    ((variant.manifest publicInputs).rounds.flatMap (·.elements)).map (·.name)
      = fixedNames variant.programWidth ++ "t" :: (variant.evaluationLabels ++ ["PI_Z", "PI_Z_OMEGA"]) := by
  simp [manifest, manifestOf, fixedNames, ManifestEntry.sent, Function.comp_def]

/-- The drawn labels: the fixed challenges, and a separation challenge for each family that has one. -/
theorem challenges_manifest (variant : Variant) (publicInputs : ℕ) :
    ((variant.manifest publicInputs).rounds.flatMap (·.challenges)).Perm
      (fixedChallenges ++ variant.separationChallenges) :=
  List.perm_append_comm.append_left [Challenge.init, Challenge.beta, Challenge.gamma, Challenge.alpha]

/-- No separation challenge bears the name of a fixed one. -/
theorem notMem_fixedChallenges {variant : Variant} {l : String} (hl : l ∈ variant.separationChallenges) :
    l ∉ fixedChallenges := by
  have h : ∀ family : Family, ∀ l ∈ family.separation?.toList, l ∉ fixedChallenges := by decide +kernel
  obtain ⟨family, -, hfamily⟩ := List.mem_filterMap.mp hl
  exact h family l (Option.mem_toList.mpr hfamily)

namespace Composable

variable {variant : Variant}

/-- **No two messages have one name**, the one that the verifier derives included. -/
theorem nodup_elements (h : variant.Composable) (publicInputs : ℕ) :
    (((variant.manifest publicInputs).rounds.flatMap (·.elements)).map (·.name)).Nodup := by
  have hfixed : "t" ∉ fixedNames variant.programWidth := by
    rcases h.width with hw | hw <;> rw [hw] <;> decide +kernel
  have hevaluation : "t" ∉ variant.evaluationLabels := by
    intro ht
    exact (Label.reserved_notMem_vocabulary h.width).2 ((List.mem_cons.mp (h.mem_reserved ht)).resolve_left (by decide))
  have hsent := (h.replayable publicInputs).nodup
  rw [names_manifest] at hsent
  rw [elements_manifest, List.nodup_middle, List.nodup_cons]
  refine ⟨?_, hsent⟩
  simp only [List.mem_append, not_or]
  exact ⟨hfixed, hevaluation, by decide⟩

/-- **No two challenges have one label.** -/
theorem nodup_challenges (h : variant.Composable) (publicInputs : ℕ) :
    ((variant.manifest publicInputs).rounds.flatMap (·.challenges)).Nodup := by
  refine (variant.challenges_manifest publicInputs).nodup_iff.mpr (List.Nodup.append (by decide) ?_ ?_)
  · exact h.nodup.filterMap fun family family' l hl hl' => Family.separation?_inj hl hl'
  · exact fun l hfixed hl => notMem_fixedChallenges hl hfixed

end Composable

end Variant

/-! ## Commitments of the key -/

variable {G : Type} {variant : Variant} {key : VerificationKey G} {transcript : Transcript G} {l : String}

/-- Raw openings that succeed found every label the prover does not send in the key. -/
theorem exists_commitment_of_openingTerms {labels : List String} {terms : Terms}
    (h : openingTerms key transcript labels = .ok terms) :
    ∀ l ∈ labels, Label.isProverCommitment (Label.opened l).1 = false →
      ∃ g, key.commitment (Label.opened l).1 = .ok g := by
  refine foldlM_invariant (fun done _ => ∀ l ∈ done, Label.isProverCommitment (Label.opened l).1 = false →
    ∃ g, key.commitment (Label.opened l).1 = .ok g) h (by simp) fun done l terms terms' _ _ hdone hstep => ?_
  refine List.forall_mem_append.mpr ⟨hdone, List.forall_mem_singleton.mpr fun hkeyed => ?_⟩
  obtain ⟨nu, -, hstep⟩ := bind_eq_ok.mp hstep
  rw [hkeyed, if_neg Bool.false_ne_true] at hstep
  exact (Terms.addKeyed_eq_ok.mp hstep).1

theorem exists_commitment_of_addEvaluation {separator : Scalar} {opened labels : List String}
    {sum sum' : Terms × Scalar}
    (h : labels.foldlM (BatchOpening.addEvaluation key transcript separator opened) sum = .ok sum') :
    ∀ l ∈ labels, l ∉ opened → Label.isProverCommitment (Label.opened l).1 = false →
      ∃ g, key.commitment (Label.opened l).1 = .ok g := by
  refine foldlM_invariant (fun done _ => ∀ l ∈ done, l ∉ opened →
    Label.isProverCommitment (Label.opened l).1 = false → ∃ g, key.commitment (Label.opened l).1 = .ok g)
    h (by simp) fun done l sum sum' _ _ hdone hstep => ?_
  refine List.forall_mem_append.mpr ⟨hdone, List.forall_mem_singleton.mpr fun hopened hkeyed => ?_⟩
  simp only [BatchOpening.addEvaluation, bind_eq_ok] at hstep
  obtain ⟨nu, -, value, -, hstep⟩ := hstep
  rw [if_neg (by simpa using hopened), hkeyed, if_neg Bool.false_ne_true] at hstep
  obtain ⟨terms, hterms, -⟩ := bind_eq_ok.mp hstep
  exact (Terms.addKeyed_eq_ok.mp hterms).1

/-- Families that open selectors themselves ask the key for them. -/
theorem exists_commitment_of_composeFrom {power : AlphaPower} {composition : Composition}
    (h : composeFrom variant key transcript power = .ok composition) (hl : l ∈ variant.rawOpenings)
    (hkeyed : Label.isProverCommitment (Label.opened l).1 = false) :
    ∃ g, key.commitment (Label.opened l).1 = .ok g := by
  obtain ⟨hfits, hrun⟩ := composeFrom_eq_ok.mp h
  obtain ⟨family, hfamily, hl⟩ := List.mem_flatMap.mp hl
  have hmode : variant.mode.linearised = false := by
    by_contra hlinearised
    rw [family.rawOpenings_of_linearised _ (Bool.not_eq_false _ ▸ hlinearised)] at hl
    cases hl
  refine foldlM_invariant (fun done _ => family ∈ done → ∃ g, key.commitment (Label.opened l).1 = .ok g)
    hrun (by simp) (fun done family' c c' _ _ hdone hstep hmem => ?_) hfamily
  rcases List.mem_append.mp hmem with hmem | hmem
  · exact hdone hmem
  obtain rfl := List.mem_singleton.mp hmem
  obtain ⟨terms, part, hterms, -, rfl⟩ := Composition.apply_eq_ok.mp hstep
  rw [Family.committedPart, if_neg (by simp [hmode]), hfits.width] at hterms
  exact exists_commitment_of_openingTerms hterms l hl hkeyed

/-- **A batch is opened only if the key holds all commitments that the prover does not send.** -/
theorem exists_commitment_of_batchOpening {opening : BatchOpening}
    (h : batchOpening variant key transcript = .ok opening) (hl : l ∈ variant.familyEvaluations)
    (hkeyed : Label.isProverCommitment (Label.opened l).1 = false) :
    ∃ g, key.commitment (Label.opened l).1 = .ok g := by
  simp only [batchOpening, bind_eq_ok, pure_eq_ok, Prod.exists] at h
  obtain ⟨c, hc, z, -, u, -, terms, ev, identity, -, d, -, nu, -, terms', ev', hloop, -⟩ := h
  obtain ⟨alpha, -, hfrom⟩ := compose_eq_ok hc
  rw [(composeFrom_eq_ok.mp hfrom).1.composable.filter_evaluationLabels] at hloop
  by_cases hraw : l ∈ variant.rawOpenings
  · exact exists_commitment_of_composeFrom hfrom hraw hkeyed
  · exact exists_commitment_of_addEvaluation hloop l hl hraw hkeyed

/-! ## All labels -/

/-- The labels of an accepted variant, and of the manifest of its proofs. -/
structure Variant.Labelled (variant : Variant) (publicInputs : ℕ) : Prop where
  elements : (((variant.manifest publicInputs).rounds.flatMap (·.elements)).map (·.name)).Nodup
  challenges : ((variant.manifest publicInputs).rounds.flatMap (·.challenges)).Nodup
  evaluations : variant.evaluationLabels.Nodup
  required : ∀ family ∈ variant.families,
    family.requiredEvaluations variant.programWidth variant.mode ⊆ variant.evaluationLabels
      ∧ family.rawOpenings variant.programWidth variant.mode ⊆ variant.evaluationLabels
  mem_linearisation : "r" ∈ variant.evaluationLabels ↔ variant.linearised = true
  /-- The evaluation of the linearisation polynomial comes last. -/
  last : variant.linearised = true → variant.evaluationLabels.getLast? = some "r"
  rawOpenings : variant.rawOpenings.Nodup
  unshifted : ∀ l ∈ variant.rawOpenings, (Label.opened l).2 = false
  committed : variant.linearised = true → variant.rawOpenings = []
  /-- No two evaluations open one commitment at one point. -/
  injOn : Set.InjOn Label.opened {l | l ∈ variant.evaluationLabels ∧ l ≠ "r"}
  prover : ∀ l ∈ variant.evaluationLabels, l ≠ "r" →
    (Label.isProverCommitment (Label.opened l).1 = true ↔ l ∈ Label.proverEvaluations variant.programWidth)
  /-- The key is asked for the other commitments: without one of them no batch is opened. -/
  keyed : ∀ l ∈ variant.evaluationLabels, l ≠ "r" → l ∉ Label.proverEvaluations variant.programWidth →
    ∀ {G : Type} (key : VerificationKey G) (transcript : Transcript G) (opening : BatchOpening),
      batchOpening variant key transcript = .ok opening → ∃ g, key.commitment (Label.opened l).1 = .ok g

/-- **The labels of an accepted variant do not collide**: those of messages, of challenges, of evaluations and of what
these open are distinct, and each evaluation that families ask for or open is sent. -/
theorem Variant.labelled_of_validate {variant : Variant} (h : variant.validate = .ok ()) (publicInputs : ℕ) :
    variant.Labelled publicInputs := by
  have hvalid := validate_eq_ok_iff.mp h
  have hmem : ∀ {l : String}, l ∈ variant.evaluationLabels → l ≠ "r" → l ∈ variant.familyEvaluations :=
    fun hl hr => hvalid.mem_familyEvaluations_iff.mpr ⟨hl, hr⟩
  have hprover : ∀ l ∈ variant.evaluationLabels, l ≠ "r" →
      (Label.isProverCommitment (Label.opened l).1 = true ↔ l ∈ Label.proverEvaluations variant.programWidth) := by
    intro l hl hr
    obtain ⟨family, hfamily, hl⟩ := mem_familyEvaluations.mp (hmem hl hr)
    exact Family.isProverCommitment_iff hvalid.width (hvalid.minWidth_le family hfamily) hl
  have hrequired : ∀ family ∈ variant.families,
      family.requiredEvaluations variant.programWidth variant.mode ⊆ variant.evaluationLabels :=
    fun family hfamily l hl =>
      variant.familyEvaluations_subset (mem_familyEvaluations.mpr ⟨family, hfamily, hl⟩)
  refine ⟨hvalid.nodup_elements publicInputs, hvalid.nodup_challenges publicInputs, hvalid.nodup_evaluationLabels,
    fun family hfamily => ⟨hrequired family hfamily, ?_⟩, ?_, fun hlinearised => ?_, hvalid.nodup_rawOpenings,
    fun l hl => hvalid.unshifted_of_mem_rawOpenings hl, fun hlinearised => ?_, ?_, hprover, ?_⟩
  · exact List.Subset.trans (family.rawOpenings_subset hvalid.width _) (hrequired family hfamily)
  · have hr : "r" ∉ variant.familyEvaluations := fun hr => (hvalid.mem_familyEvaluations_iff.mp hr).2 rfl
    rw [evaluationLabels, List.mem_append, or_iff_right hr]
    cases variant.linearised <;> simp
  · rw [evaluationLabels, hlinearised, if_pos rfl, List.getLast?_concat]
  · exact List.flatMap_eq_nil_iff.mpr fun family _ => family.rawOpenings_of_linearised _ hlinearised
  · rintro l ⟨hl, hr⟩ l' ⟨hl', hr'⟩ heq
    exact hvalid.opened_injOn (hmem hl hr) (hmem hl' hr') heq
  · intro l hl hr hkeyed G key transcript opening hopening
    have hfalse := Bool.eq_false_iff.mpr ((hprover l hl hr).not.mpr hkeyed)
    exact exists_commitment_of_batchOpening hopening (hmem hl hr) hfalse

/-- The widest variant: unrolled, with identity polynomials. -/
theorem Variant.labelled_of_validate_identities :
    { Variant.ofTag .turboUnrolled with identityPolynomials := true }.validate = .ok ()
      ∧ { Variant.ofTag .turboUnrolled with identityPolynomials := true }.Labelled 3 := by
  have h : { Variant.ofTag .turboUnrolled with identityPolynomials := true }.validate = .ok () := by decide +kernel
  exact ⟨h, labelled_of_validate h 3⟩

end PlonkVerifier
