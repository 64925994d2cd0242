import Mathlib
import PlonkVerifier.Proofs.Footprint
import PlonkVerifier.Proofs.Replay

/-!
# Proofs/Layout — the messages of a variant's proofs

The manifest of a composable variant has every message that verification asks for, each once (`replayable`), and
draws every challenge of its queries; the separator is drawn at the very end (`eq_nil_of_separator`).  The size of a
proof is read off the number of its evaluations (`size_manifest`), and a variant that leaves selectors committed has
fewer of these than the one that does not: their proofs differ in size (`Twin.size_ne`).
-/

namespace PlonkVerifier

namespace Variant

open Manifest (sent)

/-- The names of the messages beside the evaluations. -/
def fixedNames (width : ℕ) : List String :=
  ["circuit_size", "public_input_size", publicInputsLabel] ++ Label.numbered "W" width
    ++ "Z" :: Label.numbered "T" width

theorem filter_sent (labels : List String) (size : ℕ) :
    (labels.map (ManifestEntry.sent · size)).filter (!·.derived) = labels.map (ManifestEntry.sent · size) := by
  refine List.filter_eq_self.mpr fun entry hentry => ?_
  obtain ⟨label, -, rfl⟩ := List.mem_map.mp hentry
  rfl

/-- The messages of a proof whose public inputs have this number of bytes, in order. -/
def sentMessages (variant : Variant) (inputBytes : ℕ) : List ManifestEntry :=
  let commitments (labels : List String) := labels.map (ManifestEntry.sent · Point.encodedSize)
  [ManifestEntry.sent "circuit_size" 4, ManifestEntry.sent "public_input_size" 4,
    ManifestEntry.sent publicInputsLabel inputBytes] ++ commitments (Label.numbered "W" variant.programWidth)
    ++ ManifestEntry.sent "Z" Point.encodedSize :: commitments (Label.numbered "T" variant.programWidth)
    ++ variant.evaluationLabels.map (ManifestEntry.sent · Scalar.size) ++ commitments ["PI_Z", "PI_Z_OMEGA"]

/-- **The messages of a proof, in order.** -/
theorem sent_manifestOf (variant : Variant) (inputBytes : ℕ) :
    sent (variant.manifestOf inputBytes).rounds = variant.sentMessages inputBytes := by
  have hw := filter_sent (Label.numbered "W" variant.programWidth) Point.encodedSize
  have ht := filter_sent (Label.numbered "T" variant.programWidth) Point.encodedSize
  have he := filter_sent variant.evaluationLabels Scalar.size
  simp only [sent, manifestOf, ManifestRound.sent, List.flatMap_cons, List.flatMap_nil, List.filter_cons,
    List.map_cons, List.map_nil, hw, ht, he]
  simp [sentMessages, ManifestEntry.sent]

/-- The messages of a proof in order, the public inputs first. -/
theorem sent_manifest (variant : Variant) (publicInputs : ℕ) :
    sent (variant.manifest publicInputs).rounds = variant.sentMessages (Scalar.size * publicInputs) :=
  variant.sent_manifestOf _

/-- Everything but the public inputs takes a fixed number of bytes. -/
theorem size_manifestOf (variant : Variant) (inputBytes : ℕ) :
    (variant.manifestOf inputBytes).size
      = inputBytes + (8 + 32 * (2 * variant.programWidth + variant.evaluationLabels.length + 3)) := by
  rw [← Manifest.total_sent_manifest, sent_manifestOf, sentMessages, ManifestEntry.total]
  simp [ManifestEntry.sent, Label.numbered, Function.comp_def, Scalar.size, Point.encodedSize]
  ring

/-- **The size of a proof.** -/
theorem size_manifest (variant : Variant) (publicInputs : ℕ) :
    (variant.manifest publicInputs).size
      = 8 + 32 * (publicInputs + 2 * variant.programWidth + variant.evaluationLabels.length + 3) := by
  rw [manifest, size_manifestOf, Scalar.size]
  ring

/-! ## Messages -/

/-- The names sent, `t` being derived. -/
theorem names_manifest (variant : Variant) (publicInputs : ℕ) :
    (sent (variant.manifest publicInputs).rounds).map (·.name)
      = fixedNames variant.programWidth ++ (variant.evaluationLabels ++ ["PI_Z", "PI_Z_OMEGA"]) := by
  rw [sent_manifest, sentMessages]
  simp [fixedNames, ManifestEntry.sent, Function.comp_def]

/-- The names every variant sends are different. -/
theorem nodup_fixedNames {width : ℕ} (hw : GateWidth width) :
    (fixedNames width ++ ["PI_Z", "PI_Z_OMEGA"]).Nodup := by
  rcases hw with rfl | rfl <;> decide +kernel

/-- No evaluation is named like another message. -/
theorem notMem_fixedNames {width : ℕ} (hw : GateWidth width) {l : String}
    (hl : l ∈ "r" :: Label.vocabulary width) : l ∉ fixedNames width ++ ["PI_Z", "PI_Z_OMEGA"] := by
  have h : ∀ w ∈ [3, 4], ∀ l ∈ "r" :: Label.vocabulary w, l ∉ fixedNames w ++ ["PI_Z", "PI_Z_OMEGA"] := by
    decide +kernel
  exact h width hw.mem l hl

namespace Composable

variable {variant : Variant} {l : String}

/-- An evaluation is `r` or comes from the vocabulary. -/
theorem mem_reserved (h : variant.Composable) (hl : l ∈ variant.evaluationLabels) :
    l ∈ "r" :: Label.vocabulary variant.programWidth := by
  by_cases hr : l = "r"
  · exact hr ▸ List.mem_cons_self
  · exact List.mem_cons_of_mem _ (h.mem_vocabulary (h.mem_familyEvaluations_iff.mpr ⟨hl, hr⟩))

/-- **A session can follow the manifest**: no message replaces another, and every round draws a challenge. -/
theorem replayable (h : variant.Composable) (publicInputs : ℕ) : (variant.manifest publicInputs).Replayable := by
  refine ⟨?_, fun round hround => ?_⟩
  · have hfresh : ∀ l ∈ variant.evaluationLabels, l ∉ fixedNames variant.programWidth
        ∧ l ∉ ["PI_Z", "PI_Z_OMEGA"] := by
      intro l hl
      simpa only [List.mem_append, not_or] using notMem_fixedNames h.width (h.mem_reserved hl)
    obtain ⟨hfixed, hproofs, hdisjoint⟩ := List.nodup_append'.mp (nodup_fixedNames h.width)
    rw [names_manifest, List.nodup_append', List.nodup_append', List.disjoint_append_right]
    refine ⟨hfixed, ⟨h.nodup_evaluationLabels, hproofs, fun l hl => (hfresh l hl).2⟩, ?_, hdisjoint⟩
    exact fun l hl hl' => (hfresh l hl').1 hl
  · simp only [manifest, manifestOf, List.mem_cons, List.not_mem_nil, or_false] at hround
    rcases hround with rfl | rfl | rfl | rfl | rfl | rfl <;> exact List.cons_ne_nil _ _

theorem supportedWidth (h : variant.Composable) : SupportedWidth variant.hash variant.challengeBytes :=
  ⟨h.challengeBytes_pos, h.challengeBytes_le, h.challengeBytes_le⟩

end Composable

section

variable (variant : Variant) (publicInputs : ℕ)

/-- The public inputs are one message. -/
theorem publicInputs_mem_sent :
    .sent publicInputsLabel (Scalar.size * publicInputs) ∈ sent (variant.manifest publicInputs).rounds := by
  simp [sent_manifest, sentMessages]

/-- Every declared evaluation is a message of 32 bytes. -/
theorem evaluation_mem_sent {l : String} (hl : l ∈ variant.evaluationLabels) :
    .sent l Scalar.size ∈ sent (variant.manifest publicInputs).rounds := by
  rw [sent_manifest, sentMessages]
  exact List.mem_append_left _ (List.mem_append_right _ (List.mem_map_of_mem hl))

/-- **Every commitment that verification looks up with the prover is sent.** -/
theorem commitment_mem_sent {L : String} (hL : L ∈ Label.proverCommitments variant.programWidth) :
    .sent L Point.encodedSize ∈ sent (variant.manifest publicInputs).rounds := by
  rw [sent_manifest, sentMessages]
  simp only [Label.proverCommitments, List.mem_append, List.mem_cons, List.not_mem_nil, or_false] at hL
  simp only [List.mem_append, List.mem_cons, List.mem_map]
  rcases hL with ((rfl | rfl | rfl) | hL) | hL
  · simp
  · simp
  · simp
  · exact .inl (.inl (.inl (.inr ⟨L, hL, rfl⟩)))
  · exact .inl (.inl (.inr (.inr ⟨L, hL, rfl⟩)))

/-! ## Challenges -/

/-- **Every challenge of the queries is drawn.** -/
theorem exists_round_of_challenge {l : String} (hl : l ∈ variant.queries.challenges) :
    ∃ round ∈ (variant.manifest publicInputs).rounds, round.isMap = false ∧ l ∈ round.challenges := by
  simp only [queries, List.mem_append, List.mem_cons, List.not_mem_nil, or_false] at hl
  rcases hl with (rfl | rfl | rfl | rfl | rfl) | hl <;> simp [manifest, manifestOf, *]

/-- The batching challenge is drawn as a map, one member a label. -/
theorem exists_round_of_nu :
    ∃ round ∈ (variant.manifest publicInputs).rounds, round.isMap = true ∧ Challenge.nu ∈ round.challenges := by
  simp [manifest, manifestOf]

/-- No family is separated by the separator. -/
theorem separator_notMem_separationChallenges : Challenge.separator ∉ variant.separationChallenges := by
  intro h
  obtain ⟨family, -, hfamily⟩ := List.mem_filterMap.mp h
  revert family
  decide +kernel

/-- **The separator is drawn last**: once a session has it, no round is left. -/
theorem eq_nil_of_separator {done left : List ManifestRound} {round : ManifestRound}
    (hrounds : (variant.manifest publicInputs).rounds = done ++ left) (hround : round ∈ done)
    (hseparator : Challenge.separator ∈ round.challenges) : left = [] := by
  by_contra hleft
  -- the rounds before the last
  have hearly : round ∈ (variant.manifest publicInputs).rounds.dropLast := by
    rw [hrounds, List.dropLast_append_of_ne_nil hleft]
    exact List.mem_append_left _ hround
  have hdrawn : Challenge.separator ∈ [Challenge.init, Challenge.beta, Challenge.gamma, Challenge.alpha,
      Challenge.point, Challenge.nu] ++ variant.separationChallenges := by
    simp only [manifest, manifestOf, List.dropLast_cons_of_ne_nil (List.cons_ne_nil _ _), List.dropLast_singleton,
      List.mem_cons, List.not_mem_nil, or_false] at hearly
    rcases hearly with rfl | rfl | rfl | rfl | rfl <;>
      simp only [List.mem_append, List.mem_cons, List.not_mem_nil, or_false] at hseparator ⊢ <;> tauto
  rcases List.mem_append.mp hdrawn with h | h
  · exact absurd h (by decide +kernel)
  · exact variant.separator_notMem_separationChallenges h

end

end Variant

/-! ## With and without linearisation -/

/-- Two variants with the same families and identity permutation, linearised and not. -/
structure Variant.Twin (variant unrolled : Variant) : Prop where
  linearised : variant.linearised = true
  not_linearised : unrolled.linearised = false
  families : unrolled.families = variant.families
  identityPolynomials : unrolled.identityPolynomials = variant.identityPolynomials

/-- A linearised permutation leaves the grand product and the last permutation polynomial committed. -/
theorem Family.committed_notMem_requiredEvaluations {width : ℕ} (hw : GateWidth width) (family : Family)
    (ids : Bool) :
    "z" ∉ family.requiredEvaluations width ⟨true, ids⟩
      ∧ "sigma_" ++ toString width ∉ family.requiredEvaluations width ⟨true, ids⟩ := by
  have h : ∀ (family : Family) (ids : Bool), ∀ w ∈ [3, 4], "z" ∉ family.requiredEvaluations w ⟨true, ids⟩
      ∧ "sigma_" ++ toString w ∉ family.requiredEvaluations w ⟨true, ids⟩ := by decide +kernel
  exact h family ids width hw.mem

namespace Variant

/-- Families that fit three wires are the permutation, and perhaps arithmetic gates. -/
theorem Composable.families_of_width_three {variant : Variant} (h : variant.Composable)
    (hmin : ∀ family ∈ variant.families, family.minWidth ≤ 3) :
    variant.families = [.permutation] ∨ variant.families = [.permutation, .arithmetic] := by
  obtain ⟨rest, hrest⟩ := List.head?_eq_some_iff.mp h.head
  have hnodup := h.nodup
  rw [hrest] at hmin hnodup ⊢
  obtain ⟨hfirst, hnodup⟩ := List.nodup_cons.mp hnodup
  have harithmetic : ∀ family ∈ rest, family = .arithmetic := by
    intro family hfamily
    have hle := hmin family (List.mem_cons_of_mem _ hfamily)
    cases family with
    | permutation => exact absurd hfamily hfirst
    | arithmetic => rfl
    | _ => exact absurd hle (by decide)
  match rest, harithmetic, hnodup with
  | [], _, _ => exact .inl rfl
  | [family], hall, _ =>
    obtain rfl := hall family List.mem_cons_self
    exact .inr rfl
  | family :: family' :: _, hall, hnodup =>
    obtain rfl := hall family List.mem_cons_self
    obtain rfl := hall family' (by simp)
    exact absurd hnodup (by simp)

namespace Twin

variable {variant unrolled : Variant}

/-- **The unrolled variant has two evaluations more** — those of the grand product and of the last permutation
polynomial, at least. -/
theorem length_familyEvaluations_le (h : variant.Twin unrolled) (hvalid : variant.Composable)
    (hwidth : unrolled.programWidth = variant.programWidth) :
    variant.familyEvaluations.length + 2 ≤ unrolled.familyEvaluations.length := by
  have hfamilies : unrolled.familyEvaluations = variant.unrolled.familyEvaluations := by
    rw [familyEvaluations, familyEvaluations, mode, mode, h.families, hwidth, h.not_linearised,
      h.identityPolynomials]
    rfl
  have hmode : variant.mode = ⟨true, variant.identityPolynomials⟩ := by rw [mode, h.linearised]
  have hz : "z" ∉ variant.familyEvaluations := by
    rw [mem_familyEvaluations, hmode]
    rintro ⟨family, -, hl⟩
    exact (family.committed_notMem_requiredEvaluations hvalid.width _).1 hl
  have hsigma : "sigma_" ++ toString variant.programWidth ∉ variant.familyEvaluations := by
    rw [mem_familyEvaluations, hmode]
    rintro ⟨family, -, hl⟩
    exact (family.committed_notMem_requiredEvaluations hvalid.width _).2 hl
  have hne : "z" ≠ "sigma_" ++ toString variant.programWidth := by
    rcases hvalid.width with hw | hw <;> rw [hw] <;> decide +kernel
  have hnodup : (["z", "sigma_" ++ toString variant.programWidth] ++ variant.familyEvaluations).Nodup :=
    List.nodup_cons.mpr ⟨List.not_mem_cons_of_ne_of_not_mem hne hz,
      List.nodup_cons.mpr ⟨hsigma, variant.nodup_familyEvaluations⟩⟩
  have hpermutation : Family.permutation ∈ variant.families := List.mem_of_mem_head? hvalid.head
  have hraw : ∀ l ∈ Family.permutation.rawOpenings variant.programWidth ⟨false, variant.identityPolynomials⟩,
      l ∈ variant.unrolled.familyEvaluations := fun l hl => mem_familyEvaluations.mpr
    ⟨.permutation, hpermutation, Family.rawOpenings_subset hvalid.width _ _ hl⟩
  have hsubset : ["z", "sigma_" ++ toString variant.programWidth] ++ variant.familyEvaluations
      ⊆ variant.unrolled.familyEvaluations := by
    refine List.append_subset.mpr ⟨?_, familyEvaluations_subset_unrolled hvalid.width⟩
    simp only [List.cons_subset, List.nil_subset, and_true]
    exact ⟨hraw _ (by simp [Family.rawOpenings]), hraw _ (Label.lastSigma_mem_rawOpenings hvalid.width _)⟩
  have hle := (hnodup.subperm hsubset).length_le
  rw [List.length_append] at hle
  rw [hfamilies, Nat.add_comm]
  exact hle

/-- **Proofs with and without linearisation differ in size.** -/
theorem size_ne (h : variant.Twin unrolled) (hvalid : variant.Composable) (hvalid' : unrolled.Composable)
    (publicInputs : ℕ) : (variant.manifest publicInputs).size ≠ (unrolled.manifest publicInputs).size := by
  have hlength : variant.evaluationLabels.length = variant.familyEvaluations.length + 1 := by
    rw [evaluationLabels, h.linearised, List.length_append]
    rfl
  rw [size_manifest, size_manifest, hlength, evaluationLabels_of_unrolled h.not_linearised]
  by_cases hwidth : unrolled.programWidth = variant.programWidth
  · have hle := h.length_familyEvaluations_le hvalid hwidth
    omega
  · -- one of the widths is three, so there are at most two families
    have hmin : ∀ family ∈ variant.families, family.minWidth ≤ 3 := by
      rcases hvalid.width with hw | hw
      · exact fun family hfamily => hw ▸ hvalid.minWidth_le family hfamily
      rcases hvalid'.width with hw' | hw'
      · exact fun family hfamily => hw' ▸ hvalid'.minWidth_le family (h.families ▸ hfamily)
      · exact absurd (hw'.trans hw.symm) hwidth
    have hcount : ∀ families ∈ [[.permutation], [.permutation, .arithmetic]], ∀ ids, ∀ w ∈ [3, 4], ∀ w' ∈ [3, 4],
        w' ≠ w →
        2 * w + ((families.flatMap fun f : Family => f.requiredEvaluations w ⟨true, ids⟩).eraseDups.length + 1)
          ≠ 2 * w' + (families.flatMap fun f : Family => f.requiredEvaluations w' ⟨false, ids⟩).eraseDups.length := by
      decide +kernel
    have hne := hcount variant.families (by simpa using hvalid.families_of_width_three hmin)
      variant.identityPolynomials variant.programWidth hvalid.width.mem unrolled.programWidth
      hvalid'.width.mem hwidth
    rw [familyEvaluations, familyEvaluations, mode, mode, h.linearised, h.not_linearised, h.families,
      h.identityPolynomials]
    omega

end Twin

end Variant

end PlonkVerifier
