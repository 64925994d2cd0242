import Mathlib
import PlonkVerifier.Proofs.ClosedForm
import PlonkVerifier.Proofs.Linearisation
import PlonkVerifier.Proofs.Outcome

/-!
# Proofs/Queries — families ask for what they declare

A family declares the challenges and evaluations it needs, and from the selectors it opens follow the commitments it
needs of the key: `Family.queries`.  Its two passes make no other query.  So they do not tell two transcripts apart
that answer the declared queries alike, and an error of a pass is one of a declared query or a division by zero
(`committedPart_coincide`, `scalarPart_coincide`).
-/

namespace PlonkVerifier

open scoped ScalarField

variable {G : Type}

/-! ## Declared queries -/

/-- The labels under which verification asks transcript and key. -/
structure Queries where
  challenges : List String
  /-- The members of the map challenge. -/
  members : List String
  evaluations : List String
  /-- The commitments the key has to hold. -/
  keyed : List String

/-- The queries of `q` are among those of `q'`. -/
structure Queries.Within (q q' : Queries) : Prop where
  challenges : q.challenges ⊆ q'.challenges
  members : q.members ⊆ q'.members
  evaluations : q.evaluations ⊆ q'.evaluations
  keyed : q.keyed ⊆ q'.keyed

namespace Label

/-- The commitments of a key that evaluations open. -/
def keyCommitments (labels : List String) : List String :=
  (labels.map fun l => (opened l).1).filter (!isProverCommitment ·)

theorem mem_keyCommitments {labels : List String} {l : String} (hl : l ∈ labels)
    (hprover : isProverCommitment (opened l).1 = false) : (opened l).1 ∈ keyCommitments labels :=
  List.mem_filter.mpr ⟨List.mem_map_of_mem hl, by rw [hprover]; rfl⟩

/-- The commitments a prover sends. -/
def proverCommitments (width : ℕ) : List String :=
  ["Z", "PI_Z", "PI_Z_OMEGA"] ++ numbered "W" width ++ numbered "T" width

end Label

namespace Family

/-- What the scalar part of a family asks for. -/
def scalarQueries (family : Family) (width : ℕ) (mode : Mode) : Queries where
  challenges :=
    match family with
    | permutation => [Challenge.beta, Challenge.gamma, Challenge.permutation, Challenge.point]
    | family => family.separation?.toList
  members := []
  evaluations := family.requiredEvaluations width mode
  keyed := []

/-- What a family asks for. -/
def queries (family : Family) (width : ℕ) (mode : Mode) : Queries :=
  { family.scalarQueries width mode with
    members := family.rawOpenings width mode
    keyed := Label.keyCommitments (family.requiredEvaluations width ⟨false, mode.identityPolynomials⟩) }

/-- The scalar pass asks for nothing the whole family does not. -/
theorem scalarQueries_within (family : Family) (width : ℕ) (mode : Mode) :
    (family.scalarQueries width mode).Within (family.queries width mode) :=
  ⟨List.Subset.refl _, List.nil_subset _, List.Subset.refl _, List.nil_subset _⟩

end Family

/-- The values of the public inputs or of the evaluation point at which a denominator vanishes. -/
def Reading.Degenerate (ρ : Reading) (key : VerificationKey G) : Prop :=
  ρ.challenge Challenge.point ^ key.circuitSize = 1
    ∨ ρ.inputProduct key (key.cosetGenerators.getD key.programWidth 0) = 0

/-- Two transcripts that answer the queries alike, beside a key, where every cause of failure is in `E`. -/
structure Supplied (E : VerifierError → Prop) (queries : Queries) (key : VerificationKey G)
    (transcript transcript' : Transcript G) : Prop where
  challenge : ∀ l ∈ queries.challenges,
    Coincide E (fun _ => True) (transcript.challenge l) (transcript'.challenge l)
  member : ∀ l ∈ queries.members, Coincide E (fun _ => True)
    (transcript.mapMember Challenge.nu l) (transcript'.mapMember Challenge.nu l)
  evaluation : ∀ l ∈ queries.evaluations,
    Coincide E (fun _ => True) (transcript.evaluation l) (transcript'.evaluation l)
  publicInputs : Coincide E (fun _ => True)
    (transcript.vector publicInputsLabel) (transcript'.vector publicInputsLabel)
  inputCount : ∀ inputs, transcript.vector publicInputsLabel = .ok inputs →
    inputs.length ≠ key.publicInputs → E (.publicInputCountMismatch key.publicInputs inputs.length)
  keyed : ∀ L ∈ queries.keyed, key.commitments.find? L = none → E (.missingCommitment L)
  division : transcript.reading.Degenerate key → E .divisionByZero

/-- A commitment of the key, or one of those that the prover sends. -/
def Held (key : VerificationKey G) (L : String) : Prop :=
  (∃ g, key.commitments.find? L = some g) ∨ L ∈ Label.proverCommitments key.programWidth

/-- A formal sum of commitments that can be looked up. -/
def Terms.Held (key : VerificationKey G) (terms : Terms) : Prop :=
  ∀ L ∈ terms.labels, PlonkVerifier.Held key L

variable {E : VerifierError → Prop} {key : VerificationKey G} {transcript transcript' : Transcript G}

/-! ## Formal sums -/

namespace Terms.Held

variable {terms other : Terms} {L : String}

theorem empty : Terms.Held key .empty := by
  intro L hL
  cases hL

/-- Adding a term under a held label keeps every label held. -/
theorem add (h : terms.Held key) (hL : PlonkVerifier.Held key L) (c : Scalar) : (terms.add L c).Held key := by
  intro L' hL'
  obtain ⟨value, hvalue⟩ := LabelMap.mem_labels_iff.mp hL'
  rw [Terms.find?_add] at hvalue
  split at hvalue
  · next heq => exact heq ▸ hL
  · exact h L' (LabelMap.mem_labels_iff.mpr ⟨value, hvalue⟩)

theorem merge (h : terms.Held key) (hother : other.Held key) : (terms.merge other).Held key := by
  intro L hL
  rw [← not_not (a := L ∈ _), ← LabelMap.find?_eq_none_iff, Terms.find?_merge, collect_eq_none_iff] at hL
  by_cases hterms : L ∈ terms.labels
  · exact h L hterms
  · refine hother L ?_
    by_contra hlabel
    refine hL ⟨LabelMap.find?_eq_none_iff.mpr hterms, ?_⟩
    rw [LabelMap.find?_eq_none_iff.mpr hlabel, Option.toList_none]

theorem scale (h : terms.Held key) (factor : Scalar) : (terms.scale factor).Held key := by
  intro L hL
  obtain ⟨value, hvalue⟩ := LabelMap.mem_labels_iff.mp hL
  rw [Terms.scale, LabelMap.find?_map] at hvalue
  obtain ⟨value', hvalue', -⟩ := Option.map_eq_some_iff.mp hvalue
  exact h L (LabelMap.mem_labels_iff.mpr ⟨value', hvalue'⟩)

/-- A commitment that the key has to hold is added, or missing. -/
theorem addKeyed_coincide (h : terms.Held key)
    (hkeyed : key.commitments.find? L = none → E (.missingCommitment L)) (c : Scalar) :
    Coincide E (Terms.Held key) (terms.addKeyed key L c) (terms.addKeyed key L c) := by
  rw [addKeyed, VerificationKey.commitment]
  cases hfind : key.commitments.find? L with
  | none => exact .error (hkeyed hfind)
  | some g => exact .ok (h.add (.inl ⟨g, hfind⟩) c)

end Terms.Held

/-! ## Denominators -/

namespace Domain

/-- An inversion agrees with itself, and fails only by a division by zero. -/
theorem invert_coincide {x : Scalar} (h : x = 0 → E .divisionByZero) :
    Coincide E (fun _ => True) (invert x) (invert x) := by
  rw [invert]
  split
  · next hx => exact .error (h hx)
  · exact .ok trivial

/-- The first short form fails only at points whose power is one. -/
theorem firstLagrange_coincide {z : Scalar} {n : ℕ} (hn : (n : Scalar) ≠ 0)
    (h : z ^ n = 1 → E .divisionByZero) :
    Coincide E (fun _ => True) (firstLagrange z n) (firstLagrange z n) := by
  refine (invert_coincide fun hzero => h ?_).bind fun _ _ _ => .ok trivial
  rw [Scalar.ofNat_eq] at hzero
  have hz : z = 1 := sub_eq_zero.mp ((mul_eq_zero.mp hzero).resolve_left hn)
  rw [hz, one_pow]

theorem penultimateLagrange_coincide {z root : Scalar} {n : ℕ} (hn : (n : Scalar) ≠ 0)
    (hroot : root ^ n = 1) (h : z ^ n = 1 → E .divisionByZero) :
    Coincide E (fun _ => True) (penultimateLagrange z n root) (penultimateLagrange z n root) := by
  refine (invert_coincide fun hzero => h ?_).bind fun _ _ _ => .ok trivial
  rw [Scalar.ofNat_eq] at hzero
  have hz : z * (root * root) = 1 := sub_eq_zero.mp ((mul_eq_zero.mp hzero).resolve_left hn)
  calc z ^ n = z ^ n * (root ^ n * root ^ n) := by rw [hroot, one_mul, mul_one]
    _ = (z * (root * root)) ^ n := by rw [mul_pow, mul_pow]
    _ = 1 := by rw [hz, one_pow]

/-- The delta fails only where the external product vanishes. -/
theorem publicInputDelta_coincide {inputs : List Scalar} {beta gamma root external : Scalar}
    (h : publicInputProduct inputs beta gamma root external = 0 → E .divisionByZero) :
    Coincide E (fun _ => True) (publicInputDelta inputs beta gamma root external)
      (publicInputDelta inputs beta gamma root external) :=
  (invert_coincide h).bind fun _ _ _ => .ok trivial

end Domain

/-! ## The grand product -/

namespace Supplied

variable {queries queries' : Queries}

/-- Answers to more queries are answers to fewer. -/
theorem restrict (h : Supplied E queries' key transcript transcript') (hq : queries.Within queries') :
    Supplied E queries key transcript transcript' :=
  { h with
    challenge := fun l hl => h.challenge l (hq.challenges hl)
    member := fun l hl => h.member l (hq.members hl)
    evaluation := fun l hl => h.evaluation l (hq.evaluations hl)
    keyed := fun L hL => h.keyed L (hq.keyed hL) }

theorem mapM_evaluation (h : Supplied E queries key transcript transcript') {labels : List String}
    (hlabels : labels ⊆ queries.evaluations) :
    Coincide E (fun _ => True) (labels.mapM transcript.evaluation) (labels.mapM transcript'.evaluation) :=
  Coincide.mapM fun l hl => h.evaluation l (hlabels hl)

/-- The vanishing polynomial of the domain is a denominator. -/
theorem division_of_pow_eq_one (h : Supplied E queries key transcript transcript') {z : Scalar}
    (hz : transcript.challenge Challenge.point = .ok z) (hone : z ^ key.circuitSize = 1) :
    E .divisionByZero :=
  h.division (.inl (by rwa [← Transcript.eq_challenge hz]))

end Supplied

namespace Family

/-- Every family reads the wires of the row. -/
theorem wires_subset (family : Family) (width : ℕ) (mode : Mode) :
    Label.wires width ⊆ family.requiredEvaluations width mode :=
  List.subset_append_left _ _

/-- With identity polynomials the permutation reads one evaluation a wire. -/
theorem identities_subset (width : ℕ) {mode : Mode} (h : mode.identityPolynomials = true) :
    Label.numbered "id" width ⊆ permutation.requiredEvaluations width mode := by
  intro l hl
  cases hmode : mode.linearised <;> simp [requiredEvaluations, rawOpenings, h, hmode, hl]

theorem sigmas_subset (width : ℕ) (mode : Mode) :
    Label.numbered "sigma" (width - 1) ⊆ permutation.requiredEvaluations width mode := by
  intro l hl
  simp [requiredEvaluations, hl]

theorem shifted_mem (width : ℕ) (mode : Mode) : "z_omega" ∈ permutation.requiredEvaluations width mode := by
  simp [requiredEvaluations]

end Family

namespace GrandProduct

variable {mode : Mode}

theorem identityPositions_coincide (hkey : key.Consistent)
    (h : Supplied E (Family.permutation.scalarQueries key.programWidth mode) key transcript transcript') (z : Scalar) :
    Coincide E (fun _ => True) (identityPositions key transcript mode z)
      (identityPositions key transcript' mode z) := by
  rw [identityPositions, identityPositions]
  split
  · next hids => exact h.mapM_evaluation (Family.identities_subset _ hids)
  · refine Coincide.mapM fun i hi => ?_
    rw [hkey.cosetGenerator_eq (List.mem_range.mp hi).le]
    exact .ok trivial

/-- **The grand product is read from declared answers** — and fails by itself only where a denominator is zero. -/
theorem read_coincide (hkey : key.Consistent)
    (h : Supplied E (Family.permutation.scalarQueries key.programWidth mode) key transcript transcript') :
    Coincide E (fun _ => True) (read key transcript mode) (read key transcript' mode) := by
  have hn := hkey.circuitSize_ne_zero
  rw [read, read]
  refine (h.challenge Challenge.beta (by simp [Family.scalarQueries])).bind fun beta hbeta _ => ?_
  refine (h.challenge Challenge.gamma (by simp [Family.scalarQueries])).bind fun gamma hgamma _ => ?_
  refine (h.challenge Challenge.permutation (by simp [Family.scalarQueries])).bind fun separation _ _ => ?_
  refine (h.challenge Challenge.point (by simp [Family.scalarQueries])).bind fun z hz _ => ?_
  refine (h.mapM_evaluation (Family.permutation.wires_subset _ mode)).bind fun wires _ _ => ?_
  refine (h.evaluation "z_omega" (Family.shifted_mem _ mode)).bind fun shifted _ _ => ?_
  refine h.publicInputs.bind fun inputs hinputs _ => ?_
  refine Coincide.guard (h.inputCount inputs hinputs) fun _ => ?_
  refine (identityPositions_coincide hkey h z).bind fun identities _ _ => ?_
  refine (h.mapM_evaluation (Family.sigmas_subset _ mode)).bind fun sigmas _ _ => ?_
  refine (Domain.firstLagrange_coincide hn (h.division_of_pow_eq_one hz)).bind fun first _ _ => ?_
  refine (Domain.penultimateLagrange_coincide hn hkey.root_pow (h.division_of_pow_eq_one hz)).bind
    fun penultimate _ _ => ?_
  rw [VerificationKey.externalCosetGenerator, hkey.cosetGenerator_eq le_rfl]
  refine (Domain.publicInputDelta_coincide fun hzero => h.division (.inr ?_)).bind fun delta _ _ => .ok trivial
  rw [← publicInputProduct_eq, ← Transcript.eq_challenge hbeta, ← Transcript.eq_challenge hgamma]
  simpa only [Transcript.reading, hinputs, answer_ok] using hzero

end GrandProduct

namespace Family

variable {family : Family} {width : ℕ} {ids : Bool} {l : String}

/-- The commitments a family opens itself are declared, whether or not it is linearised. -/
theorem mem_keyed (hw : GateWidth width) (linearised : Bool) (hl : l ∈ family.rawOpenings width ⟨false, ids⟩)
    (hprover : Label.isProverCommitment (Label.opened l).1 = false) :
    (Label.opened l).1 ∈ (family.queries width ⟨linearised, ids⟩).keyed :=
  Label.mem_keyCommitments (family.rawOpenings_subset hw _ hl) hprover

end Family

namespace Permutation

variable {mode : Mode}

theorem linearisedTerms_coincide (hkey : key.Consistent) (hw : GateWidth key.programWidth)
    (h : Supplied E (Family.permutation.queries key.programWidth mode) key transcript transcript') (base : Scalar) :
    Coincide E (Terms.Held key) (linearisedTerms key base transcript mode)
      (linearisedTerms key base transcript' mode) := by
  have hscalar := h.restrict (Family.permutation.scalarQueries_within key.programWidth mode)
  refine (GrandProduct.read_coincide hkey hscalar).bind fun gp _ _ => ?_
  have hz : Held key "Z" := .inr (by simp [Label.proverCommitments])
  have hsigma := Family.mem_keyed hw mode.linearised
    (Label.lastSigma_mem_rawOpenings hw mode.identityPolynomials)
  rw [Label.opened_lastSigma hw] at hsigma
  have hkeyed := hsigma (by rcases hw with hw | hw <;> rw [hw] <;> decide +kernel)
  exact (Terms.Held.empty.add hz _).addKeyed_coincide (h.keyed _ hkeyed) _

theorem scalarPart_coincide (hkey : key.Consistent) (hw : GateWidth key.programWidth)
    (h : Supplied E (Family.permutation.scalarQueries key.programWidth mode) key transcript transcript') :
    Coincide E (fun _ => True) (scalarPart key transcript mode) (scalarPart key transcript' mode) := by
  refine (GrandProduct.read_coincide hkey h).bind fun gp _ _ => ?_
  obtain ⟨linearised, ids⟩ := mode
  cases linearised with
  | true => exact .ok trivial
  | false =>
    have hraw := Family.permutation.rawOpenings_subset hw ⟨false, ids⟩
    have hz : "z" ∈ Family.permutation.rawOpenings key.programWidth ⟨false, ids⟩ := by
      simp [Family.rawOpenings]
    refine (h.evaluation "z" (hraw hz)).bind fun z _ _ => ?_
    exact (h.evaluation _ (hraw (Label.lastSigma_mem_rawOpenings hw ids))).bind fun sigma _ _ => .ok trivial

end Permutation

/-! ## Gates -/

/-- The wires of a gate with four of them. -/
theorem Label.wires_four : wires 4 = ["w_1", "w_2", "w_3", "w_4"] := by decide +kernel

theorem Row.read_coincide {queries : Queries} (h : Supplied E queries key transcript transcript')
    (hwires : Label.wires 4 ⊆ queries.evaluations) :
    Coincide E (fun _ => True) (Row.read transcript.evaluation) (Row.read transcript'.evaluation) := by
  rw [Label.wires_four] at hwires
  refine (h.evaluation "w_1" (hwires (by simp))).bind fun a _ _ => ?_
  refine (h.evaluation "w_2" (hwires (by simp))).bind fun b _ _ => ?_
  refine (h.evaluation "w_3" (hwires (by simp))).bind fun c _ _ => ?_
  exact (h.evaluation "w_4" (hwires (by simp))).bind fun d _ _ => .ok trivial

namespace Gate

theorem subIdentities_coincide {queries : Queries} {family : Family} {gate : Gate}
    (hgate : family.gate? = some gate) (h : Supplied E queries key transcript transcript')
    (hwires : Label.wires 4 ⊆ queries.evaluations) (hinputs : gate.inputs ⊆ queries.evaluations) :
    Coincide E (fun _ => True) (gate.subIdentities transcript.evaluation)
      (gate.subIdentities transcript'.evaluation) := by
  have hrow := Row.read_coincide h hwires
  have hread : ∀ l ∈ gate.inputs,
      Coincide E (fun _ => True) (transcript.evaluation l) (transcript'.evaluation l) :=
    fun l hl => h.evaluation l (hinputs hl)
  cases family <;> simp only [Family.gate?, reduceCtorEq, Option.some.injEq] at hgate <;> subst hgate
  · refine hrow.bind fun row _ _ => ?_
    refine (hread "w_1_omega" (by simp [fixedBase])).bind fun aNext _ _ => ?_
    refine (hread "w_2_omega" (by simp [fixedBase])).bind fun bNext _ _ => ?_
    refine (hread "w_4_omega" (by simp [fixedBase])).bind fun dNext _ _ => ?_
    refine (hread "q_1" (by simp [fixedBase])).bind fun q₁ _ _ => ?_
    exact (hread "q_2" (by simp [fixedBase])).bind fun q₂ _ _ => .ok trivial
  · refine hrow.bind fun row _ _ => ?_
    exact (hread "w_4_omega" (by simp [range])).bind fun dNext _ _ => .ok trivial
  · refine hrow.bind fun row _ _ => ?_
    refine (hread "w_1_omega" (by simp [logic])).bind fun aNext _ _ => ?_
    refine (hread "w_2_omega" (by simp [logic])).bind fun bNext _ _ => ?_
    refine (hread "w_4_omega" (by simp [logic])).bind fun dNext _ _ => ?_
    exact (hread "q_c" (by simp [logic])).bind fun q _ _ => .ok trivial
  · refine hrow.bind fun row _ _ => ?_
    refine (hread "w_1_omega" (by simp [elliptic])).bind fun x₃ _ _ => ?_
    refine (hread "w_2_omega" (by simp [elliptic])).bind fun y₃ _ _ => ?_
    exact (hread "w_4_omega" (by simp [elliptic])).bind fun p _ _ => .ok trivial

theorem identity_coincide {queries : Queries} {family : Family} {gate : Gate}
    (hgate : family.gate? = some gate) (h : Supplied E queries key transcript transcript')
    (hseparation : gate.separation ∈ queries.challenges)
    (hwires : Label.wires 4 ⊆ queries.evaluations) (hinputs : gate.inputs ⊆ queries.evaluations) :
    Coincide E (fun _ => True) (gate.identity transcript) (gate.identity transcript') := by
  refine (h.challenge _ hseparation).bind fun s _ _ => ?_
  exact (subIdentities_coincide hgate h hwires hinputs).bind fun cs _ _ => .ok trivial

end Gate

/-! ## Sums of selectors -/

namespace Arithmetic

variable {queries : Queries} {selectors : List (String × String)}

theorem readMultipliers_coincide (h : Supplied E queries key transcript transcript')
    (hwires : Label.wires 3 ⊆ queries.evaluations) :
    Coincide E (fun _ => True) (readMultipliers transcript) (readMultipliers transcript') := by
  have hthree : Label.wires 3 = ["w_1", "w_2", "w_3"] := by decide +kernel
  rw [hthree] at hwires
  refine (h.evaluation "w_1" (hwires (by simp))).bind fun a _ _ => ?_
  refine (h.evaluation "w_2" (hwires (by simp))).bind fun b _ _ => ?_
  exact (h.evaluation "w_3" (hwires (by simp))).bind fun c _ _ => .ok trivial

theorem selectorSum_coincide (h : Supplied E queries key transcript transcript')
    (hselectors : ∀ s ∈ selectors, s.1 ∈ queries.evaluations) (multipliers : List Scalar) :
    Coincide E (fun _ => True) (selectorSum transcript selectors multipliers)
      (selectorSum transcript' selectors multipliers) := by
  refine Coincide.foldlM trivial fun x hx sum _ => ?_
  have hselector := hselectors x.1 (List.of_mem_zip hx).1
  exact (h.evaluation _ hselector).bind fun value _ _ => .ok trivial

theorem selectorTerms_coincide
    (hkeyed : ∀ s ∈ selectors, key.commitments.find? s.2 = none → E (.missingCommitment s.2))
    (scale : Scalar) (multipliers : List Scalar) :
    Coincide E (Terms.Held key) (selectorTerms key scale selectors multipliers)
      (selectorTerms key scale selectors multipliers) := by
  refine Coincide.foldlM Terms.Held.empty fun x hx terms hterms => ?_
  exact hterms.addKeyed_coincide (hkeyed x.1 (List.of_mem_zip hx).1) _

end Arithmetic

theorem TurboArithmetic.readMultipliers_coincide {queries : Queries}
    (h : Supplied E queries key transcript transcript') (hwires : Label.wires 4 ⊆ queries.evaluations) :
    Coincide E (fun _ => True) (readMultipliers transcript) (readMultipliers transcript') :=
  (Row.read_coincide h hwires).bind fun _ _ _ => .ok trivial

/-! ## Openings -/

/-- Of what a family that fits the width asks for, the key does not hold what the prover sends. -/
theorem Family.mem_proverCommitments {family : Family} {width : ℕ} {mode : Mode} (hw : GateWidth width)
    (hmin : family.minWidth ≤ width) {l : String} (hl : l ∈ family.requiredEvaluations width mode)
    (hprover : Label.isProverCommitment (Label.opened l).1 = true) :
    (Label.opened l).1 ∈ Label.proverCommitments width := by
  have h : ∀ (family : Family) (mode : Mode), ∀ w ∈ [3, 4], family.minWidth ≤ w →
      ∀ l ∈ family.requiredEvaluations w mode, Label.isProverCommitment (Label.opened l).1 = true →
        (Label.opened l).1 ∈ Label.proverCommitments w := by decide +kernel
  exact h family mode width hw.mem hmin l hl hprover

/-- The raw openings depend on their members, and on who holds each polynomial. -/
theorem openingTerms_coincide {queries : Queries} {labels : List String}
    (h : Supplied E queries key transcript transcript') (hmembers : labels ⊆ queries.members)
    (hsent : ∀ l ∈ labels, Label.isProverCommitment (Label.opened l).1 = true →
      (Label.opened l).1 ∈ Label.proverCommitments key.programWidth)
    (hkeyed : ∀ l ∈ labels, Label.isProverCommitment (Label.opened l).1 = false →
      (Label.opened l).1 ∈ queries.keyed) :
    Coincide E (Terms.Held key) (openingTerms key transcript labels) (openingTerms key transcript' labels) := by
  refine Coincide.foldlM Terms.Held.empty fun l hl terms hterms => ?_
  refine (h.member l (hmembers hl)).bind fun nu _ _ => ?_
  cases hprover : Label.isProverCommitment (Label.opened l).1 with
  | true => exact .ok (hterms.add (.inr (hsent l hl hprover)) nu)
  | false => exact hterms.addKeyed_coincide (h.keyed _ (hkeyed l hl hprover)) nu

/-! ## The passes of a family -/

namespace Family

variable {family : Family} {mode : Mode}

/-- Every family reads the first three wires. -/
theorem wires_three_subset (family : Family) (mode : Mode) {width : ℕ} (hw : GateWidth width) :
    Label.wires 3 ⊆ family.requiredEvaluations width mode := by
  refine List.Subset.trans ?_ (family.wires_subset width mode)
  rcases hw with rfl | rfl <;> decide +kernel

/-- A family of wide gates reads all four wires. -/
theorem wires_four_subset (family : Family) (mode : Mode) {width : ℕ} (hw : GateWidth width) (hmin : 4 ≤ width) :
    Label.wires 4 ⊆ family.requiredEvaluations width mode := by
  obtain rfl : width = 4 := by unfold GateWidth at hw; omega
  exact family.wires_subset 4 mode

theorem gateInputs_subset {gate : Gate} (hgate : family.gate? = some gate) (width : ℕ) :
    gate.inputs ⊆ family.requiredEvaluations width mode := by
  intro l hl
  cases family <;> simp only [gate?, reduceCtorEq, Option.some.injEq] at hgate <;> subst hgate <;>
    simp [requiredEvaluations, gate?, hl]

theorem gateSelector_mem (width : ℕ) (mode : Mode) :
    TurboArithmetic.gateSelector ∈ turboArithmetic.requiredEvaluations width mode :=
  List.mem_append_right _ List.mem_cons_self

/-- Every gate takes four wires. -/
theorem minWidth_of_gate {gate : Gate} (hgate : family.gate? = some gate) : family.minWidth = 4 := by
  cases family <;> simp only [gate?, reduceCtorEq] at hgate <;> rfl

theorem gate_identity_coincide {gate : Gate} (hgate : family.gate? = some gate)
    (hw : GateWidth key.programWidth) (hmin : family.minWidth ≤ key.programWidth)
    (h : Supplied E (family.scalarQueries key.programWidth mode) key transcript transcript') :
    Coincide E (fun _ => True) (gate.identity transcript) (gate.identity transcript') := by
  have hwires := family.wires_four_subset mode hw (minWidth_of_gate hgate ▸ hmin)
  refine Gate.identity_coincide hgate h ?_ hwires (gateInputs_subset hgate _)
  cases family <;> simp only [gate?, reduceCtorEq, Option.some.injEq] at hgate <;> subst hgate <;>
    simp [scalarQueries, separation?, gate?]

/-- The selectors a family sums up, at the commitments they open, are declared. -/
theorem find?_selector (hw : GateWidth key.programWidth)
    (h : Supplied E (family.queries key.programWidth mode) key transcript transcript')
    {selectors : List (String × String)}
    (hopened : ∀ s ∈ selectors, (Label.opened s.1).1 = s.2 ∧ Label.isProverCommitment s.2 = false)
    (hraw : ∀ s ∈ selectors, s.1 ∈ family.rawOpenings key.programWidth ⟨false, mode.identityPolynomials⟩) :
    ∀ s ∈ selectors, key.commitments.find? s.2 = none → E (.missingCommitment s.2) := by
  intro s hs
  obtain ⟨hcommitment, hprover⟩ := hopened s hs
  have hkeyed := mem_keyed hw mode.linearised (hraw s hs) (hcommitment ▸ hprover)
  rw [hcommitment] at hkeyed
  exact h.keyed _ hkeyed

theorem linearisedTerms_coincide (hkey : key.Consistent) (hw : GateWidth key.programWidth)
    (hmin : family.minWidth ≤ key.programWidth)
    (h : Supplied E (family.queries key.programWidth mode) key transcript transcript') (base : Scalar) :
    Coincide E (Terms.Held key) (family.linearisedTerms key base transcript mode)
      (family.linearisedTerms key base transcript' mode) := by
  cases hgate : family.gate? with
  | some gate =>
    rw [linearisedTerms_of_gate hgate, linearisedTerms_of_gate hgate]
    have hscalar := h.restrict (family.scalarQueries_within key.programWidth mode)
    refine (gate_identity_coincide hgate hw hmin hscalar).bind fun identity _ _ => ?_
    have hopened : Label.isProverCommitment (Label.opened gate.selector).1 = false := by
      cases family <;> simp only [gate?, reduceCtorEq, Option.some.injEq] at hgate <;> subst hgate <;>
        decide +kernel
    have hraw : gate.selector ∈ family.rawOpenings key.programWidth ⟨false, mode.identityPolynomials⟩ := by
      rw [rawOpenings_of_gate hgate]
      exact List.mem_singleton_self _
    exact Terms.Held.empty.addKeyed_coincide (h.keyed _ (mem_keyed hw _ hraw hopened)) _
  | none =>
    cases family with
    | permutation => exact Permutation.linearisedTerms_coincide hkey hw h base
    | arithmetic =>
      refine (Arithmetic.readMultipliers_coincide h (arithmetic.wires_three_subset _ hw)).bind fun multipliers _ _ => ?_
      exact Arithmetic.selectorTerms_coincide (find?_selector hw h (by decide +kernel)
        fun s hs => List.mem_map_of_mem hs) _ _
    | turboArithmetic =>
      refine (TurboArithmetic.readMultipliers_coincide h (turboArithmetic.wires_four_subset _ hw hmin)).bind
        fun multipliers _ _ => ?_
      refine (h.evaluation _ (gateSelector_mem _ mode)).bind fun gateSelector _ _ => ?_
      exact Arithmetic.selectorTerms_coincide (find?_selector hw h (by decide +kernel)
        fun s hs => List.mem_cons_of_mem _ (List.mem_map_of_mem hs)) _ _
    | _ => simp [gate?] at hgate

/-- **The committed part of a constraint is found by declared queries**, and is a sum of commitments that can be
looked up. -/
theorem committedPart_coincide (hkey : key.Consistent) (hw : GateWidth key.programWidth)
    (hmin : family.minWidth ≤ key.programWidth)
    (h : Supplied E (family.queries key.programWidth mode) key transcript transcript') (base : Scalar) :
    Coincide E (Terms.Held key) (family.committedPart key base transcript mode)
      (family.committedPart key base transcript' mode) := by
  obtain ⟨linearised, ids⟩ := mode
  cases linearised with
  | true => exact linearisedTerms_coincide hkey hw hmin h base
  | false =>
    have hraw := family.rawOpenings_subset hw ⟨false, ids⟩
    exact openingTerms_coincide h (List.Subset.refl _) (fun l hl => mem_proverCommitments hw hmin (hraw hl))
      fun l hl => mem_keyed hw false hl

/-- **The scalar part of a constraint is found by declared queries.** -/
theorem scalarPart_coincide (hkey : key.Consistent) (hw : GateWidth key.programWidth)
    (hmin : family.minWidth ≤ key.programWidth)
    (h : Supplied E (family.scalarQueries key.programWidth mode) key transcript transcript') :
    Coincide E (fun _ => True) (family.scalarPart key transcript mode) (family.scalarPart key transcript' mode) := by
  obtain ⟨linearised, ids⟩ := mode
  have hraw := family.rawOpenings_subset hw ⟨linearised, ids⟩
  cases hgate : family.gate? with
  | some gate =>
    rw [scalarPart_of_gate hgate, scalarPart_of_gate hgate]
    cases linearised with
    | true => exact .ok trivial
    | false =>
      have hselector : gate.selector ∈ family.rawOpenings key.programWidth ⟨false, ids⟩ := by
        rw [rawOpenings_of_gate hgate]
        exact List.mem_singleton_self _
      refine (h.evaluation _ (hraw hselector)).bind fun selector _ _ => ?_
      exact (gate_identity_coincide hgate hw hmin h).bind fun identity _ _ => .ok trivial
  | none =>
    cases family with
    | permutation => exact Permutation.scalarPart_coincide hkey hw h
    | arithmetic =>
      cases linearised with
      | true => exact .ok trivial
      | false =>
        refine (Arithmetic.readMultipliers_coincide h (arithmetic.wires_three_subset _ hw)).bind
          fun multipliers _ _ => ?_
        exact Arithmetic.selectorSum_coincide h (fun s hs => hraw (List.mem_map_of_mem hs)) multipliers
    | turboArithmetic =>
      cases linearised with
      | true => exact .ok trivial
      | false =>
        refine (TurboArithmetic.readMultipliers_coincide h (turboArithmetic.wires_four_subset _ hw hmin)).bind
          fun multipliers _ _ => ?_
        refine (Arithmetic.selectorSum_coincide h
          (fun s hs => hraw (List.mem_cons_of_mem _ (List.mem_map_of_mem hs))) multipliers).bind
          fun sum _ _ => ?_
        exact (h.evaluation _ (gateSelector_mem _ _)).bind fun gateSelector _ _ => .ok trivial
    | _ => simp [gate?] at hgate

end Family

end PlonkVerifier
