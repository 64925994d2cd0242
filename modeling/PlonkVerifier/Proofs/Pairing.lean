import Mathlib
import PlonkVerifier.Proofs.BatchOpening

/-!
# Proofs/Pairing — the pairing input of a batch, and of an honest prover

Over a commitment group that is a module over the scalars, the two points of the pairing check differ by a multiple
of the base whose factor is read off the batch (`aggregate_sub_smul`).  An honest prover commits to polynomials,
sends their values and divides the batched polynomials by `X - z` and `X - z ω`; then the factor is zero, and the
check passes (`pairing_exact_and_complete`).
-/

namespace PlonkVerifier

open scoped ScalarField
open Polynomial

/-! ## The batched polynomials -/

section Polynomials

variable {G : Type} {variant : Variant} {key : VerificationKey G} {transcript : Transcript G}

/-- Division by `X - z` takes the value at `z` off. -/
theorem sub_mul_eval_divByMonic (f : Scalar[X]) (z x : Scalar) :
    (x - z) * (f /ₘ (X - C z)).eval x = f.eval x - f.eval z := by
  have h := congrArg (eval x) (X_sub_C_mul_divByMonic_eq_sub_modByMonic f z)
  simpa [modByMonic_X_sub_C_eq_C_eval] using h

/-- The polynomials opened at one of the two points, batched. -/
noncomputable def openedPolynomial (variant : Variant) (transcript : Transcript G)
    (f : String → Scalar[X]) (shifted : Bool) : Scalar[X] :=
  ∑ l ∈ variant.evaluationLabels.toFinset with l ≠ "r" ∧ (Label.opened l).2 = shifted,
    answer (transcript.mapMember Challenge.nu l) • f (Label.opened l).1

/-- All polynomials opened at `z`, batched: linearisation, quotient and evaluations. -/
noncomputable def batchPolynomial (variant : Variant) (key : VerificationKey G) (transcript : Transcript G)
    (composition : Composition) (z : Scalar) (f : String → Scalar[X]) : Scalar[X] :=
  (if variant.linearised then
      answer (transcript.mapMember Challenge.nu "r") • composition.terms.value f
    else 0)
    + answer (transcript.mapMember Challenge.nu "t") • (∑ i ∈ Finset.range variant.programWidth,
        z ^ (key.circuitSize * i) • f ("T_" ++ toString (i + 1)))
    + openedPolynomial variant transcript f false

theorem eval_value (terms : Terms) (f : String → Scalar[X]) (x : Scalar) :
    (terms.value f).eval x = terms.value fun L => (f L).eval x := by
  rw [Terms.value, Terms.value, eval_listSum, List.map_map]
  simp only [Function.comp_def, eval_smul]

/-- The batched openings at a point are the openings there, batched. -/
theorem eval_openedPolynomial (f : String → Scalar[X]) (shifted : Bool) (x : Scalar) :
    (openedPolynomial variant transcript f shifted).eval x
      = ∑ l ∈ variant.evaluationLabels.toFinset with l ≠ "r" ∧ (Label.opened l).2 = shifted,
          answer (transcript.mapMember Challenge.nu l) * (f (Label.opened l).1).eval x := by
  rw [openedPolynomial, eval_finsetSum]
  simp only [eval_smul, smul_eq_mul]

/-- The whole batch at a point: the linearised part, the quotient and the unshifted openings. -/
theorem eval_batchPolynomial (composition : Composition) (z : Scalar) (f : String → Scalar[X]) (x : Scalar) :
    (batchPolynomial variant key transcript composition z f).eval x
      = (if variant.linearised then
          answer (transcript.mapMember Challenge.nu "r") * composition.terms.value fun L => (f L).eval x
        else 0)
        + answer (transcript.mapMember Challenge.nu "t") * (∑ i ∈ Finset.range variant.programWidth,
            z ^ (key.circuitSize * i) * (f ("T_" ++ toString (i + 1))).eval x)
        + (openedPolynomial variant transcript f false).eval x := by
  rw [batchPolynomial, eval_add, eval_add, eval_smul, eval_finsetSum]
  simp only [eval_smul, smul_eq_mul, apply_ite (eval x), eval_zero, eval_value]

namespace BatchOpening

/-- The evaluations of a batch, sorted by the two points. -/
theorem sum_weight_mul (hvalid : variant.Composable) (transcript : Transcript G) (separator : Scalar)
    (g : String → Scalar) :
    (variant.familyEvaluations.map fun l => weight transcript separator l * g l).sum
      = (∑ l ∈ variant.evaluationLabels.toFinset with l ≠ "r" ∧ (Label.opened l).2 = false,
          answer (transcript.mapMember Challenge.nu l) * g l)
        + separator * ∑ l ∈ variant.evaluationLabels.toFinset with l ≠ "r" ∧ (Label.opened l).2 = true,
          answer (transcript.mapMember Challenge.nu l) * g l := by
  rw [← List.sum_toFinset _ variant.nodup_familyEvaluations, hvalid.toFinset_familyEvaluations,
    ← Finset.sum_filter_add_sum_filter_not _ fun l => (Label.opened l).2 = false]
  simp only [Finset.filter_filter, Bool.not_eq_false, Finset.mul_sum]
  congr 1
  · refine Finset.sum_congr rfl fun l hl => ?_
    rw [weight, (Finset.mem_filter.mp hl).2.2, if_neg Bool.false_ne_true, mul_one]
  · refine Finset.sum_congr rfl fun l hl => ?_
    rw [weight, (Finset.mem_filter.mp hl).2.2, if_pos rfl]
    ring

variable {opening : BatchOpening} {composition : Composition}

/-- **The batched commitment is that to the batched polynomials.** -/
theorem Batches.value_terms (h : opening.Batches variant key transcript composition)
    (f : String → Scalar[X]) (x : Scalar) :
    opening.terms.value (fun L => (f L).eval x)
      = (batchPolynomial variant key transcript composition opening.z f).eval x
        + opening.separator * (openedPolynomial variant transcript f true).eval x := by
  have hlinearisation : ((linearisationSummands variant transcript composition).map
      fun s => s.2 • (f s.1).eval x).sum
      = if variant.linearised then
          answer (transcript.mapMember Challenge.nu "r") * composition.terms.value fun L => (f L).eval x
        else 0 := by
    rw [linearisationSummands]
    split
    · rw [Terms.value, List.map_map, ← List.sum_map_mul_left]
      refine congrArg _ (List.map_congr_left fun term _ => ?_)
      simp only [Function.comp_apply, smul_eq_mul]
      ring
    · rfl
  have hquotient : ((quotientSummands variant.programWidth (answer (transcript.mapMember Challenge.nu "t"))
      (opening.z ^ key.circuitSize)).map fun s => s.2 • (f s.1).eval x).sum
      = answer (transcript.mapMember Challenge.nu "t") * (∑ i ∈ Finset.range variant.programWidth,
            opening.z ^ (key.circuitSize * i) * (f ("T_" ++ toString (i + 1))).eval x) := by
    rw [quotientSummands, List.map_map, ← List.sum_toFinset _ List.nodup_range, List.toFinset_range,
      Finset.mul_sum]
    refine Finset.sum_congr rfl fun i _ => ?_
    simp only [Function.comp_apply, smul_eq_mul, pow_mul]
    ring
  have hevaluations := sum_weight_mul h.composable transcript opening.separator
    fun l => (f (Label.opened l).1).eval x
  rw [h.terms, Terms.value_ofSummands, summands, List.map_append, List.map_append, List.sum_append,
    List.sum_append, hlinearisation, hquotient, evaluationSummands, List.map_map, eval_batchPolynomial,
    eval_openedPolynomial, eval_openedPolynomial, add_assoc _ _ (opening.separator * _), ← hevaluations]
  rfl

end BatchOpening

end Polynomials

/-- A commitment group that is a module over the scalars. -/
class CommitmentModule (G : Type) [CommitmentGroup G] [AddCommGroup G] [Module Scalar G] : Prop where
  weightedSum_eq : ∀ terms : List (Scalar × G),
    CommitmentGroup.weightedSum terms = (terms.map fun term => term.1 • term.2).sum

variable {G : Type} [CommitmentGroup G] [AddCommGroup G] [Module Scalar G] [CommitmentModule G]
variable {variant : Variant} {key : VerificationKey G} {transcript : Transcript G}

/-! ## The points of the check -/

namespace Terms

/-- A map whose labels resolve denotes their linear combination. -/
theorem evaluate_eq_ok {terms : Terms} {e : String → G}
    (h : ∀ L ∈ terms.labels, lookup key transcript L = .ok (e L)) :
    terms.evaluate key transcript = .ok (terms.value e) := by
  have hresolve : terms.resolve key transcript
      = .ok (terms.entries.map fun term => (term.2, e term.1)) := by
    refine mapM_eq_ok_map fun term hterm => ?_
    exact bind_eq_ok.mpr ⟨_, h term.1 (List.mem_map_of_mem hterm), rfl⟩
  rw [evaluate, hresolve, bind_eq_ok]
  refine ⟨_, rfl, pure_eq_ok.mpr ?_⟩
  rw [CommitmentModule.weightedSum_eq, List.map_map, value]
  rfl

/-- Multiples of one group element combine into one multiple. -/
theorem value_smul {M : Type*} [AddCommMonoid M] [Module Scalar M] (p : String → Scalar) (terms : Terms)
    (g : M) : terms.value (fun L => p L • g) = terms.value p • g := by
  rw [value, value, List.sum_smul, List.map_map]
  simp only [Function.comp_def, smul_smul, smul_eq_mul]

end Terms

namespace BatchOpening

variable {opening : BatchOpening} {p : String → Scalar} {a b : Scalar}

/-- The commitments of a batch are multiples of the base. -/
structure ResolvesTo (key : VerificationKey G) (transcript : Transcript G) (opening : BatchOpening)
    (p : String → Scalar) (a b : Scalar) : Prop where
  terms : ∀ L ∈ opening.terms.labels,
    Terms.lookup key transcript L = .ok (p L • (CommitmentGroup.base : G))
  proof : transcript.commitment "PI_Z" = .ok (a • (CommitmentGroup.base : G))
  shiftedProof : transcript.commitment "PI_Z_OMEGA" = .ok (b • (CommitmentGroup.base : G))

/-- **Both points of the pairing in terms of the discrete logarithms of the commitments.** -/
theorem aggregate_eq_ok (h : opening.ResolvesTo key transcript p a b) :
    opening.aggregate key transcript = .ok
      ((opening.terms.value p - opening.evaluation + opening.z * a
          + opening.separator * opening.zOmega * b) • (CommitmentGroup.base : G),
        (a + opening.separator * b) • (CommitmentGroup.base : G)) := by
  rw [aggregate, Terms.evaluate_eq_ok h.terms, h.proof, h.shiftedProof, Terms.value_smul]
  simp only [bind_eq_ok, pure_eq_ok]
  refine ⟨_, rfl, _, rfl, _, rfl, ?_⟩
  simp only [CommitmentModule.weightedSum_eq, List.map_cons, List.map_nil, List.sum_cons, List.sum_nil,
    Prod.mk.injEq]
  constructor <;> module

/-- **The points of the check differ by a multiple of the base.** -/
theorem aggregate_sub_smul (h : opening.ResolvesTo key transcript p a b) {P₀ P₁ : G}
    (hpoints : opening.aggregate key transcript = .ok (P₀, P₁)) (x : Scalar) :
    P₀ - x • P₁ = (opening.terms.value p - opening.evaluation + (opening.z - x) * a
      + opening.separator * (opening.zOmega - x) * b) • (CommitmentGroup.base : G) := by
  rw [aggregate_eq_ok h] at hpoints
  obtain ⟨rfl, rfl⟩ := Prod.mk.inj (Except.ok.inj hpoints)
  module

end BatchOpening

/-! ## An honest prover -/

/-- A prover who follows the protocol with polynomials `f`, in a setup with secret `x`. -/
structure HonestProver (variant : Variant) (key : VerificationKey G) (transcript : Transcript G)
    (composition : Composition) (opening : BatchOpening) (x : Scalar) (f : String → Scalar[X]) : Prop where
  commitment : ∀ L ∈ opening.terms.labels,
    Terms.lookup key transcript L = .ok ((f L).eval x • (CommitmentGroup.base : G))
  evaluation : ∀ l ∈ variant.evaluationLabels, l ≠ "r" → transcript.evaluation l
    = .ok ((f (Label.opened l).1).eval (if (Label.opened l).2 then opening.z * key.root else opening.z))
  linearisation : variant.linearised = true →
    transcript.evaluation "r" = .ok (composition.terms.value fun L => (f L).eval opening.z)
  quotient : (∑ i ∈ Finset.range variant.programWidth,
        opening.z ^ (key.circuitSize * i) * (f ("T_" ++ toString (i + 1))).eval opening.z)
      * (opening.z ^ key.circuitSize - 1)
    = composition.r₀
      + if variant.linearised then composition.terms.value fun L => (f L).eval opening.z else 0
  proof : transcript.commitment "PI_Z" = .ok
    ((batchPolynomial variant key transcript composition opening.z f
      /ₘ (X - C opening.z)).eval x • (CommitmentGroup.base : G))
  shiftedProof : transcript.commitment "PI_Z_OMEGA" = .ok
    ((openedPolynomial variant transcript f true
      /ₘ (X - C (opening.z * key.root))).eval x • (CommitmentGroup.base : G))

namespace HonestProver

open BatchOpening

variable {composition : Composition} {opening : BatchOpening} {x : Scalar} {f : String → Scalar[X]}

omit [CommitmentModule G] in
/-- **The claimed value is that of the batched polynomials.** -/
theorem claimedValue (hhonest : HonestProver variant key transcript composition opening x f)
    (h : opening.Batches variant key transcript composition) :
    opening.evaluation = (batchPolynomial variant key transcript composition opening.z f).eval opening.z
      + opening.separator * (openedPolynomial variant transcript f true).eval (opening.z * key.root) := by
  have hvalue : ∀ l ∈ variant.familyEvaluations, answer (transcript.evaluation l)
      = (f (Label.opened l).1).eval (if (Label.opened l).2 then opening.z * key.root else opening.z) := by
    intro l hl
    obtain ⟨hl, hne⟩ := h.composable.mem_familyEvaluations_iff.mp hl
    rw [hhonest.evaluation l hl hne, answer_ok]
  have hevaluations : (variant.familyEvaluations.map fun l =>
      weight transcript opening.separator l * answer (transcript.evaluation l)).sum
      = (openedPolynomial variant transcript f false).eval opening.z
        + opening.separator * (openedPolynomial variant transcript f true).eval (opening.z * key.root) := by
    rw [List.map_congr_left fun l hl => by rw [hvalue l hl], sum_weight_mul h.composable,
      eval_openedPolynomial, eval_openedPolynomial]
    congr 1
    · refine Finset.sum_congr rfl fun l hl => ?_
      rw [(Finset.mem_filter.mp hl).2.2, if_neg Bool.false_ne_true]
    · refine congrArg _ (Finset.sum_congr rfl fun l hl => ?_)
      rw [(Finset.mem_filter.mp hl).2.2, if_pos rfl]
  have hlinearisation : linearisationValue variant transcript
      = if variant.linearised then composition.terms.value fun L => (f L).eval opening.z else 0 := by
    rw [linearisationValue]
    split
    · next hlinearised => rw [hhonest.linearisation hlinearised, answer_ok]
    · rfl
  rw [h.evaluation, hevaluations, hlinearisation, ← hhonest.quotient,
    mul_inv_cancel_right₀ h.vanishing_ne_zero, eval_batchPolynomial, mul_ite, mul_zero, add_assoc _ _ (_ * _)]

omit [CommitmentModule G] in
/-- An honest prover's commitments resolve to its polynomials at the trapdoor. -/
theorem resolvesTo (hhonest : HonestProver variant key transcript composition opening x f) :
    opening.ResolvesTo key transcript (fun L => (f L).eval x)
      ((batchPolynomial variant key transcript composition opening.z f /ₘ (X - C opening.z)).eval x)
      ((openedPolynomial variant transcript f true /ₘ (X - C (opening.z * key.root))).eval x) :=
  ⟨hhonest.commitment, hhonest.proof, hhonest.shiftedProof⟩

/-- **An honest prover passes the check.** -/
theorem exists_points (hhonest : HonestProver variant key transcript composition opening x f)
    (h : opening.Batches variant key transcript composition) :
    ∃ P₀ P₁ : G, opening.aggregate key transcript = .ok (P₀, P₁) ∧ P₀ = x • P₁ := by
  have hpoints := aggregate_eq_ok hhonest.resolvesTo
  refine ⟨_, _, hpoints, sub_eq_zero.mp ?_⟩
  rw [aggregate_sub_smul hhonest.resolvesTo hpoints, h.value_terms, hhonest.claimedValue h, h.zOmega]
  have hproof := sub_mul_eval_divByMonic (batchPolynomial variant key transcript composition opening.z f)
    opening.z x
  have hshifted := sub_mul_eval_divByMonic (openedPolynomial variant transcript f true)
    (opening.z * key.root) x
  convert zero_smul Scalar (CommitmentGroup.base : G) using 2
  linear_combination -hproof - opening.separator * hshifted

end HonestProver

/-! ## Scalars as commitments

A proof about unconstrained rows is one of an honest prover, over scalars that stand for commitments. -/

namespace ScalarField

scoped instance : CommitmentGroup Scalar where
  base := 1
  weightedSum terms := Residue.sum (terms.map fun term => term.1 * term.2)

instance : CommitmentModule Scalar := ⟨fun _ => Residue.sum_eq _⟩

end ScalarField

namespace Unconstrained

/-- The polynomials behind unconstrained rows, by their constant and linear coefficients. -/
noncomputable def polynomial (L : String) : Scalar[X] :=
  C (if L = "Z" then 1 else if L = "PI_Z" then 6 else 0) + C (if L = "W_1" then 1 else 0) * X

theorem openedPolynomial_eq (variant : Variant) (transcript : Transcript Scalar) (shifted : Bool) :
    ∃ c, openedPolynomial variant transcript polynomial shifted
      = C c + C (∑ l ∈ variant.evaluationLabels.toFinset with l ≠ "r" ∧ (Label.opened l).2 = shifted,
          answer (transcript.mapMember Challenge.nu l)
            * if (Label.opened l).1 = "W_1" then 1 else 0) * X := by
  refine ⟨∑ l ∈ variant.evaluationLabels.toFinset with l ≠ "r" ∧ (Label.opened l).2 = shifted,
    answer (transcript.mapMember Challenge.nu l)
      * if (Label.opened l).1 = "Z" then 1 else if (Label.opened l).1 = "PI_Z" then 6 else 0, ?_⟩
  rw [openedPolynomial, map_sum, map_sum, Finset.sum_mul, ← Finset.sum_add_distrib]
  refine Finset.sum_congr rfl fun l _ => ?_
  rw [polynomial, smul_eq_C_mul, C_mul, C_mul]
  ring

/-- A linear polynomial, divided by `X - z`, leaves its slope. -/
theorem divByMonic_linear (c d z : Scalar) : (C c + C d * X) /ₘ (X - C z) = C d := by
  refine (div_modByMonic_unique (C d) (C (c + d * z)) (monic_X_sub_C z) ⟨?_, ?_⟩).1
  · rw [C_add, C_mul]
    ring
  · rw [degree_X_sub_C]
    exact degree_C_le.trans_lt zero_lt_one

theorem batchPolynomial_eq (composition : Composition) (z : Scalar) :
    batchPolynomial .evaluatedIdentities (VerificationKey.small 3 0) .unconstrained composition z polynomial
      = openedPolynomial .evaluatedIdentities .unconstrained polynomial false := by
  have hpiece : ∀ i ∈ Finset.range 3, "T_" ++ toString (i + 1) ≠ "Z" ∧ "T_" ++ toString (i + 1) ≠ "PI_Z"
      ∧ "T_" ++ toString (i + 1) ≠ "W_1" := by decide +kernel
  have hquotient : ∑ i ∈ Finset.range 3, z ^ (4 * i) • polynomial ("T_" ++ toString (i + 1)) = 0 := by
    refine Finset.sum_eq_zero fun i hi => ?_
    obtain ⟨hZ, hPI, hW⟩ := hpiece i hi
    rw [polynomial, if_neg hZ, if_neg hPI, if_neg hW, C_0, zero_mul, add_zero, smul_zero]
  change 0 + answer _ • (∑ i ∈ Finset.range 3, z ^ (4 * i) • polynomial ("T_" ++ toString (i + 1))) + _ = _
  rw [hquotient, smul_zero, add_zero, zero_add]

theorem honestProver {composition : Composition} {opening : BatchOpening} (hz : opening.z = 18)
    (hr₀ : composition.r₀ = 0) :
    HonestProver .evaluatedIdentities (.small 3 0) .unconstrained composition opening 3 polynomial := by
  have heval : ∀ L (x : Scalar), (polynomial L).eval x
      = (if L = "Z" then 1 else if L = "PI_Z" then 6 else 0) + (if L = "W_1" then 1 else 0) * x := by
    intro L x
    simp only [polynomial, eval_add, eval_mul, eval_C, eval_X]
  refine ⟨fun L _ => ?_, ?_, fun h => absurd h Bool.false_ne_true, ?_, ?_, ?_⟩
  · have hkey : ∀ e ∈ (VerificationKey.small 3 0).commitments.entries,
        e.2 = 0 ∧ e.1 ≠ "Z" ∧ e.1 ≠ "PI_Z" ∧ e.1 ≠ "W_1" := by decide +kernel
    rw [heval, Terms.lookup]
    cases hfind : (VerificationKey.small 3 0).commitments.find? L with
    | some g =>
      obtain ⟨rfl, hZ, hPI, hW⟩ := hkey _ (LabelMap.find?_eq_some_iff.mp hfind)
      simp [if_neg hZ, if_neg hPI, if_neg hW]
    | none =>
      by_cases hZ : L = "Z"
      · subst hZ
        decide +kernel
      by_cases hPI : L = "PI_Z"
      · subst hPI
        decide +kernel
      by_cases hW : L = "W_1"
      · subst hW
        decide +kernel
      simp [Transcript.unconstrained, hZ, hPI, hW]
  · simp only [heval, hz]
    decide +kernel
  · simp only [heval, hz, hr₀]
    rw [if_neg (by decide)]
    decide +kernel
  · obtain ⟨c, hc⟩ := openedPolynomial_eq .evaluatedIdentities .unconstrained false
    rw [batchPolynomial_eq, hc, divByMonic_linear, eval_C]
    decide +kernel
  · obtain ⟨c, hc⟩ := openedPolynomial_eq .evaluatedIdentities .unconstrained true
    rw [hc, divByMonic_linear, eval_C]
    decide +kernel

end Unconstrained

/-! ## The check -/

/-- **The pairing input is exact, and an honest prover is accepted.**  Whatever multiples of the base the
commitments are, the points of the check differ by the multiple that the batch leaves open; for an honest prover
they agree up to the secret, so that a check of this accepts. -/
theorem pairing_exact_and_complete {opening : BatchOpening}
    (h : batchOpening variant key transcript = .ok opening) (x : Scalar) :
    (∀ (P₀ P₁ : G) (p : String → Scalar) (a b : Scalar),
      opening.aggregate key transcript = .ok (P₀, P₁) → opening.ResolvesTo key transcript p a b →
      P₀ - x • P₁ = (opening.terms.value p - opening.evaluation + (opening.z - x) * a
        + opening.separator * (opening.z * key.root - x) * b) • (CommitmentGroup.base : G))
    ∧ ∀ (composition : Composition) (f : String → Scalar[X]),
      compose variant key transcript = .ok composition →
      HonestProver variant key transcript composition opening x f →
      (∃ P₀ P₁ : G, opening.aggregate key transcript = .ok (P₀, P₁) ∧ P₀ = x • P₁)
      ∧ ∀ check : PairingInput G → Bool,
        (∀ input, input.lhs = x • input.witness → check input = true) →
        verify variant key transcript check = .ok () := by
  obtain ⟨composition, hbatch⟩ := batchOpening_eq_ok h
  refine ⟨fun P₀ P₁ p a b hpoints hresolves => ?_, fun composition' f hcompose hhonest => ?_⟩
  · rw [BatchOpening.aggregate_sub_smul hresolves hpoints, hbatch.zOmega]
  · obtain rfl : composition = composition' := Except.ok.inj (hbatch.compose.symm.trans hcompose)
    obtain ⟨P₀, P₁, hpoints, heq⟩ := hhonest.exists_points hbatch
    refine ⟨⟨P₀, P₁, hpoints, heq⟩, fun check hcheck => ?_⟩
    have hinput : pairingInput variant key transcript
        = .ok { lhs := P₀, witness := P₁, isRecursive := opening.isRecursive } := by
      rw [pairingInput, h]
      exact bind_eq_ok.mpr ⟨opening, rfl, bind_eq_ok.mpr ⟨_, hpoints, rfl⟩⟩
    rw [verify, hinput]
    refine bind_eq_ok.mpr ⟨_, rfl, ?_⟩
    rw [if_pos (hcheck _ heq)]
    rfl

/-- A trapdoor of three: the aggregate points differ by it, and the honest prover is accepted. -/
theorem pairing_exact_and_complete_unconstrained :
    ∃ opening P₀ P₁, batchOpening .evaluatedIdentities (.small 3 0) .unconstrained = .ok opening
      ∧ opening.aggregate (VerificationKey.small 3 0) .unconstrained = .ok (P₀, P₁)
      ∧ P₀ = (3 : Scalar) • P₁
      ∧ verify .evaluatedIdentities (.small 3 0) .unconstrained
          (fun input => input.lhs = (3 : Scalar) • input.witness) = .ok () := by
  have hz : ((batchOpening .evaluatedIdentities (.small 3 0) .unconstrained).toOption.any
      (·.z = 18)) = true := by decide +kernel
  have hr₀ : ((compose .evaluatedIdentities (.small 3 0) .unconstrained).toOption.any
      (·.r₀ = 0)) = true := by decide +kernel
  obtain ⟨opening, hopening, hz⟩ := exists_ok_of_any hz
  obtain ⟨composition, hcompose, hr₀⟩ := exists_ok_of_any hr₀
  obtain ⟨⟨P₀, P₁, hpoints, heq⟩, hverify⟩ := (pairing_exact_and_complete hopening 3).2 composition
    Unconstrained.polynomial hcompose
    (Unconstrained.honestProver (of_decide_eq_true hz) (of_decide_eq_true hr₀))
  exact ⟨opening, P₀, P₁, hopening, hpoints, heq, hverify _ fun input h => decide_eq_true h⟩

end PlonkVerifier
