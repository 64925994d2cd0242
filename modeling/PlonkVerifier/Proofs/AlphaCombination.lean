import Mathlib
import PlonkVerifier.Proofs.ClosedForm

/-!
# Proofs/AlphaCombination — the families are combined by distinct powers of alpha

An unrolled composition is a polynomial in alpha whose coefficients are the identities of the families
(`r₀_eq_sum`).  It has as many coefficients as there are families, so it cannot vanish at that many challenges
unless every identity does (`alpha_combination`).
-/

namespace PlonkVerifier

open scoped ScalarField

variable {G : Type} {key : VerificationKey G} {transcript : Transcript G}

/-! ## One power for each family -/

/-- A composition of `families`: one power of alpha after the other, and the identities at these powers. -/
structure Composition.Combines (key : VerificationKey G) (ids : Bool) (ρ : Reading) (start : AlphaPower)
    (families : List Family) (composition : Composition) : Prop where
  alpha : composition.power.alpha = start.alpha
  base : composition.power.base = start.base * start.alpha ^ families.length
  r₀ : composition.r₀ = (families.mapIdx fun j family =>
    start.base * start.alpha ^ j * family.closedForm key ids ρ).sum

/-- **A run takes a fresh power for each family.** -/
theorem Composition.combines_of_run {ids : Bool} {power : AlphaPower} {families : List Family}
    {composition : Composition} (hkey : key.Consistent) (hwidth : 0 < key.programWidth)
    (h : families.foldlM (apply key transcript ⟨false, ids⟩) (.start power) = .ok composition) :
    composition.Combines key ids transcript.reading power families := by
  refine foldlM_invariant (fun done c => c.Combines key ids transcript.reading power done)
    h ⟨rfl, (mul_one _).symm, rfl⟩ fun done family c c' _ _ hdone hstep => ?_
  obtain ⟨terms, part, -, hpart, rfl⟩ := apply_eq_ok.mp hstep
  obtain rfl := Family.scalarPart_eq_closedForm hkey hwidth hpart
  refine ⟨hdone.alpha, ?_, ?_⟩
  · change c.power.base * Residue.pow c.power.alpha family.alphaPowers = _
    rw [Residue.pow_eq, hdone.base, hdone.alpha, mul_assoc, ← pow_add, List.length_append]
    rfl
  · rw [extend, hdone.r₀, hdone.base, List.mapIdx_concat, List.sum_append, List.sum_singleton]

/-- **An unrolled composition is a polynomial in alpha.** -/
theorem r₀_eq_sum {variant : Variant} (hunrolled : variant.linearised = false) {power : AlphaPower}
    {composition : Composition} (h : composeFrom variant key transcript power = .ok composition) :
    composition.r₀ = ∑ j : Fin variant.families.length, power.base * power.alpha ^ (j : ℕ)
      * variant.families[j].closedForm key variant.identityPolynomials transcript.reading := by
  obtain ⟨hfits, hrun⟩ := composeFrom_eq_ok.mp h
  rw [Variant.mode, hunrolled] at hrun
  rw [(Composition.combines_of_run hfits.consistent hfits.gateWidth.pos hrun).r₀, List.mapIdx_eq_ofFn, List.sum_ofFn]
  rfl

/-! ## Soundness -/

/-- **Soundness of the combination.**  An unrolled composition is the sum of the identities of its families, each
at its own power of alpha; the identities do not know alpha; and if the composition vanishes at as many nonzero
challenges as there are families, then so does every identity. -/
theorem alpha_combination {variant : Variant} (hunrolled : variant.linearised = false)
    (key : VerificationKey G) (transcript : Transcript G) :
    (∀ power composition, composeFrom variant key transcript power = .ok composition →
      composition.r₀ = ∑ j : Fin variant.families.length, power.base * power.alpha ^ (j : ℕ)
        * variant.families[j].closedForm key variant.identityPolynomials transcript.reading)
    ∧ (∀ (family : Family) (ρ ρ' : Reading), ρ.AgreesOffAlpha ρ' →
      family.closedForm key variant.identityPolynomials ρ
        = family.closedForm key variant.identityPolynomials ρ')
    ∧ ∀ alphas : Finset Scalar, variant.families.length ≤ alphas.card → 0 ∉ alphas →
      (∀ alpha ∈ alphas, ∃ (transcript' : Transcript G) (composition : Composition),
        transcript'.reading.AgreesOffAlpha transcript.reading
          ∧ composeFrom variant key transcript' (.ofChallenge alpha) = .ok composition
          ∧ composition.r₀ = 0) →
      ∀ family ∈ variant.families,
        family.closedForm key variant.identityPolynomials transcript.reading = 0 := by
  refine ⟨fun power composition h => r₀_eq_sum hunrolled h,
    fun family ρ ρ' h => family.closedForm_congr h key _, ?_⟩
  intro alphas hcard hzero hvanish
  have hroot : ∀ alpha ∈ alphas, ∑ j : Fin variant.families.length, alpha ^ (j : ℕ)
      * variant.families[j].closedForm key variant.identityPolynomials transcript.reading = 0 := by
    intro alpha halpha
    obtain ⟨transcript', composition, hagrees, hcompose, hr₀⟩ := hvanish alpha halpha
    have hsum := r₀_eq_sum hunrolled hcompose
    simp only [hr₀, AlphaPower.ofChallenge, Family.closedForm_congr hagrees, mul_assoc,
      ← Finset.mul_sum] at hsum
    exact (mul_eq_zero.mp hsum.symm).resolve_left fun h => hzero (h ▸ halpha)
  -- a Vandermonde system in the first challenges
  have hidentities := Matrix.eq_zero_of_forall_index_sum_pow_mul_eq_zero
    (Subtype.val_injective.comp (alphas.equivFin.symm.injective.comp (Fin.castLE_injective hcard)))
    fun i => hroot _ (Subtype.prop _)
  intro family hfamily
  obtain ⟨j, hj, rfl⟩ := List.getElem_of_mem hfamily
  exact congrFun hidentities ⟨j, hj⟩

/-- Two families, two nonzero separators, every identity zero: the combination and its parts vanish. -/
theorem alpha_combination_unconstrained :
    (∀ alpha ∈ ({1, 2} : Finset Scalar), ∃ composition,
      composeFrom .evaluatedIdentities (.small 3 0) .unconstrained (.ofChallenge alpha) = .ok composition
        ∧ composition.r₀ = 0)
    ∧ ∀ family ∈ Variant.evaluatedIdentities.families,
      family.closedForm (VerificationKey.small 3 0) true Transcript.unconstrained.reading = 0 := by
  have hvanish : ∀ alpha ∈ ({1, 2} : Finset Scalar), ∃ composition,
      composeFrom .evaluatedIdentities (.small 3 0) .unconstrained (.ofChallenge alpha) = .ok composition
        ∧ composition.r₀ = 0 := by
    intro alpha halpha
    have hany : ((composeFrom .evaluatedIdentities (.small 3 0) .unconstrained
        (.ofChallenge alpha)).toOption.any (·.r₀ = 0)) = true := by
      rcases Finset.mem_insert.mp halpha with rfl | halpha
      · decide +kernel
      · obtain rfl := Finset.mem_singleton.mp halpha
        decide +kernel
    obtain ⟨composition, hcompose, hr₀⟩ := exists_ok_of_any hany
    exact ⟨composition, hcompose, of_decide_eq_true hr₀⟩
  have hunrolled : Variant.evaluatedIdentities.linearised = false := rfl
  obtain ⟨-, -, hsound⟩ := alpha_combination hunrolled (.small 3 0) .unconstrained
  refine ⟨hvanish, hsound {1, 2} (by decide +kernel) (by decide +kernel) fun alpha halpha => ?_⟩
  obtain ⟨composition, hcompose, hr₀⟩ := hvanish alpha halpha
  exact ⟨_, composition, ⟨fun _ _ => rfl, fun _ => rfl, rfl⟩, hcompose, hr₀⟩

end PlonkVerifier
