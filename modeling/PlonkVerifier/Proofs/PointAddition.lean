import Mathlib
import PlonkVerifier.Proofs.Edwards
import PlonkVerifier.Proofs.Separation

/-!
# Proofs/PointAddition — an elliptic gate adds two points

The gate states the addition law without division, through the product `x₁ y₂` that the next row supplies.  Addition
on the embedded curve is complete, so the three sub-identities leave the next row no choice, whatever the two points
are: equal, opposite or neutral (`subIdentities_eq_zero_iff`).  A gate that vanishes for three separation challenges
therefore accepts the sum and nothing else (`accepts_sum`).
-/

namespace PlonkVerifier

open scoped ScalarField

variable {G : Type}

namespace Elliptic

/-! ## One gate -/

/-- **The sub-identities say that the next row holds the sum**, and the product that both coordinates need. -/
theorem subIdentities_eq_zero_iff (P Q : Edwards.curve.Point) {x₃ y₃ p : Scalar} :
    (∀ c ∈ subIdentities ⟨P.x, P.y, Q.x, Q.y⟩ x₃ y₃ p, c = 0) ↔
      p = P.x * Q.y ∧ x₃ = (P + Q).x ∧ y₃ = (P + Q).y := by
  simp only [subIdentities, List.forall_mem_cons, List.not_mem_nil, false_implies, implies_true, and_true, sub_eq_zero]
  rw [eq_comm (a := P.x * Q.y)]
  refine and_congr_right fun hp => ?_
  rw [TwistedEdwards.eq_add_iff]
  -- the gate has the denominators multiplied out
  have hdenominator : Scalar.ofNat Edwards.d * p * (P.y * Q.x) = Edwards.curve.d * P.x * Q.x * P.y * Q.y := by
    rw [hp]
    change Edwards.curve.d * (P.x * Q.y) * (P.y * Q.x) = _
    ring
  rw [hdenominator, hp, mul_one_add, mul_one_sub]
  exact and_congr eq_comm eq_comm

/-- What an elliptic gate reads of two consecutive rows. -/
def window (row next : Row) : Window := ⟨row, next, []⟩

/-- The gate computes its sub-identities from the two rows. -/
theorem yields (row next : Row) :
    Gate.elliptic.Yields G (window row next) (subIdentities row next.a next.b next.d) := by
  intro transcript hopened
  simp only [Gate.elliptic, bind_eq_ok, pure_eq_ok]
  exact ⟨row, hopened.row, next.a, hopened.nextA, next.b, hopened.nextB, next.d, hopened.nextD, rfl⟩

/-- Three challenges suffice to see all sub-identities. -/
theorem vanishesFor_iff (P Q : Edwards.curve.Point) (next : Row) :
    Gate.elliptic.VanishesFor G (window ⟨P.x, P.y, Q.x, Q.y⟩ next) 3 ↔
      next.d = P.x * Q.y ∧ next.a = (P + Q).x ∧ next.b = (P + Q).y := by
  rw [← subIdentities_eq_zero_iff]
  refine ⟨fun h => h.eq_zero (yields _ _), fun h => ?_⟩
  refine (Gate.vanishes_of_eq_zero (yields _ _) h).vanishesFor ?_ {0, 1, 2} (by decide)
  simp [window, Window.evaluations]

/-! ## Every two points -/

/-- **An elliptic gate accepts exactly the complete addition.**  For two points of the embedded curve, whichever they
are, the denominators of the sum are not zero, and the gate vanishes for three separation challenges if and only if the
next row holds the product and the two coordinates of the sum.  It then vanishes for all challenges, and the sum is on
the curve. -/
theorem accepts_sum {x₁ y₁ x₂ y₂ : Scalar} (h₁ : 168700 * x₁ ^ 2 + y₁ ^ 2 = 1 + 168696 * x₁ ^ 2 * y₁ ^ 2)
    (h₂ : 168700 * x₂ ^ 2 + y₂ ^ 2 = 1 + 168696 * x₂ ^ 2 * y₂ ^ 2) :
    1 + 168696 * x₁ * x₂ * y₁ * y₂ ≠ 0 ∧ 1 - 168696 * x₁ * x₂ * y₁ * y₂ ≠ 0
    ∧ ∀ next : Row,
      (Gate.elliptic.VanishesFor G (window ⟨x₁, y₁, x₂, y₂⟩ next) 3 ↔
        next.d = x₁ * y₂
          ∧ next.a = (x₁ * y₂ + y₁ * x₂) * (1 + 168696 * x₁ * x₂ * y₁ * y₂)⁻¹
          ∧ next.b = (y₁ * y₂ - 168700 * x₁ * x₂) * (1 - 168696 * x₁ * x₂ * y₁ * y₂)⁻¹)
      ∧ (Gate.elliptic.VanishesFor G (window ⟨x₁, y₁, x₂, y₂⟩ next) 3 →
        Gate.elliptic.Vanishes G (window ⟨x₁, y₁, x₂, y₂⟩ next)
          ∧ 168700 * next.a ^ 2 + next.b ^ 2 = 1 + 168696 * next.a ^ 2 * next.b ^ 2) := by
  have hadd := TwistedEdwards.one_add_ne_zero (Edwards.onCurve_iff.mpr h₁) (Edwards.onCurve_iff.mpr h₂)
  have hsub := TwistedEdwards.one_sub_ne_zero (Edwards.onCurve_iff.mpr h₁) (Edwards.onCurve_iff.mpr h₂)
  rw [Edwards.curve_d] at hadd hsub
  let P : Edwards.curve.Point := ⟨x₁, y₁, Edwards.onCurve_iff.mpr h₁⟩
  let Q : Edwards.curve.Point := ⟨x₂, y₂, Edwards.onCurve_iff.mpr h₂⟩
  refine ⟨hadd, hsub, fun next => ⟨?_, fun h => ?_⟩⟩
  · have hiff := vanishesFor_iff (G := G) P Q next
    rwa [Edwards.add_x, Edwards.add_y] at hiff
  · have hsum := (vanishesFor_iff P Q next).mp h
    refine ⟨Gate.vanishes_of_eq_zero (yields _ _) ((subIdentities_eq_zero_iff P Q).mpr hsum), ?_⟩
    rw [hsum.2.1, hsum.2.2]
    exact Edwards.onCurve_iff.mp (P + Q).onCurve

/-- The row after the generator of the curve and the base point of its subgroup. -/
def generatorsRow : Row where
  a := 14805543388578810117460687107379140748822348273316260688573060998934016770136
  b := 13589798946988221969763682225123791336245855044059976312385135587934609470572
  c := 0
  d := Edwards.generator.x * Edwards.basePoint.y

/-- The sum of two points of the curve passes, its coordinates swapped it does not. -/
theorem accepts_sum_generators :
    Edwards.curve.OnCurve Edwards.generator.x Edwards.generator.y
    ∧ Edwards.curve.OnCurve Edwards.basePoint.x Edwards.basePoint.y
    ∧ Gate.elliptic.VanishesFor Point (window
        ⟨Edwards.generator.x, Edwards.generator.y, Edwards.basePoint.x, Edwards.basePoint.y⟩ generatorsRow) 3
    ∧ ¬ Gate.elliptic.VanishesFor Point (window
        ⟨Edwards.generator.x, Edwards.generator.y, Edwards.basePoint.x, Edwards.basePoint.y⟩
        { generatorsRow with a := generatorsRow.b, b := generatorsRow.a }) 3 := by
  have h₁ := Edwards.generator.onCurve
  have h₂ := Edwards.basePoint.onCurve
  obtain ⟨-, -, haccepts⟩ := accepts_sum (G := Point) (Edwards.onCurve_iff.mp h₁) (Edwards.onCurve_iff.mp h₂)
  refine ⟨h₁, h₂, (haccepts _).1.mpr (by decide +kernel), fun hswapped => ?_⟩
  exact absurd ((haccepts _).1.mp hswapped) (by decide +kernel)

end Elliptic

end PlonkVerifier
