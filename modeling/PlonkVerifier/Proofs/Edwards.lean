import Mathlib
import PlonkVerifier.Gate.Basic
import PlonkVerifier.Proofs.Field.Scalar

/-!
# Proofs/Edwards — addition on the embedded curve has no exceptions

On a twisted Edwards curve `a x² + y² = 1 + d x² y²` with `a` a square and `d` none, the denominators of the
addition law are never zero (`sq_ne_one`) and sums stay on the curve (`onCurve_add`).  So addition is an operation
on points, and the two equations that state it without division have the sum as their only solution
(`eq_add_iff`).

The curve embedded in the scalar field is of this kind (`Edwards.curve`).
-/

namespace PlonkVerifier

/-- A twisted Edwards curve with a complete addition law. -/
structure TwistedEdwards (F : Type) [Field F] where
  a : F
  d : F
  isSquare_a : IsSquare a
  not_isSquare_d : ¬ IsSquare d
  two_ne_zero : (2 : F) ≠ 0

namespace TwistedEdwards

variable {F : Type} [Field F] (E : TwistedEdwards F)

/-- The equation of the curve. -/
def OnCurve (x y : F) : Prop := E.a * x ^ 2 + y ^ 2 = 1 + E.d * x ^ 2 * y ^ 2

/-- A point of the curve. -/
@[ext] structure Point where
  x : F
  y : F
  onCurve : E.OnCurve x y

/-! ## Completeness -/

variable {E}

/-- No multiple of a nonzero square by `d` is a square. -/
theorem eq_zero_of_d_mul_sq {u v : F} (h : E.d * u ^ 2 = v ^ 2) : u = 0 := by
  by_contra hu
  refine E.not_isSquare_d ⟨v / u, ?_⟩
  rw [← sq, div_pow, ← h, mul_div_cancel_right₀ _ (pow_ne_zero 2 hu)]

variable {x₁ y₁ x₂ y₂ : F}

/-- **The denominators of the addition law are not zero**: their product is one minus this square. -/
theorem sq_ne_one (h₁ : E.OnCurve x₁ y₁) (h₂ : E.OnCurve x₂ y₂) : (E.d * x₁ * x₂ * y₁ * y₂) ^ 2 ≠ 1 := by
  intro hone
  obtain ⟨r, hr⟩ := E.isSquare_a
  rw [OnCurve] at h₁ h₂
  -- `d` times a square is a square for either root of `a`
  have hroot : ∀ r, E.a = r * r → x₁ * y₁ * (r * x₂ + y₂) = 0 := by
    intro r hr
    refine eq_zero_of_d_mul_sq (E := E) (v := r * x₁ + E.d * x₁ * x₂ * y₁ * y₂ * y₁) ?_
    rw [hr] at h₁ h₂
    linear_combination E.d * x₁ ^ 2 * y₁ ^ 2 * h₂ - h₁ + (1 - y₁ ^ 2) * hone
  have hpos := hroot r hr
  have hneg := hroot (-r) (by rw [hr, neg_mul_neg])
  have hzero : 2 * (x₁ * y₁ * y₂) = 0 := by linear_combination hpos + hneg
  have hproduct := (mul_eq_zero.mp hzero).resolve_left E.two_ne_zero
  refine zero_ne_one (α := F) ?_
  linear_combination hone - E.d ^ 2 * x₁ * x₂ ^ 2 * y₁ * y₂ * hproduct

/-- **The denominator of the abscissa never vanishes**, `d` not being a square. -/
theorem one_add_ne_zero (h₁ : E.OnCurve x₁ y₁) (h₂ : E.OnCurve x₂ y₂) : 1 + E.d * x₁ * x₂ * y₁ * y₂ ≠ 0 := by
  intro h
  apply sq_ne_one h₁ h₂
  linear_combination (E.d * x₁ * x₂ * y₁ * y₂ - 1) * h

theorem one_sub_ne_zero (h₁ : E.OnCurve x₁ y₁) (h₂ : E.OnCurve x₂ y₂) : 1 - E.d * x₁ * x₂ * y₁ * y₂ ≠ 0 := by
  intro h
  apply sq_ne_one h₁ h₂
  linear_combination -(E.d * x₁ * x₂ * y₁ * y₂ + 1) * h

/-! ## Addition -/

/-- **A solution of the equations of the addition law is on the curve.** -/
theorem onCurve_add (h₁ : E.OnCurve x₁ y₁) (h₂ : E.OnCurve x₂ y₂) {x y : F}
    (hx : x * (1 + E.d * x₁ * x₂ * y₁ * y₂) = x₁ * y₂ + y₁ * x₂)
    (hy : y * (1 - E.d * x₁ * x₂ * y₁ * y₂) = y₁ * y₂ - E.a * x₁ * x₂) : E.OnCurve x y := by
  have hadd := one_add_ne_zero h₁ h₂
  have hsub := one_sub_ne_zero h₁ h₂
  rw [OnCurve] at h₁ h₂
  have hcleared : E.a * (x₁ * y₂ + y₁ * x₂) ^ 2 * (1 - E.d * x₁ * x₂ * y₁ * y₂) ^ 2
        + (y₁ * y₂ - E.a * x₁ * x₂) ^ 2 * (1 + E.d * x₁ * x₂ * y₁ * y₂) ^ 2
      = (1 + E.d * x₁ * x₂ * y₁ * y₂) ^ 2 * (1 - E.d * x₁ * x₂ * y₁ * y₂) ^ 2
        + E.d * (x₁ * y₂ + y₁ * x₂) ^ 2 * (y₁ * y₂ - E.a * x₁ * x₂) ^ 2 := by
    linear_combination
      ((1 + (E.d * x₁ * x₂ * y₁ * y₂) ^ 2) * (E.a * x₁ ^ 2 + y₁ ^ 2)
          - E.d * x₁ ^ 2 * y₁ ^ 2 * (E.a * x₂ ^ 2 + y₂ ^ 2 + (1 + E.d * x₂ ^ 2 * y₂ ^ 2))) * h₂
        + ((1 + (E.d * x₁ * x₂ * y₁ * y₂) ^ 2) * (1 + E.d * x₂ ^ 2 * y₂ ^ 2)
          - E.d * x₂ ^ 2 * y₂ ^ 2 * (E.a * x₁ ^ 2 + y₁ ^ 2 + (1 + E.d * x₁ ^ 2 * y₁ ^ 2))) * h₁
  rw [← hx, ← hy] at hcleared
  refine mul_left_cancel₀ (mul_ne_zero (pow_ne_zero 2 hadd) (pow_ne_zero 2 hsub)) ?_
  linear_combination hcleared

instance : Zero E.Point := ⟨⟨0, 1, by rw [OnCurve]; ring⟩⟩

instance : Neg E.Point := ⟨fun P => ⟨-P.x, P.y, by
  rw [OnCurve, neg_sq]
  exact P.onCurve⟩⟩

instance : Add E.Point := ⟨fun P Q => {
  x := (P.x * Q.y + P.y * Q.x) / (1 + E.d * P.x * Q.x * P.y * Q.y)
  y := (P.y * Q.y - E.a * P.x * Q.x) / (1 - E.d * P.x * Q.x * P.y * Q.y)
  onCurve := onCurve_add P.onCurve Q.onCurve (div_mul_cancel₀ _ (one_add_ne_zero P.onCurve Q.onCurve))
    (div_mul_cancel₀ _ (one_sub_ne_zero P.onCurve Q.onCurve)) }⟩

/-- **The sum is the only solution of the equations of the addition law.** -/
theorem eq_add_iff (P Q : E.Point) (x y : F) :
    x = (P + Q).x ∧ y = (P + Q).y ↔
      x * (1 + E.d * P.x * Q.x * P.y * Q.y) = P.x * Q.y + P.y * Q.x
        ∧ y * (1 - E.d * P.x * Q.x * P.y * Q.y) = P.y * Q.y - E.a * P.x * Q.x := by
  refine and_congr ?_ ?_
  · exact eq_div_iff (one_add_ne_zero P.onCurve Q.onCurve)
  · exact eq_div_iff (one_sub_ne_zero P.onCurve Q.onCurve)

/-! ## Multiples by a sign -/

/-- The neutral element, the point or its negative. -/
instance : SMul SignType E.Point := ⟨fun
  | .zero, _ => 0
  | .neg, P => -P
  | .pos, P => P⟩

/-- A signed point has the signed abscissa. -/
theorem sign_smul_x (t : SignType) (P : E.Point) : (t • P).x = (t : F) * P.x := by
  cases t with
  | zero => exact (zero_mul _).symm
  | neg => exact (neg_one_mul _).symm
  | pos => exact (one_mul _).symm

/-- A signed point keeps its ordinate, the zero sign giving that of the identity. -/
theorem sign_smul_y (t : SignType) (P : E.Point) : (t • P).y = (t : F) ^ 2 * (P.y - 1) + 1 := by
  cases t with
  | zero => change 1 = (0 : F) ^ 2 * (P.y - 1) + 1; ring
  | neg => change P.y = (-1 : F) ^ 2 * (P.y - 1) + 1; ring
  | pos => change P.y = (1 : F) ^ 2 * (P.y - 1) + 1; ring

end TwistedEdwards

/-! ## The embedded curve -/

namespace Edwards

open scoped ScalarField

/-- Euler's criterion, for an element that is not a square. -/
theorem not_isSquare_of_pow {x : Scalar} (h : Residue.pow x ((scalarModulus - 1) / 2) ≠ 1) (hx : x ≠ 0) :
    ¬ IsSquare x := by
  rintro ⟨r, rfl⟩
  have hr : r ≠ 0 := fun hr => hx (by rw [hr, mul_zero])
  apply h
  rw [Residue.pow_eq, ← sq, ← pow_mul, Nat.mul_div_cancel' (by decide), Residue.pow_pred hr]

/-- **The curve embedded in the scalar field**, with a complete addition law. -/
def curve : TwistedEdwards Scalar where
  a := Scalar.ofNat a
  d := Scalar.ofNat d
  isSquare_a := ⟨7214280148105020021932206872019688659210616427216992810330019057549499971851, by decide +kernel⟩
  not_isSquare_d := not_isSquare_of_pow (by decide +kernel) (by decide +kernel)
  two_ne_zero := by decide

theorem curve_a : curve.a = 168700 := rfl

theorem curve_d : curve.d = 168696 := rfl

theorem onCurve_iff {x y : Scalar} :
    curve.OnCurve x y ↔ 168700 * x ^ 2 + y ^ 2 = 1 + 168696 * x ^ 2 * y ^ 2 := Iff.rfl

/-- The abscissa of a sum as the gates compute it. -/
theorem add_x (P Q : curve.Point) :
    (P + Q).x = (P.x * Q.y + P.y * Q.x) * (1 + 168696 * P.x * Q.x * P.y * Q.y)⁻¹ := by
  rw [← curve_d]
  exact div_eq_mul_inv _ _

/-- The ordinate of a sum as the gates compute it. -/
theorem add_y (P Q : curve.Point) :
    (P + Q).y = (P.y * Q.y - 168700 * P.x * Q.x) * (1 - 168696 * P.x * Q.x * P.y * Q.y)⁻¹ := by
  rw [← curve_a, ← curve_d]
  exact div_eq_mul_inv _ _

/-- A point that generates the curve. -/
def generator : curve.Point where
  x := 995203441582195749578291179787384436505546430278305826713579947235728471134
  y := 5472060717959818805561601436314318772137091100104008585924551046643952123905
  onCurve := by
    rw [TwistedEdwards.OnCurve]
    decide +kernel

/-- A point that generates the subgroup of prime order. -/
def basePoint : curve.Point where
  x := 5299619240641551281634865583518297030282874472190772894086521144482721001553
  y := 16950150798460657717958625567821834550301663161624707787222815936182638968203
  onCurve := by
    rw [TwistedEdwards.OnCurve]
    decide +kernel

end Edwards

end PlonkVerifier
