import Mathlib
import PlonkVerifier.Proofs.Edwards
import PlonkVerifier.Proofs.Separation

/-!
# Proofs/FixedBaseChain — fixed-base gates in a row compute a signed-digit multiplication

A fixed-base gate adds the multiple of a table point by a digit `-1`, `0` or `1` to the accumulated point, and
appends the digit to the scalar accumulator (`FixedBase.subIdentities_eq_zero_iff`).  The gate states the addition
without division; as addition on the embedded curve is complete, this still leaves the next point no choice.  So the
gates of a chain accumulate the sum from left to right, and the digits determine the chain (`fixedBase_chain`).
-/

namespace PlonkVerifier

open scoped ScalarField
open Finset (range)

variable {G : Type}

namespace FixedBase

/-- A row that has accumulated a point of the embedded curve. -/
structure At (row : Row) (P : Edwards.curve.Point) : Prop where
  a : row.a = P.x
  b : row.b = P.y

/-- The product of the coordinates that the digit `t` gives to a table point `Q`. -/
def product (t : SignType) (Q : Edwards.curve.Point) : Scalar := t * Q.x * ((t : Scalar) ^ 2 * (Q.y - 1) + 1)

/-- A step from the point `P` with the digit `t` of the table point `Q`. -/
structure Step (t : SignType) (P Q : Edwards.curve.Point) (row next : Row) : Prop where
  product : row.c = FixedBase.product t Q
  point : At next (P + t • Q)
  d : next.d = 2 * row.d + t

/-- The sub-identities of a step with the table point `Q` are zero. -/
def Satisfied (Q : Edwards.curve.Point) (row next : Row) : Prop :=
  ∀ c ∈ subIdentities row next.a next.b next.d Q.x Q.y, c = 0

/-! ## One gate -/

variable {P Q : Edwards.curve.Point} {row next : Row} {t : SignType}

/-- **A digit is a zero of `t (t - 1) (t + 1)`.** -/
theorem exists_digit_iff {x : Scalar} : x * (x - 1) * (x + 1) = 0 ↔ ∃ t : SignType, x = t := by
  simp only [mul_eq_zero, sub_eq_zero, add_eq_zero_iff_eq_neg]
  constructor
  · rintro ((h | h) | h)
    · exact ⟨0, h⟩
    · exact ⟨1, h⟩
    · exact ⟨-1, h.trans SignType.coe_neg_one.symm⟩
  · rintro ⟨t, rfl⟩
    obtain rfl | rfl | rfl := t.trichotomy
    · exact .inr rfl
    · exact .inl (.inl rfl)
    · exact .inl (.inr rfl)

/-- A digit is known from its scalar. -/
theorem digit_injective : Function.Injective fun t : SignType => (t : Scalar) := by decide

theorem digit_eq_iff : next.d - (row.d + row.d) = t ↔ next.d = 2 * row.d + t := by
  rw [← two_mul, sub_eq_iff_eq_add']

/-- A satisfied row has appended minus one, zero or one. -/
theorem Satisfied.exists_digit (h : Satisfied Q row next) : ∃ t : SignType, next.d = 2 * row.d + t := by
  obtain ⟨t, ht⟩ := exists_digit_iff.mp (h _ List.mem_cons_self)
  exact ⟨t, digit_eq_iff.mp ht⟩

/-- With the product in its wire, the equations of the gate are those of the addition law. -/
theorem at_add_iff (hrow : At row P) (hc : row.c = product t Q) :
    At next (P + t • Q) ↔
      next.a * (1 + Scalar.ofNat Edwards.d * row.a * row.b * row.c)
          = row.a * (t * t * (Q.y - 1) + 1) + row.b * (Q.x * t)
        ∧ next.b * (1 - Scalar.ofNat Edwards.d * row.a * row.b * row.c)
          = row.b * (t * t * (Q.y - 1) + 1) - Scalar.ofNat Edwards.a * row.a * (Q.x * t) := by
  have hdenominator : Edwards.curve.d * P.x * (t • Q).x * P.y * (t • Q).y
      = Scalar.ofNat Edwards.d * row.a * row.b * row.c := by
    rw [TwistedEdwards.sign_smul_x, TwistedEdwards.sign_smul_y, hrow.a, hrow.b, hc, product]
    change Scalar.ofNat Edwards.d * P.x * (t * Q.x) * P.y * _ = _
    ring
  have hadd := TwistedEdwards.eq_add_iff P (t • Q) next.a next.b
  rw [hdenominator, TwistedEdwards.sign_smul_x, TwistedEdwards.sign_smul_y, ← hrow.a, ← hrow.b] at hadd
  rw [sq, mul_comm (t : Scalar) Q.x] at hadd
  exact ⟨fun h => hadd.mp ⟨h.a, h.b⟩, fun h => ⟨(hadd.mpr h).1, (hadd.mpr h).2⟩⟩

/-- **The sub-identities say that a multiple of the table point is added.** -/
theorem satisfied_iff (hrow : At row P) : Satisfied Q row next ↔ ∃ t, Step t P Q row next := by
  simp only [Satisfied, subIdentities, List.forall_mem_cons, List.not_mem_nil, false_implies, implies_true, and_true,
    sub_eq_zero]
  constructor
  · rintro ⟨hbit, hc, hx, hy⟩
    obtain ⟨t, ht⟩ := exists_digit_iff.mp hbit
    rw [ht] at hc hx hy
    have hproduct : row.c = product t Q := by rw [hc, product]; ring
    exact ⟨t, hproduct, (at_add_iff hrow hproduct).mpr ⟨hx, hy⟩, digit_eq_iff.mp ht⟩
  · rintro ⟨t, h⟩
    obtain ⟨hx, hy⟩ := (at_add_iff hrow h.product).mp h.point
    rw [digit_eq_iff.mpr h.d]
    refine ⟨exists_digit_iff.mpr ⟨t, rfl⟩, ?_, hx, hy⟩
    rw [h.product, product]
    ring

/-! ## Chains -/

/-- The sum from left to right of a point and multiples of the table points. -/
def partialSum (start : Edwards.curve.Point) (table : ℕ → Edwards.curve.Point) (t : ℕ → SignType) :
    ℕ → Edwards.curve.Point
  | 0 => start
  | i + 1 => partialSum start table t i + t i • table i

variable {start : Edwards.curve.Point} {table : ℕ → Edwards.curve.Point} {t : ℕ → SignType} {rows : ℕ → Row}
  {m : ℕ}

theorem sum_digits_succ (t : ℕ → SignType) (m : ℕ) :
    ∑ i ∈ range (m + 1), (2 : Scalar) ^ (m + 1 - 1 - i) * (t i : Scalar)
      = 2 * (∑ i ∈ range m, 2 ^ (m - 1 - i) * (t i : Scalar)) + t m := by
  rw [Finset.sum_range_succ, Finset.mul_sum, Nat.add_sub_cancel, Nat.sub_self, pow_zero, one_mul]
  refine congrArg (· + _) (Finset.sum_congr rfl fun i hi => ?_)
  have hlt := Finset.mem_range.mp hi
  rw [← mul_assoc, ← pow_succ', show m - 1 - i + 1 = m - i by omega]

/-- **The scalar accumulator takes the digits in base two.** -/
theorem accumulator_eq (h : ∀ i < m, (rows (i + 1)).d = 2 * (rows i).d + t i) :
    (rows m).d = 2 ^ m * (rows 0).d + ∑ i ∈ range m, 2 ^ (m - 1 - i) * (t i : Scalar) := by
  induction m with
  | zero => rw [pow_zero, one_mul, Finset.sum_range_zero, add_zero]
  | succ m ih =>
    rw [h m (Nat.lt_succ_self m), ih fun i hi => h i (Nat.lt_succ_of_lt hi), sum_digits_succ, pow_succ]
    ring

/-- **The digits determine a chain**: it accumulates the sum from left to right. -/
theorem steps_of_digits (hstart : At (rows 0) start) (hdigits : ∀ i < m, (rows (i + 1)).d = 2 * (rows i).d + t i)
    (h : ∀ i < m, Satisfied (table i) (rows i) (rows (i + 1))) :
    (∀ i < m, Step (t i) (partialSum start table t i) (table i) (rows i) (rows (i + 1)))
      ∧ At (rows m) (partialSum start table t m) := by
  induction m with
  | zero => exact ⟨fun i hi => absurd hi (Nat.not_lt_zero i), hstart⟩
  | succ m ih =>
    obtain ⟨hsteps, hrow⟩ := ih (fun i hi => hdigits i (Nat.lt_succ_of_lt hi)) fun i hi => h i (Nat.lt_succ_of_lt hi)
    obtain ⟨t', hstep⟩ := (satisfied_iff hrow).mp (h m (Nat.lt_succ_self m))
    obtain rfl : t m = t' :=
      digit_injective (add_left_cancel ((hdigits m (Nat.lt_succ_self m)).symm.trans hstep.d))
    refine ⟨fun i hi => ?_, hstep.point⟩
    rcases Nat.lt_succ_iff_lt_or_eq.mp hi with hi | rfl
    · exact hsteps i hi
    · exact hstep

/-- The rows that the digits lead to. -/
def digitRow (start : Edwards.curve.Point) (table : ℕ → Edwards.curve.Point) (t : ℕ → SignType) (d₀ : Scalar)
    (i : ℕ) : Row where
  a := (partialSum start table t i).x
  b := (partialSum start table t i).y
  c := product (t i) (table i)
  d := 2 ^ i * d₀ + ∑ j ∈ range i, 2 ^ (i - 1 - j) * (t j : Scalar)

/-- The rows written from a start, a table and digits satisfy every step. -/
theorem step_digitRow (start : Edwards.curve.Point) (table : ℕ → Edwards.curve.Point) (t : ℕ → SignType)
    (d₀ : Scalar) (i : ℕ) :
    Step (t i) (partialSum start table t i) (table i) (digitRow start table t d₀ i)
      (digitRow start table t d₀ (i + 1)) where
  product := rfl
  point := ⟨rfl, rfl⟩
  d := by
    simp only [digitRow, sum_digits_succ, pow_succ]
    ring

/-! ## Gates in a row -/

/-- What a fixed-base gate reads of two consecutive rows and a table point. -/
def window (Q : Edwards.curve.Point) (row next : Row) : Window := ⟨row, next, [("q_1", Q.x), ("q_2", Q.y)]⟩

/-- The gate computes its sub-identities from the row, the next row and the table point. -/
theorem yields (Q : Edwards.curve.Point) (row next : Row) :
    Gate.fixedBase.Yields G (window Q row next) (subIdentities row next.a next.b next.d Q.x Q.y) := by
  intro transcript hopened
  have hq₁ : transcript.evaluation "q_1" = .ok Q.x := hopened.selector List.mem_cons_self
  have hq₂ : transcript.evaluation "q_2" = .ok Q.y := hopened.selector (List.mem_cons_of_mem _ List.mem_cons_self)
  simp only [Gate.fixedBase, bind_eq_ok, pure_eq_ok]
  exact ⟨row, hopened.row, next.a, hopened.nextA, next.b, hopened.nextB, next.d, hopened.nextD, Q.x, hq₁, Q.y, hq₂,
    rfl⟩

/-- **A chain of fixed-base gates multiplies by signed digits.**  Gates that vanish for four separation challenges
each add a multiple of their table point by a digit, so that the accumulated point is the sum from left to right and
the scalar accumulator takes the digits in base two.  Conversely, every choice of digits has a chain on which the gates
vanish for all challenges, and no other chain with these digits is accepted. -/
theorem fixedBase_chain (start : Edwards.curve.Point) (table : ℕ → Edwards.curve.Point) (m : ℕ) :
    (∀ rows : ℕ → Row, At (rows 0) start →
      (∀ i < m, Gate.fixedBase.VanishesFor G (window (table i) (rows i) (rows (i + 1))) 4) →
      ∃ t : ℕ → SignType,
        (∀ i < m, Step (t i) (partialSum start table t i) (table i) (rows i) (rows (i + 1)))
        ∧ At (rows m) (partialSum start table t m)
        ∧ (rows m).d = 2 ^ m * (rows 0).d + ∑ i ∈ range m, 2 ^ (m - 1 - i) * (t i : Scalar))
    ∧ ∀ (t : ℕ → SignType) (d₀ : Scalar), ∃ rows : ℕ → Row, At (rows 0) start ∧ (rows 0).d = d₀
      ∧ (∀ i < m, Step (t i) (partialSum start table t i) (table i) (rows i) (rows (i + 1))
        ∧ Gate.fixedBase.Vanishes G (window (table i) (rows i) (rows (i + 1))))
      ∧ ∀ rows' : ℕ → Row, At (rows' 0) start → (rows' 0).d = d₀ →
        (∀ i < m, (rows' (i + 1)).d = 2 * (rows' i).d + t i
          ∧ Gate.fixedBase.VanishesFor G (window (table i) (rows' i) (rows' (i + 1))) 4) →
        ∀ i < m, (rows' i).c = (rows i).c ∧ (rows' (i + 1)).a = (rows (i + 1)).a
          ∧ (rows' (i + 1)).b = (rows (i + 1)).b ∧ (rows' (i + 1)).d = (rows (i + 1)).d := by
  have hsatisfied : ∀ rows : ℕ → Row,
      (∀ i < m, Gate.fixedBase.VanishesFor G (window (table i) (rows i) (rows (i + 1))) 4) →
      ∀ i < m, Satisfied (table i) (rows i) (rows (i + 1)) :=
    fun rows h i hi => (h i hi).eq_zero (yields _ _ _)
  constructor
  · intro rows hstart hvanish
    have hzero := hsatisfied rows hvanish
    choose! t ht using fun i hi => (hzero i hi).exists_digit
    obtain ⟨hsteps, hend⟩ := steps_of_digits hstart ht hzero
    exact ⟨t, hsteps, hend, accumulator_eq ht⟩
  · intro t d₀
    refine ⟨digitRow start table t d₀, ⟨rfl, rfl⟩, by simp [digitRow], fun i _ => ?_, ?_⟩
    · have hstep := step_digitRow start table t d₀ i
      exact ⟨hstep, Gate.vanishes_of_eq_zero (yields _ _ _) ((satisfied_iff ⟨rfl, rfl⟩).mpr ⟨t i, hstep⟩)⟩
    · intro rows' hstart hd₀ h i hi
      obtain ⟨hsteps, -⟩ := steps_of_digits hstart (fun j hj => (h j hj).1) (hsatisfied rows' fun j hj => (h j hj).2)
      have hstep := hsteps i hi
      refine ⟨hstep.product, hstep.point.a, hstep.point.b, ?_⟩
      rw [accumulator_eq fun j hj => (h j (lt_of_lt_of_le hj hi)).1, hd₀]
      rfl

/-- The rows that add two table points to the neutral element. -/
def twoPointRows : ℕ → Row
  | 0 => ⟨0, 1, Edwards.generator.x * Edwards.generator.y, 0⟩
  | 1 => ⟨Edwards.generator.x, Edwards.generator.y, Edwards.basePoint.x * Edwards.basePoint.y, 1⟩
  | _ => ⟨14805543388578810117460687107379140748822348273316260688573060998934016770136,
      13589798946988221969763682225123791336245855044059976312385135587934609470572, 0, 3⟩

/-- The table of `twoPointRows`. -/
def twoPointTable : ℕ → Edwards.curve.Point
  | 0 => Edwards.generator
  | _ => Edwards.basePoint

/-- Two steps over a table of two points. -/
theorem fixedBase_chain_twoPointRows :
    (∀ i < 2, Gate.fixedBase.VanishesFor Point
      (window (twoPointTable i) (twoPointRows i) (twoPointRows (i + 1))) 4)
    ∧ ∃ t : ℕ → SignType,
      (∀ i < 2, Step (t i) (partialSum 0 twoPointTable t i) (twoPointTable i) (twoPointRows i) (twoPointRows (i + 1)))
      ∧ At (twoPointRows 2) (partialSum 0 twoPointTable t 2)
      ∧ (twoPointRows 2).d = 2 ^ 2 * (twoPointRows 0).d + ∑ i ∈ range 2, 2 ^ (2 - 1 - i) * (t i : Scalar) := by
  have hzero : ∀ i < 2, subIdentities (twoPointRows i) (twoPointRows (i + 1)).a (twoPointRows (i + 1)).b
      (twoPointRows (i + 1)).d (twoPointTable i).x (twoPointTable i).y = List.replicate 4 0
    | 0, _ => by decide +kernel
    | 1, _ => by decide +kernel
  have hvanish : ∀ i < 2, Gate.fixedBase.VanishesFor Point
      (window (twoPointTable i) (twoPointRows i) (twoPointRows (i + 1))) 4 := by
    intro i hi
    have hyields := yields (G := Point) (twoPointTable i) (twoPointRows i) (twoPointRows (i + 1))
    rw [hzero i hi] at hyields
    exact hyields.vanishesFor (by simp [window, Window.evaluations]) {0, 1, 2, 3} (by decide)
  obtain ⟨hsound, -⟩ := fixedBase_chain (G := Point) 0 twoPointTable 2
  exact ⟨hvanish, hsound twoPointRows ⟨rfl, rfl⟩ hvanish⟩

end FixedBase

end PlonkVerifier
