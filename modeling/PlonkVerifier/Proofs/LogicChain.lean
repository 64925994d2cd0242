import Mathlib
import PlonkVerifier.Proofs.Separation

/-!
# Proofs/LogicChain — logic gates in a row compute a bitwise operation

A logic gate appends one base-4 digit to each of three accumulators: the first two digits are free and the third is
their conjunction or exclusive or (`Logic.subIdentities_eq_zero_iff`).  A chain that starts with empty accumulators
therefore ends in two numbers and the result of the operation on them, and every two numbers have such a chain
(`logic_chain`).
-/

namespace PlonkVerifier

open scoped ScalarField

variable {G : Type}

namespace Logic

/-! ## The two operations -/

/-- An operation on natural numbers, bit by bit. -/
inductive Operation where
  | conjunction
  | exclusiveOr
  deriving DecidableEq

namespace Operation

/-- The value of `q_c` that selects the operation. -/
def selector : Operation → Scalar
  | conjunction => 1
  | exclusiveOr => -1

/-- The operation. -/
def apply : Operation → ℕ → ℕ → ℕ
  | conjunction => fun x y => x &&& y
  | exclusiveOr => fun x y => x ^^^ y

/-- **Digits are combined one by one.** -/
theorem apply_append (op : Operation) (A B : ℕ) {x y : ℕ} (hx : x < 4) (hy : y < 4) :
    op.apply (4 * A + x) (4 * B + y) = 4 * op.apply A B + op.apply x y := by
  have hbit := fun (A : ℕ) {x : ℕ} (hx : x < 2 ^ 2) j => Nat.testBit_two_pow_mul_add A hx j
  cases op with
  | conjunction =>
    refine Nat.eq_of_testBit_eq fun j => ?_
    have hdigit : x &&& y < 2 ^ 2 := Nat.and_lt_two_pow x hy
    simp only [apply, Nat.testBit_and, show (4 : ℕ) = 2 ^ 2 from rfl, hbit _ hx, hbit _ hy, hbit _ hdigit]
    split <;> rfl
  | exclusiveOr =>
    refine Nat.eq_of_testBit_eq fun j => ?_
    have hdigit : x ^^^ y < 2 ^ 2 := Nat.xor_lt_two_pow hx hy
    simp only [apply, Nat.testBit_xor, show (4 : ℕ) = 2 ^ 2 from rfl, hbit _ hx, hbit _ hy, hbit _ hdigit]
    split <;> rfl

theorem apply_lt (op : Operation) {x y : ℕ} (hx : x < 4) (hy : y < 4) : op.apply x y < 4 := by
  cases op with
  | conjunction => exact Nat.and_lt_two_pow (n := 2) x hy
  | exclusiveOr => exact Nat.xor_lt_two_pow (n := 2) hx hy

@[simp] theorem apply_zero (op : Operation) : op.apply 0 0 = 0 := by cases op <;> rfl

end Operation

/-! ## One gate -/

/-- The interpolation polynomial of the conjunction. -/
theorem digitIdentity_eq {x y : ℕ} (hx : x < 4) (hy : y < 4) (z q : Scalar) :
    digitIdentity x y (x * y) z q = q * (9 * z - 3 * (x + y)) + 3 * (x + y + z) - 12 * (x &&& y : ℕ) := by
  interval_cases x <;> interval_cases y <;> simp only [digitIdentity, Nat.reduceAnd] <;> push_cast <;> ring

/-- **A gate on digits leaves the output no choice** but the result of the operation. -/
theorem digitIdentity_eq_zero_iff (op : Operation) {x y : ℕ} (hx : x < 4) (hy : y < 4) {z : Scalar} :
    digitIdentity x y (x * y) z op.selector = 0 ↔ z = (op.apply x y : ℕ) := by
  rw [digitIdentity_eq hx hy]
  cases op with
  | conjunction =>
    have hscale : ((1 : Scalar) * (9 * z - 3 * (x + y)) + 3 * (x + y + z) - 12 * (x &&& y : ℕ))
        = 12 * (z - (x &&& y : ℕ)) := by ring
    have hne : (12 : Scalar) ≠ 0 := by decide
    rw [Operation.selector, hscale, mul_eq_zero, or_iff_right hne, sub_eq_zero]
    rfl
  | exclusiveOr =>
    have hsum : x + y = (x ^^^ y) + 2 * (x &&& y) := by interval_cases x <;> interval_cases y <;> rfl
    have hscale : ((-1 : Scalar) * (9 * z - 3 * (x + y)) + 3 * (x + y + z) - 12 * (x &&& y : ℕ))
        = -6 * (z - (x ^^^ y : ℕ)) := by
      rw [← Nat.cast_add, hsum]
      push_cast
      ring
    have hne : (-6 : Scalar) ≠ 0 := by decide
    rw [Operation.selector, hscale, mul_eq_zero, or_iff_right hne, sub_eq_zero]
    rfl

/-- What a gate says of a row and the next: each accumulator takes a digit, and the row holds the product of the
first two. -/
structure Step (op : Operation) (row next : Row) (x y : ℕ) : Prop where
  x_lt : x < 4
  y_lt : y < 4
  a : next.a = 4 * row.a + x
  b : next.b = 4 * row.b + y
  product : row.c = x * y
  d : next.d = 4 * row.d + (op.apply x y : ℕ)

/-- **The sub-identities say that the operation is applied to the next digits.** -/
theorem subIdentities_eq_zero_iff (op : Operation) (row next : Row) :
    (∀ c ∈ subIdentities row next.a next.b next.d op.selector, c = 0) ↔ ∃ x y, Step op row next x y := by
  simp only [subIdentities, List.forall_mem_cons, List.not_mem_nil, false_implies, implies_true, and_true]
  constructor
  · rintro ⟨ha, hb, -, hc, hd⟩
    obtain ⟨x, hx, hax⟩ := quadRange_eq_zero_iff.mp ha
    obtain ⟨y, hy, hby⟩ := quadRange_eq_zero_iff.mp hb
    rw [hax, hby, sub_eq_zero] at hc
    rw [hax, hby, hc, digitIdentity_eq_zero_iff op hx hy] at hd
    exact ⟨x, y, hx, hy, eq_add_of_sub_eq' hax, eq_add_of_sub_eq' hby, hc, eq_add_of_sub_eq' hd⟩
  · rintro ⟨x, y, h⟩
    have hax : next.a - 4 * row.a = x := sub_eq_of_eq_add' h.a
    have hby : next.b - 4 * row.b = y := sub_eq_of_eq_add' h.b
    have hdz : next.d - 4 * row.d = (op.apply x y : ℕ) := sub_eq_of_eq_add' h.d
    rw [hax, hby, hdz, h.product]
    exact ⟨quadRange_eq_zero_iff.mpr ⟨x, h.x_lt, rfl⟩, quadRange_eq_zero_iff.mpr ⟨y, h.y_lt, rfl⟩,
      quadRange_eq_zero_iff.mpr ⟨_, op.apply_lt h.x_lt h.y_lt, rfl⟩, sub_self _,
      (digitIdentity_eq_zero_iff op h.x_lt h.y_lt).mpr rfl⟩

/-! ## Chains -/

/-- The accumulators of a row hold two numbers and the result of the operation on them. -/
structure Holds (op : Operation) (row : Row) (A B : ℕ) : Prop where
  a : row.a = A
  b : row.b = B
  d : row.d = (op.apply A B : ℕ)

variable {op : Operation} {row next : Row} {A B m : ℕ}

/-- **A step appends the digits.** -/
theorem Step.holds {x y : ℕ} (h : Step op row next x y) (hrow : Holds op row A B) :
    Holds op next (4 * A + x) (4 * B + y) where
  a := by rw [h.a, hrow.a, cast_append_digit rfl]
  b := by rw [h.b, hrow.b, cast_append_digit rfl]
  d := by rw [h.d, hrow.d, op.apply_append A B h.x_lt h.y_lt, cast_append_digit rfl]

/-- **A chain of steps from empty accumulators holds as many digits as it has steps.** -/
theorem exists_holds {rows : ℕ → Row} (hstart : Holds op (rows 0) 0 0)
    (hsteps : ∀ i < m, ∃ x y, Step op (rows i) (rows (i + 1)) x y) :
    ∃ A < 4 ^ m, ∃ B < 4 ^ m, Holds op (rows m) A B := by
  induction m with
  | zero => exact ⟨0, Nat.one_pos, 0, Nat.one_pos, hstart⟩
  | succ m ih =>
    obtain ⟨A, hA, B, hB, hrow⟩ := ih fun i hi => hsteps i (Nat.lt_succ_of_lt hi)
    obtain ⟨x, y, h⟩ := hsteps m (Nat.lt_succ_self m)
    have hx := h.x_lt
    have hy := h.y_lt
    exact ⟨4 * A + x, by omega, 4 * B + y, by omega, h.holds hrow⟩

/-- The rows that take the base-4 digits of two numbers, with `k` digits to come. -/
def digitRow (op : Operation) (A B k : ℕ) : Row where
  a := (A / 4 ^ k : ℕ)
  b := (B / 4 ^ k : ℕ)
  c := (A / 4 ^ (k - 1) % 4 : ℕ) * (B / 4 ^ (k - 1) % 4 : ℕ)
  d := (op.apply (A / 4 ^ k) (B / 4 ^ k) : ℕ)

/-- **The next digits lead to the next row.** -/
theorem step_digitRow (op : Operation) (A B k : ℕ) :
    Step op (digitRow op A B (k + 1)) (digitRow op A B k) (A / 4 ^ k % 4) (B / 4 ^ k % 4) := by
  have hlt : ∀ n : ℕ, n % 4 < 4 := fun n => Nat.mod_lt n (by decide)
  have happly : op.apply (A / 4 ^ k) (B / 4 ^ k)
      = 4 * op.apply (A / 4 ^ (k + 1)) (B / 4 ^ (k + 1)) + op.apply (A / 4 ^ k % 4) (B / 4 ^ k % 4) := by
    rw [← op.apply_append _ _ (hlt _) (hlt _), ← div_four_pow_eq, ← div_four_pow_eq]
  exact ⟨hlt _, hlt _, cast_append_digit (div_four_pow_eq A k), cast_append_digit (div_four_pow_eq B k), rfl,
    cast_append_digit happly⟩

/-- The rows written from two numbers hold their prefixes. -/
theorem holds_digitRow (op : Operation) (A B : ℕ) : Holds op (digitRow op A B 0) A B := by
  rw [digitRow, pow_zero, Nat.div_one, Nat.div_one]
  exact ⟨rfl, rfl, rfl⟩

/-- The rows written from two numbers start from nothing read. -/
theorem digitRow_holds_zero (op : Operation) (hA : A < 4 ^ m) (hB : B < 4 ^ m) : Holds op (digitRow op A B m) 0 0 := by
  rw [digitRow, Nat.div_eq_of_lt hA, Nat.div_eq_of_lt hB]
  exact ⟨rfl, rfl, rfl⟩

/-! ## Gates in a row -/

/-- What a logic gate reads of two consecutive rows. -/
def window (op : Operation) (row next : Row) : Window := ⟨row, next, [("q_c", op.selector)]⟩

/-- The gate computes its sub-identities from the row, the next row and the operation's selector. -/
theorem yields (op : Operation) (row next : Row) :
    Gate.logic.Yields G (window op row next) (subIdentities row next.a next.b next.d op.selector) := by
  intro transcript hopened
  have hq : transcript.evaluation "q_c" = .ok op.selector := hopened.selector (List.mem_singleton.mpr rfl)
  simp only [Gate.logic, bind_eq_ok, pure_eq_ok]
  exact ⟨row, hopened.row, next.a, hopened.nextA, next.b, hopened.nextB, next.d, hopened.nextD, op.selector, hq, rfl⟩

/-- **A chain of logic gates computes a bitwise operation.**  Gates that vanish for five separation challenges each
take accumulators that start at zero to two numbers of as many base-4 digits as there are gates and to the result of
the operation on them; and every two such numbers have a chain on which the gates vanish for all challenges. -/
theorem logic_chain (op : Operation) (m : ℕ) :
    (∀ rows : ℕ → Row, (rows 0).a = 0 → (rows 0).b = 0 → (rows 0).d = 0 →
      (∀ i < m, Gate.logic.VanishesFor G (window op (rows i) (rows (i + 1))) 5) →
      ∃ A < 4 ^ m, ∃ B < 4 ^ m, Holds op (rows m) A B)
    ∧ ∀ A < 4 ^ m, ∀ B < 4 ^ m, ∃ rows : ℕ → Row, (rows 0).a = 0 ∧ (rows 0).b = 0 ∧ (rows 0).d = 0
      ∧ (∀ i < m, Gate.logic.Vanishes G (window op (rows i) (rows (i + 1)))) ∧ Holds op (rows m) A B := by
  constructor
  · intro rows ha hb hd hvanish
    refine exists_holds ⟨?_, ?_, ?_⟩ fun i hi => ?_
    · rw [ha, Nat.cast_zero]
    · rw [hb, Nat.cast_zero]
    · rw [hd, op.apply_zero, Nat.cast_zero]
    · exact (subIdentities_eq_zero_iff op _ _).mp ((hvanish i hi).eq_zero (yields op _ _))
  · intro A hA B hB
    obtain ⟨ha, hb, hd⟩ := digitRow_holds_zero op hA hB
    rw [op.apply_zero, Nat.cast_zero] at hd
    rw [Nat.cast_zero] at ha hb
    refine ⟨fun i => digitRow op A B (m - i), ha, hb, hd, fun i hi => ?_, ?_⟩
    · have hsucc : m - i = m - (i + 1) + 1 := by omega
      refine Gate.vanishes_of_eq_zero (yields op _ _) ((subIdentities_eq_zero_iff op _ _).mpr ?_)
      simp only [hsucc]
      exact ⟨_, _, step_digitRow op A B _⟩
    · simp only [Nat.sub_self]
      exact holds_digitRow op A B

/-- The rows of `6 &&& 14 = 6`, with digits `1, 2` and `3, 2`. -/
def conjunctionRows : ℕ → Row
  | 0 => ⟨0, 0, 3, 0⟩
  | 1 => ⟨1, 3, 4, 1⟩
  | _ => ⟨6, 14, 0, 6⟩

/-- Two steps of a conjunction. -/
theorem logic_chain_conjunctionRows :
    (∀ i < 2, Gate.logic.VanishesFor Point
      (window .conjunction (conjunctionRows i) (conjunctionRows (i + 1))) 5)
    ∧ ∃ A < 4 ^ 2, ∃ B < 4 ^ 2, Holds .conjunction (conjunctionRows 2) A B := by
  have hzero : ∀ i < 2, subIdentities (conjunctionRows i) (conjunctionRows (i + 1)).a (conjunctionRows (i + 1)).b
      (conjunctionRows (i + 1)).d Operation.conjunction.selector = List.replicate 5 0
    | 0, _ => rfl
    | 1, _ => rfl
  have hvanish : ∀ i < 2, Gate.logic.VanishesFor Point
      (window .conjunction (conjunctionRows i) (conjunctionRows (i + 1))) 5 := by
    intro i hi
    have hyields := yields (G := Point) .conjunction (conjunctionRows i) (conjunctionRows (i + 1))
    rw [hzero i hi] at hyields
    exact hyields.vanishesFor (by simp [window, Window.evaluations]) {0, 1, 2, 3, 4} (by decide)
  obtain ⟨hsound, -⟩ := logic_chain (G := Point) .conjunction 2
  exact ⟨hvanish, hsound conjunctionRows rfl rfl rfl hvanish⟩

end Logic

end PlonkVerifier
