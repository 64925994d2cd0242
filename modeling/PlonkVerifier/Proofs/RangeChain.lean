import Mathlib
import PlonkVerifier.Proofs.Separation

/-!
# Proofs/RangeChain — range gates in a row prove a range

A range gate appends four base-4 digits: the accumulators of a row stand in the order `d`, `c`, `b`, `a`, and `d` of the
next row follows (`Range.subIdentities_eq_zero_iff`).  A chain from zero therefore holds, from accumulator to
accumulator, the base-4 prefixes of one number, and there is a chain for every number of as many digits
(`range_chain`).  The number need not be below the modulus: a chain proves its residue only.
-/

namespace PlonkVerifier

open scoped ScalarField

variable {G : Type}

namespace Range

/-! ## One gate -/

/-- An accumulator takes a base-4 digit. -/
def Appends (p q : Scalar) : Prop := ∃ x < 4, q = 4 * p + (x : ℕ)

/-- What a gate says of a row and the next accumulator: each accumulator takes a digit. -/
structure Step (row : Row) (dNext : Scalar) : Prop where
  c : Appends row.d row.c
  b : Appends row.c row.b
  a : Appends row.b row.a
  d : Appends row.a dNext

/-- A quad is appended exactly when the step's constraint vanishes. -/
theorem appends_iff {p q : Scalar} : Appends p q ↔ quadRange (q - 4 * p) = 0 := by
  simp only [Appends, quadRange_eq_zero_iff, sub_eq_iff_eq_add']

/-- **The sub-identities say that four digits are appended**, in the order `d`, `c`, `b`, `a`, next `d`. -/
theorem subIdentities_eq_zero_iff (row : Row) (dNext : Scalar) :
    (∀ c ∈ subIdentities row dNext, c = 0) ↔ Step row dNext := by
  simp only [subIdentities, List.forall_mem_cons, List.not_mem_nil, false_implies, implies_true, and_true,
    ← appends_iff]
  constructor
  · rintro ⟨hc, hb, ha, hd⟩
    exact ⟨hc, hb, ha, hd⟩
  · intro h
    exact ⟨h.c, h.b, h.a, h.d⟩

/-! ## Prefixes of a number -/

/-- The row of base-4 prefixes of `N` whose oldest accumulator has `k` digits to come. -/
def prefixRow (N k : ℕ) : Row where
  d := (N / 4 ^ k : ℕ)
  c := (N / 4 ^ (k - 1) : ℕ)
  b := (N / 4 ^ (k - 2) : ℕ)
  a := (N / 4 ^ (k - 3) : ℕ)

variable {row : Row} {rows : ℕ → Row} {dNext : Scalar} {N M m : ℕ}

/-- **Appending a quad to a number gives a number with that prefix.** -/
theorem Appends.exists_eq {p q : Scalar} (h : Appends p q) (hp : p = (N : ℕ)) :
    ∃ M : ℕ, q = M ∧ M / 4 = N := by
  obtain ⟨x, hx, rfl⟩ := h
  refine ⟨4 * N + x, ?_, by omega⟩
  rw [hp]
  exact (cast_append_digit rfl).symm

/-- **A step continues the prefixes** by four digits. -/
theorem Step.exists_eq_prefixRow (h : Step row dNext) (hd : row.d = (N : ℕ)) :
    ∃ M : ℕ, dNext = M ∧ M / 4 ^ 4 = N ∧ row = prefixRow M 4 := by
  obtain ⟨C, hc, hC⟩ := h.c.exists_eq hd
  obtain ⟨B, hb, hB⟩ := h.b.exists_eq hc
  obtain ⟨A, ha, hA⟩ := h.a.exists_eq hb
  obtain ⟨M, hnext, hM⟩ := h.d.exists_eq ha
  have hB' : B = M / 4 ^ 2 := by omega
  have hC' : C = M / 4 ^ 3 := by omega
  have hN : N = M / 4 ^ 4 := by omega
  obtain ⟨a, b, c, d⟩ := row
  subst ha hb hc hd
  refine ⟨M, hnext, hN.symm, ?_⟩
  rw [prefixRow, ← hN, ← hC', ← hB', pow_one, hM]

/-- Prefixes of a prefix are prefixes. -/
theorem prefixRow_add (hM : M / 4 ^ 4 = N) {k : ℕ} (hk : 3 ≤ k) : prefixRow M (k + 4) = prefixRow N k := by
  have hdiv : ∀ j ≤ k, M / 4 ^ (k + 4 - j) = N / 4 ^ (k - j) := fun j hj => by
    rw [show k + 4 - j = 4 + (k - j) by omega, pow_add, ← Nat.div_div_eq_div_mul, hM]
  have hd := hdiv 0 (Nat.zero_le k)
  rw [Nat.sub_zero, Nat.sub_zero] at hd
  rw [prefixRow, prefixRow, hd, hdiv 1 (by omega), hdiv 2 (by omega), hdiv 3 hk]

/-- **The next digits lead to the next prefix.** -/
theorem appends_prefixes (N k : ℕ) : Appends (N / 4 ^ (k + 1) : ℕ) (N / 4 ^ k : ℕ) :=
  ⟨N / 4 ^ k % 4, Nat.mod_lt _ (by decide), cast_append_digit (div_four_pow_eq N k)⟩

/-- The row of a number's prefixes steps to the next one. -/
theorem step_prefixRow (N k : ℕ) : Step (prefixRow N (k + 4)) (prefixRow N k).d where
  c := appends_prefixes N (k + 3)
  b := appends_prefixes N (k + 2)
  a := appends_prefixes N (k + 1)
  d := appends_prefixes N k

/-! ## Chains -/

/-- **A chain of steps from zero holds the prefixes of one number**, of four digits for each step. -/
theorem exists_prefixes (hstart : (rows 0).d = 0) (hsteps : ∀ i < m, Step (rows i) (rows (i + 1)).d) :
    ∃ N < 256 ^ m, (rows m).d = (N : ℕ) ∧ ∀ i < m, rows i = prefixRow N (4 * (m - i)) := by
  induction m with
  | zero => exact ⟨0, Nat.one_pos, by rw [hstart, Nat.cast_zero], fun i hi => absurd hi (Nat.not_lt_zero i)⟩
  | succ m ih =>
    obtain ⟨N, hN, hd, hrows⟩ := ih fun i hi => hsteps i (Nat.lt_succ_of_lt hi)
    obtain ⟨M, hnext, hM, hrow⟩ := (hsteps m (Nat.lt_succ_self m)).exists_eq_prefixRow hd
    refine ⟨M, ?_, hnext, fun i hi => ?_⟩
    · rw [← hM] at hN
      rw [pow_succ]
      exact (Nat.div_lt_iff_lt_mul (by decide)).mp hN
    · rcases Nat.lt_succ_iff_lt_or_eq.mp hi with hi | rfl
      · rw [hrows i hi, ← prefixRow_add hM (by omega), show 4 * (m + 1 - i) = 4 * (m - i) + 4 by omega]
      · rw [hrow, Nat.add_sub_cancel_left]

/-! ## Gates in a row -/

/-- What a range gate reads of two consecutive rows. -/
def window (row next : Row) : Window := ⟨row, next, []⟩

/-- The gate computes its sub-identities from the row and the next row's last wire. -/
theorem yields (row next : Row) : Gate.range.Yields G (window row next) (subIdentities row next.d) := by
  intro transcript hopened
  simp only [Gate.range, bind_eq_ok, pure_eq_ok]
  exact ⟨row, hopened.row, next.d, hopened.nextD, rfl⟩

theorem nodup_labels (row next : Row) : ((window row next).evaluations.map Prod.fst).Nodup := by
  simp [window, Window.evaluations]

variable (G) in
/-- A chain of `m` range gates from zero to `v`, each of which vanishes for four separation challenges. -/
structure Chain (m : ℕ) (rows : ℕ → Row) (v : Scalar) : Prop where
  start : (rows 0).d = 0
  stop : (rows m).d = v
  vanishes : ∀ i < m, Gate.range.VanishesFor G (window (rows i) (rows (i + 1))) 4

theorem Chain.steps {v : Scalar} (h : Chain G m rows v) : ∀ i < m, Step (rows i) (rows (i + 1)).d :=
  fun i hi => (subIdentities_eq_zero_iff _ _).mp ((h.vanishes i hi).eq_zero (yields _ _))

/-- **The prefixes of a number are accepted**, for every separation challenge. -/
theorem vanishes_prefixRow (N : ℕ) {i : ℕ} (hi : i < m) :
    Gate.range.Vanishes G (window (prefixRow N (4 * (m - i))) (prefixRow N (4 * (m - (i + 1))))) := by
  have hcount : 4 * (m - i) = 4 * (m - (i + 1)) + 4 := by omega
  refine Gate.vanishes_of_eq_zero (yields _ _) ((subIdentities_eq_zero_iff _ _).mpr ?_)
  rw [hcount]
  exact step_prefixRow N _

/-- **The prefixes of a number below `256 ^ m` form a chain.** -/
theorem chain_prefixRow (hN : N < 256 ^ m) : Chain G m (fun i => prefixRow N (4 * (m - i))) (N : ℕ) where
  start := by
    have hzero : N / 4 ^ (4 * m) = 0 := by
      rw [pow_mul]
      exact Nat.div_eq_of_lt hN
    rw [Nat.sub_zero, prefixRow]
    simp only [hzero, Nat.cast_zero]
  stop := by rw [Nat.sub_self, prefixRow, Nat.mul_zero, pow_zero, Nat.div_one]
  vanishes i hi :=
    (vanishes_prefixRow N hi).vanishesFor (nodup_labels _ _) {0, 1, 2, 3} (by decide)

/-- **A chain of range gates proves exactly a range.**  A value ends a chain of `m` gates, each of which vanishes for
four separation challenges, exactly if it is the residue of a number below `256 ^ m`.  The rows of a chain are then the
base-4 prefixes of such a number, each accumulator four times the one before and a digit; and the prefixes of every
such number are a chain on which the gates vanish for all challenges. -/
theorem range_chain (m : ℕ) :
    (∀ v : Scalar, (∃ rows : ℕ → Row, Chain G m rows v) ↔ ∃ N < 256 ^ m, v = (N : ℕ))
    ∧ (∀ (rows : ℕ → Row) (v : Scalar), Chain G m rows v →
      ∃ N < 256 ^ m, v = (N : ℕ)
        ∧ ∀ i < m, rows i = prefixRow N (4 * (m - i)) ∧ Step (rows i) (rows (i + 1)).d)
    ∧ ∀ N < 256 ^ m, ∃ rows : ℕ → Row, Chain G m rows (N : ℕ)
      ∧ ∀ i < m, Gate.range.Vanishes G (window (rows i) (rows (i + 1))) := by
  have hsound : ∀ (rows : ℕ → Row) (v : Scalar), Chain G m rows v →
      ∃ N < 256 ^ m, v = (N : ℕ)
        ∧ ∀ i < m, rows i = prefixRow N (4 * (m - i)) ∧ Step (rows i) (rows (i + 1)).d := by
    intro rows v hchain
    obtain ⟨N, hN, hstop, hrows⟩ := exists_prefixes hchain.start hchain.steps
    exact ⟨N, hN, hchain.stop.symm.trans hstop, fun i hi => ⟨hrows i hi, hchain.steps i hi⟩⟩
  refine ⟨fun v => ⟨?_, ?_⟩, hsound, fun N hN => ⟨_, chain_prefixRow hN, fun i => vanishes_prefixRow N⟩⟩
  · rintro ⟨rows, hchain⟩
    obtain ⟨N, hN, hv, -⟩ := hsound rows v hchain
    exact ⟨N, hN, hv⟩
  · rintro ⟨N, hN, rfl⟩
    exact ⟨_, chain_prefixRow hN⟩

/-- The rows of `28187`, with the digits `1, 2, 3, 2` and `0, 1, 2, 3`. -/
def twoRows : ℕ → Row
  | 0 => ⟨27, 6, 1, 0⟩
  | 1 => ⟨7046, 1761, 440, 110⟩
  | _ => ⟨0, 0, 0, 28187⟩

/-- Two rows that hold 28187. -/
theorem range_chain_twoRows :
    Chain Point 2 twoRows 28187
    ∧ ∃ N < 256 ^ 2, (28187 : Scalar) = (N : ℕ)
      ∧ ∀ i < 2, twoRows i = prefixRow N (4 * (2 - i)) ∧ Step (twoRows i) (twoRows (i + 1)).d := by
  have hzero : ∀ i < 2, subIdentities (twoRows i) (twoRows (i + 1)).d = List.replicate 4 0
    | 0, _ => rfl
    | 1, _ => rfl
  have hchain : Chain Point 2 twoRows 28187 := by
    refine ⟨rfl, rfl, fun i hi => ?_⟩
    have hyields := yields (G := Point) (twoRows i) (twoRows (i + 1))
    rw [hzero i hi] at hyields
    exact hyields.vanishesFor (nodup_labels _ _) {0, 1, 2, 3} (by decide)
  obtain ⟨-, hsound, -⟩ := range_chain (G := Point) 2
  exact ⟨hchain, hsound twoRows 28187 hchain⟩

end Range

end PlonkVerifier
