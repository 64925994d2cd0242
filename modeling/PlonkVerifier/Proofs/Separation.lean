import Mathlib
import PlonkVerifier.Proofs.ClosedForm
import PlonkVerifier.Proofs.LabelMap
import PlonkVerifier.Transcript.Table

/-!
# Proofs/Separation — a gate vanishes when each of its sub-identities does

The separated sum of sub-identities is a polynomial in the separation challenge, with the sub-identities as
coefficients: it vanishes for as many challenges as there are sub-identities only if each of them is zero
(`eq_zero_of_separate`).

A gate sees two consecutive rows and some selectors of the first, its `Window`.  What a gate says of a window is
therefore what its sub-identities say (`Gate.VanishesFor.eq_zero`, `Gate.vanishes_of_eq_zero`); the modules on
single gates start from there.
-/

namespace PlonkVerifier

open scoped ScalarField

variable {G : Type} {transcript : Transcript G}

/-! ## Separated sums -/

/-- Separation is a polynomial in the challenge, the sub-identities its coefficients. -/
theorem separate_eq_sum (s : Scalar) (cs : List Scalar) :
    separate s cs = ∑ j : Fin cs.length, s ^ (j : ℕ) * cs[j] := by
  rw [separate_eq, List.mapIdx_eq_ofFn, List.sum_ofFn]
  rfl

theorem separate_of_eq_zero {cs : List Scalar} (h : ∀ c ∈ cs, c = 0) (s : Scalar) : separate s cs = 0 := by
  rw [separate_eq_sum]
  exact Finset.sum_eq_zero fun j _ => mul_eq_zero_of_right _ (h _ (List.getElem_mem _))

/-- **A separated sum that vanishes for as many challenges as it has parts has no part but zero.** -/
theorem eq_zero_of_separate {cs : List Scalar} {separations : Finset Scalar} (hcard : cs.length ≤ separations.card)
    (h : ∀ s ∈ separations, separate s cs = 0) : ∀ c ∈ cs, c = 0 := by
  -- a Vandermonde system in the first challenges
  have hparts := Matrix.eq_zero_of_forall_index_sum_pow_mul_eq_zero
    (Subtype.val_injective.comp (separations.equivFin.symm.injective.comp (Fin.castLE_injective hcard)))
    (v := fun j => cs[j]) fun i => (separate_eq_sum _ cs).symm.trans (h _ (Subtype.prop _))
  intro c hc
  obtain ⟨j, hj, rfl⟩ := List.getElem_of_mem hc
  exact congrFun hparts ⟨j, hj⟩

/-! ## Base-4 digits

Two gates take accumulators apart into base-4 digits, and say of each digit that it is one. -/

/-- **Four values are base-4 digits.** -/
theorem quadRange_eq_zero_iff {f : Scalar} : quadRange f = 0 ↔ ∃ x < 4, f = (x : ℕ) := by
  simp only [quadRange, mul_eq_zero, sub_eq_zero]
  constructor
  · rintro (((h | h) | h) | h)
    · exact ⟨0, by omega, by rw [h, Nat.cast_zero]⟩
    · exact ⟨1, by omega, by rw [h, Nat.cast_one]⟩
    · exact ⟨2, by omega, by rw [h]; rfl⟩
    · exact ⟨3, by omega, by rw [h]; rfl⟩
  · rintro ⟨x, hx, rfl⟩
    interval_cases x <;> decide

/-- The first base-4 digits of a number are those before them and one more. -/
theorem div_four_pow_eq (N k : ℕ) : N / 4 ^ k = 4 * (N / 4 ^ (k + 1)) + N / 4 ^ k % 4 := by
  rw [pow_succ, ← Nat.div_div_eq_div_mul]
  omega

theorem cast_append_digit {n p x : ℕ} (h : n = 4 * p + x) : (n : Scalar) = 4 * (p : Scalar) + (x : Scalar) := by
  rw [h]
  push_cast
  rfl

/-! ## Windows -/

/-- Two consecutive rows, and the selectors of the first that a gate reads beside its own. -/
structure Window where
  row : Row
  next : Row
  selectors : List (String × Scalar)

namespace Window

/-- The evaluations of a window, by label. -/
def evaluations (window : Window) : List (String × Scalar) :=
  [("w_1", window.row.a), ("w_2", window.row.b), ("w_3", window.row.c), ("w_4", window.row.d),
    ("w_1_omega", window.next.a), ("w_2_omega", window.next.b), ("w_4_omega", window.next.d)] ++ window.selectors

/-- A transcript that answers with the evaluations of a window. -/
def OpenedBy (window : Window) (transcript : Transcript G) : Prop :=
  ∀ e ∈ window.evaluations, transcript.evaluation e.1 = .ok e.2

namespace OpenedBy

variable {window : Window}

theorem row (h : window.OpenedBy transcript) : Row.read transcript.evaluation = .ok window.row :=
  Row.read_eq_ok.mpr ⟨h ("w_1", _) (by simp [evaluations]), h ("w_2", _) (by simp [evaluations]),
    h ("w_3", _) (by simp [evaluations]), h ("w_4", _) (by simp [evaluations])⟩

theorem nextA (h : window.OpenedBy transcript) : transcript.evaluation "w_1_omega" = .ok window.next.a :=
  h ("w_1_omega", _) (by simp [evaluations])

theorem nextB (h : window.OpenedBy transcript) : transcript.evaluation "w_2_omega" = .ok window.next.b :=
  h ("w_2_omega", _) (by simp [evaluations])

theorem nextD (h : window.OpenedBy transcript) : transcript.evaluation "w_4_omega" = .ok window.next.d :=
  h ("w_4_omega", _) (by simp [evaluations])

theorem selector (h : window.OpenedBy transcript) {label : String} {q : Scalar}
    (hq : (label, q) ∈ window.selectors) : transcript.evaluation label = .ok q :=
  h (label, q) (List.mem_append_right _ hq)

end OpenedBy

end Window

/-! ## Gates on windows -/

namespace Gate

variable (gate : Gate) (window : Window)

/-- A transcript that opens a window and separates the sub-identities of the gate by `s`. -/
structure Sees (s : Scalar) (transcript : Transcript G) : Prop where
  separation : transcript.challenge gate.separation = .ok s
  opened : window.OpenedBy transcript

variable (G) in
/-- The gate vanishes on the window for at least `count` separation challenges. -/
def VanishesFor (count : ℕ) : Prop :=
  ∃ separations : Finset Scalar, count ≤ separations.card ∧ ∀ s ∈ separations,
    ∃ transcript : Transcript G, gate.Sees window s transcript ∧ gate.identity transcript = .ok 0

variable (G) in
/-- The gate vanishes on the window, whatever the separation challenge. -/
def Vanishes : Prop :=
  ∀ (s : Scalar) (transcript : Transcript G), gate.Sees window s transcript → gate.identity transcript = .ok 0

variable (G) in
/-- The sub-identities of the gate on a window. -/
def Yields (cs : List Scalar) : Prop :=
  ∀ transcript : Transcript G, window.OpenedBy transcript → gate.subIdentities transcript.evaluation = .ok cs

variable {gate window} {cs : List Scalar} {s : Scalar}

theorem Sees.identity_eq (h : gate.Sees window s transcript) (hcs : gate.Yields G window cs) :
    gate.identity transcript = .ok (separate s cs) :=
  bind_eq_ok.mpr ⟨s, h.separation, bind_eq_ok.mpr ⟨cs, hcs transcript h.opened, rfl⟩⟩

/-- **A gate that vanishes for as many challenges as it has sub-identities makes each of them zero.** -/
theorem VanishesFor.eq_zero (h : gate.VanishesFor G window cs.length) (hcs : gate.Yields G window cs) :
    ∀ c ∈ cs, c = 0 := by
  obtain ⟨separations, hcard, hvanish⟩ := h
  refine eq_zero_of_separate hcard fun s hs => ?_
  obtain ⟨transcript, hsees, hidentity⟩ := hvanish s hs
  exact Except.ok.inj ((hsees.identity_eq hcs).symm.trans hidentity)

/-- **A gate whose sub-identities are zero vanishes for every challenge.** -/
theorem vanishes_of_eq_zero (hcs : gate.Yields G window cs) (h : ∀ c ∈ cs, c = 0) : gate.Vanishes G window := by
  intro s transcript hsees
  rw [hsees.identity_eq hcs, separate_of_eq_zero h]

/-- A window with different labels can be opened with any separation challenge. -/
theorem exists_sees (gate : Gate) (hlabels : (window.evaluations.map Prod.fst).Nodup) (s : Scalar) :
    ∃ transcript : Transcript G, gate.Sees window s transcript := by
  let table : TranscriptTable G :=
    { hash := .keccak256, challengeBytes := 32, challenges := .ofList [(gate.separation, s)], maps := .empty,
      evaluations := .ofList window.evaluations, vectors := .empty, commitments := .empty }
  refine ⟨table.transcript, ?_, fun e he => ?_⟩
  · change orMissing _ ((LabelMap.empty.insert gate.separation s).find? gate.separation) = _
    rw [LabelMap.find?_insert, if_pos rfl]
    rfl
  · change orMissing _ ((LabelMap.ofList window.evaluations).find? e.1) = _
    rw [LabelMap.ofList, LabelMap.find?_foldl_insert _ hlabels he]
    rfl

/-- Vanishing for every separation is vanishing for any number of them. -/
theorem Vanishes.vanishesFor (h : gate.Vanishes G window) (hlabels : (window.evaluations.map Prod.fst).Nodup)
    {count : ℕ} (separations : Finset Scalar) (hcard : count ≤ separations.card) : gate.VanishesFor G window count := by
  refine ⟨separations, hcard, fun s _ => ?_⟩
  obtain ⟨transcript, hsees⟩ := exists_sees (G := G) gate hlabels s
  exact ⟨transcript, hsees, h s transcript hsees⟩

/-- A gate whose sub-identities evaluate to zero vanishes for as many challenges as are named. -/
theorem Yields.vanishesFor {n : ℕ} (hcs : gate.Yields G window (List.replicate n 0))
    (hlabels : (window.evaluations.map Prod.fst).Nodup) {count : ℕ} (separations : Finset Scalar)
    (hcard : count ≤ separations.card) : gate.VanishesFor G window count :=
  (vanishes_of_eq_zero hcs fun _ => List.eq_of_mem_replicate).vanishesFor hlabels separations hcard

end Gate

end PlonkVerifier
