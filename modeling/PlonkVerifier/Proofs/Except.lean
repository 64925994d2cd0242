import Mathlib
import PlonkVerifier.Error

/-!
# Proofs/Except — what a successful computation did

A `do` block succeeds exactly when each of its steps does (`bind_eq_ok`), and then what holds at the start of a
loop and is kept by each round holds at its end (`foldlM_invariant`).  Successful runs are taken apart by these
lemmas alone.

Where a formula is stated about values that a computation only may find, `answer` gives the value found.
-/

namespace PlonkVerifier

variable {ε α β : Type}

theorem bind_eq_ok {x : Except ε α} {f : α → Except ε β} {b : β} :
    (x >>= f) = .ok b ↔ ∃ a, x = .ok a ∧ f a = .ok b := by
  cases x <;> simp [bind, Except.bind]

theorem bind_of_eq_ok {x : Except ε α} {f : α → Except ε β} {a : α} (h : x = .ok a) : (x >>= f) = f a := by
  rw [h]
  rfl

theorem pure_eq_ok {a b : α} : (pure a : Except ε α) = .ok b ↔ a = b := by simp [pure, Except.pure]

theorem throw_eq_ok {e : ε} {a : α} : (throw e : Except ε α) = .ok a ↔ False := by
  simp [throw, throwThe, MonadExceptOf.throw]

/-- A check that throws on `p` goes on exactly without it. -/
theorem guard_eq_ok {γ : Type} {p : Prop} [Decidable p] {e : ε} {f : γ → Except ε α}
    {rest : Except ε α} {a : α} :
    (if p then throw e >>= f else rest) = .ok a ↔ ¬ p ∧ rest = .ok a := by
  split
  · next h => simp [h, bind_eq_ok, throw_eq_ok]
  · next h => simp [h]

/-- Renaming an error changes no success. -/
theorem liftAlgebra_eq_ok {x : Except AlgebraError α} {a : α} : liftAlgebra x = .ok a ↔ x = .ok a := by
  cases x <;> simp [liftAlgebra]

theorem mapError_eq_ok {ε' : Type} {f : ε → ε'} {x : Except ε α} {a : α} : x.mapError f = .ok a ↔ x = .ok a := by
  cases x <;> simp [Except.mapError]

theorem toOption_eq_some {x : Except ε α} {a : α} : x.toOption = some a ↔ x = .ok a := by
  cases x <;> simp [Except.toOption]

/-- A fold over two lists succeeds exactly when it does over each in turn. -/
theorem foldlM_append_eq_ok {f : β → α → Except ε β} {xs ys : List α} {b b' : β} :
    (xs ++ ys).foldlM f b = .ok b' ↔ ∃ c, xs.foldlM f b = .ok c ∧ ys.foldlM f c = .ok b' := by
  rw [List.foldlM_append, bind_eq_ok]

theorem foldlM_singleton_eq_ok {f : β → α → Except ε β} {x : α} {b b' : β} :
    [x].foldlM f b = .ok b' ↔ f b x = .ok b' := by simp

/-- **A loop keeps what each of its rounds keeps.**  The invariant speaks of the entries done so far. -/
theorem foldlM_invariant {f : β → α → Except ε β} {xs : List α} {b b' : β} (P : List α → β → Prop)
    (h : xs.foldlM f b = .ok b') (start : P [] b)
    (step : ∀ done x c c', x ∈ xs → done.foldlM f b = .ok c → P done c → f c x = .ok c' →
      P (done ++ [x]) c') : P xs b' := by
  induction xs using List.reverseRecOn generalizing b' with
  | nil =>
    obtain rfl := pure_eq_ok.mp h
    exact start
  | append_singleton xs x ih =>
    obtain ⟨c, hxs, hx⟩ := foldlM_append_eq_ok.mp h
    refine step xs x c b' (by simp) hxs (ih hxs fun done y c c' hy => ?_)
      (foldlM_singleton_eq_ok.mp hx)
    exact step done y c c' (List.mem_append_left _ hy)

theorem exists_ok_of_isOk {x : Except ε α} (h : x.isOk = true) : ∃ a, x = .ok a := by
  cases x with
  | ok a => exact ⟨a, rfl⟩
  | error e => simp [Except.isOk, Except.toBool] at h

theorem exists_ok_of_any {x : Except ε α} {p : α → Bool} (h : x.toOption.any p = true) :
    ∃ a, x = .ok a ∧ p a = true := by
  cases x with
  | ok a => exact ⟨a, rfl, h⟩
  | error e => cases h

/-- Mapping succeeds with the answers of a function every item agrees with. -/
theorem mapM_eq_ok_map {f : α → Except ε β} {g : α → β} : ∀ {xs : List α},
    (∀ x ∈ xs, f x = .ok (g x)) → xs.mapM f = .ok (xs.map g)
  | [], _ => rfl
  | x :: xs, h => by
      obtain ⟨hx, hxs⟩ := List.forall_mem_cons.mp h
      simp only [List.mapM_cons, bind_eq_ok, pure_eq_ok, List.map_cons]
      exact ⟨_, hx, _, mapM_eq_ok_map hxs, rfl⟩

/-! ## Answers -/

/-- The value found, or the default value where there is none. -/
def answer [Inhabited α] (x : Except ε α) : α := x.toOption.getD default

@[simp] theorem answer_ok [Inhabited α] (a : α) : answer (.ok a : Except ε α) = a := rfl

theorem eq_ok_answer [Inhabited α] {x : Except ε α} {a : α} (h : x = .ok a) : x = .ok (answer x) := by
  rw [h, answer_ok]

/-- **Mapping succeeds exactly when it does on every item**, and then with their answers. -/
theorem mapM_eq_ok [Inhabited β] {f : α → Except ε β} : ∀ {xs : List α} {ys : List β},
    xs.mapM f = .ok ys ↔ ys = xs.map (answer ∘ f) ∧ ∀ x ∈ xs, f x = .ok (answer (f x))
  | [], ys => by rw [List.mapM_nil, pure_eq_ok]; simp [eq_comm]
  | x :: xs, ys => by
      have ih : ∀ ys, xs.mapM f = .ok ys ↔ ys = xs.map (answer ∘ f) ∧ ∀ x ∈ xs, f x = .ok (answer (f x)) :=
        fun _ => mapM_eq_ok
      simp only [List.mapM_cons, bind_eq_ok, pure_eq_ok, ih, List.map_cons, List.forall_mem_cons,
        Function.comp_apply]
      constructor
      · rintro ⟨y, hy, _, ⟨rfl, hxs⟩, rfl⟩
        rw [hy]
        exact ⟨rfl, rfl, hxs⟩
      · rintro ⟨rfl, hx, hxs⟩
        exact ⟨_, hx, _, ⟨rfl, hxs⟩, rfl⟩

end PlonkVerifier
