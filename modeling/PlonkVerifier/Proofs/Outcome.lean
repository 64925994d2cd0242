import Mathlib
import PlonkVerifier.Proofs.Except

/-!
# Proofs/Outcome — two computations with one outcome

`Coincide E Q x y` says that `x` and `y` end alike: with one value, for which `Q` holds, or with one error, which is
in `E`.  It follows a `do` block step by step (`Coincide.bind`) and a loop round by round (`Coincide.foldlM`).

The same walk through a program answers two questions.  With every error in `E`, it shows that the program does not
tell two inputs apart; with one input on both sides, it says which errors can end the program.
-/

namespace PlonkVerifier

variable {ε α β : Type}

/-- Two computations with one outcome: a value with `Q`, or an error in `E`. -/
inductive Coincide (E : ε → Prop) (Q : α → Prop) : Except ε α → Except ε α → Prop where
  | ok {a : α} (h : Q a) : Coincide E Q (.ok a) (.ok a)
  | error {e : ε} (h : E e) : Coincide E Q (.error e) (.error e)

namespace Coincide

variable {E : ε → Prop} {P : α → Prop} {Q : β → Prop} {x y : Except ε α}

/-- A computation beside itself. -/
theorem refl (h : ∀ e, x = .error e → E e) : Coincide E (fun a => x = .ok a) x x := by
  cases x with
  | ok a => exact .ok rfl
  | error e => exact .error (h e rfl)

/-- A computation beside itself, of which only the errors count. -/
theorem raised (h : ∀ e, x = .error e → E e) : Coincide E (fun _ => True) x x := by
  cases x with
  | ok a => exact .ok trivial
  | error e => exact .error (h e rfl)

protected theorem eq (h : Coincide E P x y) : x = y := by cases h <;> rfl

theorem of_error (h : Coincide E P x y) {e : ε} (hx : x = .error e) : E e := by
  subst hx
  cases h with
  | error he => exact he

theorem mono {P' : α → Prop} (h : Coincide E P x y) (hP : ∀ a, P a → P' a) : Coincide E P' x y := by
  cases h with
  | ok ha => exact .ok (hP _ ha)
  | error he => exact .error he

theorem imp_error {E' : ε → Prop} (h : Coincide E P x y) (hE : ∀ e, E e → E' e) : Coincide E' P x y := by
  cases h with
  | ok ha => exact .ok ha
  | error he => exact .error (hE _ he)

/-- An answer that is there. -/
theorem found (h : ∃ a, x = .ok a) : Coincide E (fun _ => True) x x := by
  obtain ⟨a, rfl⟩ := h
  exact .ok trivial

/-- Without tolerated errors there is a value. -/
theorem exists_ok (h : Coincide E P x y) (hE : ∀ e, ¬ E e) : ∃ a, x = .ok a ∧ P a := by
  cases h with
  | ok ha => exact ⟨_, rfl, ha⟩
  | error he => exact absurd he (hE _)

/-- **One step after the other.** -/
theorem bind {f g : α → Except ε β} (h : Coincide E P x y)
    (hf : ∀ a, x = .ok a → P a → Coincide E Q (f a) (g a)) : Coincide E Q (x >>= f) (y >>= g) := by
  cases h with
  | ok ha => exact hf _ rfl ha
  | error he => exact .error he

/-- A check that throws on `p`. -/
theorem guard {γ : Type} {p : Prop} [Decidable p] {e : ε} {f f' : γ → Except ε α} (hp : p → E e)
    (h : ¬ p → Coincide E P x y) :
    Coincide E P (if p then throw e >>= f else x) (if p then throw e >>= f' else y) := by
  by_cases hdec : p
  · rw [if_pos hdec, if_pos hdec]
    exact .error (hp hdec)
  · rw [if_neg hdec, if_neg hdec]
    exact h hdec

/-- **A loop keeps what each of its rounds keeps.** -/
theorem foldlM {f g : β → α → Except ε β} {xs : List α} {b : β} (hb : Q b)
    (h : ∀ x ∈ xs, ∀ b, Q b → Coincide E Q (f b x) (g b x)) :
    Coincide E Q (xs.foldlM f b) (xs.foldlM g b) := by
  induction xs generalizing b with
  | nil => exact .ok hb
  | cons x xs ih =>
    obtain ⟨hx, hxs⟩ := List.forall_mem_cons.mp h
    rw [List.foldlM_cons, List.foldlM_cons]
    exact (hx b hb).bind fun c _ hc => ih hc hxs

theorem mapM {f g : α → Except ε β} {xs : List α} (h : ∀ x ∈ xs, Coincide E (fun _ => True) (f x) (g x)) :
    Coincide E (fun _ => True) (xs.mapM f) (xs.mapM g) := by
  induction xs with
  | nil => exact .ok trivial
  | cons x xs ih =>
    obtain ⟨hx, hxs⟩ := List.forall_mem_cons.mp h
    rw [List.mapM_cons, List.mapM_cons]
    exact hx.bind fun y _ _ => (ih hxs).bind fun ys _ _ => .ok trivial

end Coincide

end PlonkVerifier
