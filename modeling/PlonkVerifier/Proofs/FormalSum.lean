import Mathlib
import PlonkVerifier.Proofs.Field.Scalar
import PlonkVerifier.Proofs.LabelMap
import PlonkVerifier.Terms

/-!
# Proofs/FormalSum — formal sums as lists of summands

A formal sum forgets in which order, and in how many pieces, a coefficient came together.  `Terms.ofSummands`
builds the formal sum of a list of summands, and every operation on formal sums is one on such lists
(`merge_ofSummands`, `scale_ofSummands`), so that a formal sum put together in several passes is determined by
the list of all that was ever added to it.

Two readings of the list answer all questions: the coefficient of a label (`find?_ofSummands`) and the value at
given values of the commitments (`value_ofSummands`).
-/

namespace PlonkVerifier

namespace Terms

open scoped ScalarField

/-- The formal sum of a list of multiples of commitments. -/
def ofSummands (summands : List (String × Scalar)) : Terms :=
  summands.foldl (fun sum summand => sum.add summand.1 summand.2) .empty

/-- The multiples of one commitment in a list of summands. -/
def multiples (label : String) (summands : List (String × Scalar)) : List Scalar :=
  (summands.filter (·.1 = label)).map Prod.snd

@[simp] theorem multiples_nil (label : String) : multiples label [] = [] := rfl

theorem multiples_cons (label : String) (summand : String × Scalar)
    (summands : List (String × Scalar)) :
    multiples label (summand :: summands)
      = if summand.1 = label then summand.2 :: multiples label summands
        else multiples label summands := by
  by_cases h : summand.1 = label <;> simp [multiples, h]

@[simp] theorem multiples_append (label : String) (xs ys : List (String × Scalar)) :
    multiples label (xs ++ ys) = multiples label xs ++ multiples label ys := by simp [multiples]

theorem multiples_eq_nil_iff {label : String} {summands : List (String × Scalar)} :
    multiples label summands = [] ↔ ∀ summand ∈ summands, summand.1 ≠ label := by
  rw [multiples, List.map_eq_nil_iff, List.filter_eq_nil_iff]
  simp only [decide_eq_true_eq]

theorem multiples_map {α : Type} (label : String) (f : α → String) (g : α → Scalar) (xs : List α) :
    multiples label (xs.map fun x => (f x, g x)) = (xs.filter (f · = label)).map g := by
  rw [multiples, List.filter_map, List.map_map]
  rfl

theorem multiples_scale (label : String) (factor : Scalar) (xs : List (String × Scalar)) :
    multiples label (xs.map fun x => (x.1, x.2 * factor)) = (multiples label xs).map (· * factor) := by
  induction xs with
  | nil => rfl
  | cons x xs ih =>
    rw [List.map_cons, multiples_cons, multiples_cons, ih]
    split <;> rfl

/-- A map has one multiple of each of its labels. -/
theorem multiples_entries (terms : Terms) (label : String) :
    multiples label terms.entries = (terms.find? label).toList := by
  obtain ⟨entries, sorted⟩ := terms
  change multiples label entries = (entries.lookup label).toList
  induction entries with
  | nil => rfl
  | cons e rest ih =>
    obtain ⟨hhead, htail⟩ := List.pairwise_cons.mp sorted
    rw [multiples_cons, LabelMap.lookup_cons, ih htail]
    by_cases h : e.1 = label
    · rw [if_pos h, if_pos h.symm, ← h, LabelMap.lookup_eq_none_of_lt hhead]
      rfl
    · rw [if_neg h, if_neg (Ne.symm h)]

/-! ## Coefficients -/

/-- A coefficient to which multiples are added; without any, it stays as it is. -/
def collect (old : Option Scalar) : List Scalar → Option Scalar
  | [] => old
  | ms => some (old.getD 0 + ms.sum)

/-- A label collects nothing exactly when nothing was there and nothing is added. -/
theorem collect_eq_none_iff {old : Option Scalar} {ms : List Scalar} :
    collect old ms = none ↔ old = none ∧ ms = [] := by
  cases ms <;> simp [collect]

/-- What is collected is the sum, an absent coefficient counting as zero. -/
theorem getD_collect (old : Option Scalar) (ms : List Scalar) :
    (collect old ms).getD 0 = old.getD 0 + ms.sum := by
  cases ms <;> simp [collect]

/-- Collecting twice is collecting once. -/
theorem collect_append (old : Option Scalar) (ms ns : List Scalar) :
    collect (collect old ms) ns = collect old (ms ++ ns) := by
  cases ns with
  | nil => simp [collect]
  | cons n ns => cases ms <;> simp [collect, add_assoc]

/-- **The order of the multiples does not matter.** -/
theorem collect_perm (old : Option Scalar) : ∀ {ms ns : List Scalar}, ms.Perm ns →
    collect old ms = collect old ns
  | [], _, h => by rw [List.nil_perm.mp h]
  | _ :: _, [], h => absurd h.length_eq (by simp)
  | m :: ms, n :: ns, h => congrArg (fun sum => some (old.getD 0 + sum)) h.sum_eq

theorem find?_add (terms : Terms) (label : String) (c : Scalar) (other : String) :
    (terms.add label c).find? other
      = if other = label then collect (terms.find? label) [c] else terms.find? other := by
  rw [add, LabelMap.find?_insertWith]
  cases terms.find? label <;> simp [collect]

/-- Adding summands one by one collects the multiples of each label. -/
theorem find?_foldl_add (label : String) : ∀ (summands : List (String × Scalar)) (terms : Terms),
    (summands.foldl (fun sum summand => sum.add summand.1 summand.2) terms).find? label
      = collect (terms.find? label) (multiples label summands)
  | [], _ => rfl
  | summand :: summands, terms => by
      rw [List.foldl_cons, find?_foldl_add label summands, find?_add, multiples_cons]
      by_cases h : summand.1 = label
      · rw [if_pos h, if_pos h.symm, h, collect_append, List.singleton_append]
      · rw [if_neg h, if_neg (Ne.symm h)]

/-- **A label has a coefficient exactly when something was added to it, and then their sum.** -/
theorem find?_ofSummands (summands : List (String × Scalar)) (label : String) :
    (ofSummands summands).find? label = collect none (multiples label summands) :=
  find?_foldl_add label summands .empty

/-- Merging adds the other map's coefficient, and creates no term by itself. -/
theorem find?_merge (a b : Terms) (label : String) :
    (a.merge b).find? label = collect (a.find? label) (b.find? label).toList := by
  rw [merge, find?_foldl_add, multiples_entries]

theorem add_ofSummands (summands : List (String × Scalar)) (label : String) (c : Scalar) :
    (ofSummands summands).add label c = ofSummands (summands ++ [(label, c)]) := by
  rw [ofSummands, ofSummands, List.foldl_append]
  rfl

/-- Merging sums is appending their summands. -/
theorem merge_ofSummands (xs ys : List (String × Scalar)) :
    (ofSummands xs).merge (ofSummands ys) = ofSummands (xs ++ ys) := by
  refine LabelMap.ext_find? fun label => ?_
  rw [find?_merge, find?_ofSummands, find?_ofSummands, find?_ofSummands, multiples_append,
    ← collect_append]
  cases multiples label ys <;> simp [collect]

theorem scale_ofSummands (xs : List (String × Scalar)) (factor : Scalar) :
    (ofSummands xs).scale factor = ofSummands (xs.map fun x => (x.1, x.2 * factor)) := by
  refine LabelMap.ext_find? fun label => ?_
  rw [scale, LabelMap.find?_map, find?_ofSummands, find?_ofSummands, multiples_scale]
  cases multiples label xs <;> simp [collect, add_mul, List.sum_map_mul_right]

/-- A map is the sum of its own entries. -/
theorem ofSummands_entries (terms : Terms) : ofSummands terms.entries = terms := by
  refine LabelMap.ext_find? fun label => ?_
  rw [find?_ofSummands, multiples_entries]
  cases terms.find? label <;> simp [collect]

/-- **The order of the summands does not matter.** -/
theorem ofSummands_perm {xs ys : List (String × Scalar)} (h : xs.Perm ys) :
    ofSummands xs = ofSummands ys := by
  refine LabelMap.ext_find? fun label => ?_
  rw [find?_ofSummands, find?_ofSummands]
  exact collect_perm none ((h.filter _).map _)

/-- A label is present exactly when a summand bears it, a zero one too. -/
theorem mem_labels_ofSummands {summands : List (String × Scalar)} {label : String} :
    label ∈ (ofSummands summands).labels ↔ ∃ summand ∈ summands, summand.1 = label := by
  rw [← not_iff_not, ← LabelMap.find?_eq_none_iff, find?_ofSummands, collect_eq_none_iff,
    multiples_eq_nil_iff]
  exact ⟨fun ⟨_, h⟩ ⟨s, hs, heq⟩ => h s hs heq, fun h => ⟨rfl, fun s hs heq => h ⟨s, hs, heq⟩⟩⟩

/-! ## Values -/

variable {M : Type*} [AddCommMonoid M] [Module Scalar M]

/-- The value of a formal sum at given values of the commitments. -/
def value (e : String → M) (terms : Terms) : M :=
  (terms.entries.map fun term => term.2 • e term.1).sum

/-- Inserting into sorted entries adds one term to their value. -/
theorem sum_insertEntry (e : String → M) (label : String) (c : Scalar) :
    ∀ entries : List (String × Scalar),
      ((LabelMap.insertEntry (· + ·) label c entries).map fun term => term.2 • e term.1).sum
        = (entries.map fun term => term.2 • e term.1).sum + c • e label
  | [] => by simp [LabelMap.insertEntry]
  | (other, old) :: rest => by
      rw [LabelMap.insertEntry]
      split
      · next h =>
        subst h
        simp [add_smul, add_assoc, add_comm]
      · split
        · simp [add_comm]
        · simp [sum_insertEntry e label c rest, add_assoc]

@[simp] theorem value_empty (e : String → M) : value e .empty = 0 := rfl

theorem value_add (e : String → M) (terms : Terms) (label : String) (c : Scalar) :
    value e (terms.add label c) = value e terms + c • e label :=
  sum_insertEntry e label c terms.entries

theorem value_foldl_add (e : String → M) : ∀ (summands : List (String × Scalar)) (terms : Terms),
    value e (summands.foldl (fun sum summand => sum.add summand.1 summand.2) terms)
      = value e terms + (summands.map fun s => s.2 • e s.1).sum
  | [], _ => by simp
  | s :: summands, terms => by
      rw [List.foldl_cons, value_foldl_add e summands, value_add, List.map_cons, List.sum_cons,
        add_assoc]

/-- **The value of a formal sum is that of its summands.** -/
theorem value_ofSummands (e : String → M) (summands : List (String × Scalar)) :
    value e (ofSummands summands) = (summands.map fun s => s.2 • e s.1).sum := by
  rw [ofSummands, value_foldl_add, value_empty, zero_add]

end Terms

end PlonkVerifier
