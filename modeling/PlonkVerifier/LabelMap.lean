/-!
# LabelMap — finite maps from labels

Commitments, coefficients, challenges and messages are all named by text.  A map is a list of entries
sorted by label, so each map has one representation and its entries come in label order.

`insertWith` is the one way to add an entry: it combines the new value with one already present.
-/

namespace PlonkVerifier

/-- A finite map from labels, with its entries sorted by label. -/
structure LabelMap (α : Type) where
  /-- The entries, in increasing order of their labels. -/
  entries : List (String × α)
  /-- No label occurs twice, and labels increase. -/
  sorted : entries.Pairwise fun a b => a.1 < b.1

namespace LabelMap

variable {α β : Type}

instance [DecidableEq α] : DecidableEq (LabelMap α) := fun a b =>
  decidable_of_iff (a.entries = b.entries) ⟨fun h => by cases a; cases b; simpa using h, congrArg _⟩

instance [Repr α] : Repr (LabelMap α) := ⟨fun m _ => repr m.entries⟩

/-- The map without entries. -/
def empty : LabelMap α := ⟨[], .nil⟩

instance : Inhabited (LabelMap α) := ⟨empty⟩

/-! ## Adding an entry -/

/-- `combine old value` at a label that is present, `value` at a new label. -/
def insertEntry (combine : α → α → α) (label : String) (value : α) :
    List (String × α) → List (String × α)
  | [] => [(label, value)]
  | (other, old) :: rest =>
    if label = other then (other, combine old value) :: rest
    else if label < other then (label, value) :: (other, old) :: rest
    else (other, old) :: insertEntry combine label value rest

theorem label_of_mem_insertEntry {combine : α → α → α} {label : String} {value : α} :
    ∀ {entries : List (String × α)} {e : String × α}, e ∈ insertEntry combine label value entries →
      e.1 = label ∨ ∃ f ∈ entries, f.1 = e.1
  | [], e, h => by
      obtain rfl := List.mem_singleton.mp h
      exact .inl rfl
  | (other, old) :: rest, e, h => by
      rw [insertEntry] at h
      split at h
      · next heq =>
        rcases List.mem_cons.mp h with rfl | h
        · exact .inl heq.symm
        · exact .inr ⟨e, List.mem_cons_of_mem _ h, rfl⟩
      · split at h
        · rcases List.mem_cons.mp h with rfl | h
          · exact .inl rfl
          · exact .inr ⟨e, h, rfl⟩
        · rcases List.mem_cons.mp h with rfl | h
          · exact .inr ⟨_, List.mem_cons_self, rfl⟩
          · rcases label_of_mem_insertEntry h with h | ⟨f, hf, h⟩
            · exact .inl h
            · exact .inr ⟨f, List.mem_cons_of_mem _ hf, h⟩

theorem sorted_insertEntry (combine : α → α → α) (label : String) (value : α) :
    ∀ {entries : List (String × α)}, entries.Pairwise (fun a b => a.1 < b.1) →
      (insertEntry combine label value entries).Pairwise fun a b => a.1 < b.1
  | [], _ => List.pairwise_singleton _ _
  | (other, old) :: rest, h => by
      obtain ⟨hhead, htail⟩ := List.pairwise_cons.mp h
      rw [insertEntry]
      split
      · exact List.pairwise_cons.mpr ⟨hhead, htail⟩
      · next hne =>
        split
        · next hlt =>
          refine List.pairwise_cons.mpr ⟨fun e he => ?_, h⟩
          rcases List.mem_cons.mp he with rfl | he
          · exact hlt
          · exact String.lt_trans hlt (hhead e he)
        · next hge =>
          refine List.pairwise_cons.mpr ⟨fun e he => ?_, sorted_insertEntry combine label value htail⟩
          have hlt : other < label :=
            Classical.byContradiction fun hn =>
              hne (String.le_antisymm (String.not_lt.mp hn) (String.not_lt.mp hge))
          rcases label_of_mem_insertEntry he with he | ⟨f, hf, he⟩
          · exact he ▸ hlt
          · exact he ▸ hhead f hf

/-- Adds an entry, combining it with a value already present. -/
def insertWith (combine : α → α → α) (label : String) (value : α) (m : LabelMap α) : LabelMap α :=
  ⟨insertEntry combine label value m.entries, sorted_insertEntry combine label value m.sorted⟩

/-- Adds an entry, in place of one with the same label. -/
def insert (label : String) (value : α) (m : LabelMap α) : LabelMap α :=
  insertWith (fun _ value => value) label value m

/-- The map of a list of entries; a later entry replaces an earlier one with its label. -/
def ofList (entries : List (String × α)) : LabelMap α :=
  entries.foldl (fun m e => m.insert e.1 e.2) empty

/-! ## Reading -/

/-- The value at a label. -/
def find? (m : LabelMap α) (label : String) : Option α := m.entries.lookup label

/-- The labels, in increasing order. -/
def labels (m : LabelMap α) : List String := m.entries.map Prod.fst

/-- The number of entries. -/
def size (m : LabelMap α) : Nat := m.entries.length

/-- Whether there is no entry. -/
def isEmpty (m : LabelMap α) : Bool := m.entries.isEmpty

/-- The map with `f` applied to each value. -/
def map (f : α → β) (m : LabelMap α) : LabelMap β :=
  ⟨m.entries.map fun e => (e.1, f e.2), List.pairwise_map.mpr m.sorted⟩

end LabelMap

end PlonkVerifier
