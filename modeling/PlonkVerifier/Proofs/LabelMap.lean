import Mathlib
import PlonkVerifier.LabelMap

/-!
# Proofs/LabelMap — a map is its answers

The entries of a map are sorted, so a look-up finds the one entry with its label (`find?_eq_some_iff`), an added
entry is seen at its own label only (`find?_insertWith`), and two maps with the same answers are the same map
(`ext_find?`).  A map made of entries with distinct labels finds each of them (`find?_foldl_insert`).
-/

namespace PlonkVerifier

namespace LabelMap

variable {α β : Type}

theorem lookup_cons (label other : String) (value : α) (rest : List (String × α)) :
    ((other, value) :: rest).lookup label
      = if label = other then some value else rest.lookup label := by
  by_cases h : label = other
  · simp [h]
  · simp [List.lookup_cons, h, beq_eq_false_iff_ne.mpr h]

theorem lookup_eq_none_of_lt {label : String} : ∀ {entries : List (String × α)},
    (∀ e ∈ entries, label < e.1) → entries.lookup label = none
  | [], _ => rfl
  | (other, _) :: rest, h => by
      have hlt : label < other := h _ List.mem_cons_self
      rw [lookup_cons, if_neg (ne_of_lt hlt)]
      exact lookup_eq_none_of_lt fun e he => h e (List.mem_cons_of_mem _ he)

/-- **Inserting changes the inserted label only**, combined with its old value. -/
theorem lookup_insertEntry (combine : α → α → α) (label : String) (value : α) (other : String) :
    ∀ {entries : List (String × α)}, entries.Pairwise (fun a b => a.1 < b.1) →
      (insertEntry combine label value entries).lookup other
        = if other = label then some ((entries.lookup label).elim value (combine · value))
          else entries.lookup other
  | [], _ => by rw [insertEntry, lookup_cons]; rfl
  | (head, old) :: rest, hsorted => by
      obtain ⟨hhead, htail⟩ := List.pairwise_cons.mp hsorted
      rw [insertEntry]
      split
      · next heq =>
        simp only [lookup_cons, ← heq, if_true, Option.elim_some]
        split <;> rfl
      · next hne =>
        split
        · next hlt =>
          have hnone : ((head, old) :: rest).lookup label = none :=
            lookup_eq_none_of_lt (List.forall_mem_cons.mpr
              ⟨hlt, fun e he => String.lt_trans hlt (hhead e he)⟩)
          rw [lookup_cons, hnone]
          rfl
        · rw [lookup_cons, lookup_insertEntry combine label value other htail, lookup_cons,
            lookup_cons, if_neg hne]
          split
          · next heq => rw [if_neg (heq ▸ Ne.symm hne)]
          · rfl

@[simp] theorem find?_empty (label : String) : (empty : LabelMap α).find? label = none := rfl

/-- **An added entry changes the value at its own label only.** -/
theorem find?_insertWith (combine : α → α → α) (label : String) (value : α) (m : LabelMap α)
    (other : String) :
    (m.insertWith combine label value).find? other
      = if other = label then some ((m.find? label).elim value (combine · value))
        else m.find? other :=
  lookup_insertEntry combine label value other m.sorted

theorem find?_map (f : α → β) (m : LabelMap α) (label : String) :
    (m.map f).find? label = (m.find? label).map f := by
  obtain ⟨entries, sorted⟩ := m
  change (entries.map fun e => (e.1, f e.2)).lookup label = (entries.lookup label).map f
  clear sorted
  induction entries with
  | nil => rfl
  | cons e rest ih =>
    rw [List.map_cons, lookup_cons, lookup_cons, ih]
    split <;> rfl

/-- A label is answered exactly by its entry. -/
theorem find?_eq_some_iff {m : LabelMap α} {label : String} {value : α} :
    m.find? label = some value ↔ (label, value) ∈ m.entries := by
  obtain ⟨entries, sorted⟩ := m
  change entries.lookup label = some value ↔ (label, value) ∈ entries
  induction entries with
  | nil => simp
  | cons e rest ih =>
    obtain ⟨hhead, htail⟩ := List.pairwise_cons.mp sorted
    rw [lookup_cons, List.mem_cons]
    split
    · next heq =>
      refine ⟨fun h => .inl (by rw [heq, ← Option.some.inj h]), ?_⟩
      rintro (rfl | hmem)
      · rfl
      · exact absurd (hhead _ hmem) (heq ▸ String.lt_irrefl e.1)
    · next hne =>
      rw [ih htail]
      refine ⟨.inr, ?_⟩
      rintro (rfl | hmem)
      · exact absurd rfl hne
      · exact hmem

theorem find?_eq_none_iff {m : LabelMap α} {label : String} :
    m.find? label = none ↔ label ∉ m.labels := by
  rw [Option.eq_none_iff_forall_ne_some, labels]
  simp [find?_eq_some_iff]

theorem mem_labels_iff {m : LabelMap α} {label : String} :
    label ∈ m.labels ↔ ∃ value, m.find? label = some value := by
  rw [← Option.ne_none_iff_exists', Ne, find?_eq_none_iff, not_not]

theorem nodup_labels (m : LabelMap α) : m.labels.Nodup :=
  List.pairwise_map.mpr (m.sorted.imp ne_of_lt)

/-- **A map is its answers.** -/
theorem ext_find? {m m' : LabelMap α} (h : ∀ label, m.find? label = m'.find? label) : m = m' := by
  have hnodup : ∀ m : LabelMap α, m.entries.Nodup := fun m => m.nodup_labels.of_map _
  have hperm : m.entries.Perm m'.entries :=
    (List.perm_ext_iff_of_nodup (hnodup m) (hnodup m')).mpr fun e => by
      rw [← find?_eq_some_iff (m := m), ← find?_eq_some_iff (m := m'), h]
  obtain ⟨entries, sorted⟩ := m
  obtain ⟨entries', sorted'⟩ := m'
  obtain rfl : entries = entries' := hperm.eq_of_pairwise
    (fun a b _ _ hab hba => absurd (String.lt_trans hab hba) (String.lt_irrefl _)) sorted sorted'
  rfl

/-! ## Replacing entries -/

/-- The inserted label answers the new value, the others what they did. -/
theorem find?_insert (label : String) (value : α) (m : LabelMap α) (other : String) :
    (m.insert label value).find? other = if other = label then some value else m.find? other := by
  rw [insert, find?_insertWith]
  cases m.find? label <;> rfl

theorem mem_labels_insert {m : LabelMap α} {label other : String} {value : α} :
    other ∈ (m.insert label value).labels ↔ other = label ∨ other ∈ m.labels := by
  rw [mem_labels_iff, mem_labels_iff, find?_insert]
  by_cases h : other = label <;> simp [h]

theorem find?_foldl_insert_of_notMem {label : String} {entries : List (String × α)} (m : LabelMap α)
    (h : label ∉ entries.map Prod.fst) :
    (entries.foldl (fun m e => m.insert e.1 e.2) m).find? label = m.find? label := by
  induction entries generalizing m with
  | nil => rfl
  | cons e entries ih =>
    rw [List.map_cons, List.mem_cons, not_or] at h
    rw [List.foldl_cons, ih _ h.2, find?_insert, if_neg h.1]

/-- **Entries with distinct labels are all found.** -/
theorem find?_foldl_insert {label : String} {value : α} {entries : List (String × α)} (m : LabelMap α)
    (hnodup : (entries.map Prod.fst).Nodup) (h : (label, value) ∈ entries) :
    (entries.foldl (fun m e => m.insert e.1 e.2) m).find? label = some value := by
  induction entries generalizing m with
  | nil => cases h
  | cons e entries ih =>
    obtain ⟨hfresh, hnodup⟩ := List.nodup_cons.mp hnodup
    rw [List.foldl_cons]
    rcases List.mem_cons.mp h with rfl | h
    · rw [find?_foldl_insert_of_notMem _ hfresh, find?_insert, if_pos rfl]
    · exact ih _ hnodup h

/-- Without repeats a map built from a list answers from the list. -/
theorem find?_ofList_eq_some_iff {label : String} {value : α} {entries : List (String × α)}
    (hnodup : (entries.map Prod.fst).Nodup) :
    (ofList entries).find? label = some value ↔ (label, value) ∈ entries := by
  refine ⟨fun h => ?_, find?_foldl_insert empty hnodup⟩
  by_cases hlabel : label ∈ entries.map Prod.fst
  · obtain ⟨e, he, rfl⟩ := List.mem_map.mp hlabel
    rw [ofList, find?_foldl_insert empty hnodup he] at h
    rwa [← Option.some.inj h]
  · rw [ofList, find?_foldl_insert_of_notMem empty hlabel, find?_empty] at h
    cases h

theorem mem_of_mem_foldl_insert {e : String × α} {entries : List (String × α)} {m : LabelMap α}
    (h : e ∈ (entries.foldl (fun m e => m.insert e.1 e.2) m).entries) : e ∈ entries ∨ e ∈ m.entries := by
  induction entries generalizing m with
  | nil => exact .inr h
  | cons f entries ih =>
    rcases ih h with hmem | hmem
    · exact .inl (List.mem_cons_of_mem _ hmem)
    · obtain ⟨label, value⟩ := e
      rw [← find?_eq_some_iff, find?_insert] at hmem
      split at hmem
      · next hlabel =>
        obtain rfl := Option.some.inj hmem
        exact .inl (hlabel ▸ List.mem_cons_self)
      · exact .inr (find?_eq_some_iff.mp hmem)

/-- A map made of entries has no others. -/
theorem mem_of_mem_ofList {e : String × α} {entries : List (String × α)} (h : e ∈ (ofList entries).entries) :
    e ∈ entries :=
  (mem_of_mem_foldl_insert h).resolve_right List.not_mem_nil

/-- A map is rebuilt from its own entries. -/
theorem ofList_entries (m : LabelMap α) : ofList m.entries = m :=
  ext_find? fun _ => Option.ext fun _ => (find?_ofList_eq_some_iff m.nodup_labels).trans find?_eq_some_iff.symm

end LabelMap

end PlonkVerifier
