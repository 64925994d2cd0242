import Mathlib
import PlonkVerifier.Proofs.Pairing

/-!
# Proofs/Aggregate — the aggregate commitment is linear in its terms

Whether a formal sum has a commitment depends on its labels only, and the value is that of the formal sum at the
commitments of the labels (`Terms.evaluate_eq`).  So evaluation is linear, as long as all labels have a commitment, and
sees neither in which order nor in how many pieces the sum was put together (`aggregate_linear`).
-/

namespace PlonkVerifier

open scoped ScalarField

namespace Terms

/-! ## The value of a formal sum -/

section Value

variable {M : Type*} [AddCommMonoid M] [Module Scalar M]

/-- Merging adds the group elements the two maps denote, overlapping labels included. -/
theorem value_merge (e : String → M) (a b : Terms) : value e (a.merge b) = value e a + value e b :=
  value_foldl_add e b.entries a

theorem value_scale (e : String → M) (terms : Terms) (factor : Scalar) :
    value e (terms.scale factor) = factor • value e terms := by
  rw [value, value, scale, LabelMap.map, List.smul_sum, List.map_map, List.map_map]
  refine congrArg _ (List.map_congr_left fun term _ => ?_)
  simp only [Function.comp_apply, smul_smul, mul_comm]

end Value

/-! ## The order of the contributions -/

theorem merge_comm (a b : Terms) : a.merge b = b.merge a := by
  rw [← ofSummands_entries a, ← ofSummands_entries b, merge_ofSummands, merge_ofSummands]
  exact ofSummands_perm List.perm_append_comm

theorem merge_assoc (a b c : Terms) : (a.merge b).merge c = a.merge (b.merge c) := by
  rw [← ofSummands_entries a, ← ofSummands_entries b, ← ofSummands_entries c, merge_ofSummands, merge_ofSummands,
    merge_ofSummands, merge_ofSummands, List.append_assoc]

instance : RightCommutative merge :=
  ⟨fun a b c => by rw [merge_assoc, merge_comm b c, merge_assoc]⟩

/-! ## The labels of a formal sum -/

/-- Scaling drops no label, not even by zero. -/
theorem labels_scale (terms : Terms) (factor : Scalar) : (terms.scale factor).labels = terms.labels :=
  List.map_map

theorem mem_labels_merge {a b : Terms} {label : String} :
    label ∈ (a.merge b).labels ↔ label ∈ a.labels ∨ label ∈ b.labels := by
  rw [← ofSummands_entries a, ← ofSummands_entries b, merge_ofSummands]
  simp only [mem_labels_ofSummands, List.mem_append, or_and_right, exists_or]

/-- A label that a search passes over may be added. -/
theorem findSome?_insertEntry {α : Type} {f : String → Option α} {label : String} (h : f label = none) (c : Scalar) :
    ∀ entries : List (String × Scalar),
      ((LabelMap.insertEntry (· + ·) label c entries).map Prod.fst).findSome? f
        = (entries.map Prod.fst).findSome? f
  | [] => by simp [LabelMap.insertEntry, h]
  | (other, old) :: rest => by
      rw [LabelMap.insertEntry]
      split
      · rfl
      · split
        · simp [h]
        · simp only [List.map_cons, List.findSome?_cons, findSome?_insertEntry h c rest]

/-! ## The commitment of a formal sum -/

section Evaluate

variable {G : Type}

/-- Why a label has no commitment. -/
def unresolved? (key : VerificationKey G) (transcript : Transcript G) (label : String) : Option VerifierError :=
  match lookup key transcript label with
  | .ok _ => none
  | .error e => some e

/-- The commitment with a label; zero where there is none. -/
def resolved [Zero G] (key : VerificationKey G) (transcript : Transcript G) (label : String) : G :=
  (lookup key transcript label).toOption.getD 0

variable {key : VerificationKey G} {transcript : Transcript G} {label : String} {P : G}

theorem unresolved?_of_lookup (h : lookup key transcript label = .ok P) : unresolved? key transcript label = none := by
  rw [unresolved?, h]

theorem resolved_of_lookup [Zero G] (h : lookup key transcript label = .ok P) : resolved key transcript label = P := by
  rw [resolved, h]
  rfl

/-- **The commitments are looked up in the order of the labels**, and the first that is missing ends it. -/
theorem mapM_lookup_eq [Zero G] : ∀ entries : List (String × Scalar),
    (entries.mapM fun term => return (term.2, ← lookup key transcript term.1))
      = match (entries.map Prod.fst).findSome? (unresolved? key transcript) with
        | none => Except.ok (entries.map fun term => (term.2, resolved key transcript term.1))
        | some e => .error e
  | [] => rfl
  | term :: rest => by
      rw [List.mapM_cons, mapM_lookup_eq rest, List.map_cons, List.findSome?_cons, List.map_cons]
      cases h : lookup key transcript term.1 with
      | error e =>
        simp only [unresolved?, h]
        rfl
      | ok P =>
        rw [unresolved?_of_lookup h, resolved_of_lookup h]
        cases (rest.map Prod.fst).findSome? (unresolved? key transcript) <;> rfl

variable [CommitmentGroup G] [AddCommGroup G] [Module Scalar G] [CommitmentModule G]

/-- **A formal sum stands for its value**, unless a label has no commitment. -/
theorem evaluate_eq (terms : Terms) :
    terms.evaluate key transcript = match terms.labels.findSome? (unresolved? key transcript) with
      | none => .ok (terms.value (resolved key transcript))
      | some e => .error e := by
  have hresolve : terms.resolve key transcript = _ := mapM_lookup_eq terms.entries
  rw [evaluate, hresolve, ← LabelMap.labels]
  cases terms.labels.findSome? (unresolved? key transcript) with
  | some e => rfl
  | none =>
    refine congrArg Except.ok ?_
    rw [CommitmentModule.weightedSum_eq, List.map_map, value]
    rfl

/-- **A map resolves exactly when each of its labels does**, and then to its linear combination. -/
theorem evaluate_eq_ok_iff {terms : Terms} :
    terms.evaluate key transcript = .ok P ↔
      (∀ L ∈ terms.labels, unresolved? key transcript L = none) ∧ terms.value (resolved key transcript) = P := by
  rw [evaluate_eq, ← List.findSome?_eq_none_iff]
  cases terms.labels.findSome? (unresolved? key transcript) <;> simp

end Evaluate

end Terms

variable {G : Type} [CommitmentGroup G] [AddCommGroup G] [Module Scalar G] [CommitmentModule G]

open Terms in
/-- **The aggregate commitment is linear in the terms.**  A merged sum has a commitment if and only if both parts have
one, and then it is their sum; a multiple of a sum has the multiple of its commitment, and an added multiple of a
commitment is added to it.  The order in which parts are merged makes no difference. -/
theorem aggregate_linear (key : VerificationKey G) (transcript : Transcript G) (a b c : Terms) :
    (∀ P : G, (a.merge b).evaluate key transcript = .ok P ↔
      ∃ A B, a.evaluate key transcript = .ok A ∧ b.evaluate key transcript = .ok B ∧ P = A + B)
    ∧ (∀ f : Scalar, (a.scale f).evaluate key transcript = (f • ·) <$> a.evaluate key transcript)
    ∧ (∀ (L : String) (k : Scalar) (Q : G), lookup key transcript L = .ok Q →
      (a.add L k).evaluate key transcript = (· + k • Q) <$> a.evaluate key transcript)
    ∧ a.merge b = b.merge a
    ∧ (a.merge b).merge c = a.merge (b.merge c)
    ∧ ∀ parts parts' : List Terms, parts.Perm parts' →
      (parts.foldl merge a).evaluate key transcript = (parts'.foldl merge a).evaluate key transcript := by
  refine ⟨fun P => ?_, fun f => ?_, fun L k Q hL => ?_, merge_comm a b, merge_assoc a b c, fun parts parts' h => ?_⟩
  · simp only [evaluate_eq_ok_iff, mem_labels_merge, or_imp, forall_and, value_merge]
    constructor
    · rintro ⟨⟨ha, hb⟩, rfl⟩
      exact ⟨_, _, ⟨ha, rfl⟩, ⟨hb, rfl⟩, rfl⟩
    · rintro ⟨_, _, ⟨ha, rfl⟩, ⟨hb, rfl⟩, rfl⟩
      exact ⟨⟨ha, hb⟩, rfl⟩
  · rw [evaluate_eq, evaluate_eq, labels_scale, value_scale]
    cases a.labels.findSome? (unresolved? key transcript) <;> rfl
  · have hlabels : (a.add L k).labels.findSome? (unresolved? key transcript)
        = a.labels.findSome? (unresolved? key transcript) :=
      findSome?_insertEntry (unresolved?_of_lookup hL) k a.entries
    rw [evaluate_eq, evaluate_eq, hlabels, value_add, resolved_of_lookup hL]
    cases a.labels.findSome? (unresolved? key transcript) <;> rfl
  · rw [h.foldl_eq]

/-- A label of both parts, whose coefficients cancel; the key holds its commitment, the prover sent the others. -/
theorem aggregate_linear_shared :
    (Terms.ofSummands [("Q_M", 2), ("W_1", 3)]).evaluate (.small 3 0) (.small .evaluatedIdentities) = .ok (27 : Scalar)
    ∧ (Terms.ofSummands [("Q_M", -2), ("Z", 5)]).evaluate (.small 3 0) (.small .evaluatedIdentities)
      = .ok (35 : Scalar)
    ∧ ((Terms.ofSummands [("Q_M", 2), ("W_1", 3)]).merge (.ofSummands [("Q_M", -2), ("Z", 5)])).evaluate
        (.small 3 0) (.small .evaluatedIdentities) = .ok (62 : Scalar)
    ∧ Terms.lookup (.small 3 0) (.small .evaluatedIdentities) "Z" = .ok (7 : Scalar)
    ∧ ((Terms.ofSummands [("Q_M", 2), ("W_1", 3)]).add "Z" 5).evaluate (.small 3 0) (.small .evaluatedIdentities)
      = .ok (62 : Scalar)
    ∧ ([.ofSummands [("Q_M", -2)], .ofSummands [("Z", 5)]].foldl Terms.merge
        (.ofSummands [("Q_M", 2), ("W_1", 3)])).evaluate (.small 3 0) (.small .evaluatedIdentities)
      = ([.ofSummands [("Z", 5)], .ofSummands [("Q_M", -2)]].foldl Terms.merge
        (.ofSummands [("Q_M", 2), ("W_1", 3)])).evaluate (VerificationKey.small 3 0) (.small .evaluatedIdentities) := by
  have hA : (Terms.ofSummands [("Q_M", 2), ("W_1", 3)]).evaluate (.small 3 0) (.small .evaluatedIdentities)
      = .ok (27 : Scalar) := by decide +kernel
  have hB : (Terms.ofSummands [("Q_M", -2), ("Z", 5)]).evaluate (.small 3 0) (.small .evaluatedIdentities)
      = .ok (35 : Scalar) := by decide +kernel
  have hZ : Terms.lookup (.small 3 0) (.small .evaluatedIdentities) "Z" = .ok (7 : Scalar) := by decide +kernel
  obtain ⟨hmerge, -, hadd, -, -, horder⟩ := aggregate_linear (G := Scalar) (.small 3 0) (.small .evaluatedIdentities)
    (.ofSummands [("Q_M", 2), ("W_1", 3)]) (.ofSummands [("Q_M", -2), ("Z", 5)]) .empty
  refine ⟨hA, hB, (hmerge 62).mpr ⟨27, 35, hA, hB, by decide +kernel⟩, hZ, ?_, horder _ _ (.swap _ _ _)⟩
  rw [hadd "Z" 5 7 hZ, hA]
  exact congrArg Except.ok (by decide +kernel)

end PlonkVerifier
