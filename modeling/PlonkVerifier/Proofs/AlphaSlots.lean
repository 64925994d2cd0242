import Mathlib
import PlonkVerifier.Proofs.Answers

/-!
# Proofs/AlphaSlots — the families take consecutive powers of alpha

    start ──slot of the first family──▸ ──slot of the second──▸ … ──▸ final power

A family moves the power forward by as many steps as it takes powers, and both of its passes move it alike
(`Composition.apply_eq`), so that they never differ (`composeFrom_desync`).  Hence the slots of a composition lie back
to back (`Composition.Slotted.extend`), and cover the exponents between its first and its last power without a gap or
an overlap (`slots_consecutive`).
-/

namespace PlonkVerifier

open scoped ScalarField

variable {G : Type}

/-! ## Powers of a challenge -/

namespace AlphaPower

variable {alpha : Scalar} {power : AlphaPower}

/-- The powers that a challenge leads to, forward from its zeroth or first power. -/
inductive Reached (alpha : Scalar) : AlphaPower → Prop where
  | unit : Reached alpha (.unit alpha)
  | ofChallenge : Reached alpha (.ofChallenge alpha)
  | advance {power : AlphaPower} (h : Reached alpha power) (count : ℕ) : Reached alpha (power.advance count)

/-- The base is the power of the challenge that the index says. -/
structure IsPower (alpha : Scalar) (power : AlphaPower) : Prop where
  alpha_eq : power.alpha = alpha
  base_eq : power.base = alpha ^ power.index

/-- Advancing multiplies in one factor per slot, so the pair stays a power of alpha. -/
theorem IsPower.advance (h : power.IsPower alpha) (count : ℕ) : (power.advance count).IsPower alpha where
  alpha_eq := h.alpha_eq
  base_eq := by
    change power.base * Residue.pow power.alpha count = alpha ^ (power.index + count)
    rw [Residue.pow_eq, h.alpha_eq, h.base_eq, pow_add]

/-- Every pair the composition can meet is a power of alpha at its own index. -/
theorem Reached.isPower (h : power.Reached alpha) : power.IsPower alpha := by
  induction h with
  | unit => exact ⟨rfl, (pow_zero alpha).symm⟩
  | ofChallenge => exact ⟨rfl, (pow_one alpha).symm⟩
  | advance _ count ih => exact ih.advance count

end AlphaPower

/-! ## Slots -/

namespace Composition

variable {key : VerificationKey G} {transcript : Transcript G} {mode : Mode} {start : AlphaPower}
  {families : List Family} {composition : Composition}

/-- The slots of families that took powers one after the other, beginning with `start`. -/
structure Slotted (start : AlphaPower) (families : List Family) (composition : Composition) : Prop where
  families : composition.slots.map (·.family) = families
  count : ∀ slot ∈ composition.slots, slot.count = slot.family.alphaPowers
  le : start.index ≤ composition.power.index
  /-- The slots lie back to back. -/
  indices : composition.slots.flatMap AlphaSlot.indices
    = List.range' start.index (composition.power.index - start.index)
  isPower : ∀ alpha, start.IsPower alpha → composition.power.IsPower alpha

/-- Before the first family there is no slot, and the next index is the starting one. -/
theorem slotted_start (start : AlphaPower) : (Composition.start start).Slotted start [] where
  families := rfl
  count := by simp [Composition.start]
  le := le_rfl
  indices := by simp [Composition.start]
  isPower _ h := h

/-- **One more family takes the next powers.** -/
theorem Slotted.extend (h : composition.Slotted start families) (family : Family) (terms : Terms) (part : Scalar) :
    (composition.extend family terms part).Slotted start (families ++ [family]) where
  families := by rw [Composition.extend, List.map_append, h.families, List.map_singleton]
  count := List.forall_mem_append.mpr ⟨h.count, List.forall_mem_singleton.mpr rfl⟩
  le := h.le.trans (Nat.le_add_right _ _)
  indices := by
    have hle := h.le
    have hnext : start.index + (composition.power.index - start.index) = composition.power.index :=
      Nat.add_sub_cancel' hle
    change (composition.slots ++ [AlphaSlot.mk family composition.power.index family.alphaPowers]).flatMap
      AlphaSlot.indices = List.range' start.index (composition.power.index + family.alphaPowers - start.index)
    rw [List.flatMap_append, h.indices, List.flatMap_singleton, AlphaSlot.indices, Nat.sub_add_comm hle,
      ← List.range'_append_1, hnext]
  isPower alpha hstart := (h.isPower alpha hstart).advance family.alphaPowers

/-- **After a run of families the slots are consecutive**: `slotted_start` carried through `apply`. -/
theorem slotted_of_run (h : families.foldlM (apply key transcript mode) (.start start) = .ok composition) :
    composition.Slotted start families := by
  refine foldlM_invariant (fun done c => c.Slotted start done) h (slotted_start start)
    fun done family c c' _ _ hdone hstep => ?_
  obtain ⟨terms, part, -, -, rfl⟩ := apply_eq_ok.mp hstep
  exact hdone.extend family terms part

/-- A run keeps the slots it begins with. -/
theorem slots_prefix_of_run {first : Composition}
    (h : families.foldlM (apply key transcript mode) first = .ok composition) : first.slots <+: composition.slots := by
  refine foldlM_invariant (fun _ c => first.slots <+: c.slots) h (List.prefix_refl _)
    fun done family c c' _ _ hdone hstep => ?_
  obtain ⟨terms, part, -, -, rfl⟩ := apply_eq_ok.mp hstep
  exact hdone.trans (List.prefix_append _ _)

/-- **Each family is handed the power that its slot begins with.** -/
theorem exists_handed (h : families.foldlM (apply key transcript mode) (.start start) = .ok composition) {i : ℕ}
    {family : Family} (hfamily : families[i]? = some family) :
    ∃ before, (families.take i).foldlM (apply key transcript mode) (.start start) = .ok before
      ∧ composition.slots[i]? = some ⟨family, before.power.index, family.alphaPowers⟩ := by
  obtain ⟨hi, hget⟩ := List.getElem?_eq_some_iff.mp hfamily
  have hsplit : families = families.take i ++ ([family] ++ families.drop (i + 1)) := by
    rw [List.singleton_append, ← hget, ← List.drop_eq_getElem_cons hi, List.take_append_drop]
  rw [hsplit, foldlM_append_eq_ok] at h
  obtain ⟨before, hbefore, h⟩ := h
  obtain ⟨after, hstep, hrest⟩ := foldlM_append_eq_ok.mp h
  obtain ⟨terms, part, -, -, rfl⟩ := apply_eq_ok.mp (foldlM_singleton_eq_ok.mp hstep)
  have hlength : before.slots.length = i := by
    have hfamilies := congrArg List.length (slotted_of_run hbefore).families
    rwa [List.length_map, List.length_take, min_eq_left hi.le] at hfamilies
  refine ⟨before, hbefore, ?_⟩
  obtain ⟨rest, hslots⟩ := slots_prefix_of_run hrest
  rw [← hslots, Composition.extend, List.append_assoc, List.getElem?_append_right hlength.le, hlength, Nat.sub_self]
  rfl

end Composition

/-! ## Compositions -/

variable {variant : Variant} {key : VerificationKey G} {transcript : Transcript G} {start : AlphaPower}

/-- **The two passes of a family never end on different powers**: an error that says so is one of the transcript. -/
theorem composeFrom_desync {family : Family}
    (h : composeFrom variant key transcript start = .error (.alphaPowerDesync family)) :
    transcript.Raises (.alphaPowerDesync family) := by
  rcases ((transcript.declared_raises variant key).composeFrom_coincide start).of_error h with hraises | hunfit
  · exact hraises
  · cases hunfit

/-- **The families take disjoint powers of alpha without a gap.**  The two passes of a family never differ, so that
no composition over a session or a table fails for this reason.  A composition has one slot for each family in order,
with as many powers as the family takes; the slots are disjoint and cover the exponents from the first power up to the
final one; and the final power, like each power that a family is handed, is the power of the challenge that its index
says. -/
theorem slots_consecutive [CommitmentGroup G] (variant : Variant) (key : VerificationKey G)
    (transcript : Transcript G) {alpha : Scalar} {start : AlphaPower} (hstart : start.Reached alpha) :
    (∀ family, composeFrom variant key transcript start = .error (.alphaPowerDesync family) →
      transcript.Raises (.alphaPowerDesync family))
    ∧ (∀ (session : Session) (family : Family),
      composeFrom variant key session.transcript start ≠ .error (.alphaPowerDesync family))
    ∧ (∀ (table : TranscriptTable G) (family : Family),
      composeFrom variant key table.transcript start ≠ .error (.alphaPowerDesync family))
    ∧ ∀ composition, composeFrom variant key transcript start = .ok composition →
      composition.slots.map (·.family) = variant.families
      ∧ (∀ slot ∈ composition.slots, slot.indices.length = slot.family.alphaPowers)
      ∧ composition.slots.Pairwise (fun slot slot' => slot.indices.Disjoint slot'.indices)
      ∧ start.index ≤ composition.power.index
      ∧ (∀ i, (∃ slot ∈ composition.slots, i ∈ slot.indices) ↔ start.index ≤ i ∧ i < composition.power.index)
      ∧ composition.power.IsPower alpha
      ∧ ∀ i family, variant.families[i]? = some family → ∃ before,
        (variant.families.take i).foldlM (Composition.apply key transcript variant.mode) (.start start) = .ok before
          ∧ before.power.IsPower alpha
          ∧ composition.slots[i]? = some ⟨family, before.power.index, family.alphaPowers⟩ := by
  refine ⟨fun family => composeFrom_desync, fun session family h => ?_, fun table family h => ?_,
    fun composition h => ?_⟩
  · cases session.unanswered (composeFrom_desync h)
  · cases table.unanswered (composeFrom_desync h)
  obtain ⟨-, hrun⟩ := composeFrom_eq_ok.mp h
  have hslotted := Composition.slotted_of_run hrun
  refine ⟨hslotted.families, fun slot hslot => ?_, ?_, hslotted.le, fun i => ?_,
    hslotted.isPower alpha hstart.isPower, fun i family hfamily => ?_⟩
  · rw [AlphaSlot.indices, List.length_range', hslotted.count slot hslot]
  · have hnodup := hslotted.indices ▸ List.nodup_range' (s := start.index)
    exact (List.nodup_flatMap.mp hnodup).2
  · rw [← List.mem_flatMap, hslotted.indices, List.mem_range'_1, Nat.add_sub_cancel' hslotted.le]
  · obtain ⟨before, hbefore, hslot⟩ := Composition.exists_handed hrun hfamily
    exact ⟨before, hbefore, (Composition.slotted_of_run hbefore).isPower alpha hstart.isPower, hslot⟩

/-- Two families started at index 5 take the slots 5 and 6. -/
theorem slots_consecutive_evaluatedIdentities :
    ((AlphaPower.unit 2).advance 5).Reached 2
    ∧ ∃ composition,
      composeFrom .evaluatedIdentities (.small 3 0) .unconstrained ((AlphaPower.unit 2).advance 5) = .ok composition
      ∧ composition.slots = [⟨.permutation, 5, 1⟩, ⟨.arithmetic, 6, 1⟩]
      ∧ composition.slots.Pairwise (fun slot slot' => slot.indices.Disjoint slot'.indices)
      ∧ (∀ i, (∃ slot ∈ composition.slots, i ∈ slot.indices) ↔ 5 ≤ i ∧ i < 7)
      ∧ composition.power.IsPower 2 := by
  have hstart : ((AlphaPower.unit 2).advance 5).Reached 2 := .advance .unit 5
  have hany : ((composeFrom .evaluatedIdentities (.small 3 0) .unconstrained
      ((AlphaPower.unit 2).advance 5)).toOption.any fun composition =>
        composition.slots = [⟨.permutation, 5, 1⟩, ⟨.arithmetic, 6, 1⟩] ∧ composition.power.index = 7) = true := by
    decide +kernel
  obtain ⟨composition, hcompose, hfound⟩ := exists_ok_of_any hany
  obtain ⟨hslots, hindex⟩ := of_decide_eq_true hfound
  obtain ⟨-, -, -, hconsecutive⟩ := slots_consecutive .evaluatedIdentities (.small 3 0) .unconstrained hstart
  obtain ⟨-, -, hdisjoint, -, hcover, hpower, -⟩ := hconsecutive composition hcompose
  rw [hindex] at hcover
  exact ⟨hstart, composition, hcompose, hslots, hdisjoint, hcover, hpower⟩

end PlonkVerifier
