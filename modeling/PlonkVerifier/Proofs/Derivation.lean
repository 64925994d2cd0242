import Mathlib
import PlonkVerifier.Proofs.Closings

/-!
# Proofs/Derivation — what a challenge is cut from

A closed round leaves a digest.  Its challenges are cut from the hash of the digest and their position, written in one
byte (`positionInput`); a member of its map challenges is cut from the hash of the digest and the member's label, in
UTF-8 (`memberInput`).  Two inputs differ

* between positions that differ modulo 256 (`positionInput_inj`), so everywhere in a round of up to 256 challenges;
* between members with different labels (`memberInput_inj`), but not between the map challenges of one round, which
  share the digest.

`challenge_inputs` says so of every round that any calls have closed.
-/

namespace PlonkVerifier

/-! ## Inputs -/

namespace Bytes

theorem toList_loop_eq (bytes : ByteArray) (i : ℕ) (front : Bytes) :
    ByteArray.toList.loop bytes i front = front.reverse ++ bytes.data.toList.drop i := by
  induction i, front using ByteArray.toList.loop.induct bytes with
  | case1 i front hlt ih =>
    have hi : i < bytes.data.toList.length := hlt
    have hget : bytes.get! i = bytes.data.toList[i] := getElem!_pos bytes.data i hlt
    rw [ByteArray.toList.loop, if_pos hlt, ih, hget, List.drop_eq_getElem_cons hi, List.reverse_cons,
      List.append_assoc, List.singleton_append]
  | case2 i front hge =>
    have hi : bytes.data.toList.length ≤ i := not_lt.mp hge
    rw [ByteArray.toList.loop, if_neg hge, List.drop_eq_nil_of_le hi, List.append_nil]

theorem toList_injective : Function.Injective ByteArray.toList := by
  intro bytes bytes' h
  rw [ByteArray.toList, ByteArray.toList, toList_loop_eq, toList_loop_eq] at h
  exact ByteArray.ext (Array.toList_inj.mp h)

end Bytes

/-- The input of the challenge at a position. -/
def positionInput (digest : Bytes) (i : ℕ) : Bytes := digest ++ [UInt8.ofNat i]

/-- The input of a member of a map challenge. -/
def memberInput (digest : Bytes) (member : String) : Bytes := digest ++ member.toUTF8.toList

/-- **One byte tells positions apart modulo 256.** -/
theorem positionInput_inj {digest : Bytes} {i j : ℕ} :
    positionInput digest i = positionInput digest j ↔ i % 256 = j % 256 := by
  rw [positionInput, positionInput, List.append_cancel_left_eq, List.singleton_inj, UInt8.ofNat_eq_iff_mod_eq_toNat,
    UInt8.toNat_ofNat']

/-- **UTF-8 tells labels apart.** -/
theorem memberInput_inj {digest : Bytes} {member member' : String} :
    memberInput digest member = memberInput digest member' ↔ member = member' := by
  rw [memberInput, memberInput, List.append_cancel_left_eq, Bytes.toList_injective.eq_iff]
  exact String.toByteArray_inj

namespace Session

variable {G : Type} [CommitmentGroup G] {manifest : Manifest} {hash : ChallengeHash} {challengeBytes k : ℕ}
  {round : ManifestRound} {challenge label : String} {calls : List (Call G)}

/-! ## What a round draws -/

/-- A loop of insertions finds under a label what it inserted there. -/
theorem exists_find?_of_foldlM {α : Type} {f : String × ℕ → Except VerifierError α} {labels : List (String × ℕ)}
    {m m' : LabelMap α} (h : labels.foldlM (fun m x => return m.insert x.1 (← f x)) m = .ok m')
    (hlabel : label ∈ labels.map Prod.fst) :
    ∃ i a, (label, i) ∈ labels ∧ f (label, i) = .ok a ∧ m'.find? label = some a := by
  refine foldlM_invariant (fun done m' => label ∈ done.map Prod.fst →
    ∃ i a, (label, i) ∈ labels ∧ f (label, i) = .ok a ∧ m'.find? label = some a) h (by simp) ?_ hlabel
  rintro done ⟨l, i⟩ c c' hx - hc hstep hmem
  obtain ⟨a, ha, hstep⟩ := bind_eq_ok.mp hstep
  obtain rfl := pure_eq_ok.mp hstep
  rw [LabelMap.find?_insert]
  split
  · next hl =>
    obtain rfl : label = l := hl
    exact ⟨i, a, hx, ha, rfl⟩
  · next hl =>
    rw [List.map_append, List.mem_append] at hmem
    exact hc (hmem.resolve_right fun hlast => hl (List.mem_singleton.mp hlast))

theorem find?_foldl_insert_of_mem {α : Type} {labels : List String} (value : α) (hlabel : label ∈ labels)
    (m : LabelMap α) : (labels.foldl (fun m l => m.insert l value) m).find? label = some value := by
  induction labels generalizing m with
  | nil => cases hlabel
  | cons l labels ih =>
    by_cases hlater : label ∈ labels
    · exact ih hlater _
    · obtain rfl : label = l := (List.mem_cons.mp hlabel).resolve_right hlater
      rw [List.foldl_cons, find?_foldl_insert_label value hlater, LabelMap.find?_insert, if_pos rfl]

section

variable {session next : Session}

/-- **A challenge is cut from the input of its position.** -/
theorem exists_position (h : session.closeRound challenge = .ok next) (hclosed : session.Closed round challenge next)
    (hmap : round.isMap = false) (hlabel : label ∈ round.challenges) :
    ∃ i x, round.challenges[i]? = some label ∧ session.derive (positionInput next.digest i) = .ok x
      ∧ next.challenges.find? label = some x := by
  obtain ⟨round', input, drawn, hround, -, -, hdrawn, rfl⟩ := closeRound_eq_ok.mp h
  obtain rfl := Option.some.inj (hround.symm.trans hclosed.current)
  rw [drawChallenges, hmap, if_neg Bool.false_ne_true] at hdrawn
  obtain ⟨challenges, hfold, hdrawn⟩ := bind_eq_ok.mp hdrawn
  obtain rfl := pure_eq_ok.mp hdrawn
  obtain ⟨i, x, hi, hx, hfind⟩ := exists_find?_of_foldlM
    (f := fun x : String × ℕ => session.derive (session.hash.digest input ++ [UInt8.ofNat x.2])) hfold
    (by rwa [List.zipIdx_map_fst])
  exact ⟨i, x, List.mem_zipIdx_iff_getElem?.mp hi, hx, hfind⟩

/-- **The map challenges of a round share its digest.** -/
theorem find?_mapDigests (h : session.closeRound challenge = .ok next) (hclosed : session.Closed round challenge next)
    (hmap : round.isMap = true) (hlabel : label ∈ round.challenges) :
    next.mapDigests.find? label = some next.digest := by
  obtain ⟨round', input, drawn, hround, -, -, hdrawn, rfl⟩ := closeRound_eq_ok.mp h
  obtain rfl := Option.some.inj (hround.symm.trans hclosed.current)
  rw [drawChallenges, hmap, if_pos rfl] at hdrawn
  obtain rfl := Except.ok.inj hdrawn
  exact find?_foldl_insert_of_mem _ hlabel _

/-! ## What is drawn later -/

/-- No round from the `i`-th on and before the `j`-th draws a challenge. -/
def Undrawn (manifest : Manifest) (i j : ℕ) (label : String) : Prop :=
  ∀ (n : ℕ) (round : ManifestRound), i ≤ n → n < j → manifest.rounds[n]? = some round → label ∉ round.challenges

/-- **A challenge is kept until a round draws it again.** -/
theorem Tracks.kept_afterCalls (h : session.Tracks manifest hash challengeBytes) (hwidth : challengeBytes ≤ Scalar.size)
    (calls : List (Call G)) (hlabel : Undrawn manifest session.completed (session.afterCalls calls).completed label) :
    (session.afterCalls calls).challenges.find? label = session.challenges.find? label
      ∧ (session.afterCalls calls).mapDigests.find? label = session.mapDigests.find? label := by
  induction calls generalizing session with
  | nil => exact ⟨rfl, rfl⟩
  | cons call calls ih =>
    have htracks := h.call hwidth call
    have hstep := step_call (h.challengeBytes_eq ▸ hwidth) call
    rw [afterCalls_cons] at hlabel ⊢
    generalize (session.call call).1 = next at htracks hstep hlabel ⊢
    obtain ⟨hchallenge, hdigest⟩ := ih htracks fun n round hn =>
      hlabel n round (hstep.completed_le.trans hn)
    rw [hchallenge, hdigest]
    cases hstep with
    | record message => exact ⟨rfl, rfl⟩
    | refused challenge _ => exact ⟨rfl, rfl⟩
    | closed challenge _ hclose =>
      obtain ⟨round, hclosed⟩ := exists_closed hclose
      have hlt : session.completed < (next.afterCalls calls).completed :=
        (Nat.lt_of_succ_le hclosed.completed.ge).trans_le (htracks.completed_le_afterCalls hwidth calls)
      exact hclosed.kept label (hlabel session.completed round le_rfl hlt (h.manifest_eq ▸ hclosed.current))

theorem Tracks.derive_eq {session' : Session} (h : session.Tracks manifest hash challengeBytes)
    (h' : session'.Tracks manifest hash challengeBytes) : session'.derive = session.derive := by
  funext input
  rw [derive, derive, h.hash_eq, h.challengeBytes_eq, h'.hash_eq, h'.challengeBytes_eq]

/-- **A round whose messages are recorded can be closed in place.** -/
theorem Recorded.exists_closeInPlace (h : session.Recorded round) (hwidth : session.challengeBytes ≤ Scalar.size)
    (hround : session.manifest.rounds[session.completed]? = some round)
    (hdraws : round.challenges.head? = some challenge) :
    ∃ next, session.closeInPlace challenge = (next, .ok ()) ∧ session.Closed round challenge next := by
  obtain ⟨next, hclose, hclosed⟩ := h.exists_closed hwidth hround hdraws
  exact ⟨next, by rw [closeInPlace_eq hwidth, hclose], hclosed⟩

end

/-! ## The inputs of a closed round -/

/-- **Labels at different positions of a short round have different inputs.** -/
theorem positionInput_ne {labels : List String} (hlength : labels.length ≤ 256) {label label' : String} {i j : ℕ}
    (hi : labels[i]? = some label) (hj : labels[j]? = some label') (hne : label ≠ label') (digest : Bytes) :
    positionInput digest i ≠ positionInput digest j := by
  have hi' := (List.getElem?_eq_some_iff.mp hi).1.trans_le hlength
  have hj' := (List.getElem?_eq_some_iff.mp hj).1.trans_le hlength
  intro heq
  rw [positionInput_inj, Nat.mod_eq_of_lt hi', Nat.mod_eq_of_lt hj'] at heq
  exact hne (Option.some.inj (hi.symm.trans (heq ▸ hj)))

/-- Distinct labels have one position each. -/
theorem position_eq {labels : List String} (hnodup : labels.Nodup) {label : String} {i j : ℕ}
    (hi : labels[i]? = some label) (hj : some label = labels[j]?) : i = j :=
  (List.getElem?_inj (List.getElem?_eq_some_iff.mp hi).1 hnodup).mp (hi.trans hj)

namespace Closing

variable {first : Session} (closing : Closing first calls k)

/-- A challenge is asked for and the answer is cut from this input, until a later round draws the challenge again. -/
def Answers (challenge : String) (query : Transcript G → Except VerifierError Scalar) (input : Bytes) : Prop :=
  ∃ x, first.derive input = .ok x ∧ query closing.next.transcript = .ok x
    ∧ (Undrawn first.manifest (k + 1) (first.afterCalls calls).completed challenge →
      query (first.afterCalls calls).transcript = .ok x)

variable (h : first.Tracks manifest hash challengeBytes) (hwidth : challengeBytes ≤ Scalar.size)
include closing h hwidth

/-- A label no later round draws keeps the answer of the closing that drew it. -/
theorem kept (hlabel : Undrawn first.manifest (k + 1) (first.afterCalls calls).completed label) :
    (first.afterCalls calls).challenges.find? label = closing.next.challenges.find? label
      ∧ (first.afterCalls calls).mapDigests.find? label = closing.next.mapDigests.find? label := by
  obtain ⟨round, -, hclosed⟩ := closing.exists_closed h hwidth
  have hcompleted : closing.next.completed = k + 1 :=
    hclosed.completed.trans (congrArg (· + 1) closing.completed_eq)
  rw [closing.afterCalls_eq, h.manifest_eq] at hlabel
  rw [closing.afterCalls_eq]
  exact (closing.tracks_next h hwidth).kept_afterCalls hwidth closing.later (hcompleted ▸ hlabel)

variable (hround : manifest.rounds[k]? = some round)
include hround

/-- A label of a round that is no map answers from the digest and its own position. -/
theorem exists_answers_challenge (hmap : round.isMap = false) (hlabel : label ∈ round.challenges) :
    ∃ i, round.challenges[i]? = some label
      ∧ closing.Answers label (·.challenge label) (positionInput closing.next.digest i) := by
  obtain ⟨round', hround', hclosed⟩ := closing.exists_closed h hwidth
  obtain rfl := Option.some.inj (hround'.symm.trans hround)
  obtain ⟨i, x, hi, hx, hfind⟩ := exists_position (closing.closeRound_eq h hwidth) hclosed hmap hlabel
  rw [h.derive_eq (closing.tracks h hwidth)] at hx
  exact ⟨i, hi, x, hx, challenge_eq_ok.mpr hfind, fun hundrawn =>
    challenge_eq_ok.mpr ((closing.kept h hwidth hundrawn).1.trans hfind)⟩

/-- A label that stands in the round once is cut from its position. -/
theorem answers_challenge (hmap : round.isMap = false) (hnodup : round.challenges.Nodup) {i : ℕ}
    (hi : round.challenges[i]? = some label) :
    closing.Answers label (·.challenge label) (positionInput closing.next.digest i) := by
  obtain ⟨j, hj, hanswers⟩ :=
    closing.exists_answers_challenge h hwidth hround hmap (List.mem_of_getElem? hi)
  exact position_eq hnodup hj hi.symm ▸ hanswers

/-- A label of a map round answers each member from the digest and the member's name. -/
theorem answers_member (hmap : round.isMap = true) (hlabel : label ∈ round.challenges) (member : String) :
    closing.Answers label (·.mapMember label member) (memberInput closing.next.digest member) := by
  obtain ⟨round', hround', hclosed⟩ := closing.exists_closed h hwidth
  obtain rfl := Option.some.inj (hround'.symm.trans hround)
  have hfind := find?_mapDigests (closing.closeRound_eq h hwidth) hclosed hmap hlabel
  obtain ⟨x, hx⟩ := first.exists_derive (h.challengeBytes_eq ▸ hwidth) (memberInput closing.next.digest member)
  refine ⟨x, hx, mapMember_eq_ok.mpr ⟨_, hfind, ?_⟩, fun hundrawn =>
    mapMember_eq_ok.mpr ⟨_, (closing.kept h hwidth hundrawn).2.trans hfind, ?_⟩⟩
  · rw [h.derive_eq (closing.tracks_next h hwidth)]
    exact hx
  · rw [h.derive_eq (h.afterCalls hwidth calls)]
    exact hx

end Closing

/-- **Challenges of a round are cut from inputs of their own**, as far as a byte tells their positions apart.  Whatever
calls are made, reading a proof among them, each closed round was closed by one call and left a digest.  A challenge
answers what is cut from the digest and one of its positions, until a later round draws it again; positions that differ
modulo 256 have different inputs, so that different challenges of a round of up to 256 have them.  A member of a map
challenge answers what is cut from the digest and the member, whichever challenge of the round is named, and different
members have different inputs. -/
theorem challenge_inputs {first : Session} (hstart : start manifest hash challengeBytes = .ok first)
    (calls : List (Call G)) :
    (∀ bytes session, replay bytes manifest hash challengeBytes = .ok session →
      ∃ calls : List (Call G), first.afterCalls calls = session)
    ∧ (∀ k < (first.afterCalls calls).completed, Nonempty (Closing first calls k))
    ∧ ∀ (k : ℕ) (closing : Closing first calls k), ∃ round, manifest.rounds[k]? = some round
      ∧ closing.next.digest = hash.digest (closing.session.digest ++ closing.session.sentBytes round)
      ∧ (round.isMap = false → ∃ position : String → ℕ,
        (∀ label ∈ round.challenges, round.challenges[position label]? = some label
          ∧ closing.Answers label (·.challenge label) (positionInput closing.next.digest (position label)))
        ∧ (∀ i j, i % 256 ≠ j % 256 → positionInput closing.next.digest i ≠ positionInput closing.next.digest j)
        ∧ (round.challenges.length ≤ 256 → ∀ label ∈ round.challenges, ∀ label' ∈ round.challenges, label ≠ label' →
          positionInput closing.next.digest (position label) ≠ positionInput closing.next.digest (position label')))
      ∧ (round.isMap = true → ∀ member,
        (∀ label ∈ round.challenges,
          closing.Answers label (·.mapMember label member) (memberInput closing.next.digest member))
        ∧ ∀ member', member ≠ member' →
          memberInput closing.next.digest member ≠ memberInput closing.next.digest member') := by
  have hwidth := (start_eq_ok.mp hstart).1.le_size
  have htracks := tracks_start hstart
  refine ⟨fun bytes session h => (After.of_replay h).exists_afterCalls G hstart, fun k => exists_closing hstart,
    fun k closing => ?_⟩
  obtain ⟨round, hround, -⟩ := closing.exists_closed htracks hwidth
  refine ⟨round, hround, closing.digest_eq htracks hwidth hround, fun hmap => ?_, fun hmap member =>
    ⟨fun label hlabel => closing.answers_member htracks hwidth hround hmap hlabel member,
      fun member' => memberInput_inj.not.mpr⟩⟩
  have hanswers : ∀ label ∈ round.challenges, ∃ i, round.challenges[i]? = some label
      ∧ closing.Answers label (·.challenge label) (positionInput closing.next.digest i) :=
    fun label => closing.exists_answers_challenge htracks hwidth hround hmap
  choose! position hposition using hanswers
  refine ⟨position, hposition, fun i j => positionInput_inj.not.mpr, fun hlength label hlabel label' hlabel' hne => ?_⟩
  exact positionInput_ne hlength (hposition label hlabel).1 (hposition label' hlabel').1 hne _

/-- One round by position and one map round, all four hash inputs different. -/
theorem challenge_inputs_twoRounds :
    ∃ (first : Session) (calls : List (Call Point)) (closing : Closing first calls 0)
      (closing' : Closing first calls 1),
      start .twoRounds .keccak256 16 = .ok first ∧ (first.afterCalls calls).completed = 2
      ∧ closing.Answers "beta" (·.challenge "beta") (positionInput closing.next.digest 0)
      ∧ closing.Answers "gamma" (·.challenge "gamma") (positionInput closing.next.digest 1)
      ∧ positionInput closing.next.digest 0 ≠ positionInput closing.next.digest 1
      ∧ closing'.Answers "nu" (·.mapMember "nu" "w") (memberInput closing'.next.digest "w")
      ∧ closing'.Answers "nu" (·.mapMember "nu" "W") (memberInput closing'.next.digest "W")
      ∧ memberInput closing'.next.digest "w" ≠ memberInput closing'.next.digest "W" := by
  let first : Session := ⟨.twoRounds, .keccak256, 16, .empty, .empty, .empty, 0, []⟩
  let calls : List (Call Point) := [.record (.scalar "W" 0), .close "beta", .record (.scalar "w" 7), .close "nu"]
  have hstart : start .twoRounds .keccak256 16 = .ok first :=
    start_eq_ok.mpr ⟨⟨by decide, by decide, by decide⟩, rfl⟩
  have hcompleted : (first.afterCalls calls).completed = 2 := by decide +kernel
  obtain ⟨-, hexists, hinputs⟩ := challenge_inputs hstart calls
  rw [hcompleted] at hexists
  obtain ⟨closing⟩ := hexists 0 (by decide)
  obtain ⟨closing'⟩ := hexists 1 (by decide)
  obtain ⟨round, hround, -, hplain, -⟩ := hinputs 0 closing
  obtain rfl : (⟨[.sent "W" 32, ⟨"n", 32, true⟩], ["beta", "gamma"], false⟩ : ManifestRound) = round :=
    Option.some.inj hround
  obtain ⟨round', hround', -, -, hmap⟩ := hinputs 1 closing'
  obtain rfl : (⟨[.sent "w" 32], ["nu"], true⟩ : ManifestRound) = round' := Option.some.inj hround'
  obtain ⟨position, hposition, hne, -⟩ := hplain rfl
  obtain ⟨hzero, hbeta⟩ := hposition "beta" (.head _)
  obtain ⟨hone, hgamma⟩ := hposition "gamma" (.tail _ (.head _))
  rw [position_eq (by decide) hzero (rfl : _ = ["beta", "gamma"][0]?)] at hbeta
  rw [position_eq (by decide) hone (rfl : _ = ["beta", "gamma"][1]?)] at hgamma
  obtain ⟨hmember, hmembers⟩ := hmap rfl "w"
  exact ⟨first, calls, closing, closing', hstart, hcompleted, hbeta, hgamma, hne 0 1 (by decide),
    hmember "nu" (.head _), (hmap rfl "W").1 "nu" (.head _), hmembers "W" (by decide)⟩

/-- One label more than a byte has values. -/
def wideLabels : List String := (List.range 257).map fun i => "c" ++ i.repr

/-- A round that draws these challenges, and a round with two map challenges. -/
def wideRounds : Manifest where
  rounds := [⟨[], wideLabels, false⟩, ⟨[], ["a", "b"], true⟩]

/-- Two challenges of a round are cut from one input, and so are the members of two map challenges. -/
theorem shared_inputs :
    ∃ (first : Session) (calls : List (Call Point)) (closing : Closing first calls 0)
      (closing' : Closing first calls 1),
      start wideRounds .keccak256 32 = .ok first ∧ calls = [.close "c0", .close "a"]
      ∧ closing.Answers "c0" (·.challenge "c0") (positionInput closing.next.digest 0)
      ∧ closing.Answers "c256" (·.challenge "c256") (positionInput closing.next.digest 256)
      ∧ positionInput closing.next.digest 0 = positionInput closing.next.digest 256
      ∧ ∀ member, closing'.Answers "a" (·.mapMember "a" member) (memberInput closing'.next.digest member)
        ∧ closing'.Answers "b" (·.mapMember "b" member) (memberInput closing'.next.digest member) := by
  let first : Session := ⟨wideRounds, .keccak256, 32, .empty, .empty, .empty, 0, []⟩
  have hstart : start wideRounds .keccak256 32 = .ok first :=
    start_eq_ok.mpr ⟨⟨by decide, by decide, by decide⟩, rfl⟩
  have htracks := tracks_start hstart
  have hwidth : 32 ≤ Scalar.size := by decide
  -- neither round has a message that could be missing
  have hplain : wideRounds.rounds[0]? = some ⟨[], wideLabels, false⟩ := rfl
  have hrecorded : first.Recorded ⟨[], wideLabels, false⟩ := fun _ h => nomatch h
  have hdraws : wideLabels[0]? = some "c0" := by decide +kernel
  obtain ⟨second, hsecond, hclosed⟩ :=
    hrecorded.exists_closeInPlace hwidth hplain (List.head?_eq_getElem?.trans hdraws)
  have hmap : wideRounds.rounds[1]? = some ⟨[], ["a", "b"], true⟩ := rfl
  have hcurrent : second.manifest.rounds[second.completed]? = some ⟨[], ["a", "b"], true⟩ := by
    rw [hclosed.manifest, hclosed.completed, hmap]
  have hrecorded' : second.Recorded ⟨[], ["a", "b"], true⟩ := fun _ h => nomatch h
  obtain ⟨last, hlast, -⟩ := hrecorded'.exists_closeInPlace (hclosed.challengeBytes.trans_le hwidth) hcurrent rfl
  have hafter : first.afterCalls (G := Point) [.close "c0"] = second := by rw [afterCalls_close, hsecond]
  let closing : Closing (G := Point) first [.close "c0", .close "a"] 0 :=
    ⟨[], "c0", [.close "a"], rfl, rfl, congrArg Prod.snd hsecond⟩
  let closing' : Closing (G := Point) first [.close "c0", .close "a"] 1 :=
    ⟨[.close "c0"], "a", [], rfl, by rw [hafter, hclosed.completed], by rw [hafter, hlast]⟩
  have hnodup : wideLabels.Nodup :=
    List.nodup_range.map fun i j h => Nat.repr_inj.mp ((String.append_right_inj "c").mp h)
  exact ⟨first, _, closing, closing', hstart, rfl,
    closing.answers_challenge htracks hwidth hplain rfl hnodup hdraws,
    closing.answers_challenge htracks hwidth hplain rfl hnodup (by decide +kernel),
    positionInput_inj.mpr rfl, fun member =>
      ⟨closing'.answers_member htracks hwidth hmap rfl (.head _) member,
        closing'.answers_member htracks hwidth hmap rfl (.tail _ (.head _)) member⟩⟩

end Session

end PlonkVerifier
