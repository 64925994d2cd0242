import Mathlib
import PlonkVerifier.Bytes.Lemmas
import PlonkVerifier.Proofs.ProverRun

/-!
# Proofs/Calls — a session under any calls

A caller records messages and closes rounds in any order, and goes on after a call that failed.  Closing a round in
place inserts one challenge after the other before it counts the round, so that a failure in between would leave some
of them behind (`insertInPlace`).  At a width that a session starts with no challenge fails, and closing in place
either closes the whole round or changes nothing (`closeInPlace_eq`).

    start ──call──▸ Tracks ──call──▸ Tracks ──▸ …        (Tracks.call)

Hence every session has the challenges of its closed rounds and no others, and keeps them (`called_tracks`).
-/

namespace PlonkVerifier

namespace Session

variable {manifest : Manifest} {hash : ChallengeHash} {challengeBytes : ℕ} {session session' : Session}
  {round : ManifestRound} {challenge label : String}

/-! ## Closing in place -/

/-- Inserts challenges drawn from a digest one after the other.  What was inserted before a failure stays. -/
def insertInPlace (digest : Bytes) : List (String × ℕ) → Session → Session × Except VerifierError Unit
  | [], session => (session, .ok ())
  | (label, i) :: labels, session =>
    match session.derive (digest ++ [UInt8.ofNat i]) with
    | .ok x => insertInPlace digest labels { session with challenges := session.challenges.insert label x }
    | .error e => (session, .error e)

/-- Makes the challenges of a round available, in place. -/
def drawInPlace (session : Session) (round : ManifestRound) (digest : Bytes) : Session × Except VerifierError Unit :=
  if round.isMap then
    (round.challenges.foldl (fun s label => { s with mapDigests := s.mapDigests.insert label digest }) session, .ok ())
  else insertInPlace digest round.challenges.zipIdx session

/-- Closes the current round in place: the session as it is left, and whether the round was closed. -/
def closeInPlace (session : Session) (challenge : String) : Session × Except VerifierError Unit :=
  match session.manifest.rounds[session.completed]? with
  | none => (session, .error SessionFault.complete.error)
  | some round =>
    if round.challenges.head? ≠ some challenge then
      (session, .error (SessionFault.notDerived session.completed challenge).error)
    else
      match session.roundInput round with
      | .error e => (session, .error e)
      | .ok input =>
        let digest := session.hash.digest input
        match session.drawInPlace round digest with
        | (drawn, .error e) => (drawn, .error e)
        | (drawn, .ok ()) => ({ drawn with completed := drawn.completed + 1, digest }, .ok ())

/-- Drawing by position in place is the fold that returns the new session. -/
theorem insertInPlace_eq {digest : Bytes} {labels : List (String × ℕ)} {challenges : LabelMap Scalar}
    (h : labels.foldlM (fun m x => return m.insert x.1 (← session.derive (digest ++ [UInt8.ofNat x.2])))
      session.challenges = .ok challenges) :
    insertInPlace digest labels session = ({ session with challenges }, .ok ()) := by
  induction labels generalizing session with
  | nil =>
    obtain rfl := pure_eq_ok.mp h
    rfl
  | cons entry labels ih =>
    rw [List.foldlM_cons] at h
    obtain ⟨m, hm, h⟩ := bind_eq_ok.mp h
    obtain ⟨x, hx, hm⟩ := bind_eq_ok.mp hm
    obtain rfl := pure_eq_ok.mp hm
    rw [insertInPlace, hx]
    exact ih h

theorem foldl_insert_mapDigests (labels : List String) (digest : Bytes) (session : Session) :
    labels.foldl (fun s label => { s with mapDigests := s.mapDigests.insert label digest }) session
      = { session with mapDigests := labels.foldl (fun m label => m.insert label digest) session.mapDigests } := by
  induction labels generalizing session with
  | nil => rfl
  | cons label labels ih => rw [List.foldl_cons, ih, List.foldl_cons]

/-- When every draw succeeds, drawing in place leaves the session the functional draw returns. -/
theorem drawInPlace_eq {digest : Bytes} {drawn : Session} (h : session.drawChallenges round digest = .ok drawn) :
    session.drawInPlace round digest = (drawn, .ok ()) := by
  rw [drawChallenges] at h
  rw [drawInPlace]
  cases hmap : round.isMap with
  | true =>
    rw [hmap, if_pos rfl] at h
    rw [if_pos rfl, foldl_insert_mapDigests, Except.ok.inj h]
  | false =>
    rw [hmap, if_neg Bool.false_ne_true] at h
    obtain ⟨challenges, hchallenges, h⟩ := bind_eq_ok.mp h
    rw [if_neg Bool.false_ne_true, insertInPlace_eq hchallenges, pure_eq_ok.mp h]

/-- **Closing in place closes the round or changes nothing**, at a width that fits into a scalar. -/
theorem closeInPlace_eq (hwidth : session.challengeBytes ≤ Scalar.size) (challenge : String) :
    session.closeInPlace challenge = match session.closeRound challenge with
      | .ok next => (next, .ok ())
      | .error e => (session, .error e) := by
  cases hclose : session.closeRound challenge with
  | ok next =>
    obtain ⟨round, input, drawn, hround, hdraws, hinput, hdrawn, rfl⟩ := closeRound_eq_ok.mp hclose
    rw [closeInPlace, hround]
    simp only [hdraws, ne_eq, not_true_eq_false, if_false, hinput, drawInPlace_eq hdrawn]
  | error e =>
    rw [closeInPlace]
    cases hround : session.manifest.rounds[session.completed]? with
    | none =>
      rw [closeRound, hround] at hclose
      rw [Except.error.inj hclose]
    | some round =>
      by_cases hdraws : round.challenges.head? = some challenge
      · cases hinput : session.roundInput round with
        | error e' =>
          rw [closeRound, hround] at hclose
          simp only [hdraws, ne_eq, not_true_eq_false, if_false, hinput] at hclose ⊢
          rw [Except.error.inj hclose]
        | ok input =>
          -- the challenges can be drawn, so that the round would be closed
          obtain ⟨challenges, mapDigests, hdrawn, -⟩ :=
            session.exists_drawChallenges hwidth round (session.hash.digest input)
          have hok := closeRound_eq_ok.mpr ⟨round, input, _, hround, hdraws, hinput, hdrawn, rfl⟩
          cases hok.symm.trans hclose
      · rw [closeRound, hround] at hclose
        simp only [hdraws, ne_eq, not_false_eq_true, if_true] at hclose ⊢
        rw [Except.error.inj hclose]

/-! ## Challenges are short -/

/-- A derived challenge is below `256` to the number of bytes kept. -/
theorem derive_lt {input : Bytes} {x : Scalar} (h : session.derive input = .ok x) :
    x.val < 256 ^ session.challengeBytes := by
  have hread := liftAlgebra_eq_ok.mp h
  rw [Scalar.ofBytes] at hread
  split at hread
  · obtain rfl := Except.ok.inj hread
    calc (Scalar.ofNat (Bytes.toNat ((session.hash.digest input).take session.challengeBytes))).val
        ≤ Bytes.toNat ((session.hash.digest input).take session.challengeBytes) := Nat.mod_le _ _
      _ < 256 ^ ((session.hash.digest input).take session.challengeBytes).length := Bytes.toNat_lt _
      _ ≤ 256 ^ session.challengeBytes := Nat.pow_le_pow_right (by decide) (List.length_take_le _ _)
  · cases hread

/-- **A challenge is an old one or derived.** -/
theorem find?_of_closeRound {x : Scalar} (h : session.closeRound challenge = .ok session')
    (hx : session'.challenges.find? label = some x) :
    session.challenges.find? label = some x ∨ ∃ input, session.derive input = .ok x := by
  obtain ⟨round, input, drawn, -, -, -, hdrawn, rfl⟩ := closeRound_eq_ok.mp h
  obtain ⟨challenges, mapDigests, rfl, -, hderived⟩ := drawChallenges_eq_ok hdrawn
  exact hderived label x hx

end Session

/-! ## Calls -/

/-- A call that changes a session. -/
inductive Call (G : Type) where
  | record (message : Message G)
  | close (challenge : String)

namespace Session

variable {G : Type} [CommitmentGroup G] {manifest : Manifest} {hash : ChallengeHash} {challengeBytes : ℕ}
  {session session' : Session} {round : ManifestRound} {challenge label : String}

/-- The session as a call leaves it, and whether the call succeeded. -/
def call (session : Session) : Call G → Session × Except VerifierError Unit
  | .record message => (message.recordIn session, .ok ())
  | .close challenge => session.closeInPlace challenge

/-- The session after calls, each made whether or not the one before it succeeded. -/
def afterCalls (session : Session) (calls : List (Call G)) : Session :=
  calls.foldl (fun s call => (s.call call).1) session

/-- The sessions that calls lead to. -/
def Called (G : Type) [CommitmentGroup G] (manifest : Manifest) (hash : ChallengeHash) (challengeBytes : ℕ)
    (session : Session) : Prop :=
  ∃ first, start manifest hash challengeBytes = .ok first ∧ ∃ calls : List (Call G), first.afterCalls calls = session

/-- A session follows its manifest and has the challenges of the closed rounds, none of them too long. -/
structure Tracks (manifest : Manifest) (hash : ChallengeHash) (challengeBytes : ℕ) (session : Session) : Prop where
  manifest_eq : session.manifest = manifest
  hash_eq : session.hash = hash
  challengeBytes_eq : session.challengeBytes = challengeBytes
  completed_le : session.completed ≤ manifest.rounds.length
  challenges : ∀ l, l ∈ session.challenges.labels ↔ ∃ round ∈ session.closed, round.isMap = false ∧ l ∈ round.challenges
  mapDigests : ∀ l, l ∈ session.mapDigests.labels ↔ ∃ round ∈ session.closed, round.isMap = true ∧ l ∈ round.challenges
  lt : ∀ l x, session.challenges.find? l = some x → x.val < 256 ^ challengeBytes

/-- A fresh session is on track, with nothing closed yet. -/
theorem tracks_start (h : start manifest hash challengeBytes = .ok session) :
    session.Tracks manifest hash challengeBytes := by
  obtain ⟨-, rfl⟩ := start_eq_ok.mp h
  exact ⟨rfl, rfl, rfl, Nat.zero_le _, by simp [LabelMap.labels, LabelMap.empty, closed],
    by simp [LabelMap.labels, LabelMap.empty, closed], fun l x hx => nomatch hx⟩

theorem Tracks.record (h : session.Tracks manifest hash challengeBytes) (message : Message G) :
    (message.recordIn session).Tracks manifest hash challengeBytes := by
  obtain ⟨content, hrecord⟩ := message.exists_recordIn_eq session
  rw [hrecord]
  exact ⟨h.manifest_eq, h.hash_eq, h.challengeBytes_eq, h.completed_le, h.challenges, h.mapDigests, h.lt⟩

/-- **A round that is closed adds its own challenges.** -/
theorem Tracks.close (h : session.Tracks manifest hash challengeBytes) (hwidth : challengeBytes ≤ Scalar.size)
    (hclose : session.closeRound challenge = .ok session') : session'.Tracks manifest hash challengeBytes := by
  obtain ⟨round, hclosed⟩ := exists_closed hclose
  obtain ⟨challenges, mapDigests, digest, hclose', hdrawn⟩ :=
    session.exists_closeRound (h.challengeBytes_eq ▸ hwidth) hclosed.current hclosed.draws hclosed.recorded
  obtain rfl := Except.ok.inj (hclose'.symm.trans hclose)
  have hlt := (List.getElem?_eq_some_iff.mp hclosed.current).1
  refine ⟨h.manifest_eq, h.hash_eq, h.challengeBytes_eq, h.manifest_eq ▸ hlt, fun l => ?_, fun l => ?_,
    fun l x hx => ?_⟩
  · rw [hclosed.closed_eq, exists_mem_concat, hdrawn.challenges, h.challenges]
  · rw [hclosed.closed_eq, exists_mem_concat, hdrawn.mapDigests, h.mapDigests]
  · rcases find?_of_closeRound hclose hx with hx | ⟨input, hx⟩
    · exact h.lt l x hx
    · exact h.challengeBytes_eq ▸ derive_lt hx

/-- **Every call keeps track**, successful or not. -/
theorem Tracks.call (h : session.Tracks manifest hash challengeBytes) (hwidth : challengeBytes ≤ Scalar.size)
    (call : Call G) : (session.call call).1.Tracks manifest hash challengeBytes := by
  cases call with
  | record message => exact h.record message
  | close challenge =>
    change (session.closeInPlace challenge).1.Tracks manifest hash challengeBytes
    rw [closeInPlace_eq (h.challengeBytes_eq ▸ hwidth)]
    cases hclose : session.closeRound challenge with
    | ok next => exact h.close hwidth hclose
    | error e => exact h

/-- **Every sequence of calls keeps a session on track**, calls that fail included. -/
theorem Tracks.afterCalls (h : session.Tracks manifest hash challengeBytes) (hwidth : challengeBytes ≤ Scalar.size)
    (calls : List (Call G)) : (session.afterCalls calls).Tracks manifest hash challengeBytes := by
  induction calls generalizing session with
  | nil => exact h
  | cons call calls ih => exact ih (h.call hwidth call)

/-- Every session reachable by calls is on track and of a supported width. -/
theorem Called.tracks (h : session.Called G manifest hash challengeBytes) :
    SupportedWidth hash challengeBytes ∧ session.Tracks manifest hash challengeBytes := by
  obtain ⟨first, hstart, calls, rfl⟩ := h
  have hwidth := (start_eq_ok.mp hstart).1
  exact ⟨hwidth, (tracks_start hstart).afterCalls hwidth.le_size calls⟩

/-! ## Challenges are kept -/

/-- **Distinct challenges are drawn by one round only.** -/
theorem notMem_challenges (hnodup : (session.manifest.rounds.flatMap (·.challenges)).Nodup)
    (hround : session.manifest.rounds[session.completed]? = some round)
    (hlabel : ∃ r ∈ session.closed, label ∈ r.challenges) : label ∉ round.challenges := by
  obtain ⟨r, hr, hlabel⟩ := hlabel
  rw [← List.take_append_drop session.completed session.manifest.rounds, List.flatMap_append, List.nodup_append']
    at hnodup
  have hopen : round ∈ session.manifest.rounds.drop session.completed :=
    List.mem_of_getElem? (i := 0) (by rw [List.getElem?_drop, Nat.add_zero, hround])
  exact fun hmem => hnodup.2.2 (List.mem_flatMap.mpr ⟨r, hr, hlabel⟩) (List.mem_flatMap.mpr ⟨round, hopen, hmem⟩)

/-- The later session has what the earlier one had drawn under a label. -/
structure KeepsLabel (label : String) (session session' : Session) : Prop where
  challenge : session'.challenges.find? label = session.challenges.find? label
  mapDigest : session'.mapDigests.find? label = session.mapDigests.find? label
  closed : ∃ round ∈ session'.closed, label ∈ round.challenges

/-- **No call changes a challenge that is drawn.** -/
theorem Tracks.keepsLabel_call (h : session.Tracks manifest hash challengeBytes)
    (hwidth : challengeBytes ≤ Scalar.size) (hnodup : (manifest.rounds.flatMap (·.challenges)).Nodup)
    (hlabel : ∃ round ∈ session.closed, label ∈ round.challenges) (call : Call G) :
    KeepsLabel label session (session.call call).1 := by
  cases call with
  | record message =>
    obtain ⟨content, hrecord⟩ := message.exists_recordIn_eq session
    change KeepsLabel label session (message.recordIn session)
    rw [hrecord]
    exact ⟨rfl, rfl, hlabel⟩
  | close challenge =>
    change KeepsLabel label session (session.closeInPlace challenge).1
    rw [closeInPlace_eq (h.challengeBytes_eq ▸ hwidth)]
    cases hclose : session.closeRound challenge with
    | error e => exact ⟨rfl, rfl, hlabel⟩
    | ok next =>
      obtain ⟨round, hclosed⟩ := exists_closed hclose
      obtain ⟨hchallenge, hmap⟩ :=
        hclosed.kept label (notMem_challenges (h.manifest_eq ▸ hnodup) hclosed.current hlabel)
      refine ⟨hchallenge, hmap, ?_⟩
      obtain ⟨r, hr, hmem⟩ := hlabel
      exact ⟨r, hclosed.closed_eq ▸ List.mem_append_left _ hr, hmem⟩

/-- A drawn label keeps its answers through any later calls, labels being drawn once. -/
theorem Tracks.keepsLabel_afterCalls (h : session.Tracks manifest hash challengeBytes)
    (hwidth : challengeBytes ≤ Scalar.size) (hnodup : (manifest.rounds.flatMap (·.challenges)).Nodup)
    (hlabel : ∃ round ∈ session.closed, label ∈ round.challenges) (calls : List (Call G)) :
    KeepsLabel label session (session.afterCalls calls) := by
  induction calls generalizing session with
  | nil => exact ⟨rfl, rfl, hlabel⟩
  | cons call calls ih =>
    have hcall := h.keepsLabel_call hwidth hnodup hlabel call
    have hcalls := ih (h.call hwidth call) hcall.closed
    exact ⟨hcalls.challenge.trans hcall.challenge, hcalls.mapDigest.trans hcall.mapDigest, hcalls.closed⟩

/-- **A session tracks its manifest under any calls.**  It never closes more rounds than there are; it answers exactly
the challenges of the closed rounds, of each kind, and all of them fit into the challenge width.  Closing a round in
place changes nothing if it fails, and closes exactly the next round if it succeeds, as `closeRound` does.  If the
challenges of the manifest are distinct, an answer that was given once is given after all further calls. -/
theorem called_tracks (h : session.Called G manifest hash challengeBytes) :
    session.completed ≤ manifest.rounds.length
    ∧ (∀ label, (∃ x, (session.transcript (G := G)).challenge label = .ok x) ↔
      ∃ round ∈ manifest.rounds.take session.completed, round.isMap = false ∧ label ∈ round.challenges)
    ∧ (∀ challenge member, (∃ x, (session.transcript (G := G)).mapMember challenge member = .ok x) ↔
      ∃ round ∈ manifest.rounds.take session.completed, round.isMap = true ∧ challenge ∈ round.challenges)
    ∧ (∀ label x, (session.transcript (G := G)).challenge label = .ok x → x.val < 256 ^ challengeBytes)
    ∧ (∀ challenge member x, (session.transcript (G := G)).mapMember challenge member = .ok x →
      x.val < 256 ^ challengeBytes)
    ∧ (∀ challenge e, (session.closeInPlace challenge).2 = .error e →
      (session.closeInPlace challenge).1 = session ∧ session.closeRound challenge = .error e)
    ∧ (∀ challenge, (session.closeInPlace challenge).2 = .ok () →
      session.closeRound challenge = .ok (session.closeInPlace challenge).1
      ∧ ∃ round, session.Closed round challenge (session.closeInPlace challenge).1)
    ∧ ((manifest.rounds.flatMap (·.challenges)).Nodup → ∀ later : List (Call G),
      (∀ label x, (session.transcript (G := G)).challenge label = .ok x →
        ((session.afterCalls later).transcript (G := G)).challenge label = .ok x)
      ∧ ∀ challenge member x, (session.transcript (G := G)).mapMember challenge member = .ok x →
        ((session.afterCalls later).transcript (G := G)).mapMember challenge member = .ok x) := by
  obtain ⟨hwidth, htracks⟩ := h.tracks
  have hsize : session.challengeBytes ≤ Scalar.size := htracks.challengeBytes_eq ▸ hwidth.le_size
  have hclosed : session.closed = manifest.rounds.take session.completed := by rw [closed, htracks.manifest_eq]
  refine ⟨htracks.completed_le, fun label => ?_, fun challenge member => ?_, fun label x hx => ?_,
    fun challenge member x hx => ?_, fun challenge e he => ?_, fun challenge hok => ?_,
    fun hnodup later => ⟨fun label x hx => ?_, fun challenge member x hx => ?_⟩⟩
  · rw [exists_challenge_iff, htracks.challenges, hclosed]
  · rw [exists_mapMember_iff hsize, htracks.mapDigests, hclosed]
  · exact htracks.lt label x (challenge_eq_ok.mp hx)
  · obtain ⟨digest, -, hderive⟩ := mapMember_eq_ok.mp hx
    exact htracks.challengeBytes_eq ▸ derive_lt hderive
  · rw [closeInPlace_eq hsize] at he ⊢
    cases hclose : session.closeRound challenge with
    | ok next => rw [hclose] at he; cases he
    | error e' => rw [hclose] at he; exact ⟨rfl, congrArg _ (Except.error.inj he)⟩
  · rw [closeInPlace_eq hsize] at hok ⊢
    cases hclose : session.closeRound challenge with
    | ok next => exact ⟨rfl, exists_closed hclose⟩
    | error e => rw [hclose] at hok; cases hok
  · have hfind := challenge_eq_ok.mp hx
    obtain ⟨round, hround, -, hlabel⟩ := (htracks.challenges label).mp (LabelMap.mem_labels_iff.mpr ⟨x, hfind⟩)
    have hkeeps := htracks.keepsLabel_afterCalls hwidth.le_size hnodup ⟨round, hround, hlabel⟩ later
    exact challenge_eq_ok.mpr (hkeeps.challenge.trans hfind)
  · obtain ⟨digest, hfind, hderive⟩ := mapMember_eq_ok.mp hx
    obtain ⟨round, hround, -, hlabel⟩ :=
      (htracks.mapDigests challenge).mp (LabelMap.mem_labels_iff.mpr ⟨digest, hfind⟩)
    have hkeeps := htracks.keepsLabel_afterCalls hwidth.le_size hnodup ⟨round, hround, hlabel⟩ later
    have hlater := htracks.afterCalls hwidth.le_size later
    refine mapMember_eq_ok.mpr ⟨digest, hkeeps.mapDigest.trans hfind, ?_⟩
    rw [derive, hlater.hash_eq, hlater.challengeBytes_eq, ← htracks.hash_eq, ← htracks.challengeBytes_eq]
    exact hderive

/-- Calls out of order, of the wrong size and repeated, over a manifest of two rounds. -/
theorem called_tracks_twoRounds :
    ∃ first session : Session, start .twoRounds .keccak256 16 = .ok first
      -- out of order, then of the wrong size, then closed and recorded over
      ∧ first.afterCalls (G := Point) [.close "nu", .record (.bytes "W" []), .close "beta",
        .record (.bytes "W" (List.replicate 32 0)), .close "beta", .record (.bytes "W" [])] = session
      ∧ session.completed = 1
      ∧ (session.closeInPlace "beta").2 = .error (SessionFault.notDerived 1 "beta").error
      ∧ (session.closeInPlace "beta").1 = session
      ∧ (∀ member x, (session.transcript (G := Point)).mapMember "nu" member ≠ .ok x)
      ∧ ∃ x, (session.transcript (G := Point)).challenge "gamma" = .ok x ∧ x.val < 256 ^ 16
        ∧ ∀ later : List (Call Point),
          ((session.afterCalls later).transcript (G := Point)).challenge "gamma" = .ok x := by
  let first : Session := ⟨.twoRounds, .keccak256, 16, .empty, .empty, .empty, 0, []⟩
  let calls : List (Call Point) := [.close "nu", .record (.bytes "W" []), .close "beta",
    .record (.bytes "W" (List.replicate 32 0)), .close "beta", .record (.bytes "W" [])]
  have hstart : start .twoRounds .keccak256 16 = .ok first :=
    start_eq_ok.mpr ⟨⟨by decide, by decide, by decide⟩, rfl⟩
  have hcalled : (first.afterCalls calls).Called Point .twoRounds .keccak256 16 := ⟨first, hstart, calls, rfl⟩
  have hcompleted : (first.afterCalls calls).completed = 1 := by decide +kernel
  have hfails : ((first.afterCalls calls).closeInPlace "beta").2
      = .error (SessionFault.notDerived 1 "beta").error := by decide +kernel
  obtain ⟨-, hchallenge, hmap, hlt, -, hunchanged, -, hkept⟩ := called_tracks hcalled
  rw [hcompleted] at hchallenge hmap
  obtain ⟨x, hx⟩ := (hchallenge "gamma").mpr ⟨_, .head _, by decide⟩
  refine ⟨first, first.afterCalls calls, hstart, rfl, hcompleted, hfails, (hunchanged "beta" _ hfails).1,
    fun member x hx => ?_, x, hx, hlt "gamma" x hx, fun later => (hkept (by decide) later).1 "gamma" x hx⟩
  obtain ⟨round, hround, hisMap, -⟩ := (hmap "nu" member).mp ⟨x, hx⟩
  obtain rfl := List.mem_singleton.mp hround
  cases hisMap

end Session

end PlonkVerifier
