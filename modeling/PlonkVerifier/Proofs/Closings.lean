import Mathlib
import PlonkVerifier.Proofs.Calls

/-!
# Proofs/Closings — what a closed round absorbed

A call records a message, closes the current round or changes nothing (`Step`).  Every closed round was therefore closed
by one of the calls (`exists_closing`), which splits them:

    first ──before──▸ session ──close──▸ next ──later──▸ afterCalls

The round was hashed as it was recorded in `session`.  Closed rounds are not frozen, though: recorded messages are kept
by name, and a name answers what was recorded under it last (`Tracks.find?_afterCalls`).  A session that never records
a message of a closed round again answers and exports what was hashed, under any other calls (`answers_hashed`); one
that does so answers the later message under the challenges of the earlier (`answers_unhashed`).
-/

namespace PlonkVerifier

variable {G : Type} [CommitmentGroup G]

/-- The bytes that a message is recorded as. -/
def Message.content : Message G → Bytes
  | bytes _ content => content
  | scalar _ x => x.encode
  | vector _ xs => xs.flatMap Scalar.encode
  | commitment _ P => ByteCodec.encode P

theorem Message.recordIn_eq (session : Session) (message : Message G) :
    message.recordIn session = session.record message.name message.content := by
  cases message <;> rfl

namespace Session

variable {manifest : Manifest} {hash : ChallengeHash} {challengeBytes k : ℕ} {name : String} {calls : List (Call G)}

/-! ## Calls, one by one -/

section

variable {session next : Session}

/-- What a call does. -/
inductive Step (session : Session) : Call G → Session → Prop
  | record (message : Message G) : Step session (.record message) (session.record message.name message.content)
  | refused (challenge : String) {e : VerifierError} (hclose : session.closeRound challenge = .error e) :
    Step session (.close challenge) session
  | closed (challenge : String) {next : Session} (hsucceeds : (session.closeInPlace challenge).2 = .ok ())
    (hclose : session.closeRound challenge = .ok next) : Step session (.close challenge) next

/-- **One call is one step**, whether it succeeds or fails. -/
theorem step_call (hwidth : session.challengeBytes ≤ Scalar.size) (call : Call G) :
    session.Step call (session.call call).1 := by
  cases call with
  | record message =>
    change session.Step _ (message.recordIn session)
    rw [message.recordIn_eq]
    exact .record message
  | close challenge =>
    have heq := closeInPlace_eq hwidth challenge
    change session.Step _ (session.closeInPlace challenge).1
    cases hclose : session.closeRound challenge with
    | ok next =>
      rw [hclose] at heq
      rw [heq]
      exact .closed challenge (by rw [heq]) hclose
    | error e =>
      rw [hclose] at heq
      rw [heq]
      exact .refused challenge hclose

/-- No step undoes a completed round. -/
theorem Step.completed_le {call : Call G} (h : session.Step call next) : session.completed ≤ next.completed := by
  cases h with
  | record message => exact le_rfl
  | refused challenge _ => exact le_rfl
  | closed challenge _ hclose =>
    obtain ⟨round, hclosed⟩ := exists_closed hclose
    exact hclosed.completed ▸ Nat.le_succ _

theorem afterCalls_close (session : Session) (challenge : String) :
    session.afterCalls [(.close challenge : Call G)] = (session.closeInPlace challenge).1 := rfl

theorem afterCalls_cons (session : Session) (call : Call G) (calls : List (Call G)) :
    session.afterCalls (call :: calls) = (session.call call).1.afterCalls calls := rfl

theorem afterCalls_append (session : Session) (calls later : List (Call G)) :
    session.afterCalls (calls ++ later) = (session.afterCalls calls).afterCalls later := List.foldl_append

theorem afterCalls_concat (session : Session) (calls : List (Call G)) (call : Call G) :
    session.afterCalls (calls ++ [call]) = ((session.afterCalls calls).call call).1 :=
  afterCalls_append session calls [call]

theorem Tracks.completed_le_afterCalls (h : session.Tracks manifest hash challengeBytes)
    (hwidth : challengeBytes ≤ Scalar.size) (calls : List (Call G)) :
    session.completed ≤ (session.afterCalls calls).completed := by
  induction calls generalizing session with
  | nil => exact le_rfl
  | cons call calls ih =>
    exact (step_call (h.challengeBytes_eq ▸ hwidth) call).completed_le.trans (ih (h.call hwidth call))

/-- Recording the slices of a byte string call by call is recording them at once. -/
theorem afterCalls_messages (entries : List ManifestEntry) (bytes : Bytes) (session : Session) :
    session.afterCalls ((ManifestEntry.messages entries bytes).map fun message =>
      (.record (.bytes message.1 message.2) : Call G)) = (recordSent entries bytes session).1 := by
  induction entries generalizing bytes session with
  | nil => rfl
  | cons entry entries ih => exact ih (bytes.drop entry.size) (session.record entry.name (bytes.take entry.size))

/-- **A session that has read rounds of a proof is reached by calls.** -/
theorem After.exists_afterCalls (G : Type) [CommitmentGroup G] {first : Session} {bytes : Bytes}
    (hstart : Session.start manifest hash challengeBytes = .ok first)
    (h : After manifest hash challengeBytes bytes k session) :
    ∃ calls : List (Call G), first.afterCalls calls = session := by
  have hwidth := (start_eq_ok.mp hstart).1.le_size
  induction h with
  | start hfirst => exact ⟨[], Except.ok.inj (hstart.symm.trans hfirst)⟩
  | @close k session next round _ hround hread ih =>
    obtain ⟨calls, rfl⟩ := ih
    rw [readRound] at hread
    split at hread
    · cases hread
    next challenge _ hdraws =>
    obtain ⟨messages, hmessages⟩ : ∃ messages : List (Call G), (first.afterCalls calls).afterCalls messages
        = (recordSent round.sent (bytes.drop (manifest.offset k)) (first.afterCalls calls)).1 :=
      ⟨_, afterCalls_messages ..⟩
    rw [← hmessages, ← afterCalls_append] at hread
    refine ⟨(calls ++ messages) ++ [.close challenge], ?_⟩
    have htracks := (tracks_start hstart).afterCalls hwidth (calls ++ messages)
    rw [afterCalls_append, afterCalls_close, closeInPlace_eq (htracks.challengeBytes_eq ▸ hwidth), hread]

/-! ## The last message under a name -/

/-- The bytes that calls record last under a name. -/
def recorded? (name : String) : List (Call G) → Option Bytes
  | [] => none
  | .record message :: calls => (recorded? name calls).or (if name = message.name then some message.content else none)
  | .close _ :: calls => recorded? name calls

/-- Calls that never name a message have recorded nothing under it. -/
theorem recorded?_eq_none (h : ∀ message, .record message ∈ calls → name ≠ message.name) :
    recorded? name calls = none := by
  induction calls with
  | nil => rfl
  | cons call calls ih =>
    have hcalls := ih fun message hmem => h message (.tail _ hmem)
    cases call with
    | record message => rw [recorded?, hcalls, if_neg (h message (.head _)), Option.or_none]
    | close challenge => exact hcalls

/-- **A name answers what was recorded under it last.** -/
theorem Tracks.find?_afterCalls (h : session.Tracks manifest hash challengeBytes)
    (hwidth : challengeBytes ≤ Scalar.size) (calls : List (Call G)) (name : String) :
    (session.afterCalls calls).elements.find? name = (recorded? name calls).or (session.elements.find? name) := by
  induction calls generalizing session with
  | nil => rfl
  | cons call calls ih =>
    have hcalls := ih (h.call hwidth call)
    have hstep := step_call (h.challengeBytes_eq ▸ hwidth) call
    rw [afterCalls_cons]
    generalize (session.call call).1 = next at hcalls hstep ⊢
    rw [hcalls]
    cases hstep with
    | record message =>
      rw [recorded?, Option.or_assoc]
      refine congrArg _ ((LabelMap.find?_insert ..).trans ?_)
      split <;> rfl
    | refused challenge _ => rfl
    | closed challenge _ hclose =>
      obtain ⟨round, hclosed⟩ := exists_closed hclose
      rw [recorded?, hclosed.elements]

end

/-! ## The call that closed a round -/

/-- The call that closed the `k`-th round, between the calls before and after it. -/
structure Closing (first : Session) (calls : List (Call G)) (k : ℕ) where
  before : List (Call G)
  challenge : String
  later : List (Call G)
  calls_eq : calls = before ++ .close challenge :: later
  completed_eq : (first.afterCalls before).completed = k
  succeeds : ((first.afterCalls before).closeInPlace challenge).2 = .ok ()

namespace Closing

variable {first : Session}

/-- The session that the round was closed in. -/
def session (closing : Closing first calls k) : Session := first.afterCalls closing.before

/-- The session with the round closed. -/
def next (closing : Closing first calls k) : Session := (closing.session.closeInPlace closing.challenge).1

/-- A further call leaves the closing where it is. -/
def concat (closing : Closing first calls k) (call : Call G) : Closing first (calls ++ [call]) k where
  before := closing.before
  challenge := closing.challenge
  later := closing.later ++ [call]
  calls_eq := (congrArg (· ++ [call]) closing.calls_eq).trans (List.append_assoc ..)
  completed_eq := closing.completed_eq
  succeeds := closing.succeeds

/-- A closing splits the calls: what follows it starts from the session it leaves. -/
theorem afterCalls_eq (closing : Closing first calls k) :
    first.afterCalls calls = closing.next.afterCalls closing.later := by
  conv_lhs => rw [closing.calls_eq, afterCalls_append]
  rfl

variable (closing : Closing first calls k) (h : first.Tracks manifest hash challengeBytes)
  (hwidth : challengeBytes ≤ Scalar.size)
include closing h hwidth

theorem tracks : closing.session.Tracks manifest hash challengeBytes := h.afterCalls hwidth closing.before

theorem tracks_next : closing.next.Tracks manifest hash challengeBytes :=
  (closing.tracks h hwidth).call hwidth (.close closing.challenge : Call G)

theorem closeRound_eq : closing.session.closeRound closing.challenge = .ok closing.next := by
  have heq := closeInPlace_eq ((closing.tracks h hwidth).challengeBytes_eq ▸ hwidth) closing.challenge
  have hsucceeds : (closing.session.closeInPlace closing.challenge).2 = .ok () := closing.succeeds
  rw [next, heq]
  cases hclose : closing.session.closeRound closing.challenge with
  | ok next => rfl
  | error e => rw [heq, hclose] at hsucceeds; cases hsucceeds

/-- **The closing closes the round of its own index.** -/
theorem exists_closed :
    ∃ round, manifest.rounds[k]? = some round ∧ closing.session.Closed round closing.challenge closing.next := by
  obtain ⟨round, hclosed⟩ := Session.exists_closed (closing.closeRound_eq h hwidth)
  have hround := hclosed.current
  rw [(closing.tracks h hwidth).manifest_eq, show closing.session.completed = k from closing.completed_eq] at hround
  exact ⟨round, hround, hclosed⟩

/-- The digest of the round chains the round before and the messages, as they were recorded. -/
theorem digest_eq {round : ManifestRound} (hround : manifest.rounds[k]? = some round) :
    closing.next.digest = hash.digest (closing.session.digest ++ closing.session.sentBytes round) := by
  obtain ⟨round', hround', hclosed⟩ := closing.exists_closed h hwidth
  obtain rfl := Option.some.inj (hround'.symm.trans hround)
  rw [hclosed.digest, (closing.tracks h hwidth).hash_eq]

/-- The closed round stays completed to the end of the calls. -/
theorem lt_completed : k < (first.afterCalls calls).completed := by
  obtain ⟨round, -, hclosed⟩ := closing.exists_closed h hwidth
  calc k < closing.session.completed + 1 := Nat.lt_succ_of_le closing.completed_eq.ge
    _ = closing.next.completed := hclosed.completed.symm
    _ ≤ (closing.next.afterCalls closing.later).completed :=
      (closing.tracks_next h hwidth).completed_le_afterCalls hwidth closing.later
    _ = (first.afterCalls calls).completed := by rw [closing.afterCalls_eq]

/-- **What is recorded later replaces what was hashed.** -/
theorem find?_eq (name : String) : (first.afterCalls calls).elements.find? name
    = (recorded? name closing.later).or (closing.session.elements.find? name) := by
  obtain ⟨round, -, hclosed⟩ := closing.exists_closed h hwidth
  rw [closing.afterCalls_eq, (closing.tracks_next h hwidth).find?_afterCalls hwidth, hclosed.elements]

end Closing

/-- **Every closed round was closed by a call.** -/
theorem exists_closing {first : Session} (hstart : start manifest hash challengeBytes = .ok first)
    (hcompleted : k < (first.afterCalls calls).completed) : Nonempty (Closing first calls k) := by
  have hwidth := (start_eq_ok.mp hstart).1.le_size
  induction calls using List.reverseRecOn with
  | nil =>
    obtain ⟨-, rfl⟩ := start_eq_ok.mp hstart
    exact absurd hcompleted k.not_lt_zero
  | append_singleton calls call ih =>
    rw [afterCalls_concat] at hcompleted
    have hearlier : k < (first.afterCalls calls).completed → Nonempty (Closing first (calls ++ [call]) k) :=
      fun hlt => (ih hlt).map (·.concat call)
    have hsize := ((tracks_start hstart).afterCalls hwidth calls).challengeBytes_eq ▸ hwidth
    have hstep := step_call hsize call
    generalize ((first.afterCalls calls).call call).1 = next at hcompleted hstep
    cases hstep with
    | record message => exact hearlier hcompleted
    | refused challenge _ => exact hearlier hcompleted
    | closed challenge hsucceeds hclose =>
      obtain ⟨round, hclosed⟩ := exists_closed hclose
      rw [hclosed.completed] at hcompleted
      rcases Nat.lt_succ_iff_lt_or_eq.mp hcompleted with hlt | heq
      · exact hearlier hlt
      · exact ⟨⟨calls, challenge, [], rfl, heq.symm, hsucceeds⟩⟩

/-! ## Answers -/

/-- What is answered under a name is read off these bytes. -/
structure AnswersFrom (G : Type) [CommitmentGroup G] (session : Session) (name : String) (bytes : Bytes) : Prop where
  evaluation : (session.transcript (G := G)).evaluation name
    = if bytes.length = Scalar.size then liftAlgebra (Scalar.ofBytes bytes) else .error (.missingEvaluation name)
  vector : (session.transcript (G := G)).vector name
    = if bytes.length % Scalar.size = 0 then liftAlgebra (scalars bytes) else .error (.missingEvaluation name)
  commitment : (session.transcript (G := G)).commitment name = liftAlgebra (ByteCodec.decode bytes)

/-- A stored message answers every kind of read from its bytes alone. -/
theorem answersFrom {session : Session} {bytes : Bytes} (h : session.elements.find? name = some bytes) :
    session.AnswersFrom G name bytes := by
  have hread : ∀ missing : VerifierError, orMissing missing (session.elements.find? name) = .ok bytes :=
    fun missing => by rw [h, orMissing]
  refine ⟨?_, ?_, ?_⟩ <;> rw [transcript] <;> dsimp only <;> rw [hread]
  · exact ite_not _ _ _
  · exact ite_not _ _ _
  · rfl

/-- **A closed round is answered and exported as it was hashed**, unless one of its messages is recorded again.  Every
closed round was closed by one of the calls, over its messages as they were recorded then.  Whatever other calls follow,
a message that is not recorded again answers these bytes, and a round with no such message is exported as these bytes;
a message that is recorded again answers what was recorded last. -/
theorem answers_hashed {first : Session} (hstart : start manifest hash challengeBytes = .ok first)
    (calls : List (Call G)) :
    (first.afterCalls calls).exported
      = (manifest.rounds.take (first.afterCalls calls).completed).flatMap (first.afterCalls calls).sentBytes
    ∧ (∀ k < (first.afterCalls calls).completed, Nonempty (Closing first calls k))
    ∧ ∀ (k : ℕ) (closing : Closing first calls k), k < (first.afterCalls calls).completed
      ∧ ∃ round, manifest.rounds[k]? = some round
        ∧ closing.next.digest = hash.digest (closing.session.digest ++ closing.session.sentBytes round)
        ∧ (∀ entry ∈ round.sent, ∃ bytes,
          closing.session.elements.find? entry.name = some bytes ∧ bytes.length = entry.size
          ∧ ((∀ message, .record message ∈ closing.later → entry.name ≠ message.name) →
            (first.afterCalls calls).AnswersFrom G entry.name bytes)
          ∧ ∀ content, recorded? entry.name closing.later = some content →
            (first.afterCalls calls).AnswersFrom G entry.name content)
        ∧ ((∀ entry ∈ round.sent, ∀ message, .record message ∈ closing.later → entry.name ≠ message.name) →
          (first.afterCalls calls).sentBytes round = closing.session.sentBytes round) := by
  have hwidth := (start_eq_ok.mp hstart).1.le_size
  have htracks := tracks_start hstart
  have hmanifest := (htracks.afterCalls hwidth calls).manifest_eq
  refine ⟨by rw [exported_eq, hmanifest], fun k => exists_closing hstart, fun k closing =>
    ⟨closing.lt_completed htracks hwidth, ?_⟩⟩
  obtain ⟨round, hround, hclosed⟩ := closing.exists_closed htracks hwidth
  have hfind := closing.find?_eq htracks hwidth
  -- what is not recorded again is still there
  have hkept : ∀ name, (∀ message, .record message ∈ closing.later → name ≠ message.name) →
      (first.afterCalls calls).elements.find? name = closing.session.elements.find? name := by
    intro name hname
    rw [hfind, recorded?_eq_none hname, Option.none_or]
  refine ⟨round, hround, closing.digest_eq htracks hwidth hround, fun entry hentry => ?_, fun hlater =>
    sentBytes_congr fun entry hentry => hkept entry.name (hlater entry hentry)⟩
  obtain ⟨bytes, hbytes, hlength⟩ := hclosed.recorded entry hentry
  refine ⟨bytes, hbytes, hlength, fun hlater => answersFrom ((hkept entry.name hlater).trans hbytes),
    fun content hcontent => answersFrom ?_⟩
  rw [hfind, hcontent, Option.some_or]

/-- A message recorded again after its round is closed: the answer changes, the digest does not. -/
theorem answers_hashed_twoRounds :
    ∃ (first : Session) (calls : List (Call Point)) (closing : Closing first calls 0),
      start .twoRounds .keccak256 16 = .ok first
      -- the next round is asked for its challenge with the first round's label
      ∧ closing.later = [.record (.scalar "w" 7), .close "beta"]
      ∧ closing.next.digest = ChallengeHash.keccak256.digest (Scalar.encode 0)
      ∧ (first.afterCalls calls).completed = 1
      ∧ ((first.afterCalls calls).transcript (G := Point)).evaluation "W" = .ok 0
      ∧ (first.afterCalls calls).exported = Scalar.encode 0 := by
  let first : Session := ⟨.twoRounds, .keccak256, 16, .empty, .empty, .empty, 0, []⟩
  let calls : List (Call Point) := [.record (.scalar "W" 0), .close "beta", .record (.scalar "w" 7), .close "beta"]
  have hstart : start .twoRounds .keccak256 16 = .ok first :=
    start_eq_ok.mpr ⟨⟨by decide, by decide, by decide⟩, rfl⟩
  let closing : Closing first calls 0 :=
    ⟨[.record (.scalar "W" 0)], "beta", [.record (.scalar "w" 7), .close "beta"], rfl, rfl, by decide +kernel⟩
  have hcompleted : (first.afterCalls calls).completed = 1 := by decide +kernel
  have hlater : ∀ message, .record message ∈ closing.later → "W" ≠ message.name := by
    rintro message (_ | ⟨_, _ | ⟨_, ⟨⟩⟩⟩)
    decide
  obtain ⟨hexported, -, hclosings⟩ := answers_hashed hstart calls
  obtain ⟨-, round, hround, hdigest, hentries, hsent⟩ := hclosings 0 closing
  obtain rfl : (⟨[.sent "W" 32, ⟨"n", 32, true⟩], ["beta", "gamma"], false⟩ : ManifestRound) = round :=
    Option.some.inj hround
  obtain ⟨bytes, hbytes, -, hanswers, -⟩ := hentries (.sent "W" 32) (.head _)
  obtain rfl : Scalar.encode 0 = bytes := Option.some.inj hbytes
  have hsame := hsent fun entry hentry => by
    obtain rfl : entry = .sent "W" 32 := List.mem_singleton.mp hentry
    exact hlater
  refine ⟨first, calls, closing, hstart, rfl, hdigest, hcompleted, ?_, ?_⟩
  · have hanswer : (first.afterCalls calls).AnswersFrom Point "W" (Scalar.encode 0) := hanswers hlater
    rw [hanswer.evaluation]
    decide +kernel
  · rw [hcompleted] at hexported
    exact hexported.trans (congrArg (· ++ []) hsame)

/-- A round with one message. -/
def oneRound : Manifest where
  rounds := [⟨[.sent "x" 32], ["beta"], false⟩]

/-- A message that is recorded after its round was closed is answered and exported without having been hashed. -/
theorem answers_unhashed :
    (oneRound.rounds.flatMap fun round => round.elements.map (·.name)).Nodup
    ∧ ∃ (first : Session) (calls : List (Call Point)) (closing : Closing first calls 0),
      start oneRound .keccak256 32 = .ok first
      ∧ calls = [.record (.scalar "x" 5), .close "beta", .record (.scalar "x" 6)]
      ∧ closing.next.digest = ChallengeHash.keccak256.digest (Scalar.encode 5)
      ∧ (closing.next.transcript (G := Point)).evaluation "x" = .ok 5
      ∧ closing.next.exported = Scalar.encode 5
      ∧ ((first.afterCalls calls).transcript (G := Point)).evaluation "x" = .ok 6
      ∧ (first.afterCalls calls).exported = Scalar.encode 6
      ∧ Scalar.encode 5 ≠ Scalar.encode 6 := by
  let first : Session := ⟨oneRound, .keccak256, 32, .empty, .empty, .empty, 0, []⟩
  have hstart : start oneRound .keccak256 32 = .ok first :=
    start_eq_ok.mpr ⟨⟨by decide, by decide, by decide⟩, rfl⟩
  let closing : Closing (G := Point) first [.record (.scalar "x" 5), .close "beta", .record (.scalar "x" 6)] 0 :=
    ⟨[.record (.scalar "x" 5)], "beta", [.record (.scalar "x" 6)], rfl, rfl, by decide +kernel⟩
  have hround : oneRound.rounds[0]? = some ⟨[.sent "x" 32], ["beta"], false⟩ := rfl
  have hdigest := closing.digest_eq (tracks_start hstart) (by decide) hround
  exact ⟨by decide, first, _, closing, hstart, rfl, hdigest, by decide +kernel, by decide +kernel,
    by decide +kernel, by decide +kernel, by decide +kernel⟩

end Session

end PlonkVerifier
