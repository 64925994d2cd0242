import Mathlib
import PlonkVerifier.Proofs.Answers
import PlonkVerifier.Proofs.Rounds

/-!
# Proofs/ProverRun — the verifier replays the prover

A prover records messages and closes rounds; the verifier reads the exported messages round by round.  They are two
runs of the same session that differ in what is recorded only, and agree on the messages of the closed rounds:
`Session.Follows` says so of every state of a prover that leaves closed rounds alone, step by step
(`Follows.record`, `Follows.close`).  Hence a complete proof replays to the same answers (`replay_exported`).
-/

namespace PlonkVerifier

variable {G : Type} [CommitmentGroup G]

/-! ## Runs -/

/-- A message to record. -/
inductive Message (G : Type) where
  | bytes (name : String) (content : Bytes)
  | scalar (name : String) (x : Scalar)
  | vector (name : String) (xs : List Scalar)
  | commitment (name : String) (P : G)

namespace Message

/-- The name under which a message is recorded. -/
def name : Message G → String
  | bytes name _ => name
  | scalar name _ => name
  | vector name _ => name
  | commitment name _ => name

/-- The session with the message recorded. -/
def recordIn (session : Session) : Message G → Session
  | bytes name content => session.record name content
  | scalar name x => session.recordScalar name x
  | vector name xs => session.recordVector name xs
  | commitment name P => session.recordCommitment name P

theorem exists_recordIn_eq (session : Session) (message : Message G) :
    ∃ content, message.recordIn session = session.record message.name content := by
  cases message with
  | bytes name content => exact ⟨content, rfl⟩
  | scalar name x => exact ⟨x.encode, rfl⟩
  | vector name xs => exact ⟨xs.flatMap Scalar.encode, rfl⟩
  | commitment name P => exact ⟨ByteCodec.encode P, rfl⟩

end Message

namespace Session

open Manifest (sent)

/-- The sessions of callers that record messages, only under names that `allowed` lets them, and close rounds. -/
inductive Reached (G : Type) [CommitmentGroup G] (manifest : Manifest) (hash : ChallengeHash) (challengeBytes : ℕ)
    (allowed : Session → String → Prop) : Session → Prop
  | start {session : Session} (h : Session.start manifest hash challengeBytes = .ok session) :
    Reached G manifest hash challengeBytes allowed session
  | record {session : Session} (h : Reached G manifest hash challengeBytes allowed session) (message : Message G)
    (hallowed : allowed session message.name) :
    Reached G manifest hash challengeBytes allowed (message.recordIn session)
  | close {session session' : Session} (h : Reached G manifest hash challengeBytes allowed session)
    (challenge : String) (hclose : session.closeRound challenge = .ok session') :
    Reached G manifest hash challengeBytes allowed session'

/-- The rounds that are closed. -/
def closed (session : Session) : List ManifestRound := session.manifest.rounds.take session.completed

/-- The closed rounds have no message of this name. -/
def IsPending (session : Session) (name : String) : Prop := ∀ entry ∈ sent session.closed, entry.name ≠ name

/-! ## Following a prover -/

/-- A verifier that reads what `session` exports closes the same rounds, with `elements` recorded. -/
structure Follows (manifest : Manifest) (hash : ChallengeHash) (challengeBytes : ℕ) (session : Session)
    (elements : LabelMap Bytes) : Prop where
  manifest_eq : session.manifest = manifest
  recorded : ∀ round ∈ session.closed, session.Recorded round
  agrees : ∀ entry ∈ sent session.closed, elements.find? entry.name = session.elements.find? entry.name
  reads : After manifest hash challengeBytes session.exported session.completed (session.withElements elements)

variable {manifest : Manifest} {hash : ChallengeHash} {challengeBytes : ℕ} {session session' : Session}
  {elements : LabelMap Bytes}

/-- **What is exported has the size of the closed rounds.** -/
theorem Follows.length_exported (h : Follows manifest hash challengeBytes session elements) :
    session.exported.length = manifest.offset session.completed := by
  rw [exported_eq, List.length_flatMap, Manifest.offset, Manifest.total_sent, ← h.manifest_eq]
  exact congrArg List.sum (List.map_congr_left fun round hround => (h.recorded round hround).length_sentBytes)

/-- **What is sent next is read next.** -/
theorem Follows.read (h : Follows manifest hash challengeBytes session elements) {round : ManifestRound}
    (hround : manifest.rounds[session.completed]? = some round) {bytes : Bytes} {next : Session}
    (hread : (session.withElements elements).readRound round bytes = .ok next) :
    After manifest hash challengeBytes (session.exported ++ bytes) (session.completed + 1) next := by
  have hlength := h.length_exported
  have hreads : After manifest hash challengeBytes (session.exported ++ bytes) session.completed
      (session.withElements elements) :=
    h.reads.of_take_eq (by rw [List.take_left' hlength, ← hlength, List.take_length])
  exact hreads.close hround (by rw [List.drop_left' hlength, hread])

/-- **A message of an open round changes nothing that was read.** -/
theorem Follows.record (h : Follows manifest hash challengeBytes session elements) {name : String}
    (hpending : session.IsPending name) (bytes : Bytes) :
    Follows manifest hash challengeBytes (session.record name bytes) elements := by
  have hfind : ∀ entry ∈ sent session.closed,
      (session.record name bytes).elements.find? entry.name = session.elements.find? entry.name := by
    intro entry hentry
    exact (LabelMap.find?_insert ..).trans (if_neg (hpending entry hentry))
  have hround : ∀ round ∈ session.closed, ∀ entry ∈ round.sent,
      (session.record name bytes).elements.find? entry.name = session.elements.find? entry.name :=
    fun round hround entry hentry => hfind entry (List.mem_flatMap.mpr ⟨round, hround, hentry⟩)
  have hexported : (session.record name bytes).exported = session.exported := by
    rw [exported_eq, exported_eq, List.flatMap_def, List.flatMap_def]
    exact congrArg _ (List.map_congr_left fun round hmem => sentBytes_congr (hround round hmem))
  refine ⟨h.manifest_eq, fun round hmem => (h.recorded round hmem).congr (hround round hmem), fun entry hentry => ?_,
    hexported ▸ h.reads⟩
  rw [hfind entry hentry]
  exact h.agrees entry hentry

namespace Closed

variable {round : ManifestRound} {challenge : String}

/-- Closing adds one round to the closed ones. -/
theorem closed_eq (h : session.Closed round challenge session') : session'.closed = session.closed ++ [round] := by
  rw [Session.closed, Session.closed, h.manifest, h.completed, List.take_add_one, h.current]
  rfl

/-- What was recorded for the closed rounds stays, and the new round's messages are there. -/
theorem forall_recorded (h : session.Closed round challenge session')
    (hrecorded : ∀ round ∈ session.closed, session.Recorded round) :
    ∀ round ∈ session'.closed, session'.Recorded round := by
  rw [h.closed_eq]
  intro r hr
  have hkept : ∀ entry ∈ r.sent, session'.elements.find? entry.name = session.elements.find? entry.name :=
    fun _ _ => by rw [h.elements]
  rcases List.mem_append.mp hr with hr | hr
  · exact (hrecorded r hr).congr hkept
  · obtain rfl := List.mem_singleton.mp hr
    exact h.recorded.congr hkept

/-- **Closing appends the round's messages to the export.** -/
theorem exported_eq (h : session.Closed round challenge session') :
    session'.exported = session.exported ++ session.sentBytes round := by
  have hsent : session'.sentBytes = session.sentBytes :=
    funext fun _ => sentBytes_congr fun _ _ => by rw [h.elements]
  rw [Session.exported_eq, Session.exported_eq, hsent]
  change session'.closed.flatMap _ = _
  rw [h.closed_eq, List.flatMap_append, List.flatMap_singleton]
  rfl

end Closed

/-- **The messages of a round can be read back**, in place of what was recorded under their names. -/
theorem recordSent_sentBytes {round : ManifestRound} (hrecorded : session.Recorded round)
    (hnodup : (round.sent.map (·.name)).Nodup) (elements : LabelMap Bytes) :
    ∃ elements', (recordSent round.sent (session.sentBytes round) (session.withElements elements)).1
        = session.withElements elements'
      ∧ (∀ entry ∈ round.sent, elements'.find? entry.name = session.elements.find? entry.name)
      ∧ ∀ name ∉ round.sent.map (·.name), elements'.find? name = elements.find? name := by
  have hnames : (round.sent.map fun entry => (entry.name, (session.elements.find? entry.name).getD [])).map Prod.fst
      = round.sent.map (·.name) := by rw [List.map_map]; rfl
  rw [recordSent_eq, sentBytes, ManifestEntry.messages_flatMap hrecorded.length_message]
  refine ⟨_, rfl, fun entry hentry => ?_, fun name hname => ?_⟩
  · obtain ⟨message, hmessage, -⟩ := hrecorded entry hentry
    have hmem : (entry.name, (session.elements.find? entry.name).getD [])
        ∈ round.sent.map fun entry => (entry.name, (session.elements.find? entry.name).getD []) :=
      List.mem_map_of_mem hentry
    rw [LabelMap.find?_foldl_insert _ (hnames ▸ hnodup) hmem, hmessage]
    rfl
  · exact LabelMap.find?_foldl_insert_of_notMem _ (hnames ▸ hname)

/-- **A round that the prover closes is read and closed by the verifier.** -/
theorem Follows.close (h : Follows manifest hash challengeBytes session elements) (hmanifest : manifest.Replayable)
    {challenge : String} (hclose : session.closeRound challenge = .ok session') :
    ∃ elements', Follows manifest hash challengeBytes session' elements' := by
  obtain ⟨round, hclosed⟩ := exists_closed hclose
  obtain ⟨hnodup, hfresh⟩ := Manifest.Replayable.nodup_names (h.manifest_eq ▸ hmanifest) hclosed.current
  obtain ⟨elements', hrecord, hnew, hold⟩ := recordSent_sentBytes hclosed.recorded hnodup elements
  obtain ⟨challenges, hchallenges⟩ := List.head?_eq_some_iff.mp hclosed.draws
  refine ⟨elements', hclosed.manifest.trans h.manifest_eq, hclosed.forall_recorded h.recorded, ?_, ?_⟩
  · rw [hclosed.closed_eq, Manifest.sent_append, Manifest.sent_singleton, hclosed.elements]
    intro entry hentry
    rcases List.mem_append.mp hentry with hentry | hentry
    · rw [hold entry.name (hfresh entry hentry)]
      exact h.agrees entry hentry
    · exact hnew entry hentry
  · have hread : (session.withElements elements).readRound round (session.sentBytes round)
        = .ok (session'.withElements elements') := by
      rw [readRound, hchallenges]
      simp only [hrecord, closeRound_withElements hclose hclosed.current hnew]
    rw [hclosed.exported_eq, hclosed.completed]
    exact h.read (h.manifest_eq ▸ hclosed.current) hread

/-- **Every state of a prover that leaves closed rounds alone can be followed.** -/
theorem Reached.exists_follows (hmanifest : manifest.Replayable)
    (h : Reached G manifest hash challengeBytes IsPending session) :
    ∃ elements, Follows manifest hash challengeBytes session elements := by
  induction h with
  | start hstart =>
    obtain ⟨-, rfl⟩ := start_eq_ok.mp hstart
    exact ⟨.empty, rfl, by simp [closed], by simp [closed], .start hstart⟩
  | record h message hpending ih =>
    obtain ⟨elements, hfollows⟩ := ih
    obtain ⟨content, hrecord⟩ := message.exists_recordIn_eq _
    rw [hrecord]
    exact ⟨elements, hfollows.record hpending content⟩
  | close h challenge hclose ih =>
    obtain ⟨elements, hfollows⟩ := ih
    exact hfollows.close hmanifest hclose

/-- **The verifier replays the prover.**  A prover that leaves the messages of closed rounds alone and has closed all
rounds exports a proof of full length, and the verifier that replays it has the same answers to every challenge, every
member of a map challenge and every message that is sent. -/
theorem replay_exported (hmanifest : manifest.Replayable)
    (hrun : Reached G manifest hash challengeBytes IsPending session)
    (hcomplete : session.completed = manifest.rounds.length) :
    session.exported.length = manifest.size
    ∧ ∃ verifier, replay session.exported manifest hash challengeBytes = .ok verifier
      ∧ verifier.completed = session.completed
      ∧ (∀ label, (verifier.transcript (G := G)).challenge label = (session.transcript (G := G)).challenge label)
      ∧ (∀ challenge member, (verifier.transcript (G := G)).mapMember challenge member
          = (session.transcript (G := G)).mapMember challenge member)
      ∧ ∀ round ∈ manifest.rounds, ∀ entry ∈ round.sent,
        (verifier.transcript (G := G)).evaluation entry.name = (session.transcript (G := G)).evaluation entry.name
        ∧ (verifier.transcript (G := G)).vector entry.name = (session.transcript (G := G)).vector entry.name
        ∧ (verifier.transcript (G := G)).commitment entry.name
          = (session.transcript (G := G)).commitment entry.name := by
  obtain ⟨elements, hfollows⟩ := hrun.exists_follows hmanifest
  have hclosed : session.closed = manifest.rounds := by
    rw [closed, hfollows.manifest_eq, hcomplete, List.take_length]
  have hlength : session.exported.length = manifest.size := by
    rw [hfollows.length_exported, hcomplete, Manifest.offset, List.take_length, Manifest.total_sent_manifest]
  refine ⟨hlength, session.withElements elements, replay_of_after hmanifest hlength (hcomplete ▸ hfollows.reads), rfl,
    fun _ => rfl, fun _ _ => rfl, ?_⟩
  intro round hround entry hentry
  have hagrees : elements.find? entry.name = session.elements.find? entry.name :=
    hfollows.agrees entry (by rw [hclosed]; exact List.mem_flatMap.mpr ⟨round, hround, hentry⟩)
  simp only [transcript, withElements, hagrees, and_self]

/-- A run over two rounds, exported and replayed. -/
theorem replay_exported_twoRounds :
    ∃ session, Reached Point .twoRounds .keccak256 32 IsPending session ∧ session.completed = 2
      ∧ session.exported.length = 64
      ∧ ∃ verifier, replay session.exported .twoRounds .keccak256 32 = .ok verifier
        ∧ (∀ label, (verifier.transcript (G := Point)).challenge label
          = (session.transcript (G := Point)).challenge label)
        ∧ (verifier.transcript (G := Point)).evaluation "w" = (session.transcript (G := Point)).evaluation "w"
        ∧ (verifier.transcript (G := Point)).commitment "W"
          = (session.transcript (G := Point)).commitment "W" := by
  have hwidth : SupportedWidth .keccak256 32 := ⟨by decide, by decide, by decide⟩
  have hpoint : (Point.encode Point.base).length = 32 := by decide +kernel
  have hscalar : (Scalar.encode 7).length = 32 := by decide +kernel
  have hopen : ∀ (session : Session) (name : String), session.completed = 0 → session.IsPending name :=
    fun session name h => by rw [IsPending, closed, h]; exact fun _ hentry => nomatch hentry
  let session : Session := ⟨.twoRounds, .keccak256, 32, .empty, .empty, .empty, 0, []⟩
  -- the commitment replaces a message of the wrong size
  let committed := ((session.record "n" []).record "W" []).recordCommitment "W" Point.base
  have hcommitted : Reached Point .twoRounds .keccak256 32 IsPending committed :=
    (((Reached.start (start_eq_ok.mpr ⟨hwidth, rfl⟩)).record (.bytes "n" []) (hopen _ _ rfl)).record
      (.bytes "W" []) (hopen _ _ rfl)).record (.commitment "W" Point.base) (hopen _ _ rfl)
  have hcommitment : committed.Recorded ⟨[.sent "W" 32, ⟨"n", 32, true⟩], ["beta", "gamma"], false⟩ := by
    rintro entry (_ | ⟨_, ⟨⟩⟩)
    exact ⟨Point.encode Point.base, rfl, hpoint⟩
  obtain ⟨first, hfirst, hclosed⟩ := hcommitment.exists_closed hwidth.le_size rfl rfl
  -- with the first round closed, the evaluation is still pending
  have hname : first.IsPending "w" := by
    rw [IsPending, hclosed.closed_eq]
    decide
  let evaluated := first.recordScalar "w" 7
  have hround : evaluated.manifest.rounds[evaluated.completed]? = some ⟨[.sent "w" 32], ["nu"], true⟩ := by
    change first.manifest.rounds[first.completed]? = _
    rw [hclosed.manifest, hclosed.completed]
    rfl
  have hrecorded : evaluated.Recorded ⟨[.sent "w" 32], ["nu"], true⟩ := by
    rintro entry (_ | ⟨_, ⟨⟩⟩)
    exact ⟨Scalar.encode 7, (LabelMap.find?_insert ..).trans (if_pos rfl), hscalar⟩
  obtain ⟨last, hlast, hclosed'⟩ := hrecorded.exists_closed
    (hclosed.challengeBytes.trans_le hwidth.le_size) hround rfl
  have hrun := ((hcommitted.close _ hfirst).record (.scalar "w" 7) hname).close _ hlast
  have hcompleted : last.completed = 2 := hclosed'.completed.trans (congrArg (· + 1) hclosed.completed)
  obtain ⟨hlength, verifier, hreplay, -, hchallenge, -, hmessages⟩ :=
    replay_exported Manifest.replayable_twoRounds hrun hcompleted
  exact ⟨last, hrun, hcompleted, hlength, verifier, hreplay, hchallenge,
    (hmessages _ (.tail _ (.head _)) _ (.head _)).1, (hmessages _ (.head _) _ (.head _)).2.2⟩

end Session

end PlonkVerifier
