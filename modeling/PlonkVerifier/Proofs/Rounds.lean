import Mathlib
import PlonkVerifier.Proofs.Replay

/-!
# Proofs/Rounds — what closing a round does

A round is closed over its recorded messages, which are hashed behind the digest of the round before (`exists_closed`).
Closing a round reads no other message (`closeRound_withElements`) and touches no challenge of another round
(`Closed.kept`).

Replaying a proof is reading its rounds one after the other, each from its own bytes (`Session.After`).  The session
after `k` rounds is known from the bytes of these rounds (`After.unique`, `After.of_take_eq`), and a replay ends in the
session after the rounds that it completes (`After.of_replay`).
-/

namespace PlonkVerifier

/-! ## Messages of a known size -/

namespace ManifestEntry

variable {entries : List ManifestEntry} {message : ManifestEntry → Bytes}

theorem length_flatMap (h : ∀ entry ∈ entries, (message entry).length = entry.size) :
    (entries.flatMap message).length = total entries := by
  rw [List.length_flatMap, total]
  exact congrArg List.sum (List.map_congr_left h)

/-- **Messages written one after the other are read again.** -/
theorem messages_flatMap (h : ∀ entry ∈ entries, (message entry).length = entry.size) :
    messages entries (entries.flatMap message) = entries.map fun entry => (entry.name, message entry) := by
  induction entries with
  | nil => rfl
  | cons entry entries ih =>
    obtain ⟨hentry, hentries⟩ := List.forall_mem_cons.mp h
    rw [List.flatMap_cons, messages, List.take_left' hentry, List.drop_left' hentry, ih hentries, List.map_cons]

/-- Only the bytes of the messages count. -/
theorem messages_take (entries : List ManifestEntry) (bytes : Bytes) :
    messages entries (bytes.take (total entries)) = messages entries bytes := by
  induction entries generalizing bytes with
  | nil => rfl
  | cons entry entries ih =>
    have htotal : total (entry :: entries) = entry.size + total entries := rfl
    rw [messages, messages, htotal, List.take_take, min_eq_left (Nat.le_add_right _ _), List.drop_take,
      Nat.add_sub_cancel_left, ih]

/-- **The slices put together are what they were cut from.** -/
theorem flatten_messages (entries : List ManifestEntry) (bytes : Bytes) :
    ((messages entries bytes).map Prod.snd).flatten = bytes.take (total entries) := by
  induction entries generalizing bytes with
  | nil => exact List.take_zero.symm
  | cons entry entries ih =>
    have htotal : total (entry :: entries) = entry.size + total entries := rfl
    rw [messages, List.map_cons, List.flatten_cons, ih, htotal, List.take_add]

/-- **What is read under the names of messages is what they were read from.** -/
theorem flatMap_find? (hnodup : (entries.map (·.name)).Nodup) (bytes : Bytes) (m : LabelMap Bytes) :
    (entries.flatMap fun entry =>
      (((messages entries bytes).foldl (fun m e => m.insert e.1 e.2) m).find? entry.name).getD [])
      = bytes.take (total entries) := by
  have hnames := map_fst_messages entries bytes
  have hread : ∀ message ∈ messages entries bytes,
      (((messages entries bytes).foldl (fun m e => m.insert e.1 e.2) m).find? message.1).getD [] = message.2 := by
    intro message hmessage
    rw [LabelMap.find?_foldl_insert _ (hnames ▸ hnodup) hmessage]
    rfl
  calc (entries.flatMap fun entry =>
        (((messages entries bytes).foldl (fun m e => m.insert e.1 e.2) m).find? entry.name).getD [])
      = ((messages entries bytes).map Prod.fst).flatMap fun name =>
          (((messages entries bytes).foldl (fun m e => m.insert e.1 e.2) m).find? name).getD [] := by
        rw [hnames, List.flatMap_map]
    _ = ((messages entries bytes).map Prod.snd).flatten := by
        rw [List.flatMap_map, List.flatMap_def]
        exact congrArg _ (List.map_congr_left hread)
    _ = bytes.take (total entries) := flatten_messages entries bytes

end ManifestEntry

/-- **The messages of a round have names of their own.** -/
theorem Manifest.Replayable.nodup_names {manifest : Manifest} (h : manifest.Replayable) {k : ℕ} {round : ManifestRound}
    (hround : manifest.rounds[k]? = some round) :
    (round.sent.map (·.name)).Nodup
      ∧ ∀ entry ∈ sent (manifest.rounds.take k), entry.name ∉ round.sent.map (·.name) := by
  obtain ⟨hlt, hget⟩ := List.getElem?_eq_some_iff.mp hround
  have hrounds : manifest.rounds = manifest.rounds.take k ++ round :: manifest.rounds.drop (k + 1) := by
    rw [← hget, ← List.drop_eq_getElem_cons hlt, List.take_append_drop]
  have hcons : (sent (round :: manifest.rounds.drop (k + 1))).map (·.name)
      = round.sent.map (·.name) ++ (sent (manifest.rounds.drop (k + 1))).map (·.name) := List.map_append
  have hnodup := h.nodup
  rw [hrounds, sent_append, List.map_append, List.nodup_append', hcons] at hnodup
  obtain ⟨-, hrest, hdisjoint⟩ := hnodup
  exact ⟨hrest.of_append_left, fun entry hentry hname =>
    hdisjoint (List.mem_map_of_mem hentry) (List.mem_append_left _ hname)⟩

/-! ## The bytes of a round -/

namespace Manifest

open ManifestEntry (total)

/-- The number of bytes of the first rounds. -/
def offset (manifest : Manifest) (k : ℕ) : ℕ := total (sent (manifest.rounds.take k))

/-- The bytes of a round in a proof. -/
def part (manifest : Manifest) (i : ℕ) (bytes : Bytes) : Bytes :=
  (bytes.take (manifest.offset (i + 1))).drop (manifest.offset i)

variable {manifest : Manifest} {i : ℕ} {round : ManifestRound}

/-- A round starts where the one before it ends. -/
theorem offset_succ (h : manifest.rounds[i]? = some round) :
    manifest.offset (i + 1) = manifest.offset i + round.size := by
  rw [offset, List.take_add_one, h, sent_append, ManifestEntry.total_append]
  exact congrArg _ (total_sent_cons round [])

theorem offset_mono (manifest : Manifest) : Monotone manifest.offset :=
  monotone_nat_of_le_succ fun i => by
    rw [offset, offset, List.take_add_one, sent_append, ManifestEntry.total_append]
    exact Nat.le_add_right _ _

theorem take_take_offset {k : ℕ} (h : i ≤ k) (bytes : Bytes) :
    (bytes.take (manifest.offset k)).take (manifest.offset i) = bytes.take (manifest.offset i) := by
  rw [List.take_take, min_eq_left (manifest.offset_mono h)]

/-- The part of a round is a slice at its offset. -/
theorem part_eq (h : manifest.rounds[i]? = some round) (bytes : Bytes) :
    manifest.part i bytes = (bytes.drop (manifest.offset i)).take round.size := by
  rw [part, offset_succ h, List.drop_take, Nat.add_sub_cancel_left]

/-- Proofs agree on the first rounds if they agree on each. -/
theorem take_offset_succ_eq_iff {bytes bytes' : Bytes} :
    bytes.take (manifest.offset (i + 1)) = bytes'.take (manifest.offset (i + 1)) ↔
      bytes.take (manifest.offset i) = bytes'.take (manifest.offset i)
        ∧ manifest.part i bytes = manifest.part i bytes' := by
  have htake : ∀ bytes : Bytes, (bytes.take (manifest.offset (i + 1))).take (manifest.offset i)
      = bytes.take (manifest.offset i) := take_take_offset i.le_succ
  refine ⟨fun h => ⟨?_, congrArg (List.drop _) h⟩, fun ⟨hfront, hpart⟩ => ?_⟩
  · rw [← htake bytes, ← htake bytes', h]
  · rw [← List.take_append_drop (manifest.offset i) (bytes.take _), htake,
      ← List.take_append_drop (manifest.offset i) (bytes'.take _), htake]
    exact congrArg₂ _ hfront hpart

end Manifest

namespace Session

open ManifestEntry (total messages)
open Manifest (sent)

variable {session session' : Session} {round : ManifestRound} {challenge : String}

/-- Starting fails only for an unsupported width. -/
theorem start_eq_ok {manifest : Manifest} {hash : ChallengeHash} {challengeBytes : ℕ} :
    start manifest hash challengeBytes = .ok session ↔ SupportedWidth hash challengeBytes
      ∧ ⟨manifest, hash, challengeBytes, .empty, .empty, .empty, 0, []⟩ = session := by
  rw [start]
  split
  · next h =>
    refine ⟨fun h => (nomatch h), fun ⟨hwidth, _⟩ => ?_⟩
    have := hwidth.pos
    have := hwidth.le_digestSize
    have := hwidth.le_size
    omega
  · next h =>
    obtain ⟨hpos, hdigest, hsize⟩ : challengeBytes ≠ 0 ∧ challengeBytes ≤ hash.digestSize
      ∧ challengeBytes ≤ Scalar.size := by omega
    rw [Except.ok.injEq]
    exact ⟨fun h => ⟨⟨Nat.pos_of_ne_zero hpos, hdigest, hsize⟩, h⟩, And.right⟩

/-! ## Recorded messages -/

/-- The messages of a round are recorded in their sizes. -/
def Recorded (session : Session) (round : ManifestRound) : Prop :=
  ∀ entry ∈ round.sent, ∃ message, session.elements.find? entry.name = some message ∧ message.length = entry.size

/-- The messages of a round, as they are recorded. -/
def sentBytes (session : Session) (round : ManifestRound) : Bytes :=
  round.sent.flatMap fun entry => (session.elements.find? entry.name).getD []

theorem exported_eq (session : Session) :
    session.exported = (session.manifest.rounds.take session.completed).flatMap session.sentBytes := rfl

theorem Recorded.length_message (h : session.Recorded round) :
    ∀ entry ∈ round.sent, ((session.elements.find? entry.name).getD []).length = entry.size := by
  intro entry hentry
  obtain ⟨message, hmessage, hlength⟩ := h entry hentry
  rw [hmessage, Option.getD_some, hlength]

/-- A recorded round exports as many bytes as it declares. -/
theorem Recorded.length_sentBytes (h : session.Recorded round) : (session.sentBytes round).length = round.size :=
  ManifestEntry.length_flatMap h.length_message

/-- Whether a round is recorded depends on its own messages only. -/
theorem Recorded.congr (h : session.Recorded round)
    (hagree : ∀ entry ∈ round.sent, session'.elements.find? entry.name = session.elements.find? entry.name) :
    session'.Recorded round := by
  intro entry hentry
  rw [hagree entry hentry]
  exact h entry hentry

theorem sentBytes_congr
    (hagree : ∀ entry ∈ round.sent, session'.elements.find? entry.name = session.elements.find? entry.name) :
    session'.sentBytes round = session.sentBytes round := by
  rw [sentBytes, sentBytes, List.flatMap_def, List.flatMap_def]
  exact congrArg _ (List.map_congr_left fun entry hentry => congrArg (·.getD []) (hagree entry hentry))

/-- A message is exported or hashed only at its declared size. -/
theorem messageBytes_eq_ok {entry : ManifestEntry} {bytes : Bytes} :
    session.messageBytes entry = .ok bytes ↔
      session.elements.find? entry.name = some bytes ∧ bytes.length = entry.size := by
  rw [messageBytes]
  cases session.elements.find? entry.name with
  | none => simp
  | some message =>
    simp only [Option.some.injEq]
    split
    · next h => simp only [Except.ok.injEq, iff_self_and]; rintro rfl; exact h
    · next h => simp only [reduceCtorEq, false_iff, not_and]; rintro rfl; exact h

/-- **What is hashed is the digest before and the messages of the round.** -/
theorem roundInput_eq_ok {input : Bytes} :
    session.roundInput round = .ok input ↔
      session.Recorded round ∧ session.digest ++ session.sentBytes round = input := by
  simp only [roundInput, bind_eq_ok, pure_eq_ok]
  constructor
  · rintro ⟨messages, hmessages, rfl⟩
    obtain ⟨rfl, hfound⟩ := mapM_eq_ok.mp hmessages
    refine ⟨fun entry hentry => ⟨_, messageBytes_eq_ok.mp (hfound entry hentry)⟩, ?_⟩
    rw [sentBytes, List.flatMap_def]
    refine congrArg _ (congrArg _ (List.map_congr_left fun entry hentry => ?_))
    rw [(messageBytes_eq_ok.mp (hfound entry hentry)).1]
    rfl
  · rintro ⟨hrecorded, rfl⟩
    refine ⟨_, mapM_eq_ok_map fun entry hentry => messageBytes_eq_ok.mpr ?_, rfl⟩
    obtain ⟨message, hmessage, hlength⟩ := hrecorded entry hentry
    rw [hmessage]
    exact ⟨rfl, hlength⟩

/-! ## Closing a round -/

/-- The session with other recorded messages. -/
def withElements (session : Session) (elements : LabelMap Bytes) : Session := { session with elements }

/-- The messages play no part in drawing, once they are hashed. -/
theorem drawChallenges_withElements (session : Session) (elements : LabelMap Bytes) (round : ManifestRound)
    (digest : Bytes) :
    (session.withElements elements).drawChallenges round digest
      = (session.drawChallenges round digest).map (·.withElements elements) := by
  rw [drawChallenges, drawChallenges]
  split
  · rfl
  · have hmap : ∀ x : Except VerifierError (LabelMap Scalar),
        (x >>= fun challenges => pure { session.withElements elements with challenges })
          = (x >>= fun challenges => pure { session with challenges }).map (·.withElements elements) := by
      rintro (_ | _) <;> rfl
    exact hmap _

theorem find?_foldl_insert_label {α : Type} {labels : List String} (value : α) {l : String} (hl : l ∉ labels)
    (m : LabelMap α) : (labels.foldl (fun m label => m.insert label value) m).find? l = m.find? l := by
  induction labels generalizing m with
  | nil => rfl
  | cons label labels ih =>
    obtain ⟨hne, hl⟩ := not_or.mp (List.mem_cons.not.mp hl)
    rw [List.foldl_cons, ih hl, LabelMap.find?_insert, if_neg hne]

/-- A loop of insertions finds what it inserted under a label, or what was there before. -/
theorem find?_foldlM_insert {α : Type} {f : String × ℕ → Except VerifierError α} {labels : List (String × ℕ)}
    {m m' : LabelMap α} (h : labels.foldlM (fun m x => return m.insert x.1 (← f x)) m = .ok m') (l : String) :
    m'.find? l = m.find? l ∨ l ∈ labels.map Prod.fst ∧ ∃ x a, f x = .ok a ∧ m'.find? l = some a := by
  refine foldlM_invariant (fun _ m' => m'.find? l = m.find? l
    ∨ l ∈ labels.map Prod.fst ∧ ∃ x a, f x = .ok a ∧ m'.find? l = some a) h (.inl rfl) ?_
  rintro _ x c c' hx - hc hstep
  obtain ⟨a, ha, hstep⟩ := bind_eq_ok.mp hstep
  obtain rfl := pure_eq_ok.mp hstep
  rw [LabelMap.find?_insert]
  split
  · next hl => exact .inr ⟨hl ▸ List.mem_map_of_mem hx, x, a, ha, rfl⟩
  · exact hc

/-- **Challenges of other rounds are kept**, and those of the round are derived. -/
theorem drawChallenges_eq_ok {digest : Bytes} {drawn : Session}
    (h : session.drawChallenges round digest = .ok drawn) :
    ∃ challenges mapDigests, drawn = { session with challenges, mapDigests }
      ∧ (∀ l ∉ round.challenges,
        challenges.find? l = session.challenges.find? l ∧ mapDigests.find? l = session.mapDigests.find? l)
      ∧ ∀ l x, challenges.find? l = some x →
        session.challenges.find? l = some x ∨ ∃ input, session.derive input = .ok x := by
  rw [drawChallenges] at h
  split at h
  · obtain rfl := Except.ok.inj h
    exact ⟨session.challenges, _, rfl, fun l hl => ⟨rfl, find?_foldl_insert_label digest hl _⟩, fun _ _ => .inl⟩
  · obtain ⟨challenges, hfold, h⟩ := bind_eq_ok.mp h
    obtain rfl := pure_eq_ok.mp h
    have hfind := find?_foldlM_insert
      (f := fun x : String × ℕ => session.derive (digest ++ [UInt8.ofNat x.2])) hfold
    refine ⟨challenges, session.mapDigests, rfl, fun l hl => ⟨?_, rfl⟩, fun l x hx => ?_⟩
    · refine (hfind l).resolve_right fun hnew => hl ?_
      rw [← List.zipIdx_map_fst 0 round.challenges]
      exact hnew.1
    · rcases hfind l with hold | ⟨-, y, a, ha, hnew⟩
      · exact .inl (hold ▸ hx)
      · exact .inr ⟨_, ha.trans (congrArg _ (Option.some.inj (hnew.symm.trans hx)))⟩

/-- What a session looks like before and after a round is closed. -/
structure Closed (session : Session) (round : ManifestRound) (challenge : String) (session' : Session) : Prop where
  current : session.manifest.rounds[session.completed]? = some round
  draws : round.challenges.head? = some challenge
  recorded : session.Recorded round
  manifest : session'.manifest = session.manifest
  hash : session'.hash = session.hash
  challengeBytes : session'.challengeBytes = session.challengeBytes
  elements : session'.elements = session.elements
  completed : session'.completed = session.completed + 1
  digest : session'.digest = session.hash.digest (session.digest ++ session.sentBytes round)
  /-- Challenges of other rounds are kept. -/
  kept : ∀ l ∉ round.challenges, session'.challenges.find? l = session.challenges.find? l
    ∧ session'.mapDigests.find? l = session.mapDigests.find? l

/-- **A round is closed over its recorded messages.** -/
theorem exists_closed (h : session.closeRound challenge = .ok session') :
    ∃ round, session.Closed round challenge session' := by
  obtain ⟨round, input, drawn, hround, hdraws, hinput, hdrawn, rfl⟩ := closeRound_eq_ok.mp h
  obtain ⟨hrecorded, rfl⟩ := roundInput_eq_ok.mp hinput
  obtain ⟨challenges, mapDigests, rfl, hkept, -⟩ := drawChallenges_eq_ok hdrawn
  exact ⟨round, hround, hdraws, hrecorded, rfl, rfl, rfl, rfl, rfl, rfl, hkept⟩

/-- **A round whose messages are recorded can be closed.** -/
theorem Recorded.exists_closed (h : session.Recorded round) (hwidth : session.challengeBytes ≤ Scalar.size)
    (hround : session.manifest.rounds[session.completed]? = some round)
    (hdraws : round.challenges.head? = some challenge) :
    ∃ session', session.closeRound challenge = .ok session' ∧ session.Closed round challenge session' := by
  obtain ⟨challenges, mapDigests, digest, hclose, -⟩ := session.exists_closeRound hwidth hround hdraws h
  obtain ⟨round', hclosed⟩ := Session.exists_closed hclose
  obtain rfl : round' = round := Option.some.inj (hclosed.current.symm.trans hround)
  exact ⟨_, hclose, hclosed⟩

theorem roundInput_withElements {elements : LabelMap Bytes} {input : Bytes} (h : session.roundInput round = .ok input)
    (hagree : ∀ entry ∈ round.sent, elements.find? entry.name = session.elements.find? entry.name) :
    (session.withElements elements).roundInput round = .ok input := by
  obtain ⟨hrecorded, rfl⟩ := roundInput_eq_ok.mp h
  refine roundInput_eq_ok.mpr ⟨hrecorded.congr hagree, ?_⟩
  rw [sentBytes_congr hagree]
  rfl

/-- **Closing a round reads its own messages only.** -/
theorem closeRound_withElements {elements : LabelMap Bytes} (h : session.closeRound challenge = .ok session')
    (hround : session.manifest.rounds[session.completed]? = some round)
    (hagree : ∀ entry ∈ round.sent, elements.find? entry.name = session.elements.find? entry.name) :
    (session.withElements elements).closeRound challenge = .ok (session'.withElements elements) := by
  obtain ⟨round', input, drawn, hround', hdraws, hinput, hdrawn, rfl⟩ := closeRound_eq_ok.mp h
  obtain rfl := Option.some.inj (hround'.symm.trans hround)
  refine closeRound_eq_ok.mpr ⟨round', input, drawn.withElements elements, hround, hdraws,
    roundInput_withElements hinput hagree, ?_, rfl⟩
  have hdrawn' := session.drawChallenges_withElements elements round' (session.hash.digest input)
  rwa [hdrawn] at hdrawn'

/-! ## Reading rounds -/

/-- Reads the messages of a round from the front of `bytes` and closes it. -/
def readRound (session : Session) (round : ManifestRound) (bytes : Bytes) : Except VerifierError Session :=
  match round.challenges with
  | [] => .error SessionFault.noChallenge.error
  | challenge :: _ => (recordSent round.sent bytes session).1.closeRound challenge

/-- Reading a round looks no further than its size. -/
theorem readRound_take {bytes bytes' : Bytes} (h : bytes.take round.size = bytes'.take round.size) :
    session.readRound round bytes = session.readRound round bytes' := by
  have hmessages : messages round.sent bytes = messages round.sent bytes' := by
    rw [← ManifestEntry.messages_take, ← ManifestEntry.messages_take round.sent bytes']
    exact congrArg _ h
  rw [readRound, readRound, recordSent_eq, recordSent_eq, hmessages]

/-- **Reading a round is recording its slices and closing it.** -/
theorem exists_closed_of_readRound (h : session.readRound round bytes = .ok session')
    (hround : session.manifest.rounds[session.completed]? = some round) :
    ∃ challenge, (recordSent round.sent bytes session).1.Closed round challenge session' := by
  rw [readRound] at h
  split at h
  · cases h
  · next challenge _ hdraws =>
    obtain ⟨round', hclosed⟩ := exists_closed h
    have hcurrent := hclosed.current
    rw [recordSent_eq] at hcurrent
    obtain rfl : round' = round := Option.some.inj (hcurrent.symm.trans hround)
    exact ⟨challenge, hclosed⟩

/-! ## After a number of rounds -/

variable {manifest : Manifest} {hash : ChallengeHash} {challengeBytes k n : ℕ} {bytes bytes' : Bytes}

/-- The sessions that a replay of `bytes` goes through, by the number of rounds that are closed. -/
inductive After (manifest : Manifest) (hash : ChallengeHash) (challengeBytes : ℕ) (bytes : Bytes) : ℕ → Session → Prop
  | start {session : Session} (h : Session.start manifest hash challengeBytes = .ok session) :
    After manifest hash challengeBytes bytes 0 session
  | close {k : ℕ} {session session' : Session} {round : ManifestRound}
    (h : After manifest hash challengeBytes bytes k session) (hround : manifest.rounds[k]? = some round)
    (hread : session.readRound round (bytes.drop (manifest.offset k)) = .ok session') :
    After manifest hash challengeBytes bytes (k + 1) session'

namespace After

/-- The session follows its manifest and counts its rounds. -/
structure Kept (manifest : Manifest) (hash : ChallengeHash) (challengeBytes k : ℕ) (session : Session) : Prop where
  manifest : session.manifest = manifest
  hash : session.hash = hash
  challengeBytes : session.challengeBytes = challengeBytes
  completed : session.completed = k

/-- What the first rounds recorded is still there after more of them. -/
theorem kept (h : After manifest hash challengeBytes bytes k session) :
    Kept manifest hash challengeBytes k session := by
  induction h with
  | start h =>
    obtain ⟨-, rfl⟩ := start_eq_ok.mp h
    exact ⟨rfl, rfl, rfl, rfl⟩
  | close h hround hread ih =>
    obtain ⟨challenge, hclosed⟩ := exists_closed_of_readRound hread (by rw [ih.manifest, ih.completed, hround])
    rw [recordSent_eq] at hclosed
    exact ⟨hclosed.manifest.trans ih.manifest, hclosed.hash.trans ih.hash,
      hclosed.challengeBytes.trans ih.challengeBytes, hclosed.completed.trans (congrArg (· + 1) ih.completed)⟩

/-- After so many rounds of the same bytes there is one session. -/
theorem unique (h : After manifest hash challengeBytes bytes k session)
    (h' : After manifest hash challengeBytes bytes k session') : session = session' := by
  induction h generalizing session' with
  | start h =>
    cases h' with | start h' => exact Except.ok.inj (h.symm.trans h')
  | close h hround hread ih =>
    cases h' with | close h' hround' hread' =>
    obtain rfl := ih h'
    obtain rfl := Option.some.inj (hround.symm.trans hround')
    exact Except.ok.inj (hread.symm.trans hread')

theorem supportedWidth (h : After manifest hash challengeBytes bytes k session) :
    SupportedWidth hash challengeBytes := by
  induction h with
  | start h => exact (start_eq_ok.mp h).1
  | close _ _ _ ih => exact ih

/-- A replay passes through every earlier round. -/
theorem exists_of_le (h : After manifest hash challengeBytes bytes n session) (hk : k ≤ n) :
    ∃ session, After manifest hash challengeBytes bytes k session := by
  induction h with
  | start h =>
    obtain rfl := Nat.le_zero.mp hk
    exact ⟨_, .start h⟩
  | close h hround hread ih =>
    rcases Nat.of_le_succ hk with hk | rfl
    · exact ih hk
    · exact ⟨_, h.close hround hread⟩

/-- **A replay ends after the rounds that it completes.** -/
theorem of_replayRounds {rounds : List ManifestRound} {rest : Bytes}
    (h : After manifest hash challengeBytes bytes k session) (hrounds : manifest.rounds.drop k = rounds)
    (hreplay : replayRounds rounds (bytes.drop (manifest.offset k)) session = .ok (session', rest)) :
    After manifest hash challengeBytes bytes session'.completed session' := by
  induction rounds generalizing k session with
  | nil =>
    obtain ⟨rfl, -⟩ := Prod.mk.inj (Except.ok.inj hreplay)
    rwa [h.kept.completed]
  | cons round rounds ih =>
    rw [replayRounds, recordSent_eq] at hreplay
    split at hreplay
    · obtain ⟨rfl, -⟩ := Prod.mk.inj (Except.ok.inj hreplay)
      rwa [h.kept.completed]
    dsimp only at hreplay
    split at hreplay
    · cases hreplay
    next challenge _ hdraws =>
    obtain ⟨closed, hclose, hreplay⟩ := bind_eq_ok.mp hreplay
    have hround : manifest.rounds[k]? = some round := by
      rw [← List.head?_drop, hrounds]
      rfl
    have hread : session.readRound round (bytes.drop (manifest.offset k)) = .ok closed := by
      rw [readRound, hdraws, recordSent_eq]
      exact hclose
    refine ih (h.close hround hread) (by rw [← List.drop_drop, hrounds]; rfl) ?_
    rw [Manifest.offset_succ hround, ← List.drop_drop]
    exact hreplay

/-- A replay ends after the rounds it completed. -/
theorem of_replay (h : replay bytes manifest hash challengeBytes = .ok session) :
    After manifest hash challengeBytes bytes session.completed session := by
  obtain ⟨first, hstart, h⟩ := bind_eq_ok.mp h
  obtain ⟨⟨last, rest⟩, hreplay, h⟩ := bind_eq_ok.mp h
  obtain rfl : last = session := by
    dsimp only at h
    split at h
    · cases h
    · exact pure_eq_ok.mp h
  exact of_replayRounds (.start hstart) rfl hreplay

/-- **Equal bytes lead to equal sessions.** -/
theorem of_take_eq (h : After manifest hash challengeBytes bytes k session)
    (hbytes : bytes.take (manifest.offset k) = bytes'.take (manifest.offset k)) :
    After manifest hash challengeBytes bytes' k session := by
  induction h with
  | start h => exact .start h
  | close h hround hread ih =>
    obtain ⟨hfront, hpart⟩ := Manifest.take_offset_succ_eq_iff.mp hbytes
    rw [Manifest.part_eq hround, Manifest.part_eq hround] at hpart
    exact (ih hfront).close hround (readRound_take hpart ▸ hread)

end After

/-- **A proof of exact length is replayed to the session after all rounds.** -/
theorem replay_of_after (hmanifest : manifest.Replayable) (hlength : bytes.length = manifest.size)
    (h : After manifest hash challengeBytes bytes manifest.rounds.length session) :
    replay bytes manifest hash challengeBytes = .ok session := by
  obtain ⟨last, hreplay⟩ := exists_replay hmanifest h.supportedWidth hlength.le
  obtain ⟨done, left, hrounds, hreplayed, hnil⟩ := replay_eq_ok hmanifest h.supportedWidth hreplay
  rw [hnil.mpr hlength, List.append_nil] at hrounds
  have hlast := After.of_replay hreplay
  rw [hreplayed.completed, ← hrounds] at hlast
  rw [hreplay, hlast.unique h]

end Session

/-- A small manifest: a commitment and a derived message first, then an evaluation. -/
def Manifest.twoRounds : Manifest where
  rounds := [⟨[.sent "W" 32, ⟨"n", 32, true⟩], ["beta", "gamma"], false⟩, ⟨[.sent "w" 32], ["nu"], true⟩]

theorem Manifest.replayable_twoRounds : Manifest.twoRounds.Replayable := ⟨by decide, by decide⟩

end PlonkVerifier
