import Mathlib
import PlonkVerifier.Proofs.LabelMap
import PlonkVerifier.Proofs.Outcome
import PlonkVerifier.Transcript.Session

/-!
# Proofs/Replay — what a session has read of a proof

A proof is its messages, one after the other.  `Session.Replayed done bytes` says that the rounds `done` are closed
with the messages at the front of `bytes`; a round that fits into the bytes is read and closed (`Replayed.step`), so
that replaying a proof closes as many rounds as its bytes hold.  All of them are closed at the exact length only
(`replay_eq_ok`), and nothing but trailing bytes is an error (`replay_eq_error`).
-/

namespace PlonkVerifier

/-! ## Messages -/

namespace ManifestEntry

/-- The number of bytes of a list of messages. -/
def total (entries : List ManifestEntry) : ℕ := (entries.map (·.size)).sum

/-- The messages at the front of `bytes`, by name. -/
def messages : List ManifestEntry → Bytes → List (String × Bytes)
  | [], _ => []
  | entry :: entries, bytes => (entry.name, bytes.take entry.size) :: messages entries (bytes.drop entry.size)

theorem total_append (xs ys : List ManifestEntry) : total (xs ++ ys) = total xs + total ys := by
  rw [total, total, total, List.map_append, List.sum_append]

/-- Cutting two runs of messages from a string cuts the second where the first ends. -/
theorem messages_append (xs ys : List ManifestEntry) (bytes : Bytes) :
    messages (xs ++ ys) bytes = messages xs bytes ++ messages ys (bytes.drop (total xs)) := by
  induction xs generalizing bytes with
  | nil => rfl
  | cons x xs ih =>
    have hdrop : bytes.drop (total (x :: xs)) = (bytes.drop x.size).drop (total xs) := by
      rw [List.drop_drop, total, List.map_cons, List.sum_cons, total]
    rw [List.cons_append, messages, messages, ih, hdrop, List.cons_append]

theorem map_fst_messages (entries : List ManifestEntry) (bytes : Bytes) :
    (messages entries bytes).map Prod.fst = entries.map (·.name) := by
  induction entries generalizing bytes with
  | nil => rfl
  | cons entry entries ih => rw [messages, List.map_cons, List.map_cons, ih]

/-- **Bytes that are long enough hold every message in its size.** -/
theorem exists_message {entries : List ManifestEntry} {bytes : Bytes} (h : total entries ≤ bytes.length)
    {entry : ManifestEntry} (hentry : entry ∈ entries) :
    ∃ message, (entry.name, message) ∈ messages entries bytes ∧ message.length = entry.size := by
  induction entries generalizing bytes with
  | nil => cases hentry
  | cons e entries ih =>
    rw [total, List.map_cons, List.sum_cons] at h
    rcases List.mem_cons.mp hentry with rfl | hentry
    · refine ⟨bytes.take entry.size, List.mem_cons_self, ?_⟩
      rw [List.length_take]
      omega
    · have htail : total entries ≤ (bytes.drop e.size).length := by
        rw [List.length_drop, total]
        omega
      obtain ⟨message, hmem, hlength⟩ := ih htail hentry
      exact ⟨message, List.mem_cons_of_mem _ hmem, hlength⟩

end ManifestEntry

namespace Manifest

/-- The messages of rounds, in order. -/
def sent (rounds : List ManifestRound) : List ManifestEntry := rounds.flatMap (·.sent)

theorem sent_append (xs ys : List ManifestRound) : sent (xs ++ ys) = sent xs ++ sent ys := List.flatMap_append

theorem sent_singleton (round : ManifestRound) : sent [round] = round.sent := List.flatMap_singleton ..

theorem total_sent_cons (round : ManifestRound) (rounds : List ManifestRound) :
    ManifestEntry.total (sent (round :: rounds)) = round.size + ManifestEntry.total (sent rounds) :=
  ManifestEntry.total_append round.sent (sent rounds)

theorem total_sent (rounds : List ManifestRound) :
    ManifestEntry.total (sent rounds) = (rounds.map (·.size)).sum := by
  induction rounds with
  | nil => rfl
  | cons round rounds ih =>
    rw [total_sent_cons, List.map_cons, List.sum_cons, ih]

/-- The size of a manifest counts the messages in transit. -/
theorem total_sent_manifest (manifest : Manifest) : ManifestEntry.total (sent manifest.rounds) = manifest.size :=
  total_sent _

/-- A manifest that can be replayed: no message replaces another, and every round draws a challenge. -/
structure Replayable (manifest : Manifest) : Prop where
  nodup : ((sent manifest.rounds).map (·.name)).Nodup
  draws : ∀ round ∈ manifest.rounds, round.challenges ≠ []

end Manifest

/-- A challenge width that a session accepts. -/
structure SupportedWidth (hash : ChallengeHash) (challengeBytes : ℕ) : Prop where
  pos : 0 < challengeBytes
  le_digestSize : challengeBytes ≤ hash.digestSize
  le_size : challengeBytes ≤ Scalar.size

namespace Session

open ManifestEntry (total messages)
open Manifest (sent)

/-- Recording is inserting the slices, and leaves what they do not reach. -/
theorem recordSent_eq (entries : List ManifestEntry) (bytes : Bytes) (session : Session) :
    recordSent entries bytes session =
      ({ session with
          elements := (messages entries bytes).foldl (fun m e => m.insert e.1 e.2) session.elements },
        bytes.drop (total entries)) := by
  induction entries generalizing bytes session with
  | nil => rfl
  | cons entry entries ih =>
    rw [recordSent, ih, List.drop_drop, total, total, List.map_cons, List.sum_cons]
    rfl

/-! ## Closing a round -/

/-- A challenge is cut to a width that fits into a scalar. -/
theorem exists_derive (session : Session) (h : session.challengeBytes ≤ Scalar.size) (input : Bytes) :
    ∃ x, session.derive input = .ok x := by
  have hlength : ((session.hash.digest input).take session.challengeBytes).length ≤ Scalar.size := by
    rw [List.length_take]
    omega
  exact ⟨_, by rw [derive, Scalar.ofBytes, if_pos hlength]; rfl⟩

theorem labels_foldl_insert {α : Type} (labels : List String) (value : α) (m : LabelMap α) (l : String) :
    l ∈ (labels.foldl (fun m label => m.insert label value) m).labels ↔ l ∈ labels ∨ l ∈ m.labels := by
  induction labels generalizing m with
  | nil => simp
  | cons label labels ih =>
    rw [List.foldl_cons, ih, LabelMap.mem_labels_insert, List.mem_cons]
    tauto

theorem exists_foldlM_insert {α : Type} {f : String × ℕ → Except VerifierError α} (hf : ∀ x, ∃ a, f x = .ok a)
    (labels : List (String × ℕ)) (m : LabelMap α) :
    ∃ m', labels.foldlM (fun m x => return m.insert x.1 (← f x)) m = .ok m'
      ∧ ∀ l, l ∈ m'.labels ↔ l ∈ labels.map Prod.fst ∨ l ∈ m.labels := by
  induction labels generalizing m with
  | nil => exact ⟨m, rfl, fun l => by simp⟩
  | cons x labels ih =>
    obtain ⟨a, ha⟩ := hf x
    obtain ⟨m', hm', hlabels⟩ := ih (m.insert x.1 a)
    refine ⟨m', ?_, fun l => ?_⟩
    · rw [List.foldlM_cons, ha]
      exact hm'
    · rw [hlabels, LabelMap.mem_labels_insert, List.map_cons, List.mem_cons]
      tauto

/-- The challenges and map digests of a session after one more round. -/
structure Drawn (session : Session) (round : ManifestRound) (challenges : LabelMap Scalar)
    (mapDigests : LabelMap Bytes) : Prop where
  challenges : ∀ l, l ∈ challenges.labels ↔
    (round.isMap = false ∧ l ∈ round.challenges) ∨ l ∈ session.challenges.labels
  mapDigests : ∀ l, l ∈ mapDigests.labels ↔
    (round.isMap = true ∧ l ∈ round.challenges) ∨ l ∈ session.mapDigests.labels

/-- **A round makes its challenges available**, as challenges or as the digests of maps. -/
theorem exists_drawChallenges (session : Session) (h : session.challengeBytes ≤ Scalar.size)
    (round : ManifestRound) (digest : Bytes) :
    ∃ challenges mapDigests, session.drawChallenges round digest = .ok { session with challenges, mapDigests }
      ∧ session.Drawn round challenges mapDigests := by
  cases hmap : round.isMap with
  | true =>
    refine ⟨session.challenges, _, by rw [drawChallenges, hmap, if_pos rfl], fun l => ?_, fun l => ?_⟩
    · simp [hmap]
    · simp [hmap, labels_foldl_insert]
  | false =>
    obtain ⟨challenges, hchallenges, hlabels⟩ := exists_foldlM_insert
      (fun x : String × ℕ => session.exists_derive h (digest ++ [UInt8.ofNat x.2]))
      round.challenges.zipIdx session.challenges
    refine ⟨challenges, session.mapDigests, ?_, fun l => ?_, fun l => ?_⟩
    · rw [drawChallenges, hmap, if_neg Bool.false_ne_true]
      exact bind_eq_ok.mpr ⟨challenges, hchallenges, rfl⟩
    · rw [hlabels, List.zipIdx_map_fst, hmap]
      simp
    · simp [hmap]

/-- A round whose messages are all there has an input to hash. -/
theorem exists_roundInput {session : Session} {round : ManifestRound}
    (h : ∀ entry ∈ round.sent,
      ∃ message, session.elements.find? entry.name = some message ∧ message.length = entry.size) :
    ∃ input, session.roundInput round = .ok input := by
  have hbytes : ∀ entry ∈ round.sent,
      session.messageBytes entry = .ok ((session.elements.find? entry.name).getD []) := by
    intro entry hentry
    obtain ⟨message, hmessage, hlength⟩ := h entry hentry
    rw [messageBytes, hmessage]
    exact if_pos hlength
  exact ⟨_, bind_eq_ok.mpr ⟨_, mapM_eq_ok_map hbytes, rfl⟩⟩

/-- **Closing a round checks it, hashes it and draws from the digest.** -/
theorem closeRound_eq_ok {session session' : Session} {challenge : String} :
    session.closeRound challenge = .ok session' ↔
      ∃ round input drawn, session.manifest.rounds[session.completed]? = some round
        ∧ round.challenges.head? = some challenge
        ∧ session.roundInput round = .ok input
        ∧ session.drawChallenges round (session.hash.digest input) = .ok drawn
        ∧ { drawn with completed := drawn.completed + 1, digest := session.hash.digest input } = session' := by
  rw [closeRound]
  constructor
  · intro h
    split at h
    · cases h
    next round hround =>
    split at h
    · cases h
    next hdraws =>
    obtain ⟨input, hinput, h⟩ := bind_eq_ok.mp h
    obtain ⟨drawn, hdrawn, h⟩ := bind_eq_ok.mp h
    exact ⟨round, input, drawn, hround, not_not.mp hdraws, hinput, hdrawn, pure_eq_ok.mp h⟩
  · rintro ⟨round, input, drawn, hround, hdraws, hinput, hdrawn, rfl⟩
    rw [hround]
    simp only [hdraws, ne_eq, not_true_eq_false, if_false]
    exact bind_eq_ok.mpr ⟨input, hinput, bind_eq_ok.mpr ⟨drawn, hdrawn, rfl⟩⟩

/-- **A round whose messages are recorded can be closed.** -/
theorem exists_closeRound (session : Session) {round : ManifestRound} {challenge : String}
    (hwidth : session.challengeBytes ≤ Scalar.size)
    (hround : session.manifest.rounds[session.completed]? = some round)
    (hdraws : round.challenges.head? = some challenge)
    (hmessages : ∀ entry ∈ round.sent,
      ∃ message, session.elements.find? entry.name = some message ∧ message.length = entry.size) :
    ∃ challenges mapDigests digest,
      session.closeRound challenge = .ok { session with
        challenges, mapDigests, completed := session.completed + 1, digest }
      ∧ session.Drawn round challenges mapDigests := by
  obtain ⟨input, hinput⟩ := exists_roundInput hmessages
  obtain ⟨challenges, mapDigests, hdraw, hdrawn⟩ :=
    session.exists_drawChallenges hwidth round (session.hash.digest input)
  exact ⟨challenges, mapDigests, session.hash.digest input,
    closeRound_eq_ok.mpr ⟨round, input, _, hround, hdraws, hinput, hdraw, rfl⟩, hdrawn⟩

/-! ## Rounds read -/

/-- A session that has read the rounds `done` from the front of `bytes`. -/
structure Replayed (manifest : Manifest) (hash : ChallengeHash) (challengeBytes : ℕ) (done : List ManifestRound)
    (bytes : Bytes) (session : Session) : Prop where
  manifest : session.manifest = manifest
  hash : session.hash = hash
  challengeBytes : session.challengeBytes = challengeBytes
  completed : session.completed = done.length
  elements : session.elements = .ofList (messages (sent done) bytes)
  challenges : ∀ l, l ∈ session.challenges.labels ↔ ∃ round ∈ done, round.isMap = false ∧ l ∈ round.challenges
  mapDigests : ∀ l, l ∈ session.mapDigests.labels ↔ ∃ round ∈ done, round.isMap = true ∧ l ∈ round.challenges
  /-- The rounds are there. -/
  size_le : total (sent done) ≤ bytes.length

variable {manifest : Manifest} {hash : ChallengeHash} {challengeBytes : ℕ} {done rest : List ManifestRound}
  {round : ManifestRound} {bytes : Bytes} {session : Session}

/-- One more round of a list. -/
theorem exists_mem_concat {p : ManifestRound → Prop} : (∃ r ∈ done ++ [round], p r) ↔ p round ∨ ∃ r ∈ done, p r := by
  simp only [List.mem_append, List.mem_singleton, or_and_right, exists_or, exists_eq_left]
  exact or_comm

/-- **What has been read is found under its name.** -/
theorem exists_find?_messages (hmanifest : manifest.Replayable) (hdone : done <+: manifest.rounds)
    (hsize : total (sent done) ≤ bytes.length) {entry : ManifestEntry} (hentry : entry ∈ sent done) :
    ∃ message, (LabelMap.ofList (messages (sent done) bytes)).find? entry.name = some message
      ∧ message.length = entry.size := by
  obtain ⟨message, hmessage, hlength⟩ := ManifestEntry.exists_message hsize hentry
  obtain ⟨rest, hrest⟩ := hdone
  have hnodup : ((messages (sent done) bytes).map Prod.fst).Nodup := by
    have hnames := hmanifest.nodup
    rw [← hrest, Manifest.sent_append, List.map_append] at hnames
    rw [ManifestEntry.map_fst_messages]
    exact hnames.of_append_left
  exact ⟨message, LabelMap.find?_foldl_insert _ hnodup hmessage, hlength⟩

/-- **A round that fits into the bytes is read and closed.** -/
theorem Replayed.step (h : session.Replayed manifest hash challengeBytes done bytes)
    (hmanifest : manifest.Replayable) (hwidth : SupportedWidth hash challengeBytes)
    (hrounds : manifest.rounds = done ++ round :: rest) {challenge : String}
    (hdraws : round.challenges.head? = some challenge)
    (hfits : total (sent (done ++ [round])) ≤ bytes.length) :
    ∃ session', (recordSent round.sent (bytes.drop (total (sent done))) session).1.closeRound challenge
        = .ok session'
      ∧ session'.Replayed manifest hash challengeBytes (done ++ [round]) bytes := by
  have hinitial : done ++ [round] <+: manifest.rounds := ⟨rest, by rw [hrounds, List.append_assoc]; rfl⟩
  have helements : (messages round.sent (bytes.drop (total (sent done)))).foldl (fun m e => m.insert e.1 e.2)
      session.elements = LabelMap.ofList (messages (sent (done ++ [round])) bytes) := by
    rw [h.elements, Manifest.sent_append, Manifest.sent_singleton, ManifestEntry.messages_append,
      LabelMap.ofList, LabelMap.ofList, List.foldl_append]
  rw [recordSent_eq, helements]
  have hround : session.manifest.rounds[session.completed]? = some round := by
    rw [h.manifest, h.completed, hrounds, List.getElem?_append_right le_rfl, Nat.sub_self]
    rfl
  have hmessages : ∀ entry ∈ round.sent, ∃ message,
      (LabelMap.ofList (messages (sent (done ++ [round])) bytes)).find? entry.name = some message
        ∧ message.length = entry.size := by
    intro entry hentry
    refine exists_find?_messages hmanifest hinitial hfits ?_
    rw [Manifest.sent_append, Manifest.sent_singleton]
    exact List.mem_append_right _ hentry
  have hsize : session.challengeBytes ≤ Scalar.size := h.challengeBytes ▸ hwidth.le_size
  obtain ⟨challenges, mapDigests, digest, hclose, hdrawn⟩ :=
    { session with elements := .ofList (messages (sent (done ++ [round])) bytes) }.exists_closeRound
      hsize hround hdraws hmessages
  refine ⟨_, hclose, h.manifest, h.hash, h.challengeBytes, ?_, rfl, fun l => ?_, fun l => ?_, hfits⟩
  · rw [List.length_append, List.length_singleton, ← h.completed]
  · rw [hdrawn.challenges, h.challenges, exists_mem_concat]
  · rw [hdrawn.mapDigests, h.mapDigests, exists_mem_concat]

/-- **As many rounds are read as the bytes hold.** -/
theorem replayRounds_eq (hmanifest : manifest.Replayable) (hwidth : SupportedWidth hash challengeBytes)
    (h : session.Replayed manifest hash challengeBytes done bytes) (hrounds : manifest.rounds = done ++ rest) :
    ∃ more left session', rest = more ++ left
      ∧ replayRounds rest (bytes.drop (total (sent done))) session
        = .ok (session', bytes.drop (total (sent (done ++ more))))
      ∧ session'.Replayed manifest hash challengeBytes (done ++ more) bytes
      ∧ ∀ round ∈ left.head?, bytes.length < total (sent (done ++ more ++ [round])) := by
  induction rest generalizing done session with
  | nil =>
    refine ⟨[], [], session, rfl, ?_, ?_, fun round hround => nomatch hround⟩
    · rw [replayRounds, List.append_nil]
    · rwa [List.append_nil]
  | cons round rest ih =>
    have htotal : total (sent (done ++ [round])) = total (sent done) + round.size := by
      rw [Manifest.sent_append, Manifest.sent_singleton, ManifestEntry.total_append]
      rfl
    rw [replayRounds, List.length_drop]
    have hsize := h.size_le
    by_cases hshort : bytes.length - total (sent done) < round.size
    · refine ⟨[], round :: rest, session, rfl, ?_, ?_, fun next hnext => ?_⟩
      · rw [if_pos hshort, List.append_nil]
      · rwa [List.append_nil]
      · obtain rfl := Option.some.inj hnext
        rw [List.append_nil, htotal]
        omega
    · have hdraws : round.challenges ≠ [] := hmanifest.draws round (by rw [hrounds]; simp)
      obtain ⟨challenge, challenges, hchallenges⟩ := List.exists_cons_of_ne_nil hdraws
      obtain ⟨session', hclose, hreplayed⟩ := h.step hmanifest hwidth hrounds
        (by rw [hchallenges]; rfl) (by omega)
      obtain ⟨more, left, session'', hrest, hreplay, hreplayed', hleft⟩ :=
        ih hreplayed (by rw [hrounds, List.append_assoc]; rfl)
      have hdone : done ++ round :: more = done ++ [round] ++ more := by rw [List.append_assoc]; rfl
      refine ⟨round :: more, left, session'', by rw [hrest, List.cons_append], ?_, hdone ▸ hreplayed', hdone ▸ hleft⟩
      · have hrecord : (recordSent round.sent (bytes.drop (total (sent done))) session).2
            = bytes.drop (total (sent (done ++ [round]))) := by
          rw [recordSent_eq, List.drop_drop, htotal]
          rfl
        rw [if_neg hshort, hdone]
        simp only [hchallenges, hclose, hrecord]
        exact hreplay

/-! ## Replaying -/

/-- Bytes that do not hold the next round are shorter than a proof. -/
theorem lt_size_of_next {left : List ManifestRound} (hrounds : manifest.rounds = done ++ left)
    (hnext : ∀ round ∈ left.head?, bytes.length < total (sent (done ++ [round]))) (hleft : left ≠ []) :
    bytes.length < manifest.size := by
  obtain ⟨round, rest, rfl⟩ := List.exists_cons_of_ne_nil hleft
  refine (hnext round rfl).trans_le ?_
  rw [← Manifest.total_sent_manifest, hrounds, List.append_cons done round rest, Manifest.sent_append (done ++ [round]),
    ManifestEntry.total_append]
  exact Nat.le_add_right _ _

/-- **A proof of any length is read as far as it goes**, and only trailing bytes are an error. -/
theorem replay_eq (hmanifest : manifest.Replayable) (hwidth : SupportedWidth hash challengeBytes) (bytes : Bytes) :
    ∃ done left session, manifest.rounds = done ++ left
      ∧ session.Replayed manifest hash challengeBytes done bytes
      ∧ (∀ round ∈ left.head?, bytes.length < total (sent (done ++ [round])))
      ∧ replay bytes manifest hash challengeBytes
        = if left = [] ∧ manifest.size < bytes.length then
            .error (SessionFault.trailing (bytes.length - manifest.size)).error
          else .ok session := by
  have hpos := hwidth.pos
  have hdigest := hwidth.le_digestSize
  have hsize := hwidth.le_size
  obtain ⟨session, hstart, hbegin⟩ : ∃ session, start manifest hash challengeBytes = .ok session
      ∧ session.Replayed manifest hash challengeBytes [] bytes :=
    ⟨_, if_neg (by omega), rfl, rfl, rfl, rfl, rfl, fun l => by simp [LabelMap.labels, LabelMap.empty],
      fun l => by simp [LabelMap.labels, LabelMap.empty], Nat.zero_le _⟩
  obtain ⟨done, left, session', hrounds, hreplay, hreplayed, hnext⟩ :=
    replayRounds_eq hmanifest hwidth hbegin (List.nil_append manifest.rounds).symm
  rw [List.nil_append] at hreplay hreplayed hnext
  change replayRounds manifest.rounds bytes session = _ at hreplay
  have hcompleted : session'.completed = manifest.rounds.length ↔ left = [] := by
    rw [hreplayed.completed, hrounds, List.length_append, Nat.left_eq_add, List.length_eq_zero_iff]
  refine ⟨done, left, session', hrounds, hreplayed, hnext, ?_⟩
  rw [replay, bind_of_eq_ok hstart, bind_of_eq_ok hreplay]
  simp only [hcompleted]
  by_cases hnil : left = []
  · have htotal : total (sent done) = manifest.size := by
      rw [← Manifest.total_sent_manifest, hrounds, hnil, List.append_nil]
    simp only [htotal, hnil, Ne, List.drop_eq_nil_iff, List.length_drop, not_le, and_true, true_and]
    split <;> rfl
  · simp only [hnil, and_false, false_and, if_false]
    rfl

/-- **All rounds are closed at the exact length only.** -/
theorem replay_eq_ok (hmanifest : manifest.Replayable) (hwidth : SupportedWidth hash challengeBytes)
    (h : replay bytes manifest hash challengeBytes = .ok session) :
    ∃ done left, manifest.rounds = done ++ left
      ∧ session.Replayed manifest hash challengeBytes done bytes
      ∧ (left = [] ↔ bytes.length = manifest.size) := by
  obtain ⟨done, left, session', hrounds, hreplayed, hnext, hreplay⟩ := replay_eq hmanifest hwidth bytes
  rw [h] at hreplay
  split at hreplay
  · cases hreplay
  next hfits =>
  obtain rfl := Except.ok.inj hreplay
  refine ⟨done, left, hrounds, hreplayed, fun hnil => ?_, fun heq => ?_⟩
  · have hsize := hreplayed.size_le
    rw [hnil, List.append_nil] at hrounds
    rw [← hrounds, Manifest.total_sent_manifest] at hsize
    exact le_antisymm (not_lt.mp fun hlt => hfits ⟨hnil, hlt⟩) hsize
  · by_contra hne
    exact absurd heq (lt_size_of_next hrounds hnext hne).ne

/-- **Nothing but trailing bytes is an error.** -/
theorem replay_eq_error (hmanifest : manifest.Replayable) (hwidth : SupportedWidth hash challengeBytes)
    {e : VerifierError} :
    replay bytes manifest hash challengeBytes = .error e ↔
      manifest.size < bytes.length ∧ (SessionFault.trailing (bytes.length - manifest.size)).error = e := by
  obtain ⟨done, left, session', hrounds, hreplayed, hnext, hreplay⟩ := replay_eq hmanifest hwidth bytes
  have hnil : manifest.size < bytes.length → left = [] := by
    intro hlt
    by_contra hne
    exact absurd (lt_size_of_next hrounds hnext hne) hlt.not_gt
  rw [hreplay]
  split
  · next h => simp [h.2]
  · next h => simp [not_lt.mp fun hlt => h ⟨hnil hlt, hlt⟩]

/-- **Within the size, replay succeeds.** -/
theorem exists_replay (hmanifest : manifest.Replayable) (hwidth : SupportedWidth hash challengeBytes)
    (h : bytes.length ≤ manifest.size) : ∃ session, replay bytes manifest hash challengeBytes = .ok session := by
  cases hreplay : replay bytes manifest hash challengeBytes with
  | ok session => exact ⟨session, rfl⟩
  | error e =>
    obtain ⟨hlt, -⟩ := (replay_eq_error hmanifest hwidth).mp hreplay
    exact absurd h hlt.not_ge

end Session

end PlonkVerifier
