import Mathlib
import PlonkVerifier.Proofs.Answers
import PlonkVerifier.Proofs.Rounds

/-!
# Proofs/Grammar — which bytes are a proof

A replay closes the rounds that fit into the bytes, and no others (`Manifest.fitting`).  What is left over is an error
behind the last round only; in front of it the bytes are dropped, and with them the messages of the open rounds
(`replay_grammar`).
-/

namespace PlonkVerifier

open ManifestEntry (total messages)

namespace Manifest

variable {manifest : Manifest} {k n : ℕ}

/-- A manifest whose messages have names of their own and whose rounds all draw a challenge. -/
structure Distinct (manifest : Manifest) : Prop where
  nodup : ((manifest.rounds.flatMap (·.elements)).map (·.name)).Nodup
  draws : ∀ round ∈ manifest.rounds, round.challenges ≠ []

theorem sent_sublist (rounds : List ManifestRound) : (sent rounds).Sublist (rounds.flatMap (·.elements)) :=
  List.Sublist.flatMap_right rounds fun _ _ => List.filter_sublist

theorem Distinct.replayable (h : manifest.Distinct) : manifest.Replayable where
  nodup := h.nodup.sublist ((sent_sublist _).map _)
  draws := h.draws

/-- **The messages of open rounds are none of the closed ones.** -/
theorem Distinct.name_notMem (h : manifest.Distinct) {round : ManifestRound} (hround : round ∈ manifest.rounds.drop k)
    {entry : ManifestEntry} (hentry : entry ∈ round.elements) :
    entry.name ∉ (sent (manifest.rounds.take k)).map (·.name) := by
  have hnodup := h.nodup
  rw [← List.take_append_drop k manifest.rounds, List.flatMap_append, List.map_append, List.nodup_append'] at hnodup
  obtain ⟨-, -, hdisjoint⟩ := hnodup
  intro hname
  exact hdisjoint (((sent_sublist _).map _).subset hname)
    (List.mem_map_of_mem (List.mem_flatMap.mpr ⟨round, hround, hentry⟩))

/-- The largest number of rounds that fit into `n` bytes. -/
def fitting (manifest : Manifest) (n : ℕ) : ℕ :=
  Nat.findGreatest (fun k => manifest.offset k ≤ n) manifest.rounds.length

theorem offset_length (manifest : Manifest) : manifest.offset manifest.rounds.length = manifest.size := by
  rw [offset, List.take_length, total_sent_manifest]

/-- **The rounds completed are as many as fit the bytes.** -/
theorem isGreatest_fitting (manifest : Manifest) (n : ℕ) :
    IsGreatest {k | k ≤ manifest.rounds.length ∧ manifest.offset k ≤ n} (manifest.fitting n) :=
  ⟨⟨Nat.findGreatest_le _,
    Nat.findGreatest_spec (P := fun k => manifest.offset k ≤ n) (Nat.zero_le _) (Nat.zero_le n)⟩,
    fun _ hk => Nat.le_findGreatest hk.1 hk.2⟩

/-- Rounds fit that are followed by one that does not. -/
theorem fitting_eq_length {done left : List ManifestRound} (hrounds : manifest.rounds = done ++ left)
    (hfits : total (sent done) ≤ n) (hnext : ∀ round ∈ left.head?, n < total (sent (done ++ [round]))) :
    manifest.fitting n = done.length := by
  refine (manifest.isGreatest_fitting n).unique ⟨⟨?_, ?_⟩, fun k hk => not_lt.mp fun hdone => ?_⟩
  · rw [hrounds, List.length_append]
    exact Nat.le_add_right _ _
  · rwa [offset, hrounds, List.take_left]
  · cases left with
    | nil =>
      rw [hrounds, List.append_nil] at hk
      exact absurd hk.1 hdone.not_ge
    | cons round rest =>
      have htake : manifest.rounds.take (done.length + 1) = done ++ [round] := by
        rw [hrounds, List.append_cons, List.take_left' (by rw [List.length_append, List.length_singleton])]
      have hshort : n < manifest.offset (done.length + 1) := by
        rw [offset, htake]
        exact hnext round rfl
      exact absurd hk.2 (hshort.trans_le (manifest.offset_mono hdone)).not_ge

end Manifest

namespace Session

open Manifest (sent)

variable {manifest : Manifest} {hash : ChallengeHash} {challengeBytes k : ℕ} {done : List ManifestRound}
  {bytes : Bytes} {session : Session}

/-- An unsupported width is refused before any byte is read. -/
theorem replay_of_unsupported (hwidth : ¬ SupportedWidth hash challengeBytes) (bytes : Bytes) :
    replay bytes manifest hash challengeBytes = .error (SessionFault.unsupportedWidth challengeBytes).error := by
  have hstart : start manifest hash challengeBytes
      = .error (SessionFault.unsupportedWidth challengeBytes).error := by
    refine if_pos ?_
    by_contra hnot
    exact hwidth ⟨by omega, by omega, by omega⟩
  rw [replay, hstart]
  rfl

/-- **Every round that fits is reached.** -/
theorem exists_after (hmanifest : manifest.Replayable) (hwidth : SupportedWidth hash challengeBytes)
    (hk : k ≤ manifest.rounds.length) (hoffset : manifest.offset k ≤ bytes.length) :
    ∃ session, After manifest hash challengeBytes bytes k session := by
  -- A replay of the front alone closes at least `k` rounds, and goes through the same sessions.
  have hlength : (bytes.take (manifest.offset k)).length = manifest.offset k := List.length_take_of_le hoffset
  obtain ⟨done, left, session, hrounds, hreplayed, hnext, hreplay⟩ :=
    replay_eq hmanifest hwidth (bytes.take (manifest.offset k))
  have hle : manifest.offset k ≤ manifest.size := by
    rw [← Manifest.offset_length]
    exact manifest.offset_mono hk
  rw [if_neg (by rw [hlength]; exact fun h => hle.not_gt h.2)] at hreplay
  have hclosed : k ≤ session.completed := by
    rw [hreplayed.completed, ← Manifest.fitting_eq_length hrounds hreplayed.size_le hnext]
    exact (manifest.isGreatest_fitting _).2 ⟨hk, hlength.ge⟩
  obtain ⟨reached, hreached⟩ := (After.of_replay hreplay).exists_of_le hclosed
  exact ⟨reached, hreached.of_take_eq (by rw [List.take_take, min_self])⟩

/-- What a session answers that has read the first `k` rounds of a proof, and nothing else of it. -/
structure Holds (G : Type) [CommitmentGroup G] (manifest : Manifest) (k : ℕ) (bytes : Bytes) (session : Session) :
    Prop where
  completed : session.completed = k
  elements : ∀ name content, session.elements.find? name = some content ↔
    (name, content) ∈ messages (sent (manifest.rounds.take k)) bytes
  challenge : ∀ label, (∃ x, (session.transcript (G := G)).challenge label = .ok x) ↔
    ∃ round ∈ manifest.rounds.take k, round.isMap = false ∧ label ∈ round.challenges
  mapMember : ∀ challenge member, (∃ x, (session.transcript (G := G)).mapMember challenge member = .ok x) ↔
    ∃ round ∈ manifest.rounds.take k, round.isMap = true ∧ challenge ∈ round.challenges
  exported : session.exported = bytes.take (manifest.offset k)
  /-- The messages of open rounds are missing. -/
  unread : ∀ round ∈ manifest.rounds.drop k, ∀ entry ∈ round.elements,
    (session.transcript (G := G)).evaluation entry.name = .error (.missingEvaluation entry.name)
    ∧ (session.transcript (G := G)).vector entry.name = .error (.missingEvaluation entry.name)
    ∧ (session.transcript (G := G)).commitment entry.name = .error (.missingCommitment entry.name)

/-- The rounds that fit are read whole. -/
theorem Replayed.holds [CommitmentGroup G] (hmanifest : manifest.Distinct) (hwidth : SupportedWidth hash challengeBytes)
    (hk : k ≤ manifest.rounds.length)
    (h : session.Replayed manifest hash challengeBytes (manifest.rounds.take k) bytes) :
    session.Holds G manifest k bytes := by
  have hcompleted : session.completed = k := by rw [h.completed, List.length_take, min_eq_left hk]
  have hsize : session.challengeBytes ≤ Scalar.size := h.challengeBytes ▸ hwidth.le_size
  have hnodup : ((sent (manifest.rounds.take k)).map (·.name)).Nodup := by
    have hnames := hmanifest.replayable.nodup
    rw [← List.take_append_drop k manifest.rounds, Manifest.sent_append, List.map_append] at hnames
    exact hnames.of_append_left
  have hfound : ∀ name content, session.elements.find? name = some content ↔
      (name, content) ∈ messages (sent (manifest.rounds.take k)) bytes := by
    intro name content
    rw [h.elements, LabelMap.find?_ofList_eq_some_iff (by rwa [ManifestEntry.map_fst_messages])]
  refine ⟨hcompleted, hfound, fun label => exists_challenge_iff.trans (h.challenges label),
    fun challenge member => (exists_mapMember_iff hsize).trans (h.mapDigests challenge), ?_,
    fun round hround entry hentry => messages_eq_missing ?_⟩
  · calc session.exported = (sent (manifest.rounds.take k)).flatMap fun entry =>
          (session.elements.find? entry.name).getD [] := by
          rw [exported_eq, h.manifest, hcompleted, sent, List.flatMap_assoc]; rfl
      _ = bytes.take (manifest.offset k) := by
          rw [h.elements]
          exact ManifestEntry.flatMap_find? hnodup bytes .empty
  · rw [LabelMap.find?_eq_none_iff, LabelMap.mem_labels_iff]
    rintro ⟨content, hcontent⟩
    refine hmanifest.name_notMem hround hentry ?_
    rw [← ManifestEntry.map_fst_messages _ bytes]
    exact List.mem_map_of_mem ((hfound entry.name content).mp hcontent)

/-- **A replay accepts what its grammar allows.**  Let `k` be the largest number of rounds that fit into the bytes.
A replay fails if and only if the challenge width is not supported or bytes are left over behind the last round, with
an error that says so; otherwise it closes the first `k` rounds.  It then knows the messages of these rounds, each from
its own part of the bytes, and their challenges; it exports the bytes that it has read; and no message of an open round
can be read. -/
theorem replay_grammar [CommitmentGroup G] (hmanifest : manifest.Distinct) (hash : ChallengeHash) (challengeBytes : ℕ)
    (bytes : Bytes) :
    ((∃ e, replay bytes manifest hash challengeBytes = .error e) ↔
      ¬ SupportedWidth hash challengeBytes ∨ manifest.fitting bytes.length = manifest.rounds.length
        ∧ manifest.offset (manifest.fitting bytes.length) < bytes.length)
    ∧ (∀ e, replay bytes manifest hash challengeBytes = .error e →
      e = (SessionFault.unsupportedWidth challengeBytes).error
        ∨ e = (SessionFault.trailing (bytes.length - manifest.offset (manifest.fitting bytes.length))).error)
    ∧ ∀ session, replay bytes manifest hash challengeBytes = .ok session →
      session.Holds G manifest (manifest.fitting bytes.length) bytes := by
  by_cases hwidth : SupportedWidth hash challengeBytes
  · obtain ⟨done, left, session, hrounds, hreplayed, hnext, hreplay⟩ := replay_eq hmanifest.replayable hwidth bytes
    have hfitting := Manifest.fitting_eq_length hrounds hreplayed.size_le hnext
    have hdone : manifest.rounds.take done.length = done := by rw [hrounds, List.take_left]
    have hall : left = [] ↔ done.length = manifest.rounds.length := by
      rw [hrounds, List.length_append, Nat.left_eq_add, List.length_eq_zero_iff]
    have htrailing : left = [] ∧ manifest.size < bytes.length ↔
        done.length = manifest.rounds.length ∧ manifest.offset done.length < bytes.length := by
      rw [hall]
      refine and_congr_right fun hlength => ?_
      rw [hlength, Manifest.offset_length]
    have hholds : session.Holds G manifest done.length bytes :=
      Replayed.holds hmanifest hwidth (by rw [hrounds, List.length_append]; exact Nat.le_add_right _ _)
        (hdone.symm ▸ hreplayed)
    rw [hfitting, hreplay, ← htrailing]
    split
    · next htrail =>
      refine ⟨by simp [htrail], fun e he => .inr ?_, fun session h => nomatch h⟩
      rw [hall.mp htrail.1, Manifest.offset_length]
      exact (Except.error.inj he).symm
    · next hfits =>
      refine ⟨by simp [hfits, hwidth], fun e h => (nomatch h), fun session' h => ?_⟩
      rwa [← Except.ok.inj h]
  · rw [replay_of_unsupported hwidth]
    exact ⟨by simp [hwidth], fun e he => .inl (Except.error.inj he).symm, fun session h => nomatch h⟩

/-- One byte too many, and eight bytes into the second round. -/
theorem replay_grammar_twoRounds :
    Manifest.twoRounds.Distinct
    ∧ (∃ e, replay (List.replicate 65 0) .twoRounds .keccak256 32 = .error e)
    ∧ ∃ session, replay (List.replicate 40 0) .twoRounds .keccak256 32 = .ok session
      ∧ session.completed = 1
      ∧ session.elements.find? "W" = some (List.replicate 32 0)
      ∧ (∃ x, (session.transcript (G := Point)).challenge "gamma" = .ok x)
      ∧ (∀ member x, (session.transcript (G := Point)).mapMember "nu" member ≠ .ok x)
      ∧ session.exported = List.replicate 32 0
      ∧ (session.transcript (G := Point)).evaluation "w" = .error (.missingEvaluation "w") := by
  have hmanifest : Manifest.twoRounds.Distinct := ⟨by decide, by decide⟩
  have hwidth : SupportedWidth .keccak256 32 := ⟨by decide, by decide, by decide⟩
  obtain ⟨htrailing, -, -⟩ := replay_grammar (G := Point) hmanifest .keccak256 32 (List.replicate 65 0)
  obtain ⟨hfails, -, haccepts⟩ := replay_grammar (G := Point) hmanifest .keccak256 32 (List.replicate 40 0)
  obtain ⟨session, hsession⟩ : ∃ session, replay (List.replicate 40 0) .twoRounds .keccak256 32 = .ok session := by
    cases hreplay : replay (List.replicate 40 0) .twoRounds .keccak256 32 with
    | ok session => exact ⟨session, rfl⟩
    | error e =>
      rcases hfails.mp ⟨e, hreplay⟩ with hnot | ⟨hall, -⟩
      · exact absurd hwidth hnot
      · exact absurd hall (by decide)
  have hholds := haccepts session hsession
  refine ⟨hmanifest, htrailing.mpr (.inr (by decide)), session, hsession, hholds.completed,
    (hholds.elements _ _).mpr (by decide), (hholds.challenge _).mpr ⟨_, .head _, by decide⟩, fun member x hx => ?_,
    hholds.exported, (hholds.unread ⟨[.sent "w" 32], ["nu"], true⟩ (by decide) (.sent "w" 32) (by decide)).1⟩
  obtain ⟨round, hround, hmap, -⟩ := (hholds.mapMember "nu" member).mp ⟨x, hx⟩
  obtain rfl := List.mem_singleton.mp hround
  cases hmap

end Session

end PlonkVerifier
