import Mathlib
import PlonkVerifier.Proofs.Rounds

/-!
# Proofs/Binding — the digests bind the messages

Closing a round hashes the digest before and the bytes of the round (`After.exists_hashed`).  The number of these bytes
is fixed, so that equal inputs have equal bytes; hence two replays with the same digest after `k` rounds have read the
same bytes, or two of the inputs are a collision of the hash (`After.take_eq_or_collide`).
-/

namespace PlonkVerifier

open ManifestEntry (messages)

namespace Session

variable {manifest : Manifest} {hash : ChallengeHash} {challengeBytes : ℕ} {bytes bytes' : Bytes}
  {session session' : Session} {round : ManifestRound} {k n : ℕ}

/-- **The messages of a round are recorded as they are read.** -/
theorem sentBytes_recordSent (hnodup : (round.sent.map (·.name)).Nodup) (bytes : Bytes) (session : Session) :
    (recordSent round.sent bytes session).1.sentBytes round = bytes.take round.size := by
  rw [recordSent_eq]
  exact ManifestEntry.flatMap_find? hnodup bytes session.elements

/-- What is hashed when a round is closed. -/
def Hashed (manifest : Manifest) (hash : ChallengeHash) (challengeBytes : ℕ) (bytes : Bytes) (i : ℕ) (input : Bytes) :
    Prop :=
  ∃ session round, After manifest hash challengeBytes bytes i session ∧ manifest.rounds[i]? = some round
    ∧ (recordSent round.sent (bytes.drop (manifest.offset i)) session).1.roundInput round = .ok input

namespace After

/-- **A round is closed over its bytes**, which are hashed behind the digest before. -/
theorem exists_hashed (hmanifest : manifest.Replayable)
    (h : After manifest hash challengeBytes bytes (k + 1) session') :
    ∃ session round, After manifest hash challengeBytes bytes k session ∧ manifest.rounds[k]? = some round
      ∧ Hashed manifest hash challengeBytes bytes k (session.digest ++ manifest.part k bytes)
      ∧ session'.digest = hash.digest (session.digest ++ manifest.part k bytes)
      ∧ (manifest.part k bytes).length = round.size := by
  cases h with | @close _ session _ round h hround hread =>
  obtain ⟨challenge, hclosed⟩ := exists_closed_of_readRound hread (by rw [h.kept.manifest, h.kept.completed, hround])
  have hsent := sentBytes_recordSent (hmanifest.nodup_names hround).1 (bytes.drop (manifest.offset k)) session
  rw [← Manifest.part_eq hround] at hsent
  have hrecorded : (recordSent round.sent (bytes.drop (manifest.offset k)) session).1.digest = session.digest
      ∧ (recordSent round.sent (bytes.drop (manifest.offset k)) session).1.hash = hash := by
    rw [recordSent_eq]
    exact ⟨rfl, h.kept.hash⟩
  refine ⟨session, round, h, hround, ⟨session, round, h, hround, ?_⟩, ?_, ?_⟩
  · exact roundInput_eq_ok.mpr ⟨hclosed.recorded, by rw [hsent, hrecorded.1]⟩
  · rw [hclosed.digest, hsent, hrecorded.1, hrecorded.2]
  · rw [← hsent, hclosed.recorded.length_sentBytes]

/-! ## Two replays -/

/-- **Challenges are kept** until they are drawn again. -/
theorem find?_eq (h : After manifest hash challengeBytes bytes k session)
    (h' : After manifest hash challengeBytes bytes n session') (hk : k ≤ n) {l : String}
    (hl : ∀ round ∈ manifest.rounds.drop k, l ∉ round.challenges) :
    session'.challenges.find? l = session.challenges.find? l
      ∧ session'.mapDigests.find? l = session.mapDigests.find? l := by
  induction h' with
  | start h' =>
    obtain rfl := Nat.le_zero.mp hk
    rw [h.unique (.start h')]
    exact ⟨rfl, rfl⟩
  | @close n last last' round h' hround hread ih =>
    rcases Nat.of_le_succ hk with hk | rfl
    · obtain ⟨hchallenge, hmap⟩ := ih hk
      obtain ⟨challenge, hclosed⟩ :=
        exists_closed_of_readRound hread (by rw [h'.kept.manifest, h'.kept.completed, hround])
      have hmem : round ∈ manifest.rounds.drop k :=
        List.mem_of_getElem? (i := n - k) (by rw [List.getElem?_drop, Nat.add_sub_cancel' hk, hround])
      obtain ⟨hkept, hkept'⟩ := hclosed.kept l (hl round hmem)
      rw [recordSent_eq] at hkept hkept'
      exact ⟨hkept.trans hchallenge, hkept'.trans hmap⟩
    · rw [h.unique (h'.close hround hread)]
      exact ⟨rfl, rfl⟩

end After

/-- Two replays hash different inputs to the same digest when a round is closed. -/
def Collide (manifest : Manifest) (hash : ChallengeHash) (challengeBytes : ℕ) (bytes bytes' : Bytes) (i : ℕ) : Prop :=
  ∃ input input', Hashed manifest hash challengeBytes bytes i input
    ∧ Hashed manifest hash challengeBytes bytes' i input' ∧ input ≠ input' ∧ hash.digest input = hash.digest input'

/-- **A digest binds the bytes of its round and of the rounds before**, up to collisions. -/
theorem After.take_eq_or_collide (hmanifest : manifest.Replayable)
    (h : After manifest hash challengeBytes bytes k session)
    (h' : After manifest hash challengeBytes bytes' k session') (hdigest : session.digest = session'.digest) :
    bytes.take (manifest.offset k) = bytes'.take (manifest.offset k)
      ∨ ∃ i < k, Collide manifest hash challengeBytes bytes bytes' i := by
  induction k generalizing session session' with
  | zero => exact .inl rfl
  | succ k ih =>
    obtain ⟨before, round, hbefore, hround, hhashed, hnext, hlength⟩ := h.exists_hashed hmanifest
    obtain ⟨before', round', hbefore', hround', hhashed', hnext', hlength'⟩ := h'.exists_hashed hmanifest
    obtain rfl := Option.some.inj (hround.symm.trans hround')
    rw [hnext, hnext'] at hdigest
    by_cases hinput : before.digest ++ manifest.part k bytes = before'.digest ++ manifest.part k bytes'
    · -- the parts are equally long, so that the inputs split alike
      obtain ⟨hdigest, hpart⟩ := List.append_inj' hinput (hlength.trans hlength'.symm)
      rcases ih hbefore hbefore' hdigest with hfront | ⟨i, hi, hcollide⟩
      · exact .inl (Manifest.take_offset_succ_eq_iff.mpr ⟨hfront, hpart⟩)
      · exact .inr ⟨i, hi.trans k.lt_succ_self, hcollide⟩
    · exact .inr ⟨k, k.lt_succ_self, _, _, hhashed, hhashed', hinput, hdigest⟩

/-- **The digests bind the messages.**  A replay ends after the rounds that it completes; take two that complete at
least `k` rounds.  If the bytes of these rounds are equal, the sessions after each of the rounds are equal, with their
digests and challenges, and so are the final answers to all challenges that are not drawn again.  If the digests after
`k` rounds are equal, the bytes of the rounds are equal or one of the rounds hashes different inputs to one digest. -/
theorem replay_binding {G : Type} [CommitmentGroup G] (hmanifest : manifest.Replayable)
    (h : replay bytes manifest hash challengeBytes = .ok session)
    (h' : replay bytes' manifest hash challengeBytes = .ok session')
    (hk : k ≤ session.completed) (hk' : k ≤ session'.completed) :
    After manifest hash challengeBytes bytes session.completed session
    ∧ After manifest hash challengeBytes bytes' session'.completed session'
    ∧ ∃ last last', After manifest hash challengeBytes bytes k last ∧ After manifest hash challengeBytes bytes' k last'
      ∧ (bytes.take (manifest.offset k) = bytes'.take (manifest.offset k) →
        (∀ i ≤ k, ∃ common, After manifest hash challengeBytes bytes i common
          ∧ After manifest hash challengeBytes bytes' i common)
        ∧ ∀ l, (∀ round ∈ manifest.rounds.drop k, l ∉ round.challenges) →
          (session.transcript (G := G)).challenge l = (session'.transcript (G := G)).challenge l
          ∧ ∀ member, (session.transcript (G := G)).mapMember l member
            = (session'.transcript (G := G)).mapMember l member)
      ∧ (last.digest = last'.digest →
        bytes.take (manifest.offset k) = bytes'.take (manifest.offset k)
          ∨ ∃ i < k, Collide manifest hash challengeBytes bytes bytes' i) := by
  have hfinal := After.of_replay h
  have hfinal' := After.of_replay h'
  obtain ⟨last, hlast⟩ := hfinal.exists_of_le hk
  obtain ⟨last', hlast'⟩ := hfinal'.exists_of_le hk'
  refine ⟨hfinal, hfinal', last, last', hlast, hlast', fun hbytes => ⟨fun i hi => ?_, fun l hl => ?_⟩,
    hlast.take_eq_or_collide hmanifest hlast'⟩
  · obtain ⟨common, hcommon⟩ := hlast.exists_of_le hi
    refine ⟨common, hcommon, hcommon.of_take_eq ?_⟩
    rw [← Manifest.take_take_offset hi bytes, hbytes, Manifest.take_take_offset hi]
  · obtain rfl := (hlast.of_take_eq hbytes).unique hlast'
    obtain ⟨hchallenge, hmap⟩ := hlast.find?_eq hfinal hk hl
    obtain ⟨hchallenge', hmap'⟩ := hlast'.find?_eq hfinal' hk' hl
    have hderive : session.derive = session'.derive := by
      funext input
      rw [derive, derive, hfinal.kept.hash, hfinal'.kept.hash, hfinal.kept.challengeBytes,
        hfinal'.kept.challengeBytes]
    refine ⟨?_, fun member => ?_⟩
    · simp only [transcript, hchallenge, hchallenge']
    · simp only [transcript, hmap, hmap', hderive]

/-- Two proofs that differ only in the second round share the first round's challenge. -/
theorem replay_binding_twoRounds :
    ∃ session session', replay (List.replicate 64 0) .twoRounds .keccak256 32 = .ok session
      ∧ replay (List.replicate 32 0 ++ List.replicate 32 1) .twoRounds .keccak256 32 = .ok session'
      ∧ (session.transcript (G := Point)).challenge "beta" = (session'.transcript (G := Point)).challenge "beta"
      ∧ (session.digest = session'.digest → ∃ i < 2, Collide .twoRounds .keccak256 32
        (List.replicate 64 0) (List.replicate 32 0 ++ List.replicate 32 1) i) := by
  have hmanifest := Manifest.replayable_twoRounds
  have hwidth : SupportedWidth .keccak256 32 := ⟨by decide, by decide, by decide⟩
  have hreplay : ∀ bytes : Bytes, bytes.length = 64 → ∃ session, replay bytes .twoRounds .keccak256 32 = .ok session
      ∧ session.completed = 2 := by
    intro bytes hlength
    obtain ⟨session, h⟩ := exists_replay hmanifest hwidth hlength.le
    obtain ⟨done, left, hrounds, hreplayed, hnil⟩ := replay_eq_ok hmanifest hwidth h
    rw [hnil.mpr hlength, List.append_nil] at hrounds
    exact ⟨session, h, by rw [hreplayed.completed, ← hrounds]; rfl⟩
  obtain ⟨session, h, hcompleted⟩ := hreplay (List.replicate 64 0) rfl
  obtain ⟨session', h', hcompleted'⟩ := hreplay (List.replicate 32 0 ++ List.replicate 32 1) rfl
  -- the first rounds are equal, the second ones differ
  obtain ⟨-, -, -, -, -, -, hequal, -⟩ := replay_binding (G := Point) (k := 1) hmanifest h h'
    (by rw [hcompleted]; decide) (by rw [hcompleted']; decide)
  obtain ⟨hfinal, hfinal', last, last', hlast, hlast', -, hbinds⟩ := replay_binding (G := Point) (k := 2) hmanifest h h'
    hcompleted.ge hcompleted'.ge
  rw [hcompleted] at hfinal
  rw [hcompleted'] at hfinal'
  obtain rfl := hfinal.unique hlast
  obtain rfl := hfinal'.unique hlast'
  exact ⟨session, session', h, h', ((hequal (by decide)).2 "beta" (by decide)).1,
    fun hdigest => (hbinds hdigest).resolve_left (by decide)⟩

end Session

end PlonkVerifier
