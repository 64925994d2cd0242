import Mathlib
import PlonkVerifier.Proofs.Arithmetic
import PlonkVerifier.Proofs.Grammar
import PlonkVerifier.Transcript.Words

/-!
# Proofs/Words — where a replay with 64-bit sizes stops

A replay adds up the sizes of a round and compares the end of the round with the length of the bytes.  Both kinds of
arithmetic find this end if it has 64 bits (`recordRound_of_fits`).  Otherwise checked arithmetic stops, and the end
modulo `2 ^ 64` either lies behind the bytes, which drops the round as it should be, or lets a message be cut from
bytes that are not there (`Arithmetic.crash?`).  Apart from these rounds a replay is that of `replay`
(`replay_within_words`).
-/

namespace PlonkVerifier

open ManifestEntry (total)
open Manifest (sent)

/-- **The size that a program finds is the size, made a 64-bit number.** -/
theorem Manifest.sizeWords_eq (manifest : Manifest) (arithmetic : Arithmetic) :
    manifest.sizeWords arithmetic = arithmetic.word manifest.size := by
  rw [sizeWords, Arithmetic.sum_eq]
  exact congrArg _ manifest.total_sent_manifest

/-! ## One round -/

namespace Arithmetic

variable {arithmetic : Arithmetic} {n length : ℕ}

/-- What happens at a round that ends at `stop`, of bytes of this length. -/
def crash? (arithmetic : Arithmetic) (stop length : ℕ) : Option Crash :=
  if stop < UInt64.size then none
  else
    match arithmetic with
    | checked => some .overflow
    | wrapping => if stop % UInt64.size ≤ length then some .outOfBounds else none

theorem crash?_of_lt (h : n < UInt64.size) : arithmetic.crash? n length = none := if_pos h

end Arithmetic

namespace Session

variable {arithmetic : Arithmetic} {bytes : Bytes} {entries : List ManifestEntry} {round : ManifestRound}
  {offset : ℕ} {session : Session} {crash : Crash}

/-- **Messages that are there are recorded.** -/
theorem recordSlices_of_le (hlength : bytes.length < UInt64.size) (h : offset + total entries ≤ bytes.length) :
    recordSlices arithmetic bytes entries offset session
      = .ok ((recordSent entries (bytes.drop offset) session).1, offset + total entries) := by
  induction entries generalizing offset session with
  | nil => rfl
  | cons entry entries ih =>
    rw [total, List.map_cons, List.sum_cons, ← Nat.add_assoc] at h ⊢
    have hstop : offset + entry.size ≤ bytes.length := (Nat.le_add_right _ _).trans h
    have hslice : bytes.slice offset (offset + entry.size) = .ok ((bytes.drop offset).take entry.size) := by
      rw [Bytes.slice, if_pos ⟨Nat.le_add_right _ _, hstop⟩, List.drop_take, Nat.add_sub_cancel_left]
    rw [recordSlices, Arithmetic.add, Arithmetic.word_of_lt (hstop.trans_lt hlength)]
    change (bytes.slice offset (offset + entry.size) >>= fun message => _) = _
    rw [bind_of_eq_ok hslice, ih h, recordSent, List.drop_drop]
    rfl

/-- **A message that is not there is cut from nowhere**, even if the end of its round wraps. -/
theorem recordSlices_wrapping (hlength : bytes.length < UInt64.size) (hsizes : ∀ entry ∈ entries, entry.size < UInt64.size)
    (hoffset : offset ≤ bytes.length) (h : bytes.length < offset + total entries) :
    recordSlices .wrapping bytes entries offset session = .error .outOfBounds := by
  induction entries generalizing offset session with
  | nil => exact absurd h hoffset.not_gt
  | cons entry entries ih =>
    obtain ⟨hsize, hsizes⟩ := List.forall_mem_cons.mp hsizes
    rw [total, List.map_cons, List.sum_cons, ← Nat.add_assoc] at h
    rw [recordSlices, Arithmetic.add, Arithmetic.word_wrapping]
    change (bytes.slice offset ((offset + entry.size) % UInt64.size) >>= fun message => _) = _
    by_cases hstop : offset + entry.size ≤ bytes.length
    · rw [Nat.mod_eq_of_lt (hstop.trans_lt hlength), Bytes.slice, if_pos ⟨Nat.le_add_right _ _, hstop⟩]
      exact ih hsizes hstop h
    · -- The end of this message is behind the bytes, or it wraps to a number below its start.
      have hrange : ¬ (offset ≤ (offset + entry.size) % UInt64.size
          ∧ (offset + entry.size) % UInt64.size ≤ bytes.length) := by
        rcases Nat.lt_or_ge (offset + entry.size) UInt64.size with hlt | hge
        · rw [Nat.mod_eq_of_lt hlt]
          omega
        · rw [Nat.mod_eq_sub_mod hge, Nat.mod_eq_of_lt (by omega)]
          omega
      rw [Bytes.slice, if_neg hrange]
      rfl

/-- A round is refused or cut by one comparison of words. -/
theorem recordRound_eq :
    recordRound arithmetic bytes round offset session = (do
      let stop ← arithmetic.word (offset + round.size)
      if bytes.length < stop then return none
      return some (← recordSlices arithmetic bytes round.sent offset session)) := by
  have hstop : (arithmetic.sum (round.sent.map (·.size)) >>= fun size => arithmetic.add offset size)
      = arithmetic.word (offset + round.size) := by
    have h := arithmetic.word_bind_add round.size offset
    simp only [Arithmetic.sum_eq, Arithmetic.add, Nat.add_comm offset] at h ⊢
    exact h
  rw [recordRound, ← hstop, bind_assoc]

/-- A round that fits is recorded as without words. -/
theorem recordRound_of_fits (hlength : bytes.length < UInt64.size) (h : offset + round.size ≤ bytes.length) :
    recordRound arithmetic bytes round offset session
      = .ok (some ((recordSent round.sent (bytes.drop offset) session).1, offset + round.size)) := by
  rw [recordRound_eq, Arithmetic.word_of_lt (h.trans_lt hlength)]
  change (if bytes.length < offset + round.size then _ else _) = _
  rw [if_neg h.not_gt, recordSlices_of_le hlength h]
  rfl

/-- A round that does not fit, and whose end is a word, stops the replay. -/
theorem recordRound_of_short (hshort : bytes.length < offset + round.size)
    (hcrash : arithmetic.crash? (offset + round.size) bytes.length = none) :
    recordRound arithmetic bytes round offset session = .ok none := by
  unfold Arithmetic.crash? at hcrash
  rw [recordRound_eq]
  by_cases hstop : offset + round.size < UInt64.size
  · rw [Arithmetic.word_of_lt hstop]
    exact if_pos hshort
  · rw [if_neg hstop] at hcrash
    cases arithmetic with
    | checked => cases hcrash
    | wrapping =>
      rw [Arithmetic.word_wrapping]
      exact if_pos (not_le.mp fun hle => Option.some_ne_none _ ((if_pos hle).symm.trans hcrash))

/-- A round whose end is no word crashes it. -/
theorem recordRound_of_crash (hlength : bytes.length < UInt64.size)
    (hsizes : ∀ entry ∈ round.sent, entry.size < UInt64.size) (hoffset : offset ≤ bytes.length)
    (hcrash : arithmetic.crash? (offset + round.size) bytes.length = some crash) :
    recordRound arithmetic bytes round offset session = .error crash := by
  have hstop : ¬ offset + round.size < UInt64.size := by
    intro hstop
    rw [Arithmetic.crash?_of_lt hstop] at hcrash
    cases hcrash
  unfold Arithmetic.crash? at hcrash
  rw [if_neg hstop] at hcrash
  rw [recordRound_eq]
  cases arithmetic with
  | checked =>
    obtain rfl := Option.some.inj hcrash
    rw [Arithmetic.word, if_neg hstop]
    rfl
  | wrapping =>
    obtain ⟨hle, hcrash⟩ := Option.ite_none_right_eq_some.mp hcrash
    obtain rfl := Option.some.inj hcrash
    have hcut : recordSlices .wrapping bytes round.sent offset session = .error .outOfBounds :=
      recordSlices_wrapping hlength hsizes hoffset (by change _ < offset + round.size; omega)
    rw [Arithmetic.word_wrapping]
    change (if bytes.length < (offset + round.size) % UInt64.size then _ else _) = _
    rw [if_neg hle.not_gt, hcut]
    rfl

/-! ## All rounds -/

variable {rounds : List ManifestRound} {manifest : Manifest} {hash : ChallengeHash} {challengeBytes k n : ℕ}
  {last : Session}

theorem replayRounds_of_fits (h : offset + round.size ≤ bytes.length) :
    replayRounds (round :: rounds) (bytes.drop offset) session = (do
      replayRounds rounds (bytes.drop (offset + round.size)) (← session.readRound round (bytes.drop offset))) := by
  rw [replayRounds, if_neg (by rw [List.length_drop]; omega), readRound, recordSent_eq, List.drop_drop]
  generalize round.challenges = challenges
  cases challenges with
  | nil => rfl
  | cons challenge challenges => rfl

theorem replayRoundsFrom_of_fits (hlength : bytes.length < UInt64.size) (h : offset + round.size ≤ bytes.length) :
    replayRoundsFrom arithmetic bytes (round :: rounds) offset session = (do
      replayRoundsFrom arithmetic bytes rounds (offset + round.size)
        (← (session.readRound round (bytes.drop offset)).mapError .rejected)) := by
  rw [replayRoundsFrom, recordRound_of_fits hlength h, readRound]
  generalize round.challenges = challenges
  cases challenges with
  | nil => rfl
  | cons challenge challenges => rfl

/-- What `replay` and a replay with 64-bit sizes find after the same rounds. -/
inductive Agree (bytes : Bytes) : Except VerifierError (Session × Bytes) → Except Halt (Session × ℕ) → Prop
  | ok {session : Session} {offset : ℕ} (h : offset ≤ bytes.length) :
    Agree bytes (.ok (session, bytes.drop offset)) (.ok (session, offset))
  | error {e : VerifierError} : Agree bytes (.error e) (.error (.rejected e))

/-- The sizes of a manifest and the length of the bytes have 64 bits. -/
structure Words (manifest : Manifest) (bytes : Bytes) : Prop where
  sizes : ∀ entry ∈ sent manifest.rounds, entry.size < UInt64.size
  length : bytes.length < UInt64.size

/-- A replay comes to a round whose end has more than 64 bits, and stops there. -/
def Crashes (arithmetic : Arithmetic) (manifest : Manifest) (hash : ChallengeHash) (challengeBytes : ℕ) (bytes : Bytes)
    (crash : Crash) : Prop :=
  ∃ k session, After manifest hash challengeBytes bytes k session ∧ manifest.offset k ≤ bytes.length
    ∧ ∃ round, manifest.rounds[k]? = some round
      ∧ arithmetic.crash? (manifest.offset k + round.size) bytes.length = some crash

theorem getElem?_of_drop (hrounds : manifest.rounds.drop k = round :: rounds) :
    manifest.rounds[k]? = some round ∧ manifest.rounds.drop (k + 1) = rounds := by
  rw [← List.head?_drop, ← List.drop_drop, hrounds]
  exact ⟨rfl, rfl⟩

/-- **A replay that comes to no such round goes as without a bound.** -/
theorem replayRoundsFrom_agree (hwords : Words manifest bytes)
    (hnone : ∀ crash, ¬ Crashes arithmetic manifest hash challengeBytes bytes crash)
    (h : After manifest hash challengeBytes bytes k session) (hoffset : manifest.offset k ≤ bytes.length)
    (hrounds : manifest.rounds.drop k = rounds) :
    Agree bytes (replayRounds rounds (bytes.drop (manifest.offset k)) session)
      (replayRoundsFrom arithmetic bytes rounds (manifest.offset k) session) := by
  induction rounds generalizing k session with
  | nil => exact .ok hoffset
  | cons round rounds ih =>
    obtain ⟨hround, hrest⟩ := getElem?_of_drop hrounds
    by_cases hfits : manifest.offset k + round.size ≤ bytes.length
    · rw [replayRounds_of_fits hfits, replayRoundsFrom_of_fits hwords.length hfits]
      cases hread : session.readRound round (bytes.drop (manifest.offset k)) with
      | error e => exact .error
      | ok next =>
        rw [← Manifest.offset_succ hround] at hfits ⊢
        exact ih (h.close hround hread) hfits hrest
    · have hcrash : arithmetic.crash? (manifest.offset k + round.size) bytes.length = none :=
        Option.eq_none_iff_forall_ne_some.mpr fun crash hcrash =>
          hnone crash ⟨k, session, h, hoffset, round, hround, hcrash⟩
      have hshort : (bytes.drop (manifest.offset k)).length < round.size := by
        rw [List.length_drop]
        omega
      rw [replayRounds, if_pos hshort, replayRoundsFrom, recordRound_of_short (not_le.mp hfits) hcrash]
      exact .ok hoffset

/-- **A replay that comes to such a round stops there.** -/
theorem replayRoundsFrom_of_crash (hwords : Words manifest bytes)
    (hlast : After manifest hash challengeBytes bytes n last) (hn : manifest.offset n ≤ bytes.length)
    {round : ManifestRound} (hround : manifest.rounds[n]? = some round)
    (hcrash : arithmetic.crash? (manifest.offset n + round.size) bytes.length = some crash)
    (h : After manifest hash challengeBytes bytes k session) (hk : k ≤ n) (hrounds : manifest.rounds.drop k = rounds) :
    replayRoundsFrom arithmetic bytes rounds (manifest.offset k) session = .error (.crashed crash) := by
  -- The rounds before the `n`-th fit, since it is reached: each is read as in the run that reaches it.
  induction rounds generalizing k session with
  | nil =>
    have hle := (List.getElem?_eq_some_iff.mp hround).1
    rw [List.drop_eq_nil_iff] at hrounds
    omega
  | cons first rounds ih =>
    obtain ⟨hfirst, hrest⟩ := getElem?_of_drop hrounds
    rcases hk.eq_or_lt with rfl | hlt
    · obtain rfl := Option.some.inj (hfirst.symm.trans hround)
      have hsizes : ∀ entry ∈ first.sent, entry.size < UInt64.size := fun entry hentry =>
        hwords.sizes entry (List.mem_flatMap.mpr ⟨first, List.mem_of_getElem? hround, hentry⟩)
      rw [replayRoundsFrom, recordRound_of_crash hwords.length hsizes hn hcrash]
      rfl
    · obtain ⟨next, hnext⟩ := hlast.exists_of_le hlt
      have hfits : manifest.offset (k + 1) ≤ bytes.length := (manifest.offset_mono hlt).trans hn
      have hread : session.readRound first (bytes.drop (manifest.offset k)) = .ok next := by
        cases hnext with | close h' hround' hread' =>
        obtain rfl := h.unique h'
        obtain rfl := Option.some.inj (hfirst.symm.trans hround')
        exact hread'
      rw [Manifest.offset_succ hfirst] at hfits
      rw [replayRoundsFrom_of_fits hwords.length hfits, hread, ← Manifest.offset_succ hfirst]
      exact ih (h.close hfirst hread) hlt hrest

/-! ## Replaying -/

/-- **A crashing round crashes the replay.** -/
theorem replayWords_of_crash (hwords : Words manifest bytes)
    (h : Crashes arithmetic manifest hash challengeBytes bytes crash) :
    replayWords arithmetic bytes manifest hash challengeBytes = .error (.crashed crash) := by
  obtain ⟨n, last, hlast, hn, round, hround, hcrash⟩ := h
  obtain ⟨first, hfirst⟩ := hlast.exists_of_le (Nat.zero_le n)
  have hstart : start manifest hash challengeBytes = .ok first := by
    cases hfirst with | start h => exact h
  have hreplay : replayRoundsFrom arithmetic bytes manifest.rounds 0 first = .error (.crashed crash) :=
    replayRoundsFrom_of_crash hwords hlast hn hround hcrash hfirst (Nat.zero_le n) rfl
  rw [replayWords, hstart]
  change (replayRoundsFrom arithmetic bytes manifest.rounds 0 first >>= _) = _
  rw [hreplay]
  rfl

/-- **Without one the replays agree.** -/
theorem replayWords_eq (hwords : Words manifest bytes)
    (hnone : ∀ crash, ¬ Crashes arithmetic manifest hash challengeBytes bytes crash) :
    replayWords arithmetic bytes manifest hash challengeBytes
      = (replay bytes manifest hash challengeBytes).mapError .rejected := by
  rw [replayWords, replay]
  cases hstart : start manifest hash challengeBytes with
  | error e => rfl
  | ok first =>
    have hagree : Agree bytes (replayRounds manifest.rounds bytes first)
        (replayRoundsFrom arithmetic bytes manifest.rounds 0 first) :=
      replayRoundsFrom_agree hwords hnone (.start hstart) (Nat.zero_le _) rfl
    change (replayRoundsFrom arithmetic bytes manifest.rounds 0 first >>= _)
      = (replayRounds manifest.rounds bytes first >>= _).mapError _
    generalize replayRounds manifest.rounds bytes first = found at hagree
    generalize replayRoundsFrom arithmetic bytes manifest.rounds 0 first = found' at hagree
    cases hagree with
    | error => rfl
    | @ok session offset hoffset =>
      have hrest : bytes.drop offset ≠ [] ↔ offset ≠ bytes.length := by
        rw [Ne, List.drop_eq_nil_iff]
        omega
      have hcount : arithmetic.sub bytes.length offset = .ok (bytes.drop offset).length := by
        rw [List.length_drop]
        exact if_pos hoffset
      change (if offset ≠ bytes.length ∧ session.completed = manifest.rounds.length then _ else _)
        = Except.mapError _ (if bytes.drop offset ≠ [] ∧ session.completed = manifest.rounds.length then _ else _)
      by_cases htrailing : offset ≠ bytes.length ∧ session.completed = manifest.rounds.length
      · rw [if_pos htrailing, if_pos ⟨hrest.mpr htrailing.1, htrailing.2⟩, hcount]
        rfl
      · rw [if_neg htrailing, if_neg fun h => htrailing ⟨hrest.mp h.1, h.2⟩]
        rfl

/-- **A manifest shorter than `2 ^ 64` bytes has no such round.** -/
theorem not_crashes_of_size_lt (hsize : manifest.size < UInt64.size) (crash : Crash) :
    ¬ Crashes arithmetic manifest hash challengeBytes bytes crash := by
  rintro ⟨k, session, -, -, round, hround, hcrash⟩
  have hle : manifest.offset (k + 1) ≤ manifest.size := by
    rw [← Manifest.offset_length]
    exact manifest.offset_mono (List.getElem?_eq_some_iff.mp hround).1
  rw [Manifest.offset_succ hround] at hle
  rw [Arithmetic.crash?_of_lt (hle.trans_lt hsize)] at hcrash
  cases hcrash

/-- A session that is found with 64-bit sizes is found without a bound. -/
theorem replay_of_replayWords (hwords : Words manifest bytes)
    (h : replayWords arithmetic bytes manifest hash challengeBytes = .ok session) :
    replay bytes manifest hash challengeBytes = .ok session := by
  have hnone : ∀ crash, ¬ Crashes arithmetic manifest hash challengeBytes bytes crash := by
    intro crash hcrash
    rw [replayWords_of_crash hwords hcrash] at h
    cases h
  rwa [replayWords_eq hwords hnone, mapError_eq_ok] at h

/-- **A replay with 64-bit sizes stops at a round whose end has more than 64 bits, and nowhere else.**  Checked
arithmetic stops at every such round that the replay comes to, and wrapping arithmetic at those whose end is within the
bytes modulo `2 ^ 64`.  Any other replay goes as without a bound; so does every replay of a manifest that is shorter
than `2 ^ 64` bytes. -/
theorem replay_within_words (hwords : Words manifest bytes) (arithmetic : Arithmetic) (hash : ChallengeHash)
    (challengeBytes : ℕ) :
    (∀ crash, replayWords arithmetic bytes manifest hash challengeBytes = .error (.crashed crash) ↔
      Crashes arithmetic manifest hash challengeBytes bytes crash)
    ∧ ((∀ crash, ¬ Crashes arithmetic manifest hash challengeBytes bytes crash) →
      replayWords arithmetic bytes manifest hash challengeBytes
        = (replay bytes manifest hash challengeBytes).mapError .rejected)
    ∧ (manifest.size < UInt64.size → ∀ crash, ¬ Crashes arithmetic manifest hash challengeBytes bytes crash) := by
  refine ⟨fun crash => ⟨fun h => ?_, replayWords_of_crash hwords⟩, replayWords_eq hwords, not_crashes_of_size_lt⟩
  by_contra hnot
  have hnone : ∀ other, ¬ Crashes arithmetic manifest hash challengeBytes bytes other := by
    intro other hother
    have heq := h.symm.trans (replayWords_of_crash hwords hother)
    cases heq
    exact hnot hother
  rw [replayWords_eq hwords hnone] at h
  cases hreplay : replay bytes manifest hash challengeBytes <;> rw [hreplay] at h <;> cases h

/-! ## Exporting -/

/-- **A proof is exported where room for the whole manifest can be reserved**, and nowhere else. -/
theorem exportedWords_eq_ok {proof : Bytes} : session.exportedWords arithmetic = .ok proof ↔
    session.exported = proof
      ∧ ∃ capacity ≤ Arithmetic.maxCapacity, arithmetic.word session.manifest.size = .ok capacity := by
  simp only [exportedWords, Manifest.sizeWords_eq, bind_eq_ok, guard_eq_ok, pure_eq_ok, not_lt]
  constructor
  · rintro ⟨capacity, hcapacity, hle, rfl⟩
    exact ⟨rfl, capacity, hle, hcapacity⟩
  · rintro ⟨rfl, capacity, hle, hcapacity⟩
    exact ⟨capacity, hcapacity, hle, rfl⟩

end Session

/-- Two messages whose sizes have 64 bits and whose sum has not. -/
def Manifest.oversized : Manifest where
  rounds := [⟨[.sent "a" (UInt64.size / 2), .sent "b" (UInt64.size / 2)], ["c"], false⟩]

/-- Two messages of `2^63` bytes crash the checked build on no input at all. -/
theorem Session.replay_within_words_oversized :
    Words .oversized []
    ∧ Crashes .checked .oversized .keccak256 32 [] .overflow
    ∧ Words .twoRounds []
    ∧ replayWords .wrapping [] .twoRounds .keccak256 32
      = (replay [] .twoRounds .keccak256 32).mapError .rejected := by
  have hoversized : Words .oversized [] := ⟨by decide, by decide⟩
  have htwoRounds : Words .twoRounds [] := ⟨by decide, by decide⟩
  obtain ⟨hcrashes, -, -⟩ := replay_within_words hoversized .checked .keccak256 32
  obtain ⟨-, hagrees, hnone⟩ := replay_within_words htwoRounds .wrapping .keccak256 32
  exact ⟨hoversized, (hcrashes .overflow).mp rfl, htwoRounds, hagrees (hnone (by decide))⟩

/-- No bytes hold this round, so that it should be dropped; but its end is zero modulo `2 ^ 64`. -/
theorem Session.replay_overflows :
    Words .oversized []
    ∧ replayWords .checked [] .oversized .keccak256 32 = .error (.crashed .overflow)
    ∧ replayWords .wrapping [] .oversized .keccak256 32 = .error (.crashed .outOfBounds)
    ∧ ∃ session, replay [] .oversized .keccak256 32 = .ok session ∧ session.completed = 0 := by
  refine ⟨⟨by decide, by decide⟩, rfl, rfl, _, rfl, rfl⟩

end PlonkVerifier
