import Mathlib
import PlonkVerifier.Proofs.Answers
import PlonkVerifier.Proofs.ManifestWords

/-!
# Proofs/ExactLength — the pairing check sees proofs of one length only

A proof cut short is read without its last rounds, and what rejects it is not the reading: some later query finds no
answer.  The separator makes this certain, for it is drawn in the last round and no batch is made without it.  So
the check is reached at the exact length only, and as the two modes of a variant have proofs of different length, no
bytes reach it under both (`check_needs_exact_length`).

All this is about sizes of 64 bits.  Where a proof has `2 ^ 64` bytes or more, no bytes are as long, and what is shorter
is not always rejected: a program may stop at it (`short_proof_crashes`).
-/

namespace PlonkVerifier

variable {G : Type} [CommitmentGroup G]

/-- Verifies the bytes of a proof: makes the manifest, replays the bytes and verifies the session. -/
def verifyBytes (arithmetic : Arithmetic) (variant : Variant) (publicInputs : ℕ) (key : VerificationKey G)
    (bytes : Bytes) (check : PairingInput G → Bool) : Except Halt Unit := do
  let manifest ← (variant.manifestWords arithmetic publicInputs).mapError .crashed
  let session ← Session.replayWords arithmetic bytes manifest variant.hash variant.challengeBytes
  (verify variant key session.transcript check).mapError .rejected

/-- The bytes of a proof lead to the pairing check, whichever way it ends. -/
def ReachesCheck (arithmetic : Arithmetic) (variant : Variant) (publicInputs : ℕ) (key : VerificationKey G)
    (bytes : Bytes) (check : PairingInput G → Bool) : Prop :=
  ∃ manifest session, variant.manifestWords arithmetic publicInputs = .ok manifest
    ∧ Session.replayWords arithmetic bytes manifest variant.hash variant.challengeBytes = .ok session
    ∧ (verify variant key session.transcript check = .ok ()
      ∨ verify variant key session.transcript check = .error .verification)

/-- Without a batch there is no check. -/
theorem verify_of_batchOpening_eq_error {variant : Variant} {key : VerificationKey G} {transcript : Transcript G}
    {check : PairingInput G → Bool} {e : VerifierError} (h : batchOpening variant key transcript = .error e) :
    verify variant key transcript check = .error e := by
  rw [verify, pairingInput, h]
  rfl

namespace Variant.Composable

variable {variant : Variant} {arithmetic : Arithmetic} {publicInputs : ℕ} {bytes : Bytes} {session : Session}
  {key : VerificationKey G} {check : PairingInput G → Bool}

/-- **Without the last round there is no batch**, and what is missing makes the input malformed. -/
theorem batchOpening_eq_error (h : variant.Composable)
    (hreplay : Session.replay bytes (variant.manifest publicInputs) variant.hash variant.challengeBytes = .ok session)
    (hlength : bytes.length ≠ (variant.manifest publicInputs).size) (key : VerificationKey G) :
    ∃ e, batchOpening variant key session.transcript = .error e ∧ Malformed e := by
  obtain ⟨done, left, hrounds, hreplayed, hnil⟩ :=
    Session.replay_eq_ok (h.replayable publicInputs) h.supportedWidth hreplay
  cases hbatch : batchOpening variant key session.transcript with
  | error e => exact ⟨e, rfl, (session.declared_malformed variant key).batchOpening_coincide.of_error hbatch⟩
  | ok opening =>
    obtain ⟨composition, hopens⟩ := batchOpening_eq_ok hbatch
    have hseparator := Session.exists_challenge_iff.mp ⟨_, hopens.separator⟩
    obtain ⟨round, hround, -, hdrawn⟩ := (hreplayed.challenges _).mp hseparator
    exact absurd (hnil.mp (variant.eq_nil_of_separator publicInputs hrounds hround hdrawn)) hlength

/-- **The check is reached at the exact length only.** -/
theorem proofSize_of_reachesCheck (h : variant.Composable) (hlength : bytes.length < UInt64.size)
    (hreaches : ReachesCheck arithmetic variant publicInputs key bytes check) :
    variant.proofSize arithmetic publicInputs = .ok bytes.length := by
  obtain ⟨manifest, session, hmanifest, hwords, houtcome⟩ := hreaches
  have hreplay := Variant.replay_of_words hlength hmanifest hwords
  have hsize : bytes.length = manifest.size := by
    obtain rfl := Variant.manifestWords_eq_ok hmanifest
    by_contra hlength
    obtain ⟨e, hbatch, hmalformed⟩ := h.batchOpening_eq_error hreplay hlength key
    rw [verify_of_batchOpening_eq_error hbatch] at houtcome
    rcases houtcome with hok | hverification
    · cases hok
    · cases hverification
      cases hmalformed
  rw [Variant.proofSize, bind_of_eq_ok hmanifest, Manifest.sizeWords_eq, ← hsize, Arithmetic.word_of_lt hlength]

/-- **Bytes of another length are rejected as malformed.** -/
theorem verifyBytes_eq_error (h : variant.Composable) (hsize : (variant.manifest publicInputs).size < UInt64.size)
    (hbytes : bytes.length < UInt64.size) (hlength : bytes.length ≠ (variant.manifest publicInputs).size) :
    ∃ e, verifyBytes arithmetic variant publicInputs key bytes check = .error (.rejected e) ∧ Malformed e := by
  have hmanifest := variant.manifestWords_of_lt arithmetic (Variant.lt_inputPeriod_of_size_lt hsize)
  have hwords := Variant.replayWords_of_size_lt hsize arithmetic variant.hash variant.challengeBytes hbytes
  rw [verifyBytes, hmanifest]
  change ∃ e, (Session.replayWords arithmetic bytes (variant.manifest publicInputs) _ _ >>= _) = _ ∧ _
  rw [hwords]
  cases hreplay : Session.replay bytes (variant.manifest publicInputs) variant.hash variant.challengeBytes with
  | error e =>
    obtain ⟨-, rfl⟩ := (Session.replay_eq_error (h.replayable publicInputs) h.supportedWidth).mp hreplay
    exact ⟨_, rfl, rfl⟩
  | ok session =>
    obtain ⟨e, hbatch, hmalformed⟩ := h.batchOpening_eq_error hreplay hlength key
    refine ⟨e, ?_, hmalformed⟩
    change (verify variant key session.transcript check).mapError Halt.rejected = _
    rw [verify_of_batchOpening_eq_error hbatch]
    rfl

/-- **Where the round of the public inputs crashes, so does verification.** -/
theorem verifyBytes_of_crash (h : variant.Composable) (hinputs : publicInputs < Variant.inputPeriod)
    (hbytes : bytes.length < UInt64.size) (hlength : 8 ≤ bytes.length) {crash : Crash}
    (hcrash : arithmetic.crash? (8 + 32 * (publicInputs + variant.programWidth)) bytes.length = some crash) :
    verifyBytes arithmetic variant publicInputs key bytes check = .error (.crashed crash) := by
  rw [verifyBytes, variant.manifestWords_of_lt arithmetic hinputs]
  change (Session.replayWords arithmetic bytes (variant.manifest publicInputs) _ _ >>= _) = _
  rw [h.replayWords_of_inputs hinputs hbytes hlength hcrash]
  rfl

end Variant.Composable

/-- **The check needs a proof of exact length, and of the right mode.**  Bytes that lead to the pairing check,
whichever way it ends, have the size that a program finds for a proof.  Below `2 ^ 64` bytes this is the size of the
manifest, and all other bytes end in an error that says that the input is malformed.  With and without linearisation
the size differs, so that no bytes lead to the check both ways. -/
theorem check_needs_exact_length {variant : Variant} (hvalid : variant.validate = .ok ()) (arithmetic : Arithmetic)
    (publicInputs : ℕ) :
    (∀ (key : VerificationKey G) (bytes : Bytes) (check : PairingInput G → Bool), bytes.length < UInt64.size →
      ReachesCheck arithmetic variant publicInputs key bytes check →
        variant.proofSize arithmetic publicInputs = .ok bytes.length)
    ∧ ((variant.manifest publicInputs).size < UInt64.size →
      variant.proofSize arithmetic publicInputs = .ok (variant.manifest publicInputs).size
      ∧ ∀ (key : VerificationKey G) (bytes : Bytes) (check : PairingInput G → Bool), bytes.length < UInt64.size →
        bytes.length ≠ (variant.manifest publicInputs).size → ∃ e : VerifierError,
          verifyBytes arithmetic variant publicInputs key bytes check = .error (.rejected e)
            ∧ e.isMalformedInput = true)
    ∧ ∀ twin : Variant, twin.validate = .ok () → variant.Twin twin ∨ twin.Twin variant →
      (∀ size, variant.proofSize arithmetic publicInputs = .ok size →
        twin.proofSize arithmetic publicInputs ≠ .ok size)
      ∧ ∀ (key key' : VerificationKey G) (bytes : Bytes) (check check' : PairingInput G → Bool),
        bytes.length < UInt64.size → ¬ (ReachesCheck arithmetic variant publicInputs key bytes check
          ∧ ReachesCheck arithmetic twin publicInputs key' bytes check') := by
  have hcomposable := Variant.validate_eq_ok_iff.mp hvalid
  refine ⟨fun key bytes check hlength => hcomposable.proofSize_of_reachesCheck hlength, fun hsize => ⟨?_, ?_⟩, ?_⟩
  · rw [Variant.proofSize_eq, Arithmetic.word_of_lt hsize]
  · exact fun key bytes check hbytes hlength => hcomposable.verifyBytes_eq_error hsize hbytes hlength
  · intro twin htwin hmodes
    have hcomposable' := Variant.validate_eq_ok_iff.mp htwin
    refine ⟨fun size => Variant.Twin.proofSize_ne hmodes hcomposable hcomposable', ?_⟩
    rintro key key' bytes check check' hlength ⟨hreaches, hreaches'⟩
    exact Variant.Twin.proofSize_ne hmodes hcomposable hcomposable'
      (hcomposable.proofSize_of_reachesCheck hlength hreaches)
      (hcomposable'.proofSize_of_reachesCheck hlength hreaches')

open ScalarField in
/-- One public input takes 552 bytes; one byte less is malformed, and the unrolled twin needs another length. -/
theorem check_needs_exact_length_standard :
    (Variant.ofTag .standard).proofSize .wrapping 1 = .ok 552
      ∧ (∃ e : VerifierError, verifyBytes .wrapping (.ofTag .standard) 1 (.small 3 1) (List.replicate 551 0)
          (fun _ => true) = .error (.rejected e) ∧ e.isMalformedInput = true)
      ∧ ∀ bytes : Bytes, bytes.length < UInt64.size →
        ¬ (ReachesCheck .wrapping (.ofTag .standard) 1 (.small 3 1) bytes (fun _ => true)
          ∧ ReachesCheck .wrapping (.ofTag .standardUnrolled) 1 (.small 3 1) bytes (fun _ => true)) := by
  have hvalid : (Variant.ofTag .standard).validate = .ok () := by decide +kernel
  have hvalid' : (Variant.ofTag .standardUnrolled).validate = .ok () := by decide +kernel
  have hsize : ((Variant.ofTag .standard).manifest 1).size = 552 := by decide +kernel
  obtain ⟨-, hwords, htwin⟩ := check_needs_exact_length (G := Scalar) hvalid .wrapping 1
  obtain ⟨hfound, hmalformed⟩ := hwords (by rw [hsize]; decide)
  obtain ⟨-, hexclusive⟩ := htwin (.ofTag .standardUnrolled) hvalid' (.inl ⟨rfl, rfl, rfl, rfl⟩)
  rw [hsize] at hfound hmalformed
  refine ⟨hfound, hmalformed (.small 3 1) (List.replicate 551 0) _ ?_ ?_, fun bytes => hexclusive _ _ bytes _ _⟩
  all_goals
    rw [List.length_replicate]
    decide

open ScalarField in
/-- A proof with `2 ^ 59 - 1` public inputs is longer than `2 ^ 64` bytes, so that a hundred bytes are too few.
But they are not rejected: the program stops. -/
theorem short_proof_crashes :
    (Variant.ofTag .standard).validate = .ok ()
      ∧ (Variant.ofTag .standard).proofSize .wrapping (2 ^ 59 - 1) = .ok 488
      ∧ (Variant.ofTag .standard).proofSize .checked (2 ^ 59 - 1) = .error .overflow
      ∧ verifyBytes .wrapping (.ofTag .standard) (2 ^ 59 - 1) (.small 3 (2 ^ 59 - 1)) (List.replicate 100 0)
        (fun _ : PairingInput Scalar => true) = .error (.crashed .outOfBounds)
      ∧ verifyBytes .checked (.ofTag .standard) (2 ^ 59 - 1) (.small 3 (2 ^ 59 - 1)) (List.replicate 100 0)
        (fun _ : PairingInput Scalar => true) = .error (.crashed .overflow) := by
  have hvalid : (Variant.ofTag .standard).validate = .ok () := by decide +kernel
  have hcomposable := Variant.validate_eq_ok_iff.mp hvalid
  have hsize : ((Variant.ofTag .standard).manifest (2 ^ 59 - 1)).size = 2 ^ 64 + 488 := by decide +kernel
  refine ⟨hvalid, ?_, ?_, ?_, ?_⟩
  · rw [Variant.proofSize_eq, hsize]
    rfl
  · rw [Variant.proofSize_eq, hsize]
    rfl
  all_goals exact hcomposable.verifyBytes_of_crash (by decide) (by decide) (by decide) (by decide +kernel)

end PlonkVerifier
