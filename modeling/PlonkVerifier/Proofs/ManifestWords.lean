import Mathlib
import PlonkVerifier.Proofs.Layout
import PlonkVerifier.Proofs.Words

/-!
# Proofs/ManifestWords — the manifest that a program makes

A public input takes 32 bytes, and a program counts the bytes of all of them with 64 bits.  So it makes the manifest
for their number modulo `2 ^ 59`, or stops (`manifestWords_eq_ok`); the size that it finds is the size of a proof, made
a 64-bit number (`proofSize_eq`).  None of this shows as long as a proof is shorter than `2 ^ 64` bytes.  Where the
round of the public inputs is not, a replay stops at it (`crashes_of_inputs`).
-/

namespace PlonkVerifier

open Manifest (sent)

namespace Variant

variable {variant : Variant} {arithmetic : Arithmetic} {publicInputs : ℕ} {manifest : Manifest}

/-- The number of public inputs whose bytes are `2 ^ 64`. -/
def inputPeriod : ℕ := UInt64.size / Scalar.size

/-- The bytes of a whole period are `2 ^ 64`, which wraps to none. -/
theorem size_mul_inputPeriod : Scalar.size * inputPeriod = UInt64.size := by decide

/-- A count of public inputs falls within the period once it is wrapped. -/
theorem mod_inputPeriod_lt (publicInputs : ℕ) : publicInputs % inputPeriod < inputPeriod :=
  Nat.mod_lt _ (by decide)

/-! ## Making a manifest -/

/-- **Public inputs are counted modulo `2 ^ 59`.** -/
theorem manifestWords_eq_ok (h : variant.manifestWords arithmetic publicInputs = .ok manifest) :
    manifest = variant.manifest (publicInputs % inputPeriod) := by
  obtain ⟨inputBytes, hbytes, hmanifest⟩ := bind_eq_ok.mp h
  rw [← pure_eq_ok.mp hmanifest, Arithmetic.word_eq_ok hbytes, Variant.manifest, ← size_mul_inputPeriod,
    Nat.mul_mod_mul_left]

/-- Wrapping arithmetic makes a manifest for any number of public inputs. -/
theorem manifestWords_wrapping (variant : Variant) (publicInputs : ℕ) :
    variant.manifestWords .wrapping publicInputs = .ok (variant.manifest (publicInputs % inputPeriod)) := by
  rw [manifestWords, Arithmetic.mul, Arithmetic.word_wrapping, Variant.manifest, ← Nat.mul_mod_mul_left,
    size_mul_inputPeriod]
  rfl

/-- Checked arithmetic stops where the public inputs have `2 ^ 64` bytes or more. -/
theorem manifestWords_checked (h : inputPeriod ≤ publicInputs) :
    variant.manifestWords .checked publicInputs = .error .overflow := by
  rw [manifestWords, Arithmetic.mul, Arithmetic.word_checked]
  · rfl
  · rw [← size_mul_inputPeriod]
    exact Nat.mul_le_mul_left _ h

/-- Either arithmetic makes the manifest of fewer than `2 ^ 59` public inputs. -/
theorem manifestWords_of_lt (variant : Variant) (arithmetic : Arithmetic) (h : publicInputs < inputPeriod) :
    variant.manifestWords arithmetic publicInputs = .ok (variant.manifest publicInputs) := by
  rw [manifestWords, Arithmetic.mul, Arithmetic.word_of_lt]
  · rfl
  · rw [← size_mul_inputPeriod]
    exact Nat.mul_lt_mul_of_pos_left h (by decide)

/-! ## The size of a proof -/

/-- **The size that a program finds is that of the proof, made a 64-bit number.** -/
theorem proofSize_eq (variant : Variant) (arithmetic : Arithmetic) (publicInputs : ℕ) :
    variant.proofSize arithmetic publicInputs = arithmetic.word (variant.manifest publicInputs).size := by
  have hsize : ∀ inputBytes, (variant.manifestOf inputBytes).sizeWords arithmetic
      = arithmetic.add inputBytes (8 + 32 * (2 * variant.programWidth + variant.evaluationLabels.length + 3)) := by
    intro inputBytes
    rw [Manifest.sizeWords_eq, size_manifestOf]
    rfl
  rw [Variant.manifest, size_manifestOf, ← Arithmetic.word_bind_add, proofSize, manifestWords, bind_assoc]
  exact congrArg _ (funext hsize)

/-- A proof shorter than `2 ^ 64` bytes has fewer public inputs than bytes allow. -/
theorem lt_inputPeriod_of_size_lt (h : (variant.manifest publicInputs).size < UInt64.size) :
    publicInputs < inputPeriod := by
  rw [size_manifest] at h
  have hperiod : 32 * inputPeriod = UInt64.size := size_mul_inputPeriod
  omega

/-- No variant has many evaluations. -/
theorem Composable.length_evaluationLabels_le (h : variant.Composable) : variant.evaluationLabels.length ≤ 64 := by
  have hle := (h.nodup_evaluationLabels.subperm fun l hl => h.mem_reserved hl).length_le
  refine hle.trans ?_
  rcases h.width with hw | hw <;> rw [hw] <;> decide +kernel

/-- All but the public inputs of a composable variant fits one word. -/
theorem Composable.size_manifest_lt (h : variant.Composable) (publicInputs : ℕ) :
    (variant.manifest publicInputs).size < 32 * publicInputs + UInt64.size := by
  have hle := h.length_evaluationLabels_le
  have hw : variant.programWidth ≤ 4 := by rcases h.width with hw | hw <;> omega
  rw [size_manifest]
  simp only [UInt64.size]
  omega

/-- **The sizes that a program finds with and without linearisation differ**, for they are near to each other. -/
theorem Twin.proofSize_ne {twin : Variant} (h : variant.Twin twin ∨ twin.Twin variant) (hvalid : variant.Composable)
    (hvalid' : twin.Composable) {size : ℕ} (hsize : variant.proofSize arithmetic publicInputs = .ok size) :
    twin.proofSize arithmetic publicInputs ≠ .ok size := by
  intro hsize'
  have hne : (variant.manifest publicInputs).size ≠ (twin.manifest publicInputs).size := by
    rcases h with h | h
    · exact h.size_ne hvalid hvalid' publicInputs
    · exact (h.size_ne hvalid' hvalid publicInputs).symm
  have hlt := hvalid.size_manifest_lt publicInputs
  have hlt' := hvalid'.size_manifest_lt publicInputs
  rw [proofSize_eq] at hsize hsize'
  have heq := (Arithmetic.word_eq_ok hsize).symm.trans (Arithmetic.word_eq_ok hsize')
  rw [size_manifest] at hne hlt heq
  rw [size_manifest] at hne hlt' heq
  simp only [UInt64.size] at hlt hlt' heq
  omega

/-! ## Replaying -/

/-- Every message has a size of 64 bits. -/
theorem words_manifest (h : publicInputs < inputPeriod) {bytes : Bytes} (hlength : bytes.length < UInt64.size) :
    Session.Words (variant.manifest publicInputs) bytes := by
  refine ⟨fun entry hentry => ?_, hlength⟩
  have hinputs : Scalar.size * publicInputs < UInt64.size := by
    rw [← size_mul_inputPeriod]
    exact Nat.mul_lt_mul_of_pos_left h (by decide)
  rw [sent_manifest, sentMessages] at hentry
  simp only [List.mem_append, List.mem_cons, List.mem_map, List.not_mem_nil, or_false] at hentry
  rcases hentry with (((((rfl | rfl | rfl) | ⟨l, -, rfl⟩) | rfl | ⟨l, -, rfl⟩) | ⟨l, -, rfl⟩) | ⟨l, -, rfl⟩)
  all_goals first | exact hinputs | exact of_decide_eq_true rfl

/-- A session of a manifest that a program makes is one of the manifest it is. -/
theorem replay_of_words {hash : ChallengeHash} {challengeBytes : ℕ} {bytes : Bytes} {session : Session}
    (hlength : bytes.length < UInt64.size) (hmanifest : variant.manifestWords arithmetic publicInputs = .ok manifest)
    (h : Session.replayWords arithmetic bytes manifest hash challengeBytes = .ok session) :
    Session.replay bytes manifest hash challengeBytes = .ok session := by
  obtain rfl := manifestWords_eq_ok hmanifest
  exact Session.replay_of_replayWords (words_manifest (mod_inputPeriod_lt _) hlength) h

/-- **A replay within 64 bits is one without a bound.** -/
theorem replayWords_of_size_lt (h : (variant.manifest publicInputs).size < UInt64.size) (arithmetic : Arithmetic)
    (hash : ChallengeHash) (challengeBytes : ℕ) {bytes : Bytes} (hlength : bytes.length < UInt64.size) :
    Session.replayWords arithmetic bytes (variant.manifest publicInputs) hash challengeBytes
      = (Session.replay bytes (variant.manifest publicInputs) hash challengeBytes).mapError .rejected :=
  Session.replayWords_eq (words_manifest (lt_inputPeriod_of_size_lt h) hlength) (Session.not_crashes_of_size_lt h)

/-- The size of the round of the public inputs and wires. -/
theorem size_of_inputRound {round : ManifestRound} (h : (variant.manifest publicInputs).rounds[1]? = some round) :
    round.size = 32 * (publicInputs + variant.programWidth) := by
  obtain rfl := Option.some.inj h
  have hwires := filter_sent (Label.numbered "W" variant.programWidth) Point.encodedSize
  change ManifestEntry.total (List.filter _ _) = _
  rw [List.filter_cons_of_pos rfl, hwires]
  simp [ManifestEntry.total, ManifestEntry.sent, Label.numbered, Function.comp_def, Scalar.size, Point.encodedSize]
  ring

/-- **A replay stops at the round of the public inputs** if its end has more than 64 bits. -/
theorem Composable.crashes_of_inputs (h : variant.Composable) {bytes : Bytes} (hlength : 8 ≤ bytes.length)
    {crash : Crash}
    (hcrash : arithmetic.crash? (8 + 32 * (publicInputs + variant.programWidth)) bytes.length = some crash) :
    Session.Crashes arithmetic (variant.manifest publicInputs) variant.hash variant.challengeBytes bytes crash := by
  have hoffset : (variant.manifest publicInputs).offset 1 = 8 := rfl
  obtain ⟨session, hafter⟩ := Session.exists_after (h.replayable publicInputs) h.supportedWidth
    (show 1 ≤ (variant.manifest publicInputs).rounds.length by simp [Variant.manifest, manifestOf])
    (hoffset.trans_le hlength)
  refine ⟨1, session, hafter, hoffset.trans_le hlength, _, rfl, ?_⟩
  rwa [hoffset, size_of_inputRound rfl]

/-- Bytes at which the round of the public inputs crashes give no session. -/
theorem Composable.replayWords_of_inputs (h : variant.Composable) (hinputs : publicInputs < inputPeriod) {bytes : Bytes}
    (hbytes : bytes.length < UInt64.size) (hlength : 8 ≤ bytes.length) {crash : Crash}
    (hcrash : arithmetic.crash? (8 + 32 * (publicInputs + variant.programWidth)) bytes.length = some crash) :
    Session.replayWords arithmetic bytes (variant.manifest publicInputs) variant.hash variant.challengeBytes
      = .error (.crashed crash) :=
  Session.replayWords_of_crash (words_manifest hinputs hbytes) (h.crashes_of_inputs hlength hcrash)

end Variant

end PlonkVerifier
