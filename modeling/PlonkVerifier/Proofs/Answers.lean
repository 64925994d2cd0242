import Mathlib
import PlonkVerifier.Proofs.Footprint
import PlonkVerifier.Proofs.Replay

/-!
# Proofs/Answers — what a session answers

A session answers a query from a message or a challenge it has, and then the answer cannot fail in its form: a
message of the manifest has the size that the query expects, and a challenge is cut to fit.  The exception is a
commitment, whose bytes may encode none.

An error before the pairing check is one of an answer or says what does not fit together
(`Transcript.declared_raises`), and no answer fails like the check does (`Session.declared_malformed`).
-/

namespace PlonkVerifier

variable {G : Type}

/-- A codec that rejects bytes for one reason only. -/
class ByteCodec.Checked (α : Type) [ByteCodec α] : Prop where
  deserialization : ∀ (bytes : Bytes) (cause : AlgebraError),
    (ByteCodec.decode bytes : Except AlgebraError α) = .error cause → cause = .deserialization

/-- An abscissa with no point over it is a malformed encoding, never another fault. -/
theorem Point.lift_eq_error {x : Coordinate} {larger : Bool} {cause : AlgebraError}
    (h : Point.lift x larger = .error cause) : cause = .deserialization := by
  rw [Point.lift] at h
  split at h <;> cases h
  rfl

/-- A commitment that does not decode is a malformed encoding, never another fault. -/
theorem Point.decode_eq_error {bytes : Bytes} {cause : AlgebraError} (h : Point.decode bytes = .error cause) :
    cause = .deserialization := by
  simp only [Point.decode] at h
  split at h
  · cases h
    rfl
  split at h
  · cases h
    rfl
  split at h
  · split at h
    · cases h
    · exact Point.lift_eq_error h
  · cases h
    rfl

instance : ByteCodec.Checked Point := ⟨fun _ _ => Point.decode_eq_error⟩

/-! ## Answers that are there -/

theorem orMissing_eq_ok {α : Type} {missing : VerifierError} {x : Option α} {a : α} :
    orMissing missing x = .ok a ↔ x = some a := by
  cases x <;> simp [orMissing]

namespace Session

variable [CommitmentGroup G] {session : Session} {label : String} {message : Bytes}

theorem challenge_eq_ok {x : Scalar} :
    (session.transcript (G := G)).challenge label = .ok x ↔ session.challenges.find? label = some x :=
  orMissing_eq_ok

/-- A challenge is answered exactly when a closed round drew it. -/
theorem exists_challenge_iff :
    (∃ x, (session.transcript (G := G)).challenge label = .ok x) ↔ label ∈ session.challenges.labels := by
  simp only [challenge_eq_ok, LabelMap.mem_labels_iff]

theorem mapMember_eq_ok {challenge : String} {x : Scalar} :
    (session.transcript (G := G)).mapMember challenge label = .ok x ↔
      ∃ digest, session.mapDigests.find? challenge = some digest
        ∧ session.derive (digest ++ label.toUTF8.toList) = .ok x := by
  simp only [transcript, bind_eq_ok, orMissing_eq_ok]

/-- A map challenge with a recorded digest answers every member label. -/
theorem exists_mapMember {challenge : String} (hwidth : session.challengeBytes ≤ Scalar.size)
    (h : challenge ∈ session.mapDigests.labels) :
    ∃ x, (session.transcript (G := G)).mapMember challenge label = .ok x := by
  obtain ⟨digest, hdigest⟩ := LabelMap.mem_labels_iff.mp h
  obtain ⟨x, hx⟩ := session.exists_derive hwidth (digest ++ label.toUTF8.toList)
  exact ⟨x, mapMember_eq_ok.mpr ⟨digest, hdigest, hx⟩⟩

/-- Whether a map challenge is answered does not depend on the member asked for. -/
theorem exists_mapMember_iff {challenge : String} (hwidth : session.challengeBytes ≤ Scalar.size) :
    (∃ x, (session.transcript (G := G)).mapMember challenge label = .ok x) ↔ challenge ∈ session.mapDigests.labels := by
  refine ⟨fun ⟨x, hx⟩ => ?_, exists_mapMember hwidth⟩
  obtain ⟨digest, hdigest, -⟩ := mapMember_eq_ok.mp hx
  exact LabelMap.mem_labels_iff.mpr ⟨digest, hdigest⟩

/-- What was not recorded is missing under every type. -/
theorem messages_eq_missing (h : session.elements.find? label = none) :
    (session.transcript (G := G)).evaluation label = .error (.missingEvaluation label)
    ∧ (session.transcript (G := G)).vector label = .error (.missingEvaluation label)
    ∧ (session.transcript (G := G)).commitment label = .error (.missingCommitment label) := by
  simp only [transcript, h]
  exact ⟨rfl, rfl, rfl⟩

/-- A recorded message of 32 bytes always reads as an evaluation: reduction never fails. -/
theorem exists_evaluation (h : session.elements.find? label = some message)
    (hlength : message.length = Scalar.size) :
    ∃ x, (session.transcript (G := G)).evaluation label = .ok x := by
  have hread : Scalar.ofBytes message = .ok (Scalar.ofNat message.toNat) := if_pos hlength.le
  refine ⟨Scalar.ofNat message.toNat, bind_eq_ok.mpr ⟨message, orMissing_eq_ok.mpr h, ?_⟩⟩
  rw [if_neg (not_not.mpr hlength)]
  exact liftAlgebra_eq_ok.mpr hread

/-- Field elements one after the other can be read, and counted. -/
theorem exists_scalars {count : ℕ} (hlength : message.length = Scalar.size * count) :
    ∃ xs, scalars message = .ok xs ∧ xs.length = count := by
  have hblocks : ∀ block ∈ message.blocks Scalar.size, Scalar.ofBytes block = .ok (Scalar.ofNat block.toNat) := by
    intro block hblock
    obtain ⟨i, -, rfl⟩ := List.mem_map.mp hblock
    exact if_pos (List.length_take_le _ _)
  refine ⟨_, mapM_eq_ok_map hblocks, ?_⟩
  rw [List.length_map, Bytes.blocks, List.length_map, List.length_range, hlength]
  exact Nat.mul_div_cancel_left count (by decide)

/-- A recorded message of `count` blocks reads as `count` scalars. -/
theorem exists_vector {count : ℕ} (h : session.elements.find? label = some message)
    (hlength : message.length = Scalar.size * count) :
    ∃ xs, (session.transcript (G := G)).vector label = .ok xs ∧ xs.length = count := by
  obtain ⟨xs, hxs, hcount⟩ := exists_scalars hlength
  refine ⟨xs, bind_eq_ok.mpr ⟨message, orMissing_eq_ok.mpr h, ?_⟩, hcount⟩
  rw [if_neg (by rw [hlength, Nat.mul_mod_right]; simp)]
  exact liftAlgebra_eq_ok.mpr hxs

/-- **A commitment that was sent fails only if its bytes encode none.** -/
theorem commitment_eq_error [ByteCodec.Checked G] (h : session.elements.find? label = some message)
    {e : VerifierError} (herror : (session.transcript (G := G)).commitment label = .error e) :
    e = .algebra .deserialization := by
  simp only [transcript, h, orMissing] at herror
  change liftAlgebra (ByteCodec.decode message) = _ at herror
  cases hdecode : (ByteCodec.decode message : Except AlgebraError G) with
  | ok g =>
    rw [hdecode] at herror
    cases herror
  | error cause =>
    rw [hdecode, ByteCodec.Checked.deserialization _ _ hdecode] at herror
    cases herror
    rfl

end Session

/-! ## Errors before the check -/

/-- A query of the transcript ends with this error. -/
inductive Transcript.Raises (transcript : Transcript G) (e : VerifierError) : Prop where
  | challenge {label : String} (h : transcript.challenge label = .error e)
  | mapMember {challenge label : String} (h : transcript.mapMember challenge label = .error e)
  | evaluation {label : String} (h : transcript.evaluation label = .error e)
  | vector {label : String} (h : transcript.vector label = .error e)
  | commitment {label : String} (h : transcript.commitment label = .error e)

/-- The errors of an answer that is not there or cannot be read. -/
inductive Unanswered : VerifierError → Prop where
  | challenge (label : String) : Unanswered (.missingChallenge label)
  | evaluation (label : String) : Unanswered (.missingEvaluation label)
  | commitment (label : String) : Unanswered (.missingCommitment label)
  | algebra (cause : AlgebraError) : Unanswered (.algebra cause)

theorem orMissing_coincide {α : Type} {E : VerifierError → Prop} {missing : VerifierError} (h : E missing)
    (x : Option α) : Coincide E (fun _ => True) (orMissing missing x) (orMissing missing x) := by
  cases x with
  | some a => exact .ok trivial
  | none => exact .error h

theorem liftAlgebra_coincide {α : Type} {E : VerifierError → Prop} (h : ∀ cause, E (.algebra cause))
    (x : Except AlgebraError α) : Coincide E (fun _ => True) (liftAlgebra x) (liftAlgebra x) := by
  cases x with
  | ok a => exact .ok trivial
  | error cause => exact .error (h cause)

/-- **A session has an answer or misses it.** -/
theorem Session.unanswered [CommitmentGroup G] (session : Session) {e : VerifierError}
    (h : (session.transcript (G := G)).Raises e) : Unanswered e := by
  cases h with
  | challenge h => exact (orMissing_coincide (.challenge _) _).of_error h
  | mapMember h =>
    exact ((orMissing_coincide (.challenge _) _).bind fun _ _ _ => liftAlgebra_coincide .algebra _).of_error h
  | @evaluation label h =>
    refine Coincide.of_error (P := fun _ => True) (y := (session.transcript (G := G)).evaluation label) ?_ h
    exact (orMissing_coincide (.evaluation _) _).bind fun _ _ _ =>
      Coincide.guard (fun _ => .evaluation _) fun _ => liftAlgebra_coincide .algebra _
  | @vector label h =>
    refine Coincide.of_error (P := fun _ => True) (y := (session.transcript (G := G)).vector label) ?_ h
    exact (orMissing_coincide (.evaluation _) _).bind fun _ _ _ =>
      Coincide.guard (fun _ => .evaluation _) fun _ => liftAlgebra_coincide .algebra _
  | commitment h =>
    exact ((orMissing_coincide (.commitment _) _).bind fun _ _ _ => liftAlgebra_coincide .algebra _).of_error h

/-- A table only ever lacks an answer, or fails on the encoding of one. -/
theorem TranscriptTable.unanswered (table : TranscriptTable G) {e : VerifierError} (h : table.transcript.Raises e) :
    Unanswered e := by
  cases h with
  | challenge h => exact (orMissing_coincide (.challenge _) _).of_error h
  | mapMember h => exact (orMissing_coincide (.challenge _) _).of_error h
  | evaluation h => exact (orMissing_coincide (.evaluation _) _).of_error h
  | vector h => exact (orMissing_coincide (.evaluation _) _).of_error h
  | commitment h => exact (orMissing_coincide (.commitment _) _).of_error h

/-- The errors that are found where variant, key and transcript do not fit together. -/
inductive Unfit : VerifierError → Prop where
  | variant (reason : String) : Unfit (.invalidVariant reason)
  | scheme (expected found : ChallengeHash × ℕ) : Unfit (.transcriptMismatch expected found)
  | width (expected found : ℕ) : Unfit (.programWidthMismatch expected found)
  | key (cause : AlgebraError) : Unfit (.algebra cause)
  | inputs (expected found : ℕ) : Unfit (.publicInputCountMismatch expected found)
  | commitment (label : String) : Unfit (.missingCommitment label)
  | division : Unfit .divisionByZero

/-- Validating a key raises only the faults that make a configuration unfit. -/
theorem VerificationKey.validate_unfit (key : VerificationKey G) :
    Coincide Unfit (fun _ => True) key.validate key.validate := by
  have hdomain : Coincide Unfit (fun _ => True) key.checkDomain key.checkDomain := by
    rw [checkDomain]
    split
    · exact .error (.key _)
    split
    · exact .error (.key _)
    · exact .ok trivial
  refine hdomain.bind fun _ _ _ => ?_
  rw [checkGenerators]
  split
  · exact .error (.width _ _)
  · exact .ok trivial

theorem checkConfiguration_unfit (variant : Variant) (key : VerificationKey G) (transcript : Transcript G) :
    Coincide Unfit (fun _ => True) (checkConfiguration variant key transcript)
      (checkConfiguration variant key transcript) := by
  have hvariant : Coincide Unfit (fun _ => True) variant.validate variant.validate := by
    rw [Variant.validate]
    cases variant.fault? with
    | none => exact .ok trivial
    | some fault => exact .error (.variant _)
  refine hvariant.bind fun _ _ _ => ?_
  refine Coincide.guard (fun _ => .scheme _ _) fun _ => ?_
  exact Coincide.guard (fun _ => .width _ _) fun _ => key.validate_unfit

/-- **Before the check, an error comes from the transcript or says what does not fit.** -/
theorem Transcript.declared_raises (transcript : Transcript G) (variant : Variant) (key : VerificationKey G) :
    Declared (fun e => transcript.Raises e ∨ Unfit e) variant key transcript transcript where
  challenge _ _ := .raised fun _ he => .inl (.challenge he)
  member _ _ := .raised fun _ he => .inl (.mapMember he)
  evaluation _ _ := .raised fun _ he => .inl (.evaluation he)
  publicInputs := .raised fun _ he => .inl (.vector he)
  inputCount _ _ _ := .inr (.inputs _ _)
  keyed _ _ _ := .inr (.commitment _)
  division _ := .inr .division
  scheme := rfl
  configuration _ h := .inr ((checkConfiguration_unfit variant key transcript).of_error h)

/-- The errors of a malformed input. -/
abbrev Malformed (e : VerifierError) : Prop := e.isMalformedInput = true

/-- **No answer of a session fails like the pairing check.** -/
theorem Session.declared_malformed [CommitmentGroup G] (session : Session) (variant : Variant)
    (key : VerificationKey G) : Declared Malformed variant key session.transcript session.transcript := by
  refine (session.transcript.declared_raises variant key).imp_error fun e he => ?_
  rcases he with hraises | hunfit
  · cases session.unanswered hraises <;> rfl
  · cases hunfit <;> rfl

end PlonkVerifier
