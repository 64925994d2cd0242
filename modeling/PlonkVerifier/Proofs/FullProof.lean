import Mathlib
import PlonkVerifier.Proofs.Answers
import PlonkVerifier.Proofs.ManifestWords

/-!
# Proofs/FullProof — how a proof of full length can end

Bytes of the length that the manifest asks for always make a transcript with all rounds, and this transcript answers
every query that a variant declares.  A batch of it fails exactly where a denominator vanishes, and afterwards only
a commitment can stop verification before the pairing check, by bytes that encode none (`full_proof_outcomes`).

A program finds this length, and reads such bytes, as long as it has 64 bits.  Beyond, it makes the manifest of fewer
public inputs than the key has, and rejects every proof (`batchOpening_of_count`), or stops (`full_proof_overflows`).
-/

namespace PlonkVerifier

open scoped ScalarField

variable {G : Type} {variant : Variant} {key : VerificationKey G} {transcript : Transcript G}

/-! ## Vanishing denominators -/

/-- The two ways to divide by zero: a point of the domain, or an input factor that cancels. -/
theorem Reading.degenerate_iff (ρ : Reading) (key : VerificationKey G) :
    ρ.Degenerate key ↔ ρ.challenge Challenge.point ^ key.circuitSize = 1
      ∨ ∃ i x, ρ.publicInputs[i]? = some x ∧ x + ρ.challenge Challenge.beta
          * key.cosetGenerators.getD key.programWidth 0 * key.root ^ i + ρ.challenge Challenge.gamma = 0 := by
  rw [Degenerate, inputProduct, List.prod_eq_zero_iff, List.mem_mapIdx]
  refine or_congr_right ⟨?_, ?_⟩
  · rintro ⟨i, hi, hzero⟩
    exact ⟨i, _, List.getElem?_eq_getElem hi, by rwa [mul_assoc]⟩
  · rintro ⟨i, x, hx, hzero⟩
    obtain ⟨hi, rfl⟩ := List.getElem?_eq_some_iff.mp hx
    exact ⟨i, hi, by rwa [← mul_assoc]⟩

/-- A grand product that is read has a value of the public inputs. -/
theorem GrandProduct.inputProduct_ne_zero {mode : Mode} {gp : GrandProduct}
    (h : read key transcript mode = .ok gp) :
    transcript.reading.inputProduct key (key.cosetGenerators.getD key.programWidth 0) ≠ 0 := by
  simp only [read, bind_eq_ok, guard_eq_ok, pure_eq_ok] at h
  obtain ⟨beta, hbeta, gamma, hgamma, -, -, -, -, -, -, -, -, inputs, hinputs, -, -, -, -, -, -, -, -, -, k, hk,
    delta, hdelta, -⟩ := h
  obtain rfl := Transcript.eq_challenge hbeta
  obtain rfl := Transcript.eq_challenge hgamma
  obtain rfl : inputs = transcript.reading.publicInputs := by rw [Transcript.reading, hinputs, answer_ok]
  obtain rfl := cosetGenerator_eq_ok hk
  obtain ⟨d, hd, -⟩ := bind_eq_ok.mp hdelta
  rw [← publicInputProduct_eq]
  exact (Domain.invert_eq_ok.mp hd).1

/-- Every family of a run has a scalar part. -/
theorem Composition.exists_scalarPart {mode : Mode} {power : AlphaPower} {families : List Family}
    {composition : Composition} (h : families.foldlM (apply key transcript mode) (.start power) = .ok composition) :
    ∀ family ∈ families, ∃ part, family.scalarPart key transcript mode = .ok part := by
  refine foldlM_invariant (fun done _ => ∀ family ∈ done, ∃ part, family.scalarPart key transcript mode = .ok part)
    h (by simp) fun done family c c' _ _ hdone hstep => ?_
  obtain ⟨terms, part, -, hpart, -⟩ := apply_eq_ok.mp hstep
  exact List.forall_mem_append.mpr ⟨hdone, List.forall_mem_singleton.mpr ⟨part, hpart⟩⟩

/-- **A batch has no vanishing denominator.** -/
theorem not_degenerate {opening : BatchOpening} (h : batchOpening variant key transcript = .ok opening) :
    ¬ transcript.reading.Degenerate key := by
  obtain ⟨composition, hbatch⟩ := batchOpening_eq_ok h
  rintro (hone | hzero)
  · rw [← Transcript.eq_challenge hbatch.point] at hone
    exact hbatch.vanishing_ne_zero (sub_eq_zero.mpr hone)
  · obtain ⟨alpha, -, hcompose⟩ := compose_eq_ok hbatch.compose
    obtain ⟨hfits, hrun⟩ := composeFrom_eq_ok.mp hcompose
    obtain ⟨part, hpart⟩ := Composition.exists_scalarPart hrun .permutation
      (List.mem_of_mem_head? hfits.composable.head)
    obtain ⟨gp, hread, -⟩ := bind_eq_ok.mp hpart
    exact GrandProduct.inputProduct_ne_zero hread hzero

/-- **Where every query is answered, a batch fails exactly at a vanishing denominator.** -/
theorem Declared.batchOpening_eq_error_iff
    (h : Declared (fun e => e = .divisionByZero ∧ transcript.reading.Degenerate key) variant key transcript
      transcript) :
    (batchOpening variant key transcript = .error .divisionByZero ↔ transcript.reading.Degenerate key)
      ∧ (¬ transcript.reading.Degenerate key → ∃ opening, batchOpening variant key transcript = .ok opening) := by
  have hbatch := h.batchOpening_coincide
  cases hresult : batchOpening variant key transcript with
  | ok opening =>
    refine ⟨⟨fun herror => ?_, fun hdegenerate => absurd hdegenerate (not_degenerate hresult)⟩,
      fun _ => ⟨opening, rfl⟩⟩
    cases herror
  | error e =>
    obtain ⟨rfl, hdegenerate⟩ := hbatch.of_error hresult
    exact ⟨⟨fun _ => hdegenerate, fun _ => rfl⟩, fun hnot => absurd hdegenerate hnot⟩

/-! ## All rounds -/

/-- A key for the proofs of a variant with this number of public inputs. -/
structure VerificationKey.Serves (key : VerificationKey G) (variant : Variant) (publicInputs : ℕ) : Prop where
  validate : key.validate = .ok ()
  programWidth : key.programWidth = variant.programWidth
  publicInputs : key.publicInputs = publicInputs
  /-- The key holds what the evaluations open and the prover does not send, linearised or not. -/
  commitment : ∀ l ∈ variant.unrolled.evaluationLabels, Label.isProverCommitment (Label.opened l).1 = false →
    ∃ g, key.commitments.find? (Label.opened l).1 = some g

namespace Session.Replayed

variable [CommitmentGroup G] {publicInputs : ℕ} {bytes : Bytes} {session : Session}

/-- The rounds of a proof are all read. -/
abbrev Full (variant : Variant) (publicInputs : ℕ) (bytes : Bytes) (session : Session) : Prop :=
  session.Replayed (variant.manifest publicInputs) variant.hash variant.challengeBytes
    (variant.manifest publicInputs).rounds bytes

/-- **Every message of the manifest is there.** -/
theorem exists_message (h : Full variant publicInputs bytes session) (hvalid : variant.Composable)
    {entry : ManifestEntry} (hentry : entry ∈ Manifest.sent (variant.manifest publicInputs).rounds) :
    ∃ message, session.elements.find? entry.name = some message ∧ message.length = entry.size := by
  rw [h.elements]
  exact exists_find?_messages (hvalid.replayable publicInputs) (List.prefix_refl _) h.size_le hentry

/-- A full proof has drawn every challenge the variant asks for. -/
theorem exists_challenge (h : Full variant publicInputs bytes session) {l : String}
    (hl : l ∈ variant.queries.challenges) : ∃ x, (session.transcript (G := G)).challenge l = .ok x :=
  exists_challenge_iff.mpr ((h.challenges l).mpr (variant.exists_round_of_challenge publicInputs hl))

/-- **The public inputs are read, in the right number.** -/
theorem exists_publicInputs (h : Full variant publicInputs bytes session) (hvalid : variant.Composable) :
    ∃ inputs, (session.transcript (G := G)).vector publicInputsLabel = .ok inputs
      ∧ inputs.length = publicInputs := by
  obtain ⟨message, hmessage, hlength⟩ := h.exists_message hvalid (variant.publicInputs_mem_sent publicInputs)
  exact exists_vector hmessage hlength

/-- A full transcript fits its variant and an accepted key of the same width. -/
theorem fits (h : Full variant publicInputs bytes session) (hvalid : variant.Composable)
    (hwidth : key.programWidth = variant.programWidth) (hkey : key.validate = .ok ()) :
    Fits variant key (session.transcript (G := G)) :=
  ⟨hvalid, by rw [← h.hash, ← h.challengeBytes]; rfl, hwidth, VerificationKey.validate_eq_ok.mp hkey⟩

/-- **A full transcript answers every query that its variant declares.** -/
theorem declared (h : Full variant publicInputs bytes session) (hvalid : variant.Composable)
    (hkey : key.Serves variant publicInputs) :
    Declared (fun e => e = .divisionByZero ∧ (session.transcript (G := G)).reading.Degenerate key) variant key
      session.transcript session.transcript where
  challenge l hl := .found (h.exists_challenge hl)
  member l _ := .found (exists_mapMember (h.challengeBytes ▸ hvalid.supportedWidth.le_size)
    ((h.mapDigests _).mpr (variant.exists_round_of_nu publicInputs)))
  evaluation l hl := by
    obtain ⟨message, hmessage, hlength⟩ := h.exists_message hvalid (variant.evaluation_mem_sent publicInputs hl)
    exact .found (exists_evaluation hmessage hlength)
  publicInputs := by
    obtain ⟨inputs, hinputs, -⟩ := h.exists_publicInputs (G := G) hvalid
    exact .found ⟨inputs, hinputs⟩
  inputCount inputs hinputs hcount := by
    obtain ⟨inputs', hinputs', hlength⟩ := h.exists_publicInputs (G := G) hvalid
    obtain rfl : inputs' = inputs := Except.ok.inj (hinputs'.symm.trans hinputs)
    exact absurd (hlength.trans hkey.publicInputs.symm) hcount
  keyed L hL hmissing := by
    obtain ⟨hL, hprover⟩ := List.mem_filter.mp hL
    obtain ⟨l, hl, rfl⟩ := List.mem_map.mp hL
    obtain ⟨g, hg⟩ := hkey.commitment l hl (by simpa using hprover)
    rw [hg] at hmissing
    cases hmissing
  division hdegenerate := ⟨rfl, hdegenerate⟩
  scheme := rfl
  configuration e he := by
    rw [checkConfiguration_eq_ok.mpr (fits h hvalid hkey.programWidth hkey.validate)] at he
    cases he

/-- **Only the bytes of a commitment can be unreadable.** -/
theorem commitment_eq_error [ByteCodec.Checked G] (h : Full variant publicInputs bytes session)
    (hvalid : variant.Composable) {L : String} (hL : L ∈ Label.proverCommitments variant.programWidth)
    {e : VerifierError} (he : (session.transcript (G := G)).commitment L = .error e) :
    e = .algebra .deserialization := by
  obtain ⟨message, hmessage, -⟩ := h.exists_message hvalid (variant.commitment_mem_sent publicInputs hL)
  exact Session.commitment_eq_error hmessage he

end Session.Replayed

/-! ## Outcomes -/

/-- The ways in which the verification of a full proof can fail. -/
inductive FullProofFailure (transcript : Transcript G) (width : ℕ) : VerifierError → Prop where
  | verification : FullProofFailure transcript width .verification
  | divisionByZero : FullProofFailure transcript width .divisionByZero
  | undecodable (L : String) (hL : L ∈ Label.proverCommitments width)
    (h : transcript.commitment L = .error (.algebra .deserialization)) :
    FullProofFailure transcript width (.algebra .deserialization)

/-- How the verification of a full proof can end. -/
structure FullProofOutcomes [CommitmentGroup G] (variant : Variant) (key : VerificationKey G) (publicInputs : ℕ)
    (transcript : Transcript G) : Prop where
  /-- A batch fails exactly at a vanishing denominator of the domain or of the public inputs. -/
  batch : ∃ z beta gamma k inputs, transcript.challenge Challenge.point = .ok z
    ∧ transcript.challenge Challenge.beta = .ok beta
    ∧ transcript.challenge Challenge.gamma = .ok gamma
    ∧ key.externalCosetGenerator = .ok k
    ∧ transcript.vector publicInputsLabel = .ok inputs
    ∧ inputs.length = publicInputs
    ∧ (batchOpening variant key transcript = .error .divisionByZero ↔
      z ^ key.circuitSize = 1 ∨ ∃ i x, inputs[i]? = some x ∧ x + beta * k * key.root ^ i + gamma = 0)
    ∧ (batchOpening variant key transcript ≠ .error .divisionByZero →
      ∃ opening, batchOpening variant key transcript = .ok opening)
  /-- Whatever the pairing check, there are four ends. -/
  ends : ∀ check : PairingInput G → Bool, verify variant key transcript check = .ok ()
    ∨ ∃ e, verify variant key transcript check = .error e
      ∧ FullProofFailure transcript variant.programWidth e

namespace Session.Replayed

variable [CommitmentGroup G] {publicInputs : ℕ} {bytes : Bytes} {session : Session}

/-- **A full transcript comes to one of these ends.** -/
theorem outcomes [ByteCodec.Checked G] (h : Full variant publicInputs bytes session) (hvalid : variant.Composable)
    (hkey : key.Serves variant publicInputs) :
    FullProofOutcomes variant key publicInputs (session.transcript (G := G)) := by
  have hconsistent := VerificationKey.validate_eq_ok.mp hkey.validate
  have hdeclared := declared (G := G) h hvalid hkey
  obtain ⟨hzero, hok⟩ := hdeclared.batchOpening_eq_error_iff
  refine ⟨?_, fun check => ?_⟩
  · obtain ⟨inputs, hinputs, hcount⟩ := exists_publicInputs (G := G) h hvalid
    have hchallenge : ∀ l ∈ variant.queries.challenges, (session.transcript (G := G)).challenge l
        = .ok ((session.transcript (G := G)).reading.challenge l) := by
      intro l hl
      obtain ⟨x, hx⟩ := exists_challenge (G := G) h hl
      exact eq_ok_answer hx
    have hread : inputs = (session.transcript (G := G)).reading.publicInputs := by
      rw [Transcript.reading, hinputs, answer_ok]
    refine ⟨_, _, _, _, inputs, hchallenge _ (by simp [Variant.queries]), hchallenge _ (by simp [Variant.queries]),
      hchallenge _ (by simp [Variant.queries]), hconsistent.cosetGenerator_eq le_rfl, hinputs, hcount, ?_, ?_⟩
    · rw [hzero, Reading.degenerate_iff, hread]
    · rw [Ne, hzero]
      exact hok
  · have hfailure : ∀ e, e = .divisionByZero ∧ (session.transcript (G := G)).reading.Degenerate key →
        FullProofFailure (session.transcript (G := G)) variant.programWidth e := by
      rintro e ⟨rfl, -⟩
      exact .divisionByZero
    have hbatch := hdeclared.batchOpening_coincide.imp_error hfailure
    have hinput := pairingInput_coincide hbatch fun L hL => (Coincide.refl fun e he => ?_).mono fun _ _ => trivial
    · cases hverify : verify variant key session.transcript check with
      | ok _ => exact .inl rfl
      | error e => exact .inr ⟨e, rfl, (verify_coincide hinput .verification).of_error hverify⟩
    · obtain rfl := commitment_eq_error h hvalid hL he
      exact .undecodable L hL he

end Session.Replayed

/-- **Bytes of full length are read to the end.** -/
theorem Session.exists_replayed_full {publicInputs : ℕ} (hvalid : variant.Composable) {bytes : Bytes}
    (hlength : bytes.length = (variant.manifest publicInputs).size) :
    ∃ session, replay bytes (variant.manifest publicInputs) variant.hash variant.challengeBytes = .ok session
      ∧ Replayed.Full variant publicInputs bytes session := by
  obtain ⟨session, hreplay⟩ := exists_replay (hvalid.replayable publicInputs) hvalid.supportedWidth hlength.le
  obtain ⟨done, left, hrounds, hreplayed, hnil⟩ := replay_eq_ok (hvalid.replayable publicInputs)
    hvalid.supportedWidth hreplay
  obtain rfl : done = (variant.manifest publicInputs).rounds := by rw [hrounds, hnil.mpr hlength, List.append_nil]
  exact ⟨session, hreplay, hreplayed⟩

/-- **How a full proof can end.**  Where a proof is shorter than `2 ^ 64` bytes, a program makes its manifest and finds
its size.  Bytes of exactly this size are read to the end.  A batch of the transcript fails exactly at a vanishing
denominator of the domain or of the public inputs; and whatever the pairing check, verification ends in acceptance, in
a failed check, at such a denominator or at a commitment that does not decode. -/
theorem full_proof_outcomes [CommitmentGroup G] [ByteCodec.Checked G] {publicInputs : ℕ}
    (hvalid : variant.validate = .ok ()) (hkey : key.Serves variant publicInputs)
    (hwords : (variant.manifest publicInputs).size < UInt64.size) (arithmetic : Arithmetic) :
    ∃ manifest size, variant.manifestWords arithmetic publicInputs = .ok manifest
      ∧ manifest.sizeWords arithmetic = .ok size
      ∧ ∀ bytes : Bytes, bytes.length = size → ∃ session,
        Session.replayWords arithmetic bytes manifest variant.hash variant.challengeBytes = .ok session
        ∧ session.completed = manifest.rounds.length
        ∧ FullProofOutcomes variant key publicInputs (session.transcript (G := G)) := by
  have hcomposable := Variant.validate_eq_ok_iff.mp hvalid
  refine ⟨_, _, variant.manifestWords_of_lt arithmetic (Variant.lt_inputPeriod_of_size_lt hwords),
    by rw [Manifest.sizeWords_eq, Arithmetic.word_of_lt hwords], fun bytes hlength => ?_⟩
  obtain ⟨session, hreplay, hreplayed⟩ := Session.exists_replayed_full hcomposable hlength
  refine ⟨session, ?_, hreplayed.completed, Session.Replayed.outcomes hreplayed hcomposable hkey⟩
  rw [Variant.replayWords_of_size_lt hwords arithmetic _ _ (hlength.trans_lt hwords), hreplay]
  rfl

/-- The small key, with a curve point for each commitment. -/
def VerificationKey.smallPoints (width publicInputs : ℕ) : VerificationKey Point :=
  { small width publicInputs with commitments := (small width publicInputs).commitments.map fun _ => Point.base }

/-- The small key serves the standard variant. -/
theorem VerificationKey.smallPoints_serves (publicInputs : ℕ) :
    (smallPoints 3 publicInputs).Serves (.ofTag .standard) publicInputs := by
  have hkey := validate_eq_ok.mp (show (smallPoints 3 0).validate = .ok () by decide +kernel)
  refine ⟨validate_eq_ok.mpr ⟨hkey.isPowerOfTwo, hkey.four_le, hkey.root_pow, hkey.root_mul_rootInverse,
    hkey.length_cosetGenerators⟩, rfl, rfl, fun l hl hprover => Option.isSome_iff_exists.mp ?_⟩
  have hheld : ∀ l ∈ (Variant.ofTag .standard).unrolled.evaluationLabels,
      Label.isProverCommitment (Label.opened l).1 = false →
        ((smallPoints 3 0).commitments.find? (Label.opened l).1).isSome = true := by
    decide +kernel
  exact hheld l hl hprover

/-- A string of 552 zero bytes is a full proof for one public input. -/
theorem full_proof_outcomes_standard :
    ∃ session, Session.replayWords .wrapping (List.replicate 552 0) ((Variant.ofTag .standard).manifest 1) .keccak256 32
        = .ok session
      ∧ session.completed = 6
      ∧ FullProofOutcomes (.ofTag .standard) (.smallPoints 3 1) 1 (session.transcript (G := Point)) := by
  have hvalid : (Variant.ofTag .standard).validate = .ok () := by decide +kernel
  have hsize : ((Variant.ofTag .standard).manifest 1).size = 552 := by decide +kernel
  obtain ⟨manifest, size, hmanifest, hfound, hall⟩ := full_proof_outcomes hvalid
    (VerificationKey.smallPoints_serves 1) (by rw [hsize]; decide) .wrapping
  rw [Variant.manifestWords_of_lt _ _ (by decide)] at hmanifest
  obtain rfl := Except.ok.inj hmanifest
  rw [Manifest.sizeWords_eq, hsize] at hfound
  obtain rfl := Except.ok.inj hfound
  exact hall _ List.length_replicate

/-! ## Proofs of `2 ^ 64` bytes and more -/

/-- **A transcript with another number of public inputs than the key has no grand product.** -/
theorem GrandProduct.read_of_count {mode : Mode} {inputs : List Scalar}
    (hchallenge : ∀ l ∈ (Family.permutation.scalarQueries key.programWidth mode).challenges,
      ∃ x, transcript.challenge l = .ok x)
    (hevaluation : ∀ l ∈ (Family.permutation.scalarQueries key.programWidth mode).evaluations,
      ∃ x, transcript.evaluation l = .ok x)
    (hinputs : transcript.vector publicInputsLabel = .ok inputs) (hcount : inputs.length ≠ key.publicInputs) :
    read key transcript mode = .error (.publicInputCountMismatch key.publicInputs inputs.length) := by
  obtain ⟨beta, hbeta⟩ := hchallenge Challenge.beta (by simp [Family.scalarQueries])
  obtain ⟨gamma, hgamma⟩ := hchallenge Challenge.gamma (by simp [Family.scalarQueries])
  obtain ⟨separation, hseparation⟩ := hchallenge Challenge.permutation (by simp [Family.scalarQueries])
  obtain ⟨z, hz⟩ := hchallenge Challenge.point (by simp [Family.scalarQueries])
  have hread : Coincide (fun _ => False) (fun _ => True) ((Label.wires key.programWidth).mapM transcript.evaluation)
      ((Label.wires key.programWidth).mapM transcript.evaluation) :=
    .mapM fun l hl => .found (hevaluation l (Family.permutation.wires_subset _ mode hl))
  obtain ⟨wires, hwires, -⟩ := hread.exists_ok fun _ => id
  obtain ⟨shifted, hshifted⟩ := hevaluation "z_omega" (Family.shifted_mem _ mode)
  rw [read, bind_of_eq_ok hbeta, bind_of_eq_ok hgamma, bind_of_eq_ok hseparation, bind_of_eq_ok hz,
    bind_of_eq_ok hwires, bind_of_eq_ok hshifted, bind_of_eq_ok hinputs]
  exact if_pos hcount

/-- **A batch fails as its first family does.** -/
theorem batchOpening_of_head [CommitmentGroup G] {alpha : Scalar} {family : Family} {e : VerifierError}
    (hfits : Fits variant key transcript) (halpha : transcript.challenge Challenge.alpha = .ok alpha)
    (hhead : variant.families.head? = some family)
    (h : family.committedPart key (AlphaPower.ofChallenge alpha).base transcript variant.mode = .error e) :
    batchOpening variant key transcript = .error e := by
  obtain ⟨rest, hfamilies⟩ := List.head?_eq_some_iff.mp hhead
  have happly : Composition.apply key transcript variant.mode (.start (.ofChallenge alpha)) family = .error e := by
    rw [Composition.apply_eq]
    change (family.committedPart key (AlphaPower.ofChallenge alpha).base _ _ >>= _) = _
    rw [h]
    rfl
  rw [batchOpening, compose, bind_of_eq_ok halpha, composeFrom,
    bind_of_eq_ok (checkConfiguration_eq_ok.mpr hfits), hfamilies, List.foldlM_cons, happly]
  rfl

/-- **A transcript with another number of public inputs has no batch**, if the permutation is linearised. -/
theorem Session.Replayed.batchOpening_of_count [CommitmentGroup G] {publicInputs : ℕ} {bytes : Bytes}
    {session : Session} (h : Full variant publicInputs bytes session) (hvalid : variant.Composable)
    (hlinearised : variant.linearised = true) (hkey : key.validate = .ok ())
    (hwidth : key.programWidth = variant.programWidth) (hcount : publicInputs ≠ key.publicInputs) :
    batchOpening variant key (session.transcript (G := G))
      = .error (.publicInputCountMismatch key.publicInputs publicInputs) := by
  obtain ⟨inputs, hinputs, rfl⟩ := exists_publicInputs (G := G) h hvalid
  have hqueries := Variant.family_queries_within hvalid.width (List.mem_of_mem_head? hvalid.head)
  have hscalar := Family.permutation.scalarQueries_within variant.programWidth variant.mode
  have hread : GrandProduct.read key (session.transcript (G := G)) variant.mode
      = .error (.publicInputCountMismatch key.publicInputs inputs.length) := by
    refine GrandProduct.read_of_count (fun l hl => ?_) (fun l hl => ?_) hinputs hcount
    · rw [hwidth] at hl
      exact exists_challenge h (hqueries.challenges (hscalar.challenges hl))
    · rw [hwidth] at hl
      obtain ⟨message, hmessage, hlength⟩ := h.exists_message hvalid
        (variant.evaluation_mem_sent _ (hqueries.evaluations (hscalar.evaluations hl)))
      exact exists_evaluation hmessage hlength
  obtain ⟨alpha, halpha⟩ := exists_challenge (G := G) h
    (show Challenge.alpha ∈ variant.queries.challenges by simp [Variant.queries])
  have hcommitted : Family.permutation.committedPart key (AlphaPower.ofChallenge alpha).base
      (session.transcript (G := G)) variant.mode
      = .error (.publicInputCountMismatch key.publicInputs inputs.length) := by
    rw [Family.committedPart, if_pos (show variant.mode.linearised = true from hlinearised)]
    change (GrandProduct.read _ _ _ >>= _) = _
    rw [hread]
    rfl
  exact batchOpening_of_head (fits h hvalid hwidth hkey) halpha hvalid.head hcommitted

/-- **A program that counts public inputs modulo `2 ^ 59` rejects every proof of more of them**, though it reads the
bytes to the end: the key has another number. -/
theorem full_proof_wraps [CommitmentGroup G] {publicInputs : ℕ} (hvalid : variant.Composable)
    (hlinearised : variant.linearised = true) (hkey : key.validate = .ok ())
    (hwidth : key.programWidth = variant.programWidth) (hinputs : key.publicInputs = publicInputs)
    (hperiod : Variant.inputPeriod ≤ publicInputs)
    (hwords : (variant.manifest (publicInputs % Variant.inputPeriod)).size < UInt64.size) {bytes : Bytes}
    (hlength : bytes.length = (variant.manifest (publicInputs % Variant.inputPeriod)).size) :
    ∃ session, Session.replayWords .wrapping bytes (variant.manifest (publicInputs % Variant.inputPeriod)) variant.hash
        variant.challengeBytes = .ok session
      ∧ session.completed = (variant.manifest (publicInputs % Variant.inputPeriod)).rounds.length
      ∧ batchOpening variant key (session.transcript (G := G))
        = .error (.publicInputCountMismatch publicInputs (publicInputs % Variant.inputPeriod)) := by
  obtain ⟨session, hreplay, hreplayed⟩ := Session.exists_replayed_full hvalid hlength
  have hcount : publicInputs % Variant.inputPeriod ≠ key.publicInputs := by
    have hlt := Variant.mod_inputPeriod_lt publicInputs
    omega
  refine ⟨session, ?_, hreplayed.completed, ?_⟩
  · rw [Variant.replayWords_of_size_lt hwords .wrapping _ _ (hlength.trans_lt hwords), hreplay]
    rfl
  · rw [Session.Replayed.batchOpening_of_count hreplayed hvalid hlinearised hkey hwidth hcount, hinputs]

/-- With `2 ^ 59 - 1` public inputs the program finds a size of 488 bytes, and stops at any such bytes; with `2 ^ 59` it
finds 520, reads them to the end, and rejects them for the number of public inputs; with checked arithmetic it does
not come that far. -/
theorem full_proof_overflows :
    (Variant.ofTag .standard).validate = .ok ()
      ∧ (VerificationKey.smallPoints 3 (2 ^ 59 - 1)).Serves (.ofTag .standard) (2 ^ 59 - 1)
      ∧ (∀ arithmetic, (Variant.ofTag .standard).manifestWords arithmetic (2 ^ 59 - 1)
        = .ok ((Variant.ofTag .standard).manifest (2 ^ 59 - 1)))
      ∧ ((Variant.ofTag .standard).manifest (2 ^ 59 - 1)).sizeWords .wrapping = .ok 488
      ∧ ((Variant.ofTag .standard).manifest (2 ^ 59 - 1)).sizeWords .checked = .error .overflow
      ∧ Session.replayWords .wrapping (List.replicate 488 0) ((Variant.ofTag .standard).manifest (2 ^ 59 - 1)) .keccak256
        32 = .error (.crashed .outOfBounds)
      ∧ Session.replayWords .checked (List.replicate 488 0) ((Variant.ofTag .standard).manifest (2 ^ 59 - 1)) .keccak256
        32 = .error (.crashed .overflow)
      ∧ (VerificationKey.smallPoints 3 (2 ^ 59)).Serves (.ofTag .standard) (2 ^ 59)
      ∧ (Variant.ofTag .standard).manifestWords .checked (2 ^ 59) = .error .overflow
      ∧ (Variant.ofTag .standard).manifestWords .wrapping (2 ^ 59) = .ok ((Variant.ofTag .standard).manifest 0)
      ∧ ((Variant.ofTag .standard).manifest 0).sizeWords .wrapping = .ok 520
      ∧ ∃ session, Session.replayWords .wrapping (List.replicate 520 0) ((Variant.ofTag .standard).manifest 0) .keccak256
          32 = .ok session
        ∧ session.completed = 6
        ∧ batchOpening (.ofTag .standard) (.smallPoints 3 (2 ^ 59)) (session.transcript (G := Point))
          = .error (.publicInputCountMismatch (2 ^ 59) 0) := by
  have hvalid : (Variant.ofTag .standard).validate = .ok () := by decide +kernel
  have hcomposable := Variant.validate_eq_ok_iff.mp hvalid
  have hsize : ((Variant.ofTag .standard).manifest (2 ^ 59 - 1)).size = 2 ^ 64 + 488 := by decide +kernel
  have hsize' : ((Variant.ofTag .standard).manifest 0).size = 520 := by decide +kernel
  have hkey := VerificationKey.smallPoints_serves (2 ^ 59)
  have hcrash : ∀ {arithmetic : Arithmetic} {crash : Crash},
      arithmetic.crash? (8 + 32 * (2 ^ 59 - 1 + 3)) 488 = some crash →
      Session.replayWords arithmetic (List.replicate 488 0) ((Variant.ofTag .standard).manifest (2 ^ 59 - 1))
        .keccak256 32 = .error (.crashed crash) := by
    intro arithmetic crash h
    have hlength : (List.replicate 488 (0 : UInt8)).length = 488 := List.length_replicate
    exact hcomposable.replayWords_of_inputs (by decide) (by rw [hlength]; decide) (by rw [hlength]; decide)
      (by rwa [hlength])
  refine ⟨hvalid, VerificationKey.smallPoints_serves _, fun arithmetic => Variant.manifestWords_of_lt _ _ (by decide),
    ?_, ?_, ?_, ?_, hkey, Variant.manifestWords_checked (by decide), Variant.manifestWords_wrapping _ _, ?_, ?_⟩
  · rw [Manifest.sizeWords_eq, hsize]
    rfl
  · rw [Manifest.sizeWords_eq, hsize]
    rfl
  · exact hcrash (by decide +kernel)
  · exact hcrash (by decide +kernel)
  · rw [Manifest.sizeWords_eq, hsize']
    rfl
  · have hmod : 2 ^ 59 % Variant.inputPeriod = 0 := by decide
    have hread := full_proof_wraps hcomposable rfl hkey.validate rfl hkey.publicInputs (by decide)
    rw [hmod] at hread
    exact hread (by rw [hsize']; decide) (by rw [hsize', List.length_replicate])

end PlonkVerifier
