import PlonkVerifier.Commitment.Group
import PlonkVerifier.Transcript.Manifest
import PlonkVerifier.Transcript.Table

/-!
# Transcript/Session — a transcript derived from messages

A session follows a manifest: messages are recorded, and closing a round hashes its messages together
with the digest of the round before.  The `i`-th challenge of a round is the hash of its digest followed
by the byte `i`; a member of a map challenge is the hash of the digest followed by the member's label.
Both are cut to the challenge width.

`replay` reads the messages of a proof from its bytes.  A round cut short by the end of the bytes is
dropped, so that its challenges stay unavailable.
-/

namespace PlonkVerifier

/-- How a session departs from its manifest. -/
inductive SessionFault where
  | unsupportedWidth (width : Nat)
  | complete
  | notDerived (round : Nat) (challenge : String)
  | missing (name : String)
  | wrongSize (name : String) (found expected : Nat)
  | noChallenge
  | trailing (count : Nat)
  deriving DecidableEq, Repr

namespace SessionFault

/-- The fault in words. -/
def reason : SessionFault → String
  | unsupportedWidth width => "unsupported challenge width " ++ toString width
  | complete => "all rounds are complete"
  | notDerived round challenge =>
    "round " ++ toString round ++ " does not derive " ++ challenge
  | missing name => name ++ " is missing"
  | wrongSize name found expected =>
    name ++ " has " ++ toString found ++ " bytes, expected " ++ toString expected
  | noChallenge => "round without challenge"
  | trailing count => toString count ++ " trailing bytes"

/-- The fault as an error. -/
def error (fault : SessionFault) : VerifierError := .manifest fault.reason

end SessionFault

/-- A transcript under way. -/
structure Session where
  manifest : Manifest
  hash : ChallengeHash
  challengeBytes : Nat
  /-- The recorded messages. -/
  elements : LabelMap Bytes
  /-- The challenges of closed rounds. -/
  challenges : LabelMap Scalar
  /-- The digests behind the map challenges of closed rounds. -/
  mapDigests : LabelMap Bytes
  /-- The number of closed rounds. -/
  completed : Nat
  /-- The digest of the last closed round; nothing before the first. -/
  digest : Bytes
  deriving DecidableEq

namespace Session

/-- A session without messages. -/
def start (manifest : Manifest) (hash : ChallengeHash) (challengeBytes : Nat) :
    Except VerifierError Session :=
  if challengeBytes = 0 ∨ challengeBytes > hash.digestSize ∨ challengeBytes > Scalar.size then
    .error (SessionFault.unsupportedWidth challengeBytes).error
  else
    .ok {
      manifest, hash, challengeBytes
      elements := .empty, challenges := .empty, mapDigests := .empty, completed := 0, digest := [] }

/-! ## Recording messages -/

/-- Records the bytes of a message. -/
def record (session : Session) (name : String) (bytes : Bytes) : Session :=
  { session with elements := session.elements.insert name bytes }

/-- Records a field element. -/
def recordScalar (session : Session) (name : String) (x : Scalar) : Session :=
  session.record name x.encode

/-- Records a vector of field elements. -/
def recordVector (session : Session) (name : String) (xs : List Scalar) : Session :=
  session.record name (xs.flatMap Scalar.encode)

/-- Records a commitment. -/
def recordCommitment {G : Type} [CommitmentGroup G] (session : Session) (name : String) (P : G) :
    Session :=
  session.record name (ByteCodec.encode P)

/-! ## Closing a round -/

/-- The challenge cut from the hash of `input`. -/
def derive (session : Session) (input : Bytes) : Except VerifierError Scalar :=
  liftAlgebra (Scalar.ofBytes ((session.hash.digest input).take session.challengeBytes))

/-- The recorded bytes of a message of the manifest. -/
def messageBytes (session : Session) (entry : ManifestEntry) : Except VerifierError Bytes :=
  match session.elements.find? entry.name with
  | none => .error (SessionFault.missing entry.name).error
  | some bytes =>
    if bytes.length = entry.size then .ok bytes
    else .error (SessionFault.wrongSize entry.name bytes.length entry.size).error

/-- What is hashed when a round is closed. -/
def roundInput (session : Session) (round : ManifestRound) : Except VerifierError Bytes := do
  return session.digest ++ (← round.sent.mapM session.messageBytes).flatten

/-- Makes the challenges of a round with this digest available. -/
def drawChallenges (session : Session) (round : ManifestRound) (digest : Bytes) :
    Except VerifierError Session :=
  if round.isMap then
    .ok { session with
      mapDigests := round.challenges.foldl (fun m label => m.insert label digest)
        session.mapDigests }
  else do
    let challenges ← round.challenges.zipIdx.foldlM
      (fun m (label, i) => return m.insert label (← session.derive (digest ++ [UInt8.ofNat i])))
      session.challenges
    return { session with challenges }

/-- Closes the current round, which has to be the one whose first challenge is named. -/
def closeRound (session : Session) (challenge : String) : Except VerifierError Session :=
  match session.manifest.rounds[session.completed]? with
  | none => .error SessionFault.complete.error
  | some round =>
    if round.challenges.head? ≠ some challenge then
      .error (SessionFault.notDerived session.completed challenge).error
    else do
      let digest := session.hash.digest (← session.roundInput round)
      let session ← session.drawChallenges round digest
      return { session with completed := session.completed + 1, digest }

/-! ## Replaying and exporting a proof -/

/-- Records the messages of a round from the front of `bytes`, and returns what is left. -/
def recordSent : List ManifestEntry → Bytes → Session → Session × Bytes
  | [], bytes, session => (session, bytes)
  | entry :: entries, bytes, session =>
    recordSent entries (bytes.drop entry.size) (session.record entry.name (bytes.take entry.size))

/-- Closes as many of the rounds as the bytes hold, and returns what is left. -/
def replayRounds : List ManifestRound → Bytes → Session → Except VerifierError (Session × Bytes)
  | [], bytes, session => .ok (session, bytes)
  | round :: rounds, bytes, session =>
    if bytes.length < round.size then .ok (session, bytes)
    else
      let (session, bytes) := recordSent round.sent bytes session
      match round.challenges with
      | [] => .error SessionFault.noChallenge.error
      | challenge :: _ => do replayRounds rounds bytes (← session.closeRound challenge)

/-- The session of a proof. -/
def replay (bytes : Bytes) (manifest : Manifest) (hash : ChallengeHash) (challengeBytes : Nat) :
    Except VerifierError Session := do
  let (session, rest) ← replayRounds manifest.rounds bytes (← start manifest hash challengeBytes)
  if rest ≠ [] ∧ session.completed = manifest.rounds.length then
    throw (SessionFault.trailing rest.length).error
  return session

/-- The proof made of the messages of the closed rounds.  The room that a program reserves for it may be too much:
see `exportedWords`. -/
def exported (session : Session) : Bytes :=
  (session.manifest.rounds.take session.completed).flatMap fun round =>
    round.sent.flatMap fun entry => (session.elements.find? entry.name).getD []

/-! ## Answering queries -/

/-- The field elements written one after the other. -/
def scalars (bytes : Bytes) : Except AlgebraError (List Scalar) :=
  (bytes.blocks Scalar.size).mapM Scalar.ofBytes

/-- The transcript that answers from the session. -/
def transcript {G : Type} [CommitmentGroup G] (session : Session) : Transcript G where
  hash := session.hash
  challengeBytes := session.challengeBytes
  challenge label := orMissing (.missingChallenge label) (session.challenges.find? label)
  mapMember challenge label := do
    let digest ← orMissing (.missingChallenge (memberName challenge label))
      (session.mapDigests.find? challenge)
    session.derive (digest ++ label.toUTF8.toList)
  evaluation label := do
    let bytes ← orMissing (.missingEvaluation label) (session.elements.find? label)
    if bytes.length ≠ Scalar.size then throw (.missingEvaluation label)
    liftAlgebra (Scalar.ofBytes bytes)
  vector label := do
    let bytes ← orMissing (.missingEvaluation label) (session.elements.find? label)
    if bytes.length % Scalar.size ≠ 0 then throw (.missingEvaluation label)
    liftAlgebra (scalars bytes)
  commitment label := do
    let bytes ← orMissing (.missingCommitment label) (session.elements.find? label)
    liftAlgebra (ByteCodec.decode bytes)

end Session

end PlonkVerifier
