import PlonkVerifier.Transcript.Session

/-!
# Transcript/Words — replaying and exporting with 64-bit sizes

A replay adds up the sizes of a manifest to find the messages in the bytes of a proof, and an export to reserve room
for them.  `replayWords` and `exportedWords` do so with 64-bit numbers.
-/

namespace PlonkVerifier

/-- The bytes from `start` up to `stop`. -/
def Bytes.slice (bytes : Bytes) (start stop : Nat) : Except Crash Bytes :=
  if start ≤ stop ∧ stop ≤ bytes.length then .ok ((bytes.take stop).drop start) else .error .outOfBounds

namespace Session

/-- Records messages from `offset` on, and returns the offset behind them. -/
def recordSlices (arithmetic : Arithmetic) (bytes : Bytes) :
    List ManifestEntry → Nat → Session → Except Crash (Session × Nat)
  | [], offset, session => .ok (session, offset)
  | entry :: entries, offset, session => do
    let stop ← arithmetic.add offset entry.size
    let message ← bytes.slice offset stop
    recordSlices arithmetic bytes entries stop (session.record entry.name message)

/-- Records the messages of a round, unless the bytes end before. -/
def recordRound (arithmetic : Arithmetic) (bytes : Bytes) (round : ManifestRound) (offset : Nat)
    (session : Session) : Except Crash (Option (Session × Nat)) := do
  let size ← arithmetic.sum (round.sent.map (·.size))
  let stop ← arithmetic.add offset size
  if bytes.length < stop then return none
  return some (← recordSlices arithmetic bytes round.sent offset session)

/-- Closes as many of the rounds as the bytes hold from `offset` on, and returns the offset behind them. -/
def replayRoundsFrom (arithmetic : Arithmetic) (bytes : Bytes) :
    List ManifestRound → Nat → Session → Except Halt (Session × Nat)
  | [], offset, session => .ok (session, offset)
  | round :: rounds, offset, session => do
    match ← (recordRound arithmetic bytes round offset session).mapError .crashed with
    | none => return (session, offset)
    | some (session, offset) =>
      match round.challenges with
      | [] => throw (.rejected SessionFault.noChallenge.error)
      | challenge :: _ => do
        let session ← (session.closeRound challenge).mapError .rejected
        replayRoundsFrom arithmetic bytes rounds offset session

/-- The session of a proof, if the sums of its sizes are those of a program. -/
def replayWords (arithmetic : Arithmetic) (bytes : Bytes) (manifest : Manifest) (hash : ChallengeHash)
    (challengeBytes : Nat) : Except Halt Session := do
  let session ← (start manifest hash challengeBytes).mapError .rejected
  let (session, offset) ← replayRoundsFrom arithmetic bytes manifest.rounds 0 session
  if offset ≠ bytes.length ∧ session.completed = manifest.rounds.length then
    let count ← (arithmetic.sub bytes.length offset).mapError .crashed
    throw (.rejected (SessionFault.trailing count).error)
  return session

/-- The proof made of the messages of the closed rounds, written where there is room for all messages of the manifest.
Whether the memory for this room is there is not asked. -/
def exportedWords (arithmetic : Arithmetic) (session : Session) : Except Crash Bytes := do
  let capacity ← session.manifest.sizeWords arithmetic
  if Arithmetic.maxCapacity < capacity then throw .capacity
  return session.exported

end Session

end PlonkVerifier
