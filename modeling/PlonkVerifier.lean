import PlonkVerifier.Bytes.Lemmas
import PlonkVerifier.Format.Documents
import PlonkVerifier.Opening
import PlonkVerifier.Proofs.Except
import PlonkVerifier.Proofs.Arithmetic
import PlonkVerifier.Proofs.Outcome
import PlonkVerifier.Proofs.LabelMap
import PlonkVerifier.Proofs.Field.Scalar
import PlonkVerifier.Transcript.Session
import PlonkVerifier.Proofs.FormalSum
import PlonkVerifier.Proofs.Labels
import PlonkVerifier.Proofs.Validity
import PlonkVerifier.Proofs.Composition
import PlonkVerifier.Proofs.Linearisation
import PlonkVerifier.Proofs.AlphaCombination
import PlonkVerifier.Proofs.BatchOpening
import PlonkVerifier.Proofs.Pairing
import PlonkVerifier.Proofs.Queries
import PlonkVerifier.Proofs.Footprint
import PlonkVerifier.Proofs.Replay
import PlonkVerifier.Proofs.Answers
import PlonkVerifier.Proofs.Layout
import PlonkVerifier.Proofs.Words
import PlonkVerifier.Proofs.ManifestWords
import PlonkVerifier.Proofs.ExactLength
import PlonkVerifier.Proofs.FullProof
import PlonkVerifier.Proofs.CopyArgument
import PlonkVerifier.Proofs.Separation
import PlonkVerifier.Proofs.LogicChain
import PlonkVerifier.Proofs.RangeChain
import PlonkVerifier.Proofs.Cosets
import PlonkVerifier.Proofs.PublicInputs
import PlonkVerifier.Proofs.Edwards
import PlonkVerifier.Proofs.FixedBaseChain
import PlonkVerifier.Proofs.Rounds
import PlonkVerifier.Proofs.ProverRun
import PlonkVerifier.Proofs.Binding
import PlonkVerifier.Proofs.PointAddition
import PlonkVerifier.Proofs.AlphaSlots
import PlonkVerifier.Proofs.Grammar
import PlonkVerifier.Proofs.Calls
import PlonkVerifier.Proofs.Acceptance
import PlonkVerifier.Proofs.DistinctLabels
import PlonkVerifier.Proofs.Closings
import PlonkVerifier.Proofs.Derivation
import PlonkVerifier.Proofs.Aggregate
import PlonkVerifier.Proofs.Field.Coordinate
import PlonkVerifier.Proofs.Encodings
import PlonkVerifier.Proofs.Serialization
import PlonkVerifier.Proofs.LagrangeBasis
