import PlonkVerifier.Arithmetic
import PlonkVerifier.Field.Scalar
import PlonkVerifier.LabelMap

/-!
# Key — what a verifier knows of a circuit

`VerificationKey.create` chooses the root of unity and the coset generators; a key from elsewhere is
checked by `validate` before use.  Widths are counted without a bound, and by `validateWords` as a program does.
-/

namespace PlonkVerifier

/-- The preprocessed data of one circuit, with commitments in `G`. -/
structure VerificationKey (G : Type) where
  /-- The size of the evaluation domain, a power of two. -/
  circuitSize : Nat
  /-- The number of public inputs. -/
  publicInputs : Nat
  /-- The number of wires of a gate. -/
  programWidth : Nat
  /-- Whether the circuit verifies another proof. -/
  isRecursive : Bool
  /-- A root of unity that generates the domain. -/
  root : Scalar
  /-- The inverse of `root`. -/
  rootInverse : Scalar
  /-- A coset for each wire, and one more for the public inputs. -/
  cosetGenerators : List Scalar
  /-- The commitments to selectors and permutations. -/
  commitments : LabelMap G
  deriving DecidableEq

/-- `1, g, …, g ^ width` for the multiplicative generator `g`. -/
def defaultCosetGenerators (width : Nat) : List Scalar :=
  Residue.powers Scalar.generator (width + 1)

namespace VerificationKey

variable {G : Type}

/-- The key of a circuit, with the standard root and coset generators. -/
def create (circuitSize publicInputs programWidth : Nat) (commitments : LabelMap G) :
    Except VerifierError (VerificationKey G) := do
  let root ← liftAlgebra (Scalar.rootOfUnity circuitSize)
  let rootInverse ← liftAlgebra (Scalar.invert root)
  return {
    circuitSize, publicInputs, programWidth, isRecursive := false, root, rootInverse
    cosetGenerators := defaultCosetGenerators programWidth, commitments }

/-- The commitment with a label. -/
def commitment (key : VerificationKey G) (label : String) : Except VerifierError G :=
  match key.commitments.find? label with
  | some commitment => .ok commitment
  | none => .error (.missingCommitment label)

/-- The coset generator of a wire, counted from zero. -/
def cosetGenerator (key : VerificationKey G) (index : Nat) : Except VerifierError Scalar :=
  match key.cosetGenerators[index]? with
  | some generator => .ok generator
  | none => .error (.programWidthMismatch (index + 1) key.cosetGenerators.length)

/-- The coset generator of the public inputs. -/
def externalCosetGenerator (key : VerificationKey G) : Except VerifierError Scalar :=
  key.cosetGenerator key.programWidth

/-- Accepts a domain that is a power of two of at least four points, with a root that has this power one and the
stated inverse. -/
def checkDomain (key : VerificationKey G) : Except VerifierError Unit :=
  if ¬ Scalar.isPowerOfTwo key.circuitSize ∨ key.circuitSize < 4 then
    .error (.algebra .domainSize)
  else if Residue.pow key.root key.circuitSize ≠ 1 ∨ key.root * key.rootInverse ≠ 1 then
    .error (.algebra .parameter)
  else .ok ()

/-- Accepts this number of coset generators. -/
def checkGenerators (key : VerificationKey G) (expected : Nat) : Except VerifierError Unit :=
  if key.cosetGenerators.length ≠ expected then
    .error (.programWidthMismatch expected key.cosetGenerators.length)
  else .ok ()

/-- Accepts a key whose domain is a power of two of at least four points, whose root has that power one
and the stated inverse, and which has a coset for each wire and one more. -/
def validate (key : VerificationKey G) : Except VerifierError Unit := do
  key.checkDomain
  key.checkGenerators (key.programWidth + 1)

/-! ## Widths of 64 bits -/

/-- `cosetGenerator`, where the missing wire is counted with a 64-bit number. -/
def cosetGeneratorWords (arithmetic : Arithmetic) (key : VerificationKey G) (index : Nat) : Except Halt Scalar :=
  match key.cosetGenerators[index]? with
  | some generator => .ok generator
  | none => do
    let expected ← (arithmetic.add index 1).mapError .crashed
    throw (.rejected (.programWidthMismatch expected key.cosetGenerators.length))

/-- `validate`, where the cosets are counted with a 64-bit number. -/
def validateWords (arithmetic : Arithmetic) (key : VerificationKey G) : Except Halt Unit := do
  key.checkDomain.mapError .rejected
  let expected ← (arithmetic.add key.programWidth 1).mapError .crashed
  (key.checkGenerators expected).mapError .rejected

end VerificationKey

end PlonkVerifier
