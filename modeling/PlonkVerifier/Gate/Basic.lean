import PlonkVerifier.Error
import PlonkVerifier.Field.Scalar

/-!
# Gate/Basic — gates with one selector

A gate's constraint is its selector times several sub-identities, each of which has to vanish on its own.
One challenge `s` separates them: they are summed with the weights `1, s, s², …`, so that the sum
vanishes for many `s` only if every sub-identity does.

Each gate has a module with its sub-identities as a function of the values in the row.
-/

namespace PlonkVerifier

/-- The values of the four wires in a row. -/
structure Row where
  a : Scalar
  b : Scalar
  c : Scalar
  d : Scalar
  deriving DecidableEq, Repr

/-- How an evaluation is found by its label. -/
abbrev Evaluations := String → Except VerifierError Scalar

/-- The wires of the row at the evaluation point. -/
def Row.read (evaluation : Evaluations) : Except VerifierError Row := do
  let a ← evaluation "w_1"
  let b ← evaluation "w_2"
  let c ← evaluation "w_3"
  let d ← evaluation "w_4"
  return ⟨a, b, c, d⟩

/-- A gate that one selector switches on. -/
structure Gate where
  /-- The evaluation label of the selector. -/
  selector : String
  /-- The challenge that separates the sub-identities. -/
  separation : String
  /-- The evaluations read besides the wires of the row. -/
  inputs : List String
  /-- The sub-identities at the values found by label. -/
  subIdentities : Evaluations → Except VerifierError (List Scalar)

/-- `∑ sʲ cⱼ` over the sub-identities `cⱼ`. -/
def separate (s : Scalar) (subIdentities : List Scalar) : Scalar :=
  Residue.sum ((Residue.powers s subIdentities.length).zipWith (· * ·) subIdentities)

/-- `f (f - 1) (f - 2) (f - 3)`, which vanishes on base-4 digits only. -/
def quadRange (f : Scalar) : Scalar := f * (f - 1) * (f - 2) * (f - 3)

/-! ## The embedded curve

Two gates compute on the twisted Edwards curve `a x² + y² = 1 + d x² y²` over the scalar field. -/

namespace Edwards

/-- The coefficient `a`. -/
def a : Nat := 168700

/-- The coefficient `d`. -/
def d : Nat := 168696

end Edwards

end PlonkVerifier
