/-!
# Family — the constraint families of a circuit

A circuit's constraints fall into families; a verifier applies the families of a proof system instance
one after the other, in the prover's order.
-/

namespace PlonkVerifier

/-- A constraint family. -/
inductive Family where
  /-- Copy constraints between wires. -/
  | permutation
  /-- Arithmetic gates on three wires. -/
  | arithmetic
  /-- Arithmetic gates on four wires. -/
  | turboArithmetic
  /-- Steps of a fixed-base scalar multiplication. -/
  | turboFixedBase
  /-- Decomposition into base-4 digits. -/
  | turboRange
  /-- Exclusive or and conjunction, digit by digit. -/
  | turboLogic
  /-- Addition on the embedded twisted Edwards curve. -/
  | elliptic
  deriving DecidableEq, Repr

namespace Family

/-- Every family. -/
def all : List Family :=
  [permutation, arithmetic, turboArithmetic, turboFixedBase, turboRange, turboLogic, elliptic]

/-- The name of a family. -/
def name : Family → String
  | permutation => "Permutation"
  | arithmetic => "Arithmetic"
  | turboArithmetic => "TurboArithmetic"
  | turboFixedBase => "TurboFixedBase"
  | turboRange => "TurboRange"
  | turboLogic => "TurboLogic"
  | elliptic => "Elliptic"

end Family

/-- How the families are applied.  Verifier and prover have to agree on it. -/
structure Mode where
  /-- Fold the selector polynomials into one linearisation polynomial. -/
  linearised : Bool
  /-- Read the identity permutation from committed polynomials. -/
  identityPolynomials : Bool
  deriving DecidableEq, Repr

end PlonkVerifier
