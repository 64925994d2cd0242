/-!
# AlgebraError — why an algebraic operation has no answer

Fields, curve and text codecs share one list of causes.  `message` is the only place where a cause is
put into words.
-/

namespace PlonkVerifier

/-- Why an operation on scalars, points or their encodings failed. -/
inductive AlgebraError where
  /-- Bytes or text that encode no value. -/
  | deserialization
  /-- A value without an encoding. -/
  | serialization
  /-- Arguments that do not fit together. -/
  | parameter
  /-- The inverse of zero. -/
  | inversion
  /-- A domain size without a root of unity. -/
  | domainSize
  deriving DecidableEq, Repr

/-- The cause in words. -/
def AlgebraError.message : AlgebraError → String
  | .deserialization => "Could not deserialize object"
  | .serialization => "Could not serialize object"
  | .parameter => "Unexpected parameter for method or function"
  | .inversion => "Group Element not invertible"
  | .domainSize => "Evaluation domain size is not a supported power of two"

end PlonkVerifier
