import PlonkVerifier.Curve.Compressed
import PlonkVerifier.Field.Scalar

/-!
# ByteCodec — values with a binary form

Keys and proofs carry scalars and points as bytes.  Whatever is built from bytes, such as a text or a
message of a transcript, is built over this interface.
-/

namespace PlonkVerifier

/-- A type whose values are written as bytes. -/
class ByteCodec (α : Type) where
  /-- The written form. -/
  encode : α → Bytes
  /-- The value with this written form. -/
  decode : Bytes → Except AlgebraError α

instance : ByteCodec Scalar where
  encode := Scalar.encode
  decode := Scalar.decode

instance : ByteCodec Point where
  encode := Point.encode
  decode := Point.decode

end PlonkVerifier
