import PlonkVerifier.ByteCodec
import PlonkVerifier.Format.Json
import PlonkVerifier.Text.Base64

/-!
# Format/Encoded — scalars and points inside documents

The bytes of a value appear in a format as base64 text, as a byte string behind its length, as a list of
numbers, or as they are.  All four go through the one binary form of the value.
-/

namespace PlonkVerifier

/-- Why a value cannot be read from a format. -/
inductive FormatError where
  /-- A document of another kind than text. -/
  | kind (found : String)
  /-- A number that is no byte. -/
  | byteRange (number : Nat)
  /-- Bytes or text that encode no value. -/
  | value
  deriving DecidableEq, Repr

/-- The cause in words. -/
def FormatError.message : FormatError → String
  | kind found => "invalid type: " ++ found ++ ", expected a valid WaffleFromToBytes object"
  | byteRange number => "invalid value: integer \x60" ++ toString number ++ "\x60, expected u8"
  | value => AlgebraError.deserialization.message

namespace Encoded

variable {α : Type} [ByteCodec α]

/-- The value of a byte string. -/
def ofBytes (bytes : Bytes) : Except FormatError α :=
  (ByteCodec.decode bytes).mapError fun _ => .value

/-! ## Text -/

/-- A value as base64 text. -/
def toJson (a : α) : Json := .string (Base64.encode (ByteCodec.encode a))

/-- The value of a base64 text. -/
def ofJson : Json → Except FormatError α
  | .string text => do ofBytes (← (Base64.decode text).mapError fun _ => .value)
  | document => .error (.kind document.kind)

/-! ## Lists of numbers -/

/-- A byte. -/
def byte (number : Nat) : Except FormatError UInt8 :=
  if number < 256 then .ok (UInt8.ofNat number) else .error (.byteRange number)

/-- The value of a list of bytes. -/
def ofNumbers (numbers : List Nat) : Except FormatError α := do
  ofBytes (← numbers.mapM byte)

/-! ## Byte strings behind their length -/

/-- The number of bytes of a length. -/
def lengthSize : Nat := 8

/-- A value behind its length. -/
def toBinary (a : α) : Bytes :=
  let bytes := ByteCodec.encode a
  Bytes.ofNat lengthSize bytes.length ++ bytes

/-- The value behind its length at the front of a byte string. -/
def ofBinary? (bytes : Bytes) : Option α :=
  let length := Bytes.toNat (bytes.take lengthSize)
  let rest := bytes.drop lengthSize
  if bytes.length < lengthSize ∨ rest.length < length then none
  else (ofBytes (rest.take length)).toOption

end Encoded

end PlonkVerifier
