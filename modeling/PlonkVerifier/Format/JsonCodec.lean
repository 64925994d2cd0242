import PlonkVerifier.Format.Encoded
import PlonkVerifier.LabelMap

/-!
# Format/JsonCodec — types with a JSON form

Reading gives a value or nothing.  Sizes are 64-bit: a larger integer is no size.  The entries of a map
are the fields of an object, and scalars and points are base64 text.
-/

namespace PlonkVerifier

/-- A type whose values are written as JSON documents. -/
class JsonCodec (α : Type) where
  /-- The written form. -/
  toJson : α → Json
  /-- The value with this written form. -/
  ofJson? : Json → Option α

namespace JsonCodec

variable {α : Type}

instance : JsonCodec Bool where
  toJson := .bool
  ofJson?
    | .bool b => some b
    | _ => none

instance : JsonCodec Nat where
  toJson n := .integer n
  ofJson?
    | .integer n => if 0 ≤ n ∧ n.toNat < UInt64.size then some n.toNat else none
    | _ => none

instance : JsonCodec String where
  toJson := .string
  ofJson?
    | .string text => some text
    | _ => none

instance [JsonCodec α] : JsonCodec (List α) where
  toJson items := .array (items.map toJson)
  ofJson?
    | .array items => items.mapM ofJson?
    | _ => none

/-- Nothing is written as null. -/
instance [JsonCodec α] : JsonCodec (Option α) where
  toJson
    | none => .null
    | some a => toJson a
  ofJson?
    | .null => some none
    | document => (ofJson? document).map some

instance [JsonCodec α] : JsonCodec (LabelMap α) where
  toJson m := .object (m.map toJson).entries
  ofJson?
    | .object fields => do
      let entries ← fields.mapM fun (label, document) => return (label, ← ofJson? document)
      return .ofList entries
    | _ => none

/-- The form of a value with a binary form. -/
abbrev ofByteCodec [ByteCodec α] : JsonCodec α where
  toJson := Encoded.toJson
  ofJson? document := (Encoded.ofJson document).toOption

instance : JsonCodec Scalar := ofByteCodec

instance : JsonCodec Point := ofByteCodec

/-- The form of a type whose values are listed and named. -/
abbrev ofNames (all : List α) (name : α → String) : JsonCodec α where
  toJson a := .string (name a)
  ofJson? document := do
    let text ← document.tag?
    all.find? fun a => name a == text

end JsonCodec

end PlonkVerifier
