import PlonkVerifier.Text.ShortestDecimal

/-!
# Format/Json — documents

Keys, variants and manifests are exchanged as JSON.  A document is held as a tree; two shapes recur in
it.  `record?` reads a record, and `tag?` reads the name of a constructor without data.
-/

namespace PlonkVerifier

/-- A JSON document.  Integers and other numbers are different kinds of value: `8` is a size and `8.0` is not. -/
inductive Json where
  | null
  | bool (b : Bool)
  | integer (n : Int)
  | float (x : Float)
  | string (text : String)
  | array (items : List Json)
  | object (fields : List (String × Json))
  deriving Inhabited, Repr

namespace Json

/-- The fields with these names, in this order.  A record is an object that may have further fields, and
in which an absent field counts as null, or an array of exactly the fields. -/
def record? (names : List String) : Json → Option (List Json)
  | object fields => some (names.map fun name => (fields.lookup name).getD null)
  | array items => if items.length = names.length then some items else none
  | _ => none

/-- The name of a constructor: alone, or as the only field of an object, with the value null. -/
def tag? : Json → Option String
  | string name => some name
  | object [(name, null)] => some name
  | _ => none

/-- The kind of a document, with its value if it is a number or truth value. -/
def kind : Json → String
  | null => "null"
  | bool b => "boolean \x60" ++ toString b ++ "\x60"
  | integer n => "integer \x60" ++ toString n ++ "\x60"
  | float x => "floating point \x60" ++ ShortestDecimal.text x ++ "\x60"
  | string _ => "text"
  | array _ => "sequence"
  | object _ => "map"

end Json

end PlonkVerifier
