import PlonkVerifier.AlgebraError
import PlonkVerifier.Bytes

/-!
# Text/Base64 — bytes as URL-safe base64

Three bytes are four symbols; a rest of one or two bytes is two or three symbols, filled up with `=` when
written.  Reading takes the filling as optional: a final group of two or three symbols may be followed by
any number of `=` that stays within the group of four.  The bits of the last symbol that belong to no
byte must be zero, so a byte string has one symbol string.
-/

namespace PlonkVerifier

namespace Base64

/-- The symbol of a six-bit number. -/
def symbol (n : Nat) : Char :=
  if n < 26 then Char.ofNat ('A'.toNat + n)
  else if n < 52 then Char.ofNat ('a'.toNat + (n - 26))
  else if n < 62 then Char.ofNat ('0'.toNat + (n - 52))
  else if n = 62 then '-'
  else '_'

/-- The six-bit number of a symbol. -/
def value? (c : Char) : Option Nat :=
  if c.isUpper then some (c.toNat - 'A'.toNat)
  else if c.isLower then some (c.toNat - 'a'.toNat + 26)
  else if c.isDigit then some (c.toNat - '0'.toNat + 52)
  else if c = '-' then some 62
  else if c = '_' then some 63
  else none

theorem value?_symbol {n : Nat} (h : n < 64) : value? (symbol n) = some n := by
  have all : ∀ k ∈ List.range 64, value? (symbol k) = some k := by decide
  exact all n (List.mem_range.mpr h)

/-! ## Writing -/

/-- The symbols of a byte string, with its filling. -/
def encodeChars : Bytes → List Char
  | a :: b :: c :: rest =>
    let n := (a.toNat * 256 + b.toNat) * 256 + c.toNat
    symbol (n / 2 ^ 18) :: symbol (n / 2 ^ 12 % 64) :: symbol (n / 2 ^ 6 % 64) :: symbol (n % 64)
      :: encodeChars rest
  | [a, b] =>
    let n := a.toNat * 256 + b.toNat
    [symbol (n / 2 ^ 10), symbol (n / 2 ^ 4 % 64), symbol (n % 16 * 4), '=']
  | [a] => [symbol (a.toNat / 4), symbol (a.toNat % 4 * 16), '=', '=']
  | [] => []

/-- A byte string as text. -/
def encode (bytes : Bytes) : String := String.ofList (encodeChars bytes)

/-! ## Reading -/

/-- The bytes of a sequence of six-bit numbers; none if a bit is left over and not zero. -/
def bytes? : List Nat → Option Bytes
  | a :: b :: c :: d :: rest =>
    (bytes? rest).map fun tail =>
      UInt8.ofNat (a * 4 + b / 16) :: UInt8.ofNat (b % 16 * 16 + c / 4)
        :: UInt8.ofNat (c % 4 * 64 + d) :: tail
  | [a, b, c] =>
    if c % 4 = 0 then some [UInt8.ofNat (a * 4 + b / 16), UInt8.ofNat (b % 16 * 16 + c / 4)]
    else none
  | [a, b] => if b % 16 = 0 then some [UInt8.ofNat (a * 4 + b / 16)] else none
  | [_] => none
  | [] => some []

/-- Whether `filling` may follow `count` symbols. -/
def fills (count : Nat) (filling : List Char) : Bool :=
  filling.all (· == '=') && decide (filling.length ≤ (4 - count % 4) % 4)

/-- The bytes of a text. -/
def decode (text : String) : Except AlgebraError Bytes :=
  let symbols := text.toList.takeWhile (· != '=')
  let filling := text.toList.dropWhile (· != '=')
  let bytes := if fills symbols.length filling then symbols.mapM value? >>= bytes? else none
  match bytes with
  | some bytes => .ok bytes
  | none => .error .deserialization

end Base64

end PlonkVerifier
