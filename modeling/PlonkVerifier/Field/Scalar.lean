import PlonkVerifier.AlgebraError
import PlonkVerifier.Bytes
import PlonkVerifier.Field.Residue

/-!
# Field/Scalar — the scalar field of BN254

Challenges, evaluations and coefficients are residues modulo the group order.  The field has `2 ^ 28`-th
roots of unity, one of each order a power of two: `rootOfUnity`.

Two readings of bytes are kept apart: `ofBytes` takes up to 32 bytes and reduces them, as a challenge is
read, and `decode` takes exactly the 32 bytes that `encode` writes.
-/

namespace PlonkVerifier

/-- The order of the curve group. -/
abbrev scalarModulus : Nat :=
  21888242871839275222246405745257275088548364400416034343698204186575808495617

/-- A scalar. -/
abbrev Scalar := Residue scalarModulus

instance : Modulus scalarModulus := ⟨by decide⟩

namespace Scalar

/-- The residue of `n`. -/
def ofNat (n : Nat) : Scalar := Fin.ofNat scalarModulus n

/-- A generator of the multiplicative group. -/
def generator : Scalar := 5

/-- The largest `k` such that `2 ^ k` divides the order of the multiplicative group. -/
def twoAdicity : Nat := 28

/-- Whether `n` is a power of two. -/
def isPowerOfTwo (n : Nat) : Bool := n == 1 <<< n.log2

/-- The chosen primitive `size`-th root of unity, for `size` a power of two up to `2 ^ 28`. -/
def rootOfUnity (size : Nat) : Except AlgebraError Scalar :=
  if isPowerOfTwo size ∧ size.log2 ≤ twoAdicity then
    .ok (Residue.pow generator ((scalarModulus - 1) / size))
  else .error .domainSize

/-- The inverse of a nonzero scalar. -/
def invert (x : Scalar) : Except AlgebraError Scalar :=
  if x = 0 then .error .inversion else .ok (Residue.inverse x)

/-- `x` to the number written by 64-bit limbs, least significant first. -/
def powLimbs (x : Scalar) (limbs : List UInt64) : Scalar :=
  Residue.pow x (limbs.foldr (fun limb higher => limb.toNat + higher <<< 64) 0)

/-! ## Bytes -/

/-- The length of an encoded scalar. -/
def size : Nat := 32

/-- The canonical number in 32 bytes. -/
def encode (x : Scalar) : Bytes := Bytes.ofNat size x.val

/-- The residue of at most 32 bytes. -/
def ofBytes (bytes : Bytes) : Except AlgebraError Scalar :=
  if bytes.length ≤ size then .ok (ofNat bytes.toNat) else .error .deserialization

/-- The residue of exactly 32 bytes. -/
def decode (bytes : Bytes) : Except AlgebraError Scalar :=
  if bytes.length = size then ofBytes bytes else .error .deserialization

/-! ## Decimal text -/

/-- The canonical number in decimal. -/
def toDecimal (x : Scalar) : String := toString x.val

/-- The value of a string of decimal digits. -/
def digitsValue (digits : List Char) : Nat :=
  digits.foldl (fun value digit => 10 * value + (digit.toNat - '0'.toNat)) 0

/-- The residue of a decimal numeral: digits only, and no leading zero but in `0`. -/
def ofDecimal (text : String) : Except AlgebraError Scalar :=
  match text.toList with
  | ['0'] => .ok 0
  | digits@(first :: _) =>
    if first ≠ '0' ∧ digits.all Char.isDigit then .ok (ofNat (digitsValue digits))
    else .error .deserialization
  | [] => .error .deserialization

end Scalar

end PlonkVerifier
