import PlonkVerifier.AlgebraError
import PlonkVerifier.Bytes
import PlonkVerifier.Curve.Point

/-!
# Curve/Compressed — points in 32 bytes

The abscissa fills the low 254 bits of a little-endian number.  Bit 255 says that the ordinate is the
larger of the two candidates, bit 254 that the point is infinity.

`decode` reads the first 32 bytes and ignores the rest, and infinity may come with any abscissa below the
modulus: a point has many readable forms, and `encode` picks one of them.
-/

namespace PlonkVerifier

namespace Coordinate

/-- The candidate square root; a root exactly when the argument is a square. -/
def sqrt (a : Coordinate) : Coordinate := Residue.pow a ((coordinateModulus + 1) / 4)

/-- Whether `y` is the larger of `y` and `-y`. -/
def isLarger (y : Coordinate) : Bool := decide (-y < y)

end Coordinate

namespace Point

/-- The length of an encoded point. -/
def encodedSize : Nat := 32

/-- The weight of the bit for the larger ordinate. -/
def largerFlag : Nat := 1 <<< 255

/-- The weight of the bit for infinity. -/
def infinityFlag : Nat := 1 <<< 254

/-- The compressed form of a point. -/
def encode : Point → Bytes
  | infinity => Bytes.ofNat encodedSize infinityFlag
  | affine x y => Bytes.ofNat encodedSize (x.val + if Coordinate.isLarger y then largerFlag else 0)

/-- The point with abscissa `x` and the chosen ordinate. -/
def lift (x : Coordinate) (larger : Bool) : Except AlgebraError Point :=
  let y := Coordinate.sqrt (cubic x)
  if y * y = cubic x then
    .ok (affine x (if Coordinate.isLarger y = larger then y else -y))
  else .error .deserialization

/-- The point in the first 32 bytes. -/
def decode (bytes : Bytes) : Except AlgebraError Point :=
  if bytes.length < encodedSize then .error .deserialization
  else
    let word := Bytes.toNat (bytes.take encodedSize)
    let larger := word / largerFlag % 2 = 1
    let atInfinity := word / infinityFlag % 2 = 1
    let abscissa := word % infinityFlag
    if larger ∧ atInfinity then .error .deserialization
    else if h : abscissa < coordinateModulus then
      if atInfinity then .ok infinity else lift ⟨abscissa, h⟩ larger
    else .error .deserialization

end Point

end PlonkVerifier
