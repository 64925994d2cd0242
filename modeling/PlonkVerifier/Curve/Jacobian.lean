import PlonkVerifier.Curve.Point
import PlonkVerifier.Field.Scalar

/-!
# Curve/Jacobian — multiples and weighted sums without divisions

`(x : y : z)` stands for the point `(x / z², y / z³)`, and for infinity when `z = 0`.  A multiple or a
weighted sum is computed in these coordinates and divides once, at the end.
-/

namespace PlonkVerifier

/-- Weighted projective coordinates of a point. -/
structure Jacobian where
  x : Coordinate
  y : Coordinate
  z : Coordinate
  deriving DecidableEq, Repr

namespace Jacobian

/-- A representative of infinity. -/
def infinity : Jacobian := ⟨1, 1, 0⟩

/-- The representative with `z = 1`. -/
def ofPoint : Point → Jacobian
  | .infinity => infinity
  | .affine x y => ⟨x, y, 1⟩

/-- The represented point. -/
def toPoint (P : Jacobian) : Point :=
  if P.z = 0 then .infinity
  else
    let w := Residue.inverse P.z
    .affine (P.x * (w * w)) (P.y * (w * w * w))

/-- The sum of a point with itself. -/
def double (P : Jacobian) : Jacobian :=
  let a := P.x * P.x
  let b := P.y * P.y
  let c := b * b
  let d := 2 * ((P.x + b) * (P.x + b) - a - c)
  let e := 3 * a
  let x := e * e - 2 * d
  ⟨x, e * (d - x) - 8 * c, 2 * P.y * P.z⟩

/-- The sum of two points. -/
def add (P Q : Jacobian) : Jacobian :=
  if P.z = 0 then Q
  else if Q.z = 0 then P
  else
    let zz₁ := P.z * P.z
    let zz₂ := Q.z * Q.z
    let u₁ := P.x * zz₂
    let u₂ := Q.x * zz₁
    let s₁ := P.y * (zz₂ * Q.z)
    let s₂ := Q.y * (zz₁ * P.z)
    if u₁ = u₂ then if s₁ = s₂ then double P else infinity
    else
      let h := u₂ - u₁
      let r := s₂ - s₁
      let hh := h * h
      let hhh := hh * h
      let v := u₁ * hh
      let x := r * r - hhh - 2 * v
      ⟨x, r * (v - x) - s₁ * hhh, h * (P.z * Q.z)⟩

/-- The multiple of `P` by the low `bits` bits of `k`. -/
def multipleBits : (bits : Nat) → Nat → Jacobian → Jacobian
  | 0, _, _ => infinity
  | bits + 1, k, P =>
    let higher := multipleBits bits (k / 2) (double P)
    if k % 2 = 1 then add P higher else higher

/-- The multiple of `P` by `k`. -/
def multiple (k : Nat) (P : Jacobian) : Jacobian := multipleBits (k.log2 + 1) k P

end Jacobian

namespace Point

/-- The multiple of a point by a scalar. -/
def mul (P : Point) (k : Scalar) : Point :=
  (Jacobian.multiple k.val (Jacobian.ofPoint P)).toPoint

/-- The sum of the multiples `k • P` over the pairs `(k, P)`. -/
def weightedSum (terms : List (Scalar × Point)) : Point :=
  (terms.foldl (fun sum term => sum.add (Jacobian.multiple term.1.val (Jacobian.ofPoint term.2)))
    Jacobian.infinity).toPoint

end Point

end PlonkVerifier
