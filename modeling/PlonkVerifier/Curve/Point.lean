import PlonkVerifier.Field.Residue

/-!
# Curve/Point — the group of the curve `y² = x³ + 3`

A point is the neutral element `infinity` or a pair of coordinates; whether the pair satisfies the curve
equation is the separate predicate `OnCurve`.  Addition is the chord-and-tangent law.
-/

namespace PlonkVerifier

/-- The characteristic of the coordinate field. -/
abbrev coordinateModulus : Nat :=
  21888242871839275222246405745257275088696311157297823662689037894645226208583

/-- A coordinate of a curve point. -/
abbrev Coordinate := Residue coordinateModulus

instance : Modulus coordinateModulus := ⟨by decide⟩

/-- A point of the plane together with the point at infinity. -/
inductive Point where
  | infinity
  | affine (x y : Coordinate)
  deriving DecidableEq, Repr

namespace Point

/-- The right-hand side of the curve equation. -/
def cubic (x : Coordinate) : Coordinate := x * x * x + 3

/-- Membership in the curve. -/
def OnCurve : Point → Prop
  | infinity => True
  | affine x y => y * y = cubic x

instance : DecidablePred OnCurve
  | infinity => isTrue trivial
  | affine x y => inferInstanceAs (Decidable (y * y = cubic x))

/-- The generator of the group. -/
def base : Point := affine 1 2

/-- The reflection in the horizontal axis. -/
def neg : Point → Point
  | infinity => infinity
  | affine x y => affine x (-y)

/-- The third intersection, reflected, of the line of slope `l` through `(x₁, y₁)` whose second
intersection has abscissa `x₂`. -/
def alongLine (l x₁ y₁ x₂ : Coordinate) : Point :=
  let x₃ := l * l - x₁ - x₂
  affine x₃ (l * (x₁ - x₃) - y₁)

/-- The sum of a point with itself, by the tangent. -/
def double : Point → Point
  | infinity => infinity
  | affine x y =>
    if y = 0 then infinity else alongLine (3 * (x * x) * Residue.inverse (2 * y)) x y x

/-- The sum of two points, by the chord. -/
def add : Point → Point → Point
  | infinity, Q => Q
  | P, infinity => P
  | affine x₁ y₁, affine x₂ y₂ =>
    if x₁ = x₂ then if y₁ = -y₂ then infinity else double (affine x₁ y₁)
    else alongLine ((y₂ - y₁) * Residue.inverse (x₂ - x₁)) x₁ y₁ x₂

/-- The difference of two points. -/
def sub (P Q : Point) : Point := add P (neg Q)

/-- The coordinates in decimal. -/
def toText : Point → String
  | infinity => "infinity"
  | affine x y => "(" ++ toString x.val ++ ", " ++ toString y.val ++ ")"

end Point

end PlonkVerifier
