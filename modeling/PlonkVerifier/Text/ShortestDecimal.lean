/-!
# Text/ShortestDecimal — the fewest digits that read back

A double stands for every real number that rounds to it.  Of the decimals in that interval the text takes
one on the coarsest grid of powers of ten, and of those the one nearest to the double itself, the even one
in a tie.

A number of moderate size is written without exponent, and with a fraction even if that is zero; any other
is written with one digit before the point and a signed exponent.
-/

namespace PlonkVerifier

/-- The double `mantissa * 2 ^ exponent`. -/
structure Binary64 where
  mantissa : Nat
  exponent : Int
  /-- Whether the next smaller double is only half a unit away. -/
  isBinadeStart : Bool
  deriving DecidableEq, Repr

namespace Binary64

/-- The magnitude of a finite double. -/
def ofFloat (x : Float) : Binary64 :=
  let fraction := (x.toBits &&& 0xfffffffffffff).toNat
  let biased := (x.toBits >>> 52 &&& 0x7ff).toNat
  if biased = 0 then ⟨fraction, -1074, false⟩
  else ⟨0x10000000000000 + fraction, Int.ofNat biased - 1075, fraction == 0 && biased != 1⟩

/-- The point of the grid `10 ^ place * ℕ` next to the double that rounds to it, if there is one.  All
lengths are counted in quarter units of the double. -/
def nearestOnGrid? (x : Binary64) (place : Int) : Option Nat :=
  let unit := Nat.pow 10 (-place).toNat <<< (x.exponent - 2).toNat
  let step := Nat.pow 10 place.toNat <<< (2 - x.exponent).toNat
  let value := 4 * x.mantissa * unit
  let lowest := value - (if x.isBinadeStart then 1 else 2) * unit
  let highest := value + 2 * unit
  let rounds (n : Nat) : Bool :=
    if x.mantissa % 2 = 0 then lowest ≤ n * step && n * step ≤ highest
    else lowest < n * step && n * step < highest
  let below := value / step
  let above := below + 1
  let toBelow := value - below * step
  let toAbove := above * step - value
  let aboveIsBetter := toAbove < toBelow || toAbove == toBelow && below % 2 == 1
  if rounds above && (!rounds below || aboveIsBetter) then some above
  else if rounds below then some below
  else none

/-- The digits of the shortest decimal, and the place of the last one. -/
def shortest (x : Binary64) : Nat × Int :=
  let places := (List.range 633).map fun i => 308 - Int.ofNat i
  if x.mantissa = 0 then (0, 0)
  else (places.findSome? fun place => (x.nearestOnGrid? place).map (·, place)).getD (0, 0)

end Binary64

namespace ShortestDecimal

/-- Whether a number is written without exponent whose leading digit counts `10 ^ exponent`. -/
def isPositional (exponent : Int) : Bool := -5 ≤ exponent && exponent ≤ 15

/-- The number `digits * 10 ^ place` without exponent. -/
def positional (digits : Nat) (place : Int) : String :=
  let places := (-place).toNat
  let whole := digits * Nat.pow 10 place.toNat
  let fraction := toString (whole % Nat.pow 10 places)
  toString (whole / Nat.pow 10 places) ++ "."
    ++ String.ofList (List.replicate (places - fraction.length) '0') ++ fraction

/-- The digits with a point after the first, if others follow, and the exponent of the first. -/
def scientific (digits : Nat) (exponent : Int) : String :=
  let (first, others) := (toString digits).toList.splitAt 1
  String.ofList (first ++ if others.isEmpty then [] else '.' :: others)
    ++ (if exponent < 0 then "e-" else "e+") ++ toString exponent.natAbs

/-- A finite double as text. -/
def text (x : Float) : String :=
  let (digits, place) := (Binary64.ofFloat x).shortest
  let exponent := place + (toString digits).length - 1
  (if x.toBits >>> 63 = 1 then "-" else "")
    ++ if isPositional exponent then positional digits place else scientific digits exponent

end ShortestDecimal

end PlonkVerifier
