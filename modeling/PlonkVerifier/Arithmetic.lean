import PlonkVerifier.Error

/-!
# Arithmetic — numbers of 64 bits

Sizes, widths and offsets are 64-bit numbers, and nothing guards the sums and products that are made of them.  Where
one of these has more than 64 bits, a build with checked arithmetic stops, and another goes on with the number modulo
`2 ^ 64`.  What such a number is used for may stop both: a range that is not within the bytes, or room for more bytes
than one allocation can have.

Definitions that go by this arithmetic are named after those over unbounded numbers: `replayWords` after `replay`.
-/

namespace PlonkVerifier

/-- What becomes of a number that has more than 64 bits. -/
inductive Arithmetic where
  /-- The program stops. -/
  | checked
  /-- The number is taken modulo `2 ^ 64`. -/
  | wrapping
  deriving DecidableEq, Repr

/-- Why a program stops without an answer. -/
inductive Crash where
  | overflow
  | outOfBounds
  /-- More bytes are asked for than one allocation can have. -/
  | capacity
  deriving DecidableEq, Repr

/-- How a run ends without a result. -/
inductive Halt where
  | rejected (cause : VerifierError)
  | crashed (crash : Crash)
  deriving DecidableEq, Repr

namespace Arithmetic

/-- The 64-bit number that becomes of a number. -/
def word (arithmetic : Arithmetic) (n : Nat) : Except Crash Nat :=
  if n < UInt64.size then .ok n
  else
    match arithmetic with
    | checked => .error .overflow
    | wrapping => .ok (n % UInt64.size)

/-- The sum of two numbers. -/
def add (arithmetic : Arithmetic) (a b : Nat) : Except Crash Nat := arithmetic.word (a + b)

/-- The product of two numbers. -/
def mul (arithmetic : Arithmetic) (a b : Nat) : Except Crash Nat := arithmetic.word (a * b)

/-- The sum of a list of numbers, from the first on. -/
def sum (arithmetic : Arithmetic) (sizes : List Nat) : Except Crash Nat := sizes.foldlM arithmetic.add 0

/-- The difference of two numbers. -/
def sub (arithmetic : Arithmetic) (a b : Nat) : Except Crash Nat :=
  if b ≤ a then .ok (a - b)
  else
    match arithmetic with
    | checked => .error .overflow
    | wrapping => .ok (a + UInt64.size - b)

/-- The largest number of bytes that one allocation can have. -/
def maxCapacity : Nat := UInt64.size / 2 - 1

end Arithmetic

end PlonkVerifier
