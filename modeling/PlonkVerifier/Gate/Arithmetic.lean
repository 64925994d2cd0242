import PlonkVerifier.Field.Scalar

/-!
# Gate/Arithmetic — linear combinations of a row with selectors as coefficients

An arithmetic gate is a sum of selectors, each times a fixed polynomial of the row.  The gate on four
wires has two more selectors and a further one, `q_arith`, in front of the sum.
-/

namespace PlonkVerifier

namespace Arithmetic

/-- The selectors: evaluation label and commitment label. -/
def selectors : List (String × String) :=
  [("q_m", "Q_M"), ("q_1", "Q_1"), ("q_2", "Q_2"), ("q_3", "Q_3"), ("q_c", "Q_C")]

/-- What the selectors are multiplied by: the gate is `q_m a b + q_1 a + q_2 b + q_3 c + q_c`. -/
def multipliers (a b c : Scalar) : List Scalar := [a * b, a, b, c, 1]

end Arithmetic

namespace TurboArithmetic

/-- The evaluation label of the selector in front of the sum. -/
def gateSelector : String := "q_arith"

/-- The selectors inside the sum: evaluation label and commitment label. -/
def selectors : List (String × String) :=
  [("q_m", "Q_M"), ("q_1", "Q_1"), ("q_2", "Q_2"), ("q_3", "Q_3"), ("q_4", "Q_4"), ("q_5", "Q_5"),
    ("q_c", "Q_C")]

/-- What the selectors are multiplied by: the sum is
`q_m a b + q_1 a + q_2 b + q_3 c + q_4 d + q_5 d (d - 1) (d - 2) + q_c`. -/
def multipliers (a b c d : Scalar) : List Scalar :=
  [a * b, a, b, c, d, d * (d - 1) * (d - 2), 1]

end TurboArithmetic

end PlonkVerifier
