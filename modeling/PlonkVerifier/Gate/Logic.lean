import PlonkVerifier.Gate.Basic

/-!
# Gate/Logic — exclusive or and conjunction of base-4 digits

The wires `a`, `b` and `d` accumulate two inputs and the output digit by digit; `c` holds the product of
the two input digits.  The selector `q_c` is `1` for conjunction and `-1` for exclusive or.
-/

namespace PlonkVerifier

namespace Logic

/-- Vanishes when `z` is the conjunction (`q = 1`) or exclusive or (`q = -1`) of the digits `x` and `y`
with product `w`. -/
def digitIdentity (x y w z q : Scalar) : Scalar :=
  let sum := x + y
  let f := w * (w * (w * 4 - 18 * sum + 81) + 18 * (x * x + y * y) - 81 * sum + 83)
  q * (9 * z - 3 * sum) + (3 * (sum + z) - 2 * f)

/-- The sub-identities of a row followed by the accumulators `aNext`, `bNext` and `dNext`. -/
def subIdentities (row : Row) (aNext bNext dNext q : Scalar) : List Scalar :=
  let x := aNext - 4 * row.a
  let y := bNext - 4 * row.b
  let z := dNext - 4 * row.d
  [quadRange x, quadRange y, quadRange z, row.c - x * y, digitIdentity x y row.c z q]

end Logic

/-- The logic gate. -/
def Gate.logic : Gate where
  selector := "q_logic"
  separation := "logic_separation"
  inputs := ["w_1_omega", "w_2_omega", "w_4_omega", "q_c"]
  subIdentities evaluation := do
    let row ← Row.read evaluation
    let aNext ← evaluation "w_1_omega"
    let bNext ← evaluation "w_2_omega"
    let dNext ← evaluation "w_4_omega"
    let q ← evaluation "q_c"
    return Logic.subIdentities row aNext bNext dNext q

end PlonkVerifier
