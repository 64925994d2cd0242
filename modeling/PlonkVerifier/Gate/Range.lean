import PlonkVerifier.Gate.Basic

/-!
# Gate/Range — four base-4 digits a row

A row holds four consecutive accumulators, the newest in `a`, and the next row continues with `d`.  Each
accumulator is four times the one before plus a digit.
-/

namespace PlonkVerifier

namespace Range

/-- The sub-identities of a row followed by the accumulator `dNext`. -/
def subIdentities (row : Row) (dNext : Scalar) : List Scalar :=
  [quadRange (row.c - 4 * row.d), quadRange (row.b - 4 * row.c), quadRange (row.a - 4 * row.b),
    quadRange (dNext - 4 * row.a)]

end Range

/-- The range gate. -/
def Gate.range : Gate where
  selector := "q_range"
  separation := "range_separation"
  inputs := ["w_4_omega"]
  subIdentities evaluation := do
    let row ← Row.read evaluation
    let dNext ← evaluation "w_4_omega"
    return Range.subIdentities row dNext

end PlonkVerifier
