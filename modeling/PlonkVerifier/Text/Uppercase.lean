import PlonkVerifier.Text.UppercaseTable

/-!
# Text/Uppercase — full uppercase of a text

Each character is replaced by its uppercase form without regard to its neighbours; the form of a few
characters is longer than one (`ß` becomes `SS`).
-/

namespace PlonkVerifier

namespace Uppercase

/-- The letter a run assigns to `code`, if it covers it. -/
def Run.capital? (run : Run) (code : Nat) : Option Nat :=
  if run.first ≤ code ∧ code ≤ run.last ∧ (code - run.first) % run.step = 0 then
    some (run.target + (code - run.first))
  else none

/-- The uppercase form of a character. -/
def char (c : Char) : List Char :=
  if c.toNat < 0x80 then [c.toUpper]
  else
    match expansions.lookup c.toNat with
    | some codes => codes.map Char.ofNat
    | none =>
      match runs.findSome? (Run.capital? · c.toNat) with
      | some code => [Char.ofNat code]
      | none => [c]

end Uppercase

/-- The uppercase form of a text. -/
def uppercase (text : String) : String := String.ofList (text.toList.flatMap Uppercase.char)

end PlonkVerifier
