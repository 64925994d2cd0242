import PlonkVerifier.Family
import PlonkVerifier.Field.Scalar

/-!
# AlphaPower — the next unused power of alpha

Families are combined with consecutive powers of one challenge.  A family takes the current power and
hands on a later one, so no two families share a power.
-/

namespace PlonkVerifier

/-- A power `base = alpha ^ index`. -/
structure AlphaPower where
  alpha : Scalar
  base : Scalar
  index : Nat
  deriving DecidableEq, Repr

namespace AlphaPower

/-- The first power. -/
def ofChallenge (alpha : Scalar) : AlphaPower := ⟨alpha, alpha, 1⟩

/-- The zeroth power. -/
def unit (alpha : Scalar) : AlphaPower := ⟨alpha, 1, 0⟩

/-- The power `count` steps later. -/
def advance (power : AlphaPower) (count : Nat) : AlphaPower :=
  { power with
    base := power.base * Residue.pow power.alpha count
    index := power.index + count }

end AlphaPower

/-- The consecutive powers one family took. -/
structure AlphaSlot where
  family : Family
  first : Nat
  count : Nat
  deriving DecidableEq, Repr

/-- The exponents of a slot. -/
def AlphaSlot.indices (slot : AlphaSlot) : List Nat := List.range' slot.first slot.count

end PlonkVerifier
