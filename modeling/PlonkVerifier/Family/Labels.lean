import PlonkVerifier.Family
import PlonkVerifier.Gate.Arithmetic
import PlonkVerifier.Gate.Elliptic
import PlonkVerifier.Gate.FixedBase
import PlonkVerifier.Gate.Logic
import PlonkVerifier.Gate.Range
import PlonkVerifier.Label
import PlonkVerifier.Transcript.Query

/-!
# Family/Labels — what each family needs of variant and prover

A family needs a number of wires, perhaps a challenge that separates its sub-identities, and evaluations
by label.  Unless selectors are folded into a linearisation polynomial, a family opens the commitments of
its selectors itself: `rawOpenings`.
-/

namespace PlonkVerifier

namespace Family

/-- The gate of a family whose constraint is one selector times separated sub-identities. -/
def gate? : Family → Option Gate
  | turboFixedBase => some .fixedBase
  | turboRange => some .range
  | turboLogic => some .logic
  | elliptic => some .elliptic
  | permutation | arithmetic | turboArithmetic => none

/-- The powers of alpha a family takes. -/
def alphaPowers : Family → Nat := fun _ => 1

/-- The least number of wires. -/
def minWidth : Family → Nat
  | permutation => 2
  | arithmetic => 3
  | turboArithmetic | turboFixedBase | turboRange | turboLogic | elliptic => 4

/-- The challenge that separates the family's sub-identities. -/
def separation? : Family → Option String
  | permutation => some Challenge.permutation
  | family => family.gate?.map (·.separation)

/-- The evaluations whose commitments the family opens itself. -/
def rawOpenings (family : Family) (width : Nat) (mode : Mode) : List String :=
  if mode.linearised then []
  else
    match family with
    | permutation =>
      "z" :: Label.numbered "sigma" width
        ++ if mode.identityPolynomials then Label.numbered "id" width else []
    | arithmetic => Arithmetic.selectors.map Prod.fst
    | turboArithmetic => TurboArithmetic.gateSelector :: TurboArithmetic.selectors.map Prod.fst
    | family => (family.gate?.map (·.selector)).toList

/-- The evaluations the prover has to send for the family. -/
def requiredEvaluations (family : Family) (width : Nat) (mode : Mode) : List String :=
  let raw := family.rawOpenings width mode
  Label.wires width ++
    match family with
    | permutation =>
      Label.numbered "sigma" (width - 1) ++ "z_omega" :: raw
        ++ if mode.identityPolynomials && mode.linearised then Label.numbered "id" width else []
    | turboArithmetic =>
      TurboArithmetic.gateSelector :: raw.filter (· != TurboArithmetic.gateSelector)
    | family => (family.gate?.map (·.inputs)).getD [] ++ raw

end Family

end PlonkVerifier
