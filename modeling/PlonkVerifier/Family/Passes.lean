import PlonkVerifier.AlphaPower
import PlonkVerifier.Family.Labels
import PlonkVerifier.Family.Permutation

/-!
# Family/Passes — the two passes of a family

A family's constraint, times the current power of alpha, is the sum of a committed part and a scalar
part.  `commitmentPass` gives the first as coefficients of commitments and `scalarPass` adds the second to
a running value; each returns the next unused power.

Linearised, the selectors stay committed and the committed part has their coefficients.  Otherwise the
constraint is a scalar, and the committed part only opens the selectors.
-/

namespace PlonkVerifier

variable {G : Type}

/-- The terms that open the commitments of `labels`, batched by the map challenge. -/
def openingTerms (key : VerificationKey G) (transcript : Transcript G) (labels : List String) :
    Except VerifierError Terms :=
  labels.foldlM (fun terms label => do
    let commitment := (Label.opened label).1
    let nu ← transcript.mapMember Challenge.nu label
    if Label.isProverCommitment commitment then return terms.add commitment nu
    terms.addKeyed key commitment nu) .empty

namespace Arithmetic

/-- Each multiplier, times `scale`, at the commitment of its selector. -/
def selectorTerms (key : VerificationKey G) (scale : Scalar) (selectors : List (String × String))
    (multipliers : List Scalar) : Except VerifierError Terms :=
  (selectors.zip multipliers).foldlM
    (fun terms (selector, m) => terms.addKeyed key selector.2 (scale * m)) .empty

/-- The sum of the multipliers, each times the value of its selector. -/
def selectorSum (transcript : Transcript G) (selectors : List (String × String))
    (multipliers : List Scalar) : Except VerifierError Scalar :=
  (selectors.zip multipliers).foldlM
    (fun sum (selector, m) => return sum + (← transcript.evaluation selector.1) * m) 0

/-- What the selectors are multiplied by in the row of the transcript. -/
def readMultipliers (transcript : Transcript G) : Except VerifierError (List Scalar) := do
  let a ← transcript.evaluation "w_1"
  let b ← transcript.evaluation "w_2"
  let c ← transcript.evaluation "w_3"
  return multipliers a b c

end Arithmetic

namespace TurboArithmetic

/-- What the selectors are multiplied by in the row of the transcript. -/
def readMultipliers (transcript : Transcript G) : Except VerifierError (List Scalar) := do
  let row ← Row.read transcript.evaluation
  return multipliers row.a row.b row.c row.d

end TurboArithmetic

/-- The separated sum of a gate's sub-identities. -/
def Gate.identity (gate : Gate) (transcript : Transcript G) : Except VerifierError Scalar := do
  let s ← transcript.challenge gate.separation
  return separate s (← gate.subIdentities transcript.evaluation)

namespace Family

/-- The committed part of a linearised constraint, times `base`. -/
def linearisedTerms (family : Family) (key : VerificationKey G) (base : Scalar)
    (transcript : Transcript G) (mode : Mode) : Except VerifierError Terms :=
  match family.gate? with
  | some gate => do
    let identity ← gate.identity transcript
    Terms.addKeyed .empty key (Label.opened gate.selector).1 (base * identity)
  | none =>
    match family with
    | arithmetic => do
      let multipliers ← Arithmetic.readMultipliers transcript
      Arithmetic.selectorTerms key base Arithmetic.selectors multipliers
    | turboArithmetic => do
      let multipliers ← TurboArithmetic.readMultipliers transcript
      let gateSelector ← transcript.evaluation TurboArithmetic.gateSelector
      Arithmetic.selectorTerms key (base * gateSelector) TurboArithmetic.selectors multipliers
    | _ => Permutation.linearisedTerms key base transcript mode

/-- The scalar part of a constraint. -/
def scalarPart (family : Family) (key : VerificationKey G) (transcript : Transcript G)
    (mode : Mode) : Except VerifierError Scalar :=
  match family with
  | permutation => Permutation.scalarPart key transcript mode
  | family =>
    if mode.linearised then .ok 0
    else
      match family.gate? with
      | some gate => do
        let selector ← transcript.evaluation gate.selector
        return selector * (← gate.identity transcript)
      | none =>
        match family with
        | arithmetic => do
          let multipliers ← Arithmetic.readMultipliers transcript
          Arithmetic.selectorSum transcript Arithmetic.selectors multipliers
        | _ => do
          let multipliers ← TurboArithmetic.readMultipliers transcript
          let sum ← Arithmetic.selectorSum transcript TurboArithmetic.selectors multipliers
          return (← transcript.evaluation TurboArithmetic.gateSelector) * sum

/-- The committed part of the constraint times the current power of alpha. -/
def commitmentPass (family : Family) (key : VerificationKey G) (power : AlphaPower)
    (transcript : Transcript G) (mode : Mode) : Except VerifierError (AlphaPower × Terms) := do
  let terms ←
    if mode.linearised then family.linearisedTerms key power.base transcript mode
    else openingTerms key transcript (family.rawOpenings key.programWidth mode)
  return (power.advance family.alphaPowers, terms)

/-- Adds the scalar part of the constraint times the current power of alpha to `r₀`. -/
def scalarPass (family : Family) (key : VerificationKey G) (power : AlphaPower)
    (transcript : Transcript G) (r₀ : Scalar) (mode : Mode) :
    Except VerifierError (AlphaPower × Scalar) := do
  let part ← family.scalarPart key transcript mode
  return (power.advance family.alphaPowers, r₀ + power.base * part)

end Family

end PlonkVerifier
