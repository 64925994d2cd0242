import PlonkVerifier.Family.Passes
import PlonkVerifier.Variant

/-!
# Composition — all families of a variant combined

The families are applied in order, each with the next unused power of alpha.  Composition yields the
committed part of the combined constraint as a formal sum and its scalar part as `r₀`, or nothing: the
first error of any family is the outcome.
-/

namespace PlonkVerifier

/-- The combined constraint of a variant's families. -/
structure Composition where
  /-- The committed part. -/
  terms : Terms
  /-- The scalar part. -/
  r₀ : Scalar
  /-- The powers of alpha each family took, in order. -/
  slots : List AlphaSlot
  /-- The first unused power of alpha. -/
  power : AlphaPower
  deriving DecidableEq

variable {G : Type}

/-- Accepts a variant, key and transcript that fit together. -/
def checkConfiguration (variant : Variant) (key : VerificationKey G) (transcript : Transcript G) :
    Except VerifierError Unit := do
  variant.validate
  let expected := (variant.hash, variant.challengeBytes)
  let found := (transcript.hash, transcript.challengeBytes)
  if expected ≠ found then throw (.transcriptMismatch expected found)
  if key.programWidth ≠ variant.programWidth then
    throw (.programWidthMismatch variant.programWidth key.programWidth)
  key.validate

namespace Composition

/-- The composition of no families. -/
def start (power : AlphaPower) : Composition := ⟨.empty, 0, [], power⟩

/-- Applies one more family.  Both passes start from the same power and have to end on the same one. -/
def apply (key : VerificationKey G) (transcript : Transcript G) (mode : Mode)
    (composition : Composition) (family : Family) : Except VerifierError Composition := do
  let power := composition.power
  let (next, terms) ← family.commitmentPass key power transcript mode
  let (next', r₀) ← family.scalarPass key power transcript composition.r₀ mode
  if next ≠ next' then throw (.alphaPowerDesync family)
  return {
    terms := composition.terms.merge terms
    r₀
    slots := composition.slots ++ [⟨family, power.index, next.index - power.index⟩]
    power := next }

end Composition

/-- Combines the families of a variant, beginning with a given power of alpha. -/
def composeFrom (variant : Variant) (key : VerificationKey G) (transcript : Transcript G)
    (power : AlphaPower) : Except VerifierError Composition := do
  checkConfiguration variant key transcript
  variant.families.foldlM (Composition.apply key transcript variant.mode) (.start power)

/-- Combines the families of a variant, beginning with the challenge alpha itself. -/
def compose (variant : Variant) (key : VerificationKey G) (transcript : Transcript G) :
    Except VerifierError Composition := do
  let alpha ← transcript.challenge Challenge.alpha
  composeFrom variant key transcript (.ofChallenge alpha)

/-- Composes independent transcripts with one key. -/
def composeAll (variant : Variant) (key : VerificationKey G) (transcripts : List (Transcript G)) :
    List (Except VerifierError Composition) :=
  transcripts.map (compose variant key)

end PlonkVerifier
