import PlonkVerifier.Commitment.Group
import PlonkVerifier.Error
import PlonkVerifier.Family.Labels
import PlonkVerifier.Transcript.Manifest

/-!
# Variant — instances of the proof system

A variant fixes the hash, the widths, the mode and the constraint families.  Four variants are registered
by name; others are assembled from a list of families and checked: `fault?` names the first reason why a
variant cannot be composed.  From a variant follow the evaluations and the manifest of its proofs.
-/

namespace PlonkVerifier

/-! ## Registered variants -/

/-- The registered variants. -/
inductive VariantTag where
  | standard
  | standardUnrolled
  | turbo
  | turboUnrolled
  deriving DecidableEq, Repr

namespace VariantTag

/-- Every tag. -/
def all : List VariantTag := [standard, standardUnrolled, turbo, turboUnrolled]

/-- The name of a tag. -/
def name : VariantTag → String
  | standard => "standard"
  | standardUnrolled => "standard-unrolled"
  | turbo => "turbo"
  | turboUnrolled => "turbo-unrolled"

/-- Whether constraints are evaluated without linearisation. -/
def isUnrolled : VariantTag → Bool
  | standardUnrolled | turboUnrolled => true
  | standard | turbo => false

/-- Whether gates have four wires. -/
def isTurbo : VariantTag → Bool
  | turbo | turboUnrolled => true
  | standard | standardUnrolled => false

/-- The tag with this name, in letters of any case. -/
def ofName? (text : String) : Option VariantTag :=
  all.find? fun tag => tag.name.toList == text.toList.map Char.toLower

end VariantTag

/-- An instance of the proof system. -/
structure Variant where
  /-- The tag of a registered variant. -/
  tag : Option VariantTag
  hash : ChallengeHash
  /-- The width of a challenge. -/
  challengeBytes : Nat
  /-- Fold the selector polynomials into one linearisation polynomial. -/
  linearised : Bool
  /-- Read the identity permutation from committed polynomials. -/
  identityPolynomials : Bool
  /-- The number of wires of a gate. -/
  programWidth : Nat
  /-- The constraint families, in the prover's order. -/
  families : List Family
  deriving DecidableEq, Repr

/-- Why a variant cannot be composed. -/
inductive VariantFault where
  | challengeWidth (width : Nat) (hash : ChallengeHash)
  | programWidth (width : Nat)
  | noFamilies
  | permutationNotFirst (family : Family)
  | repeated (family : Family)
  | tooNarrow (family : Family)
  | openedTwice (label : String)
  deriving DecidableEq, Repr

/-- The fault in words. -/
def VariantFault.reason : VariantFault → String
  | challengeWidth width hash => toString width ++ " challenge bytes with " ++ hash.name
  | programWidth width => "program width " ++ toString width
  | noFamilies => "no widgets"
  | permutationNotFirst family => family.name ++ " precedes the permutation"
  | repeated family => family.name ++ " appears twice"
  | tooNarrow family => family.name ++ " needs width " ++ toString family.minWidth
  | openedTwice label => label ++ " is opened twice"

namespace Variant

/-- The registered variant with this tag. -/
def ofTag (tag : VariantTag) : Variant where
  tag := tag
  hash := if tag.isUnrolled then .pedersenBlake2s else .keccak256
  challengeBytes := if tag.isUnrolled then 16 else 32
  linearised := !tag.isUnrolled
  identityPolynomials := false
  programWidth := if tag.isTurbo then 4 else 3
  families :=
    if tag.isTurbo then
      [.permutation, .turboArithmetic, .turboFixedBase, .turboRange, .turboLogic]
    else [.permutation, .arithmetic]

/-- The registered variant with this name. -/
def resolve (name : String) : Except VerifierError Variant :=
  match VariantTag.ofName? name with
  | some tag => .ok (ofTag tag)
  | none => .error (.unknownVariant name)

/-- How the families are applied. -/
def mode (variant : Variant) : Mode := ⟨variant.linearised, variant.identityPolynomials⟩

/-! ## Validation -/

/-- The first of `labels` that is among the labels before it or in `opened`. -/
def firstRepeated (opened : List String) : List String → Option String
  | [] => none
  | label :: labels =>
    if opened.contains label then some label else firstRepeated (opened ++ [label]) labels

/-- The first fault among `families`, after families `seen` that open the labels `opened`. -/
def familyFault? (width : Nat) (mode : Mode) (seen : List Family) (opened : List String) :
    List Family → Option VariantFault
  | [] => none
  | family :: families =>
    if seen.contains family then some (.repeated family)
    else if width < family.minWidth then some (.tooNarrow family)
    else
      match firstRepeated opened (family.rawOpenings width mode) with
      | some label => some (.openedTwice label)
      | none =>
        familyFault? width mode (seen ++ [family]) (opened ++ family.rawOpenings width mode) families

/-- The first reason why a variant cannot be composed. -/
def fault? (variant : Variant) : Option VariantFault :=
  if variant.challengeBytes = 0 ∨ variant.challengeBytes > variant.hash.digestSize then
    some (.challengeWidth variant.challengeBytes variant.hash)
  else if variant.programWidth < 3 ∨ variant.programWidth > 4 then
    some (.programWidth variant.programWidth)
  else
    match variant.families with
    | [] => some .noFamilies
    | .permutation :: _ =>
      familyFault? variant.programWidth variant.mode [] [] variant.families
    | first :: _ => some (.permutationNotFirst first)

/-- Accepts a variant without fault. -/
def validate (variant : Variant) : Except VerifierError Unit :=
  match variant.fault? with
  | none => .ok ()
  | some fault => .error (.invalidVariant fault.reason)

/-- A variant assembled from a list of families. -/
def custom (hash : ChallengeHash) (challengeBytes : Nat) (linearised : Bool) (programWidth : Nat)
    (families : List Family) : Except VerifierError Variant := do
  let variant : Variant := {
    tag := none, hash, challengeBytes, linearised, identityPolynomials := false, programWidth
    families }
  variant.validate
  return variant

/-! ## The messages of a proof -/

/-- The challenges that separate the sub-identities of the families. -/
def separationChallenges (variant : Variant) : List String :=
  variant.families.filterMap Family.separation?

/-- The evaluations the families open themselves. -/
def rawOpenings (variant : Variant) : List String :=
  variant.families.flatMap (·.rawOpenings variant.programWidth variant.mode)

/-- The evaluations of the families, each once, in the order of their first use. -/
def familyEvaluations (variant : Variant) : List String :=
  (variant.families.flatMap (·.requiredEvaluations variant.programWidth variant.mode)).eraseDups

/-- The evaluations the prover sends; that of the linearisation polynomial comes last. -/
def evaluationLabels (variant : Variant) : List String :=
  variant.familyEvaluations ++ if variant.linearised then ["r"] else []

/-- The manifest of proofs whose public inputs have this number of bytes. -/
def manifestOf (variant : Variant) (inputBytes : Nat) : Manifest :=
  let commitments (labels : List String) := labels.map (ManifestEntry.sent · Point.encodedSize)
  let scalars (labels : List String) := labels.map (ManifestEntry.sent · Scalar.size)
  ⟨[⟨[.sent "circuit_size" 4, .sent "public_input_size" 4], [Challenge.init], false⟩,
    ⟨.sent publicInputsLabel inputBytes
        :: commitments (Label.numbered "W" variant.programWidth),
      [Challenge.beta, Challenge.gamma], false⟩,
    ⟨commitments ["Z"], Challenge.alpha :: variant.separationChallenges, false⟩,
    ⟨commitments (Label.numbered "T" variant.programWidth), [Challenge.point], false⟩,
    ⟨⟨"t", Scalar.size, true⟩ :: scalars variant.evaluationLabels, [Challenge.nu], true⟩,
    ⟨commitments ["PI_Z", "PI_Z_OMEGA"], [Challenge.separator], false⟩]⟩

/-- The manifest of proofs with this number of public inputs. -/
def manifest (variant : Variant) (publicInputs : Nat) : Manifest :=
  variant.manifestOf (Scalar.size * publicInputs)

/-- The manifest that a program makes for this number of public inputs. -/
def manifestWords (arithmetic : Arithmetic) (variant : Variant) (publicInputs : Nat) : Except Crash Manifest := do
  return variant.manifestOf (← arithmetic.mul Scalar.size publicInputs)

/-- The size of a proof with this number of public inputs, as a program finds it. -/
def proofSize (arithmetic : Arithmetic) (variant : Variant) (publicInputs : Nat) : Except Crash Nat := do
  (← variant.manifestWords arithmetic publicInputs).sizeWords arithmetic

end Variant

end PlonkVerifier
