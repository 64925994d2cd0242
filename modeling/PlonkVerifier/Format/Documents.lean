import PlonkVerifier.AlphaPower
import PlonkVerifier.Format.JsonCodec
import PlonkVerifier.Key
import PlonkVerifier.Terms
import PlonkVerifier.Variant

/-!
# Format/Documents — the documents of the protocol

Every type that is exchanged between provers and verifiers has one form, with the field names given here.
Reading does not validate: a variant or key that was read may be unusable.
-/

namespace PlonkVerifier

open JsonCodec

variable {G : Type}

/-! ## Names -/

instance : JsonCodec VariantTag := ofNames VariantTag.all VariantTag.name

instance : JsonCodec ChallengeHash := ofNames ChallengeHash.all ChallengeHash.name

instance : JsonCodec Family := ofNames Family.all Family.name

/-! ## Variants -/

/-- The field names of a mode. -/
def Mode.fieldNames : List String := ["use_linearisation", "use_identity_polynomials"]

instance : JsonCodec Mode where
  toJson mode := .object (Mode.fieldNames.zip
    [toJson mode.linearised, toJson mode.identityPolynomials])
  ofJson? document := do
    let [linearised, identityPolynomials] ← document.record? Mode.fieldNames | none
    return ⟨← ofJson? linearised, ← ofJson? identityPolynomials⟩

/-- The field names of a variant. -/
def Variant.fieldNames : List String :=
  ["tag", "hash_type", "num_challenge_bytes", "use_linearisation", "use_identity_polynomials",
    "program_width", "widgets"]

instance : JsonCodec Variant where
  toJson variant := .object (Variant.fieldNames.zip
    [toJson variant.tag, toJson variant.hash, toJson variant.challengeBytes,
      toJson variant.linearised, toJson variant.identityPolynomials, toJson variant.programWidth,
      toJson variant.families])
  ofJson? document := do
    let [tag, hash, challengeBytes, linearised, identityPolynomials, programWidth, families] ←
      document.record? Variant.fieldNames | none
    return ⟨← ofJson? tag, ← ofJson? hash, ← ofJson? challengeBytes, ← ofJson? linearised,
      ← ofJson? identityPolynomials, ← ofJson? programWidth, ← ofJson? families⟩

/-! ## Manifests -/

/-- The field names of a message. -/
def ManifestEntry.fieldNames : List String := ["name", "num_bytes", "derived_by_verifier"]

instance : JsonCodec ManifestEntry where
  toJson entry := .object (ManifestEntry.fieldNames.zip
    [toJson entry.name, toJson entry.size, toJson entry.derived])
  ofJson? document := do
    let [name, size, derived] ← document.record? ManifestEntry.fieldNames | none
    return ⟨← ofJson? name, ← ofJson? size, ← ofJson? derived⟩

/-- The field names of a round. -/
def ManifestRound.fieldNames : List String := ["elements", "challenges", "map_challenge"]

instance : JsonCodec ManifestRound where
  toJson round := .object (ManifestRound.fieldNames.zip
    [toJson round.elements, toJson round.challenges, toJson round.isMap])
  ofJson? document := do
    let [elements, challenges, isMap] ← document.record? ManifestRound.fieldNames | none
    return ⟨← ofJson? elements, ← ofJson? challenges, ← ofJson? isMap⟩

/-- The field names of a manifest. -/
def Manifest.fieldNames : List String := ["rounds"]

instance : JsonCodec Manifest where
  toJson manifest := .object (Manifest.fieldNames.zip [toJson manifest.rounds])
  ofJson? document := do
    let [rounds] ← document.record? Manifest.fieldNames | none
    return ⟨← ofJson? rounds⟩

/-! ## Keys -/

/-- The field names of a key. -/
def VerificationKey.fieldNames : List String :=
  ["circuit_size", "num_public_inputs", "program_width", "is_recursive_circuit", "root",
    "root_inverse", "coset_generators", "commitments"]

instance [JsonCodec G] : JsonCodec (VerificationKey G) where
  toJson key := .object (VerificationKey.fieldNames.zip
    [toJson key.circuitSize, toJson key.publicInputs, toJson key.programWidth,
      toJson key.isRecursive, toJson key.root, toJson key.rootInverse, toJson key.cosetGenerators,
      toJson key.commitments])
  ofJson? document := do
    let [circuitSize, publicInputs, programWidth, isRecursive, root, rootInverse, cosetGenerators,
      commitments] ← document.record? VerificationKey.fieldNames | none
    return ⟨← ofJson? circuitSize, ← ofJson? publicInputs, ← ofJson? programWidth,
      ← ofJson? isRecursive, ← ofJson? root, ← ofJson? rootInverse, ← ofJson? cosetGenerators,
      ← ofJson? commitments⟩

/-! ## Composition -/

/-- The field names of a power of alpha. -/
def AlphaPower.fieldNames : List String := ["alpha", "base", "index"]

instance : JsonCodec AlphaPower where
  toJson power := .object (AlphaPower.fieldNames.zip
    [toJson power.alpha, toJson power.base, toJson power.index])
  ofJson? document := do
    let [alpha, base, index] ← document.record? AlphaPower.fieldNames | none
    return ⟨← ofJson? alpha, ← ofJson? base, ← ofJson? index⟩

/-- The field names of a slot. -/
def AlphaSlot.fieldNames : List String := ["widget", "first", "count"]

instance : JsonCodec AlphaSlot where
  toJson slot := .object (AlphaSlot.fieldNames.zip
    [toJson slot.family, toJson slot.first, toJson slot.count])
  ofJson? document := do
    let [family, first, count] ← document.record? AlphaSlot.fieldNames | none
    return ⟨← ofJson? family, ← ofJson? first, ← ofJson? count⟩

/-- The field names of a formal sum. -/
def Terms.fieldNames : List String := ["terms"]

/-- A formal sum as a document. -/
def Terms.toDocument (terms : Terms) : Json := .object (Terms.fieldNames.zip [toJson terms])

/-- The formal sum of a document. -/
def Terms.ofDocument? (document : Json) : Option Terms := do
  let [terms] ← document.record? Terms.fieldNames | none
  ofJson? terms

end PlonkVerifier
