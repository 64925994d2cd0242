import Mathlib
import PlonkVerifier.Composition
import PlonkVerifier.Proofs.Arithmetic
import PlonkVerifier.Proofs.Passes
import PlonkVerifier.Proofs.Validity

/-!
# Proofs/Composition — a composition, family by family

Both passes of a family move the power of alpha by the same count, so a step of the composition is determined by
the two contributions of the family alone (`apply_eq_ok`): its committed part is merged, its scalar part added at
the current power.  A whole composition is a run of such steps (`composeFrom_eq_ok`), about which invariants are
shown by `foldlM_invariant`.
-/

namespace PlonkVerifier

open scoped ScalarField

variable {G : Type} {key : VerificationKey G} {transcript : Transcript G}

/-! ## Accepted keys and configurations -/

/-- A key that passes validation. -/
structure VerificationKey.Consistent (key : VerificationKey G) : Prop where
  isPowerOfTwo : Scalar.isPowerOfTwo key.circuitSize = true
  four_le : 4 ≤ key.circuitSize
  root_pow : key.root ^ key.circuitSize = 1
  root_mul_rootInverse : key.root * key.rootInverse = 1
  length_cosetGenerators : key.cosetGenerators.length = key.programWidth + 1

/-- The domain of a key: its size is a power of two from 4 on, and the root to this power is one, with its inverse. -/
theorem VerificationKey.checkDomain_eq_ok : key.checkDomain = .ok () ↔
    Scalar.isPowerOfTwo key.circuitSize = true ∧ 4 ≤ key.circuitSize ∧ key.root ^ key.circuitSize = 1
      ∧ key.root * key.rootInverse = 1 := by
  rw [checkDomain, Residue.pow_eq]
  by_cases hsize : ¬ Scalar.isPowerOfTwo key.circuitSize = true ∨ key.circuitSize < 4
  · rw [if_pos hsize]
    simp only [reduceCtorEq, false_iff]
    rintro ⟨hpow, hle, -⟩
    exact hsize.elim (· hpow) hle.not_gt
  · obtain ⟨hpow, hle⟩ := not_or.mp hsize
    rw [if_neg hsize, not_not.mp hpow]
    simp [not_lt.mp hle]

/-- The generators are only counted. -/
theorem VerificationKey.checkGenerators_eq_ok {expected : ℕ} :
    key.checkGenerators expected = .ok () ↔ key.cosetGenerators.length = expected := by
  rw [checkGenerators]
  split <;> simp_all

/-- A key validates exactly when it is consistent. -/
theorem VerificationKey.validate_eq_ok : key.validate = .ok () ↔ key.Consistent := by
  rw [validate, bind_eq_ok]
  constructor
  · rintro ⟨_, hdomain, hgenerators⟩
    obtain ⟨hpow, hle, hroot, hinverse⟩ := checkDomain_eq_ok.mp hdomain
    exact ⟨hpow, hle, hroot, hinverse, checkGenerators_eq_ok.mp hgenerators⟩
  · intro h
    exact ⟨(), checkDomain_eq_ok.mpr ⟨h.isPowerOfTwo, h.four_le, h.root_pow, h.root_mul_rootInverse⟩,
      checkGenerators_eq_ok.mpr h.length_cosetGenerators⟩

/-- **Widths of 64 bits are counted as without a bound**, up to the largest. -/
theorem VerificationKey.validateWords_eq (h : key.programWidth + 1 < UInt64.size) (arithmetic : Arithmetic) :
    key.validateWords arithmetic = key.validate.mapError .rejected := by
  rw [validateWords, validate, Arithmetic.add, Arithmetic.word_of_lt h]
  cases key.checkDomain <;> rfl

/-- The largest width is counted as none, so that it is accepted without coset generators. -/
theorem VerificationKey.validateWords_of_largest (h : key.programWidth + 1 = UInt64.size) :
    key.validateWords .wrapping = .ok () ↔ key.checkDomain = .ok () ∧ key.cosetGenerators = [] := by
  rw [validateWords, Arithmetic.add, Arithmetic.word_wrapping, h, Nat.mod_self]
  cases hdomain : key.checkDomain with
  | error e => simp [Except.mapError, bind, Except.bind]
  | ok _ =>
    change (key.checkGenerators 0).mapError _ = .ok () ↔ _
    rw [mapError_eq_ok, checkGenerators_eq_ok, List.length_eq_zero_iff]
    simp

namespace VerificationKey.Consistent

/-- The size of the domain is invertible — it is a power of two. -/
theorem circuitSize_ne_zero (h : key.Consistent) : (key.circuitSize : Scalar) ≠ 0 := by
  have hpow := Scalar.isPowerOfTwo_iff.mp h.isPowerOfTwo
  intro hzero
  rw [← Scalar.ofNat_eq] at hzero
  have hdvd : scalarModulus ∣ 2 ^ key.circuitSize.log2 := by
    rw [← hpow]
    exact Nat.dvd_of_mod_eq_zero (congrArg Fin.val hzero)
  have hle : scalarModulus ≤ 2 := Nat.le_of_dvd two_pos (prime_scalarModulus.dvd_of_dvd_pow hdvd)
  exact absurd hle (by decide)

/-- A consistent key has a generator for every wire and one for the public inputs. -/
theorem cosetGenerator_eq (h : key.Consistent) {i : ℕ} (hi : i ≤ key.programWidth) :
    key.cosetGenerator i = .ok (key.cosetGenerators.getD i 0) := by
  have hlt : i < key.cosetGenerators.length := by
    rw [h.length_cosetGenerators]
    omega
  rw [cosetGenerator, List.getElem?_eq_getElem hlt, List.getD_eq_getElem _ _ hlt]

end VerificationKey.Consistent

/-- A variant, key and transcript that fit together. -/
structure Fits (variant : Variant) (key : VerificationKey G) (transcript : Transcript G) : Prop where
  composable : variant.Composable
  scheme : (variant.hash, variant.challengeBytes) = (transcript.hash, transcript.challengeBytes)
  width : key.programWidth = variant.programWidth
  consistent : key.Consistent

theorem Fits.gateWidth {variant : Variant} (h : Fits variant key transcript) :
    GateWidth key.programWidth := by
  rw [h.width]
  exact h.composable.width

/-- The configuration check passes exactly when variant, key and transcript fit. -/
theorem checkConfiguration_eq_ok {variant : Variant} :
    checkConfiguration variant key transcript = .ok () ↔ Fits variant key transcript := by
  simp only [checkConfiguration, bind_eq_ok, guard_eq_ok, not_not]
  constructor
  · rintro ⟨_, hvariant, hscheme, hwidth, hkey⟩
    exact ⟨Variant.validate_eq_ok_iff.mp hvariant, hscheme, hwidth,
      VerificationKey.validate_eq_ok.mp hkey⟩
  · intro h
    exact ⟨(), Variant.validate_eq_ok_iff.mpr h.composable, h.scheme, h.width,
      VerificationKey.validate_eq_ok.mpr h.consistent⟩

/-! ## One step -/

/-- The committed part that a pass of a family adds. -/
def Family.committedPart (family : Family) (key : VerificationKey G) (base : Scalar)
    (transcript : Transcript G) (mode : Mode) : Except VerifierError Terms :=
  if mode.linearised then family.linearisedTerms key base transcript mode
  else openingTerms key transcript (family.rawOpenings key.programWidth mode)

/-- The commitment pass of a family is its committed part, and an advance past its slots. -/
theorem Family.commitmentPass_eq (family : Family) (power : AlphaPower) (mode : Mode) :
    family.commitmentPass key power transcript mode = (do
      let terms ← family.committedPart key power.base transcript mode
      return (power.advance family.alphaPowers, terms)) := by
  rw [commitmentPass, committedPart]
  split <;> rfl

namespace Composition

/-- A composition with the two parts of one more family. -/
def extend (composition : Composition) (family : Family) (terms : Terms) (part : Scalar) :
    Composition where
  terms := composition.terms.merge terms
  r₀ := composition.r₀ + composition.power.base * part
  slots := composition.slots ++ [⟨family, composition.power.index, family.alphaPowers⟩]
  power := composition.power.advance family.alphaPowers

/-- **A step adds the two parts of a family** — its passes always end on the same power. -/
theorem apply_eq (mode : Mode) (composition : Composition) (family : Family) :
    apply key transcript mode composition family = (do
      let terms ← family.committedPart key composition.power.base transcript mode
      let part ← family.scalarPart key transcript mode
      return composition.extend family terms part) := by
  have hcount : (composition.power.advance family.alphaPowers).index - composition.power.index
      = family.alphaPowers := Nat.add_sub_cancel_left ..
  rw [apply, Family.commitmentPass_eq]
  cases family.committedPart key composition.power.base transcript mode with
  | error e => rfl
  | ok terms =>
    cases hpart : family.scalarPart key transcript mode with
    | error e =>
      rw [Family.scalarPass, hpart]
      rfl
    | ok part =>
      rw [Family.scalarPass, hpart]
      change (if _ ≠ _ then _ else pure _) = _
      rw [if_neg (not_not.mpr rfl), hcount]
      rfl

/-- **One family extends the composition by its two passes**, at the base it finds. -/
theorem apply_eq_ok {mode : Mode} {composition composition' : Composition} {family : Family} :
    apply key transcript mode composition family = .ok composition' ↔
      ∃ terms part, family.committedPart key composition.power.base transcript mode = .ok terms
        ∧ family.scalarPart key transcript mode = .ok part
        ∧ composition.extend family terms part = composition' := by
  simp only [apply_eq, bind_eq_ok, pure_eq_ok, exists_and_left]

end Composition

/-- **A composition is a run over the families** of a configuration that fits together. -/
theorem composeFrom_eq_ok {variant : Variant} {power : AlphaPower} {composition : Composition} :
    composeFrom variant key transcript power = .ok composition ↔
      Fits variant key transcript
        ∧ variant.families.foldlM (Composition.apply key transcript variant.mode) (.start power)
          = .ok composition := by
  simp only [composeFrom, bind_eq_ok]
  exact ⟨fun ⟨_, hfits, h⟩ => ⟨checkConfiguration_eq_ok.mp hfits, h⟩,
    fun ⟨hfits, h⟩ => ⟨(), checkConfiguration_eq_ok.mpr hfits, h⟩⟩

/-! ## A small instance

Scalars can stand for commitments.  Over them every variant has a key and a transcript that answer all queries. -/

/-- A primitive fourth root of unity. -/
def Scalar.fourthRoot : Scalar := Residue.pow generator ((scalarModulus - 1) / 4)

/-- A key of four rows, with a commitment to zero for each selector and permutation. -/
def VerificationKey.small (width publicInputs : ℕ) : VerificationKey Scalar where
  circuitSize := 4
  publicInputs
  programWidth := width
  isRecursive := false
  root := Scalar.fourthRoot
  rootInverse := Residue.inverse Scalar.fourthRoot
  cosetGenerators := defaultCosetGenerators width
  commitments := .ofList (((Label.vocabulary width).filter fun l =>
      !Label.isProverCommitment (Label.opened l).1).map fun l => ((Label.opened l).1, 0))

/-- A transcript in which labels of one length have one answer. -/
def Transcript.small (variant : Variant) : Transcript Scalar where
  hash := variant.hash
  challengeBytes := variant.challengeBytes
  challenge l := .ok (Scalar.ofNat (l.length + 17))
  mapMember _ l := .ok (Scalar.ofNat (l.length + 3))
  evaluation l := .ok (Scalar.ofNat (l.length + 5))
  vector _ := .ok [7]
  commitment l := .ok (Scalar.ofNat (l.length + 6))

/-- A variant that reads the identity permutation from the prover. -/
def Variant.evaluatedIdentities : Variant :=
  { Variant.ofTag .standardUnrolled with identityPolynomials := true }

/-- A proof about unconstrained rows.  The first wire is the polynomial `X` and the grand product is one; all
other polynomials vanish, and the setup has the secret three. -/
def Transcript.unconstrained : Transcript Scalar :=
  { Transcript.small .evaluatedIdentities with
    evaluation := fun l => .ok (if l = "z" ∨ l = "z_omega" then 1 else if l = "w_1" then 18 else 0)
    vector := fun _ => .ok []
    commitment := fun L => .ok (if L = "Z" then 1 else if L = "W_1" then 3 else if L = "PI_Z" then 6 else 0) }

end PlonkVerifier
