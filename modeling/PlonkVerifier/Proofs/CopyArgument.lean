import Mathlib
import PlonkVerifier.Proofs.LagrangeBasis
import PlonkVerifier.Proofs.Queries

/-!
# Proofs/CopyArgument — the permutation encodes the grand-product recurrence

The identity of the permutation is evaluated at one point, but it is about every row: it is the value of a
polynomial `CopyArgument.identity`, which vanishes on the domain for three separation challenges exactly when the
grand product starts at one, ends at the value of the public inputs, and grows from row to row by the quotient of
the identity factors and the permutation factors (`copy_argument`).

On the domain the two Lagrange polynomials are one in their own row and zero elsewhere, and the factor `X - ω⁻¹`
switches the last row off; the three parts of the identity are then the coefficients of a polynomial in the
separation challenge.
-/

namespace PlonkVerifier

open scoped ScalarField
open Finset (range)
open Polynomial

variable {G : Type} {key : VerificationKey G}

/-! ## Lagrange polynomials of the domain -/

namespace VerificationKey

/-- The Lagrange polynomial of the row `i`. -/
noncomputable def lagrange (key : VerificationKey G) (i : ℕ) : Scalar[X] :=
  Lagrange.basis (range key.circuitSize) (key.root ^ ·) i

/-- A key whose root generates a domain of the stated size. -/
structure Primitive (key : VerificationKey G) : Prop where
  consistent : key.Consistent
  root : IsPrimitiveRoot key.root key.circuitSize

namespace Primitive

/-- The domain of a key with a primitive root is not empty. -/
theorem circuitSize_pos (h : key.Primitive) : 0 < key.circuitSize :=
  lt_of_lt_of_le (by decide) h.consistent.four_le

/-- The last row is the inverse of the root. -/
theorem root_inv (h : key.Primitive) : key.root⁻¹ = key.root ^ (key.circuitSize - 1) := by
  have hmul : key.root * key.root ^ (key.circuitSize - 1) = 1 := by
    rw [← pow_succ', Nat.sub_add_cancel h.circuitSize_pos, h.consistent.root_pow]
  exact inv_eq_of_mul_eq_one_right hmul

/-- **Off the domain, a Lagrange polynomial has its short form.** -/
theorem eval_lagrange (h : key.Primitive) {i : ℕ} (hi : i < key.circuitSize) {z : Scalar}
    (hz : z ^ key.circuitSize ≠ 1) :
    (key.lagrange i).eval z
      = key.root ^ i * (z ^ key.circuitSize - 1) * ((key.circuitSize : Scalar) * (z - key.root ^ i))⁻¹ := by
  have hne : z ≠ key.root ^ i := by
    rintro rfl
    rw [← pow_mul, mul_comm, pow_mul, h.consistent.root_pow, one_pow] at hz
    exact hz rfl
  exact Domain.eval_lagrange_of_ne h.root hi hne

/-- **On the domain, it is one in its own row and zero elsewhere.** -/
theorem eval_lagrange_root (h : key.Primitive) {i j : ℕ} (hi : i < key.circuitSize) (hj : j < key.circuitSize) :
    (key.lagrange i).eval (key.root ^ j) = if j = i then 1 else 0 :=
  Domain.eval_lagrange_pow h.root hi hj

end Primitive

end VerificationKey

/-! ## The identity as a polynomial -/

/-- The polynomials of a copy argument with its challenges and the value of its public inputs. -/
structure CopyArgument where
  /-- The grand product `Z`. -/
  product : Scalar[X]
  /-- The wires, counted from zero. -/
  wire : ℕ → Scalar[X]
  /-- The permutation polynomials, counted from zero. -/
  sigma : ℕ → Scalar[X]
  beta : Scalar
  gamma : Scalar
  /-- The value that the public inputs give to the grand product. -/
  delta : Scalar

namespace CopyArgument

variable (arg : CopyArgument) (key : VerificationKey G)

/-- `∏ (Wᵢ(x) + β kᵢ x + γ)`. -/
noncomputable def identityFactor (x : Scalar) : Scalar :=
  ∏ i ∈ range key.programWidth,
    ((arg.wire i).eval x + arg.beta * (key.cosetGenerators.getD i 0 * x) + arg.gamma)

/-- `∏ (Wᵢ(x) + β Sᵢ(x) + γ)`. -/
noncomputable def sigmaFactor (x : Scalar) : Scalar :=
  ∏ i ∈ range key.programWidth, ((arg.wire i).eval x + arg.beta * (arg.sigma i).eval x + arg.gamma)

/-- The identity of the permutation, with the separation challenge `s`. -/
noncomputable def identity (s : Scalar) : Scalar[X] :=
  (X - C key.root⁻¹)
      * (arg.product * (∏ i ∈ range key.programWidth,
          (arg.wire i + C arg.beta * (C (key.cosetGenerators.getD i 0) * X) + C arg.gamma))
        - arg.product.comp (X * C key.root) * ∏ i ∈ range key.programWidth,
          (arg.wire i + C arg.beta * arg.sigma i + C arg.gamma))
    + C s * (arg.product - 1) * key.lagrange 0
    + C (s ^ 2) * (arg.product.comp (X * C key.root) - C arg.delta) * key.lagrange (key.circuitSize - 2)

/-- The identity at a point: the recurrence, the start and the end, one separation apart. -/
theorem eval_identity (s x : Scalar) :
    (arg.identity key s).eval x
      = (x - key.root⁻¹) * (arg.product.eval x * arg.identityFactor key x
          - arg.product.eval (x * key.root) * arg.sigmaFactor key x)
        + s * ((arg.product.eval x - 1) * (key.lagrange 0).eval x)
        + s ^ 2 * ((arg.product.eval (x * key.root) - arg.delta)
          * (key.lagrange (key.circuitSize - 2)).eval x) := by
  simp only [identity, identityFactor, sigmaFactor, eval_add, eval_sub, eval_mul, eval_X, eval_C, eval_one,
    eval_comp, eval_prod]
  ring

/-- The grand product starts at one, ends at the value of the public inputs and grows by the two factors. -/
structure Recurrence : Prop where
  first : arg.product.eval 1 = 1
  last : arg.product.eval (key.root ^ (key.circuitSize - 1)) = arg.delta
  step : ∀ j < key.circuitSize - 1,
    arg.product.eval (key.root ^ j) * arg.identityFactor key (key.root ^ j)
      = arg.product.eval (key.root ^ (j + 1)) * arg.sigmaFactor key (key.root ^ j)

variable {arg key}

/-- A polynomial of degree two with three zeros has no coefficient. -/
theorem coefficients_eq_zero {separations : Finset Scalar} (hcard : 3 ≤ separations.card) {a b c : Scalar}
    (h : ∀ s ∈ separations, a + s * b + s ^ 2 * c = 0) : a = 0 ∧ b = 0 ∧ c = 0 := by
  have hzero : (C a + C b * X + C c * X ^ 2 : Scalar[X]) = 0 := by
    refine eq_zero_of_natDegree_lt_card_of_eval_eq_zero' _ separations (fun s hs => ?_) ?_
    · simp only [eval_add, eval_mul, eval_C, eval_X, eval_pow]
      linear_combination h s hs
    · have hdegree : (C a + C b * X + C c * X ^ 2 : Scalar[X]).natDegree ≤ 2 := by compute_degree
      omega
  have hcoeff : ∀ n, (C a + C b * X + C c * X ^ 2 : Scalar[X]).coeff n = 0 := fun n => by rw [hzero, coeff_zero]
  refine ⟨?_, ?_, ?_⟩
  · simpa using hcoeff 0
  · simpa [coeff_X, coeff_C] using hcoeff 1
  · simpa [coeff_X, coeff_C] using hcoeff 2

/-- **On the domain, the identity is a polynomial in the separation challenge**, with the parts of the recurrence as
coefficients. -/
theorem eval_identity_root (hkey : key.Primitive) (s : Scalar) {j : ℕ} (hj : j < key.circuitSize) :
    (arg.identity key s).eval (key.root ^ j)
      = (key.root ^ j - key.root ^ (key.circuitSize - 1))
          * (arg.product.eval (key.root ^ j) * arg.identityFactor key (key.root ^ j)
            - arg.product.eval (key.root ^ (j + 1)) * arg.sigmaFactor key (key.root ^ j))
        + s * (if j = 0 then arg.product.eval 1 - 1 else 0)
        + s ^ 2 * (if j = key.circuitSize - 2 then
            arg.product.eval (key.root ^ (key.circuitSize - 1)) - arg.delta else 0) := by
  have hfour := hkey.consistent.four_le
  rw [eval_identity, hkey.root_inv, ← pow_succ, hkey.eval_lagrange_root hkey.circuitSize_pos hj,
    hkey.eval_lagrange_root (by omega) hj, mul_boole, mul_boole]
  congr 2
  · split
    · next hzero => rw [hzero, pow_zero]
    · rfl
  · split
    · next hlast =>
      have hsucc : j + 1 = key.circuitSize - 1 := by omega
      rw [hsucc]
    · rfl

/-- **The identity vanishes on the domain exactly with the recurrence.** -/
theorem vanishes_iff (hkey : key.Primitive) {separations : Finset Scalar} (hcard : 3 ≤ separations.card) :
    (∀ s ∈ separations, ∀ j < key.circuitSize, (arg.identity key s).eval (key.root ^ j) = 0)
      ↔ arg.Recurrence key := by
  have hfour := hkey.consistent.four_le
  constructor
  · intro hvanish
    have hparts := fun j (hj : j < key.circuitSize) => coefficients_eq_zero hcard fun s hs => by
      rw [← hvanish s hs j hj, eval_identity_root hkey s hj]
    refine ⟨?_, ?_, fun j hj => ?_⟩
    · obtain ⟨-, hfirst, -⟩ := hparts 0 hkey.circuitSize_pos
      rwa [if_pos rfl, sub_eq_zero] at hfirst
    · obtain ⟨-, -, hlast⟩ := hparts (key.circuitSize - 2) (by omega)
      rwa [if_pos rfl, sub_eq_zero] at hlast
    · obtain ⟨hstep, -, -⟩ := hparts j (by omega)
      -- the factor that switches the last row off is not zero here
      have hrow : key.root ^ j - key.root ^ (key.circuitSize - 1) ≠ 0 := by
        intro heq
        have hlast := hkey.root.pow_inj (by omega) (by omega) (sub_eq_zero.mp heq)
        omega
      exact sub_eq_zero.mp ((mul_eq_zero.mp hstep).resolve_left hrow)
  · intro h s _ j hj
    rw [eval_identity_root hkey s hj, h.first, h.last, sub_self, sub_self, ite_self, ite_self, mul_zero, mul_zero,
      add_zero, add_zero]
    by_cases hlast : j = key.circuitSize - 1
    · rw [hlast, sub_self, zero_mul]
    · rw [h.step j (by omega), sub_self, mul_zero]

/-- **The recurrence multiplies up to the value of the public inputs.** -/
theorem Recurrence.prod_eq (h : arg.Recurrence key)
    (hsigma : ∀ j < key.circuitSize - 1, arg.sigmaFactor key (key.root ^ j) ≠ 0) :
    ∏ j ∈ range (key.circuitSize - 1),
      arg.identityFactor key (key.root ^ j) * (arg.sigmaFactor key (key.root ^ j))⁻¹ = arg.delta := by
  have hpartial : ∀ m ≤ key.circuitSize - 1, ∏ j ∈ range m,
      arg.identityFactor key (key.root ^ j) * (arg.sigmaFactor key (key.root ^ j))⁻¹
        = arg.product.eval (key.root ^ m) := by
    intro m hm
    induction m with
    | zero => rw [Finset.prod_range_zero, pow_zero, h.first]
    | succ m ih =>
      rw [Finset.prod_range_succ, ih (by omega), ← mul_assoc, h.step m (by omega),
        mul_inv_cancel_right₀ (hsigma m (by omega))]
  rw [hpartial _ le_rfl, h.last]

/-! ## The pass -/

variable (arg key) in
/-- A transcript with the values at `z` of the polynomials of a copy argument. -/
structure Evaluates (inputs : List Scalar) (s z : Scalar) (transcript : Transcript G) : Prop where
  beta : transcript.challenge Challenge.beta = .ok arg.beta
  gamma : transcript.challenge Challenge.gamma = .ok arg.gamma
  separation : transcript.challenge Challenge.permutation = .ok s
  point : transcript.challenge Challenge.point = .ok z
  publicInputs : transcript.vector publicInputsLabel = .ok inputs
  wire : ∀ i < key.programWidth,
    transcript.evaluation ("w_" ++ toString (i + 1)) = .ok ((arg.wire i).eval z)
  sigma : ∀ i < key.programWidth,
    transcript.evaluation ("sigma_" ++ toString (i + 1)) = .ok ((arg.sigma i).eval z)
  product : transcript.evaluation "z" = .ok (arg.product.eval z)
  shifted : transcript.evaluation "z_omega" = .ok (arg.product.eval (z * key.root))

namespace Evaluates

variable {inputs : List Scalar} {s z k : Scalar} {transcript : Transcript G}

/-- What the permutation asks for: wires, permutation polynomials and the grand product. -/
theorem evaluation_found (h : arg.Evaluates key inputs s z transcript) {l : String}
    (hl : l ∈ Family.permutation.requiredEvaluations key.programWidth ⟨false, false⟩) :
    ∃ x, transcript.evaluation l = .ok x := by
  have hnumbered : ∀ stem, ∀ n ≤ key.programWidth, l ∈ Label.numbered stem n →
      ∃ i < key.programWidth, stem ++ "_" ++ toString (i + 1) = l := by
    intro stem n hn hl
    obtain ⟨i, hi, rfl⟩ := List.mem_map.mp hl
    exact ⟨i, (List.mem_range.mp hi).trans_le hn, rfl⟩
  simp only [Family.requiredEvaluations, Family.rawOpenings, Label.wires, Bool.false_eq_true, if_false,
    Bool.false_and, List.append_nil, List.mem_append, List.mem_cons] at hl
  rcases hl with hl | hl | rfl | rfl | hl
  · obtain ⟨i, hi, rfl⟩ := hnumbered _ _ le_rfl hl
    exact ⟨_, h.wire i hi⟩
  · obtain ⟨i, hi, rfl⟩ := hnumbered _ _ (Nat.sub_le _ 1) hl
    exact ⟨_, h.sigma i hi⟩
  · exact ⟨_, h.shifted⟩
  · exact ⟨_, h.product⟩
  · obtain ⟨i, hi, rfl⟩ := hnumbered _ _ le_rfl hl
    exact ⟨_, h.sigma i hi⟩

theorem reading_publicInputs (h : arg.Evaluates key inputs s z transcript) :
    transcript.reading.publicInputs = inputs := by rw [Transcript.reading, h.publicInputs, answer_ok]

/-- The value of the public inputs is that of the argument. -/
theorem publicInputDelta_eq (h : arg.Evaluates key inputs s z transcript)
    (hk : key.externalCosetGenerator = .ok k)
    (hdelta : Domain.publicInputDelta inputs arg.beta arg.gamma key.root k = .ok arg.delta) :
    arg.delta = transcript.reading.publicInputDelta key := by
  rw [← h.reading_publicInputs, Transcript.eq_challenge h.beta, Transcript.eq_challenge h.gamma,
    cosetGenerator_eq_ok hk] at hdelta
  exact publicInputDelta_eq_ok hdelta

/-- **No query of the pass fails.** -/
theorem supplied (h : arg.Evaluates key inputs s z transcript) (hcount : inputs.length = key.publicInputs)
    (hz : z ^ key.circuitSize ≠ 1) (hk : key.externalCosetGenerator = .ok k)
    (hdelta : Domain.publicInputDelta inputs arg.beta arg.gamma key.root k = .ok arg.delta) :
    Supplied (fun _ => False) (Family.permutation.scalarQueries key.programWidth ⟨false, false⟩) key transcript
      transcript where
  challenge l hl := by
    simp only [Family.scalarQueries, List.mem_cons, List.not_mem_nil, or_false] at hl
    rcases hl with rfl | rfl | rfl | rfl
    · exact .found ⟨_, h.beta⟩
    · exact .found ⟨_, h.gamma⟩
    · exact .found ⟨_, h.separation⟩
    · exact .found ⟨_, h.point⟩
  member _ hl := absurd hl List.not_mem_nil
  evaluation _ hl := .found (h.evaluation_found hl)
  publicInputs := .found ⟨_, h.publicInputs⟩
  inputCount inputs' hinputs hne := by
    obtain rfl : inputs = inputs' := Except.ok.inj (h.publicInputs.symm.trans hinputs)
    exact hne hcount
  keyed _ hL := absurd hL List.not_mem_nil
  division hdegenerate := by
    rcases hdegenerate with hone | hzero
    · rw [← Transcript.eq_challenge h.point] at hone
      exact hz hone
    · obtain ⟨d, hd, -⟩ := bind_eq_ok.mp hdelta
      rw [← publicInputProduct_eq, h.reading_publicInputs, ← Transcript.eq_challenge h.beta,
        ← Transcript.eq_challenge h.gamma, ← cosetGenerator_eq_ok hk] at hzero
      exact (Domain.invert_eq_ok.mp hd).1 hzero

/-- **The closed form of the permutation is the value of the polynomial.** -/
theorem permutation_eq (h : arg.Evaluates key inputs s z transcript) (hkey : key.Primitive)
    (hz : z ^ key.circuitSize ≠ 1) (hdelta : arg.delta = transcript.reading.publicInputDelta key) :
    transcript.reading.permutation key false = (arg.identity key s).eval z := by
  have hfour := hkey.consistent.four_le
  have hwire : ∀ i ∈ range key.programWidth, transcript.reading.nth "w" i = (arg.wire i).eval z :=
    fun i hi => (Transcript.eq_evaluation (h.wire i (Finset.mem_range.mp hi))).symm
  have hsigma : ∀ i ∈ range key.programWidth, transcript.reading.nth "sigma" i = (arg.sigma i).eval z :=
    fun i hi => (Transcript.eq_evaluation (h.sigma i (Finset.mem_range.mp hi))).symm
  have hidentityFactor : transcript.reading.wireProduct key.programWidth
      (transcript.reading.identityPosition key false) = arg.identityFactor key z := by
    refine Finset.prod_congr rfl fun i hi => ?_
    rw [hwire i hi, Reading.identityPosition, if_neg Bool.false_ne_true, ← Transcript.eq_challenge h.beta,
      ← Transcript.eq_challenge h.gamma, ← Transcript.eq_challenge h.point]
  have hsigmaFactor : transcript.reading.wireProduct key.programWidth (transcript.reading.nth "sigma")
      = arg.sigmaFactor key z := by
    refine Finset.prod_congr rfl fun i hi => ?_
    rw [hwire i hi, hsigma i hi, ← Transcript.eq_challenge h.beta, ← Transcript.eq_challenge h.gamma]
  have hlagrange : ∀ i < key.circuitSize, transcript.reading.lagrange key i = (key.lagrange i).eval z := by
    intro i hi
    rw [hkey.eval_lagrange hi hz, Reading.lagrange, ← Transcript.eq_challenge h.point]
  simp only [Reading.permutation]
  rw [hidentityFactor, hsigmaFactor, hlagrange 0 (by omega), hlagrange _ (by omega), eval_identity, ← hdelta,
    ← Transcript.eq_challenge h.point, ← Transcript.eq_challenge h.separation, ← Transcript.eq_evaluation h.product,
    ← Transcript.eq_evaluation h.shifted]
  ring

/-- **The pass adds the value of the polynomial.** -/
theorem scalarPass_eq (h : arg.Evaluates key inputs s z transcript) (hkey : key.Primitive)
    (hw : GateWidth key.programWidth) (hcount : inputs.length = key.publicInputs)
    (hz : z ^ key.circuitSize ≠ 1) (hk : key.externalCosetGenerator = .ok k)
    (hdelta : Domain.publicInputDelta inputs arg.beta arg.gamma key.root k = .ok arg.delta)
    (power : AlphaPower) (r₀ : Scalar) :
    Family.permutation.scalarPass key power transcript r₀ ⟨false, false⟩
      = .ok (power.advance 1, r₀ + power.base * (arg.identity key s).eval z) := by
  have hfound := Permutation.scalarPart_coincide hkey.consistent hw (h.supplied hcount hz hk hdelta)
  obtain ⟨part, hpart, -⟩ := hfound.exists_ok fun _ hfalse => hfalse
  rw [← h.permutation_eq hkey hz (h.publicInputDelta_eq hk hdelta),
    ← Family.scalarPart_of_permutation hkey.consistent hw.pos hpart]
  exact bind_of_eq_ok hpart

end Evaluates

end CopyArgument

/-! ## The recurrence -/

/-- The fourth root of unity of the small keys is primitive. -/
theorem Scalar.isPrimitiveRoot_fourthRoot : IsPrimitiveRoot Scalar.fourthRoot 4 := by
  rw [Scalar.fourthRoot, Residue.pow_eq]
  exact isPrimitiveRoot_generator.pow (by decide) (by decide)

/-- The small key is one of the keys the theorem is about. -/
theorem VerificationKey.primitive_small : (small 3 2).Primitive :=
  ⟨validate_eq_ok.mp (by decide +kernel), Scalar.isPrimitiveRoot_fourthRoot⟩

namespace CopyArgument

/-- What the grand product grows by in a row with the public input `x`. -/
def growth (x row : Scalar) : Scalar := (x + 21 * row + 22) * Residue.inverse (x + 21 * (125 * row) + 22)

/-- The value of the public inputs. -/
def movedDelta : Scalar := growth 7 1 * growth 9 Scalar.fourthRoot

/-- The polynomials, by their values in the four rows. -/
noncomputable def moved : CopyArgument where
  product := C movedDelta + C (1 - movedDelta) * (VerificationKey.small 3 2).lagrange 0
    + C (growth 7 1 - movedDelta) * (VerificationKey.small 3 2).lagrange 1
  wire i := if i = 0 then C 7 * (VerificationKey.small 3 2).lagrange 0 + C 9 * (VerificationKey.small 3 2).lagrange 1
    else 0
  sigma i := C ((VerificationKey.small 3 2).cosetGenerators.getD i 0) * X
    + if i = 0 then C 124 * ((VerificationKey.small 3 2).lagrange 0
      + C Scalar.fourthRoot * (VerificationKey.small 3 2).lagrange 1) else 0
  beta := 21
  gamma := 22
  delta := movedDelta

/-- The values of the two Lagrange polynomials in a row. -/
theorem eval_lagrange_small {j : ℕ} (hj : j < 4) :
    ((VerificationKey.small 3 2).lagrange 0).eval (Scalar.fourthRoot ^ j) = (if j = 0 then 1 else 0)
      ∧ ((VerificationKey.small 3 2).lagrange 1).eval (Scalar.fourthRoot ^ j) = if j = 1 then 1 else 0 :=
  ⟨VerificationKey.primitive_small.eval_lagrange_root (by decide) hj,
    VerificationKey.primitive_small.eval_lagrange_root (by decide) hj⟩

/-- The grand product in a row. -/
theorem eval_product_moved {j : ℕ} (hj : j < 4) : moved.product.eval (Scalar.fourthRoot ^ j)
    = if j = 0 then 1 else if j = 1 then growth 7 1 else movedDelta := by
  obtain ⟨hzero, hone⟩ := eval_lagrange_small hj
  simp only [moved, eval_add, eval_mul, eval_C, hzero, hone]
  interval_cases j <;> simp

/-- The first wire in a row. -/
theorem eval_wire_moved {i j : ℕ} (hj : j < 4) : (moved.wire i).eval (Scalar.fourthRoot ^ j)
    = if i = 0 then (if j = 0 then 7 else if j = 1 then 9 else 0) else 0 := by
  obtain ⟨hzero, hone⟩ := eval_lagrange_small hj
  by_cases hi : i = 0
  · simp only [moved, hi, if_true, eval_add, eval_mul, eval_C, hzero, hone]
    interval_cases j <;> simp
  · simp only [moved, hi, if_false, eval_zero]

/-- The permutation polynomials in a row. -/
theorem eval_sigma_moved {i j : ℕ} (hj : j < 4) : (moved.sigma i).eval (Scalar.fourthRoot ^ j)
    = ((VerificationKey.small 3 2).cosetGenerators.getD i 0 + if i = 0 ∧ j < 2 then 124 else 0)
      * Scalar.fourthRoot ^ j := by
  obtain ⟨hzero, hone⟩ := eval_lagrange_small hj
  by_cases hi : i = 0
  · simp only [moved, hi, if_true, eval_add, eval_mul, eval_C, eval_X, hzero, hone]
    interval_cases j
    · simp
    · simp
      ring
    · simp
    · simp
  · simp [moved, hi]

/-- The factors of a row. -/
theorem factors_moved {j : ℕ} (hj : j < 4) :
    moved.identityFactor (.small 3 2) (Scalar.fourthRoot ^ j) = ∏ i ∈ range 3,
        ((if i = 0 then (if j = 0 then 7 else if j = 1 then 9 else 0) else 0)
          + 21 * ((VerificationKey.small 3 2).cosetGenerators.getD i 0 * Scalar.fourthRoot ^ j) + 22)
      ∧ moved.sigmaFactor (.small 3 2) (Scalar.fourthRoot ^ j) = ∏ i ∈ range 3,
        ((if i = 0 then (if j = 0 then 7 else if j = 1 then 9 else 0) else 0)
          + 21 * (((VerificationKey.small 3 2).cosetGenerators.getD i 0 + if i = 0 ∧ j < 2 then 124 else 0)
            * Scalar.fourthRoot ^ j) + 22) := by
  constructor
  · exact Finset.prod_congr rfl fun i _ => by rw [eval_wire_moved hj]; rfl
  · exact Finset.prod_congr rfl fun i _ => by rw [eval_wire_moved hj, eval_sigma_moved hj]; rfl

/-- The moved accumulator satisfies the recurrence, the last row against `movedDelta` included. -/
theorem recurrence_moved : moved.Recurrence (.small 3 2) := by
  refine ⟨?_, eval_product_moved (show 3 < 4 by decide), fun j hj => ?_⟩
  · have hfirst := eval_product_moved (show 0 < 4 by decide)
    rwa [pow_zero, if_pos rfl] at hfirst
  · have hj : j < 3 := hj
    change moved.product.eval (Scalar.fourthRoot ^ j) * moved.identityFactor _ (Scalar.fourthRoot ^ j)
      = moved.product.eval (Scalar.fourthRoot ^ (j + 1)) * moved.sigmaFactor _ (Scalar.fourthRoot ^ j)
    obtain ⟨hidentity, hsigma⟩ := factors_moved (hj.trans (by decide))
    rw [eval_product_moved (hj.trans (by decide)), eval_product_moved (Nat.succ_lt_succ hj), hidentity, hsigma]
    simp only [Finset.prod_range_succ, Finset.prod_range_zero, ← Residue.pow_eq]
    interval_cases j <;> decide +kernel

/-- The grand product does not go on from the last row to the first: this row has to be switched off. -/
theorem lastRow_moved : moved.product.eval (Scalar.fourthRoot ^ 3)
    * moved.identityFactor (.small 3 2) (Scalar.fourthRoot ^ 3)
      ≠ moved.product.eval 1 * moved.sigmaFactor (.small 3 2) (Scalar.fourthRoot ^ 3) := by
  obtain ⟨hidentity, hsigma⟩ := factors_moved (show 3 < 4 by decide)
  rw [recurrence_moved.first, eval_product_moved (by decide), hidentity, hsigma]
  simp only [Finset.prod_range_succ, Finset.prod_range_zero, ← Residue.pow_eq]
  decide +kernel

/-- No permutation factor of the first three rows vanishes. -/
theorem sigma_ne_zero_moved {i j : ℕ} (hi : i < 3) (hj : j < 3) :
    (moved.wire i).eval (Scalar.fourthRoot ^ j) + moved.beta * (moved.sigma i).eval (Scalar.fourthRoot ^ j)
      + moved.gamma ≠ 0 := by
  rw [eval_wire_moved (hj.trans (by decide)), eval_sigma_moved (hj.trans (by decide)), ← Residue.pow_eq]
  change _ + 21 * _ + 22 ≠ 0
  interval_cases i <;> interval_cases j <;> decide +kernel

/-- The values of the two Lagrange polynomials at `z`, off the domain. -/
def lagrangeAt (i : ℕ) (z : Scalar) : Scalar :=
  Residue.pow Scalar.fourthRoot i * (Residue.pow z 4 - 1)
    * Residue.inverse (4 * (z - Residue.pow Scalar.fourthRoot i))

/-- Off the domain a Lagrange polynomial is given by its closed form. -/
theorem eval_lagrange_eq {i : ℕ} (hi : i < 4) {z : Scalar} (hz : Residue.pow z 4 ≠ 1) :
    ((VerificationKey.small 3 2).lagrange i).eval z = lagrangeAt i z := by
  rw [Residue.pow_eq] at hz
  rw [VerificationKey.primitive_small.eval_lagrange hi hz, lagrangeAt, Residue.pow_eq, Residue.pow_eq]
  rfl

/-- The value of the grand product at `z`. -/
def movedProduct (z : Scalar) : Scalar :=
  movedDelta + (1 - movedDelta) * lagrangeAt 0 z + (growth 7 1 - movedDelta) * lagrangeAt 1 z

/-- Off the domain the accumulator is given by its values on the four rows. -/
theorem eval_product_eq {z : Scalar} (hz : Residue.pow z 4 ≠ 1) : moved.product.eval z = movedProduct z := by
  simp only [moved, eval_add, eval_mul, eval_C, eval_lagrange_eq (show 0 < 4 by decide) hz,
    eval_lagrange_eq (show 1 < 4 by decide) hz, movedProduct]

end CopyArgument

/-- The values of these polynomials at `18`. -/
def Transcript.moved : Transcript Scalar :=
  { Transcript.small (.ofTag .standardUnrolled) with
    evaluation := fun l => .ok (
      if l = "z" then CopyArgument.movedProduct 18
      else if l = "z_omega" then CopyArgument.movedProduct (18 * Scalar.fourthRoot)
      else if l = "w_1" then 7 * CopyArgument.lagrangeAt 0 18 + 9 * CopyArgument.lagrangeAt 1 18
      else if l = "sigma_1" then 18 + 124 * (CopyArgument.lagrangeAt 0 18
        + Scalar.fourthRoot * CopyArgument.lagrangeAt 1 18)
      else if l = "sigma_2" then 90
      else if l = "sigma_3" then 450
      else 0)
    vector := fun _ => .ok [7, 9] }

/-- The transcript answers with the moved argument's own polynomials. -/
theorem CopyArgument.evaluates_moved : moved.Evaluates (.small 3 2) [7, 9] 39 18 Transcript.moved := by
  have hz : Residue.pow (18 : Scalar) 4 ≠ 1 := by decide +kernel
  have hzero := eval_lagrange_eq (show 0 < 4 by decide) hz
  have hone := eval_lagrange_eq (show 1 < 4 by decide) hz
  refine ⟨rfl, rfl, rfl, rfl, rfl, fun i hi => ?_, fun i hi => ?_, ?_, ?_⟩
  · have hi : i < 3 := hi
    simp only [moved]
    interval_cases i
    · simp only [if_true, eval_add, eval_mul, eval_C, hzero, hone]
      rfl
    · rw [if_neg (by decide), eval_zero]
      rfl
    · rw [if_neg (by decide), eval_zero]
      rfl
  · have hi : i < 3 := hi
    simp only [moved]
    interval_cases i
    · simp only [if_true, eval_add, eval_mul, eval_C, eval_X, hzero, hone]
      decide +kernel
    · rw [if_neg (by decide), add_zero, eval_mul, eval_C, eval_X]
      decide +kernel
    · rw [if_neg (by decide), add_zero, eval_mul, eval_C, eval_X]
      decide +kernel
  · rw [eval_product_eq hz]
    rfl
  · rw [eval_product_eq (by decide +kernel)]
    rfl

end PlonkVerifier
