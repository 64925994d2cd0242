import Mathlib
import PlonkVerifier.Proofs.Composition

/-!
# Proofs/ClosedForm — the identity of each family as a formula

A pass of a family reads its values one by one and may stop at a missing one.  Here the identities are formulas
in a `Reading`, where every value is there.  A pass of an unrolled family that succeeds finds the value of its
formula (`Family.scalarPart_eq_closedForm`), and no formula reads the challenge that combines the families
(`Family.closedForm_congr`).
-/

namespace PlonkVerifier

open scoped ScalarField
open Finset (range)

variable {G : Type} {key : VerificationKey G} {transcript : Transcript G}

/-- The values that the identities of the families are about. -/
structure Reading where
  challenge : String → Scalar
  evaluation : String → Scalar
  publicInputs : List Scalar

/-- The values that a transcript answers with. -/
def Transcript.reading (transcript : Transcript G) : Reading where
  challenge label := answer (transcript.challenge label)
  evaluation label := answer (transcript.evaluation label)
  publicInputs := answer (transcript.vector publicInputsLabel)

section

variable {label : String} {x : Scalar}

theorem Transcript.eq_challenge (h : transcript.challenge label = .ok x) :
    x = transcript.reading.challenge label := by simp only [reading, h, answer_ok]

theorem Transcript.eq_evaluation (h : transcript.evaluation label = .ok x) :
    x = transcript.reading.evaluation label := by simp only [reading, h, answer_ok]

end

namespace Reading

variable (ρ : Reading)

/-! ## Gates -/

/-- `q_m a b + q_1 a + q_2 b + q_3 c + q_c`. -/
def arithmetic : Scalar :=
  let e := ρ.evaluation
  e "q_m" * e "w_1" * e "w_2" + e "q_1" * e "w_1" + e "q_2" * e "w_2" + e "q_3" * e "w_3" + e "q_c"

/-- `q_arith (q_m a b + q_1 a + q_2 b + q_3 c + q_4 d + q_5 d (d - 1) (d - 2) + q_c)`. -/
def turboArithmetic : Scalar :=
  let e := ρ.evaluation
  let d := e "w_4"
  e "q_arith" * (e "q_m" * e "w_1" * e "w_2" + e "q_1" * e "w_1" + e "q_2" * e "w_2"
    + e "q_3" * e "w_3" + e "q_4" * d + e "q_5" * (d * (d - 1) * (d - 2)) + e "q_c")

/-- `q ∑ sʲ cⱼ` for the selector `q`, the separation challenge `s` and sub-identities `cⱼ`. -/
def gated (selector separation : String) (subIdentities : List Scalar) : Scalar :=
  ρ.evaluation selector * (subIdentities.mapIdx fun j c => ρ.challenge separation ^ j * c).sum

/-- `f (f - 1) (f - 2) (f - 3)`. -/
def delta (f : Scalar) : Scalar := f * (f - 1) * (f - 2) * (f - 3)

/-- The digit `d' - 2 d` is `-1`, `0` or `1`, and `(a', b')` is the sum of `(a, b)` and the multiple `(x, y)` of
the table point by this digit, where `x y = c`. -/
def fixedBase : Scalar :=
  let e := ρ.evaluation
  let a := e "w_1"
  let b := e "w_2"
  let c := e "w_3"
  let digit := e "w_4_omega" - 2 * e "w_4"
  let x := e "q_1" * digit
  let y := digit ^ 2 * (e "q_2" - 1) + 1
  ρ.gated "q_fixed_base" "fixed_base_separation"
    [digit * (digit - 1) * (digit + 1),
      c - x * y,
      e "w_1_omega" * (1 + 168696 * a * b * c) - (a * y + b * x),
      e "w_2_omega" * (1 - 168696 * a * b * c) - (b * y - 168700 * a * x)]

/-- The quads `c - 4 d`, `b - 4 c`, `a - 4 b` and `d' - 4 a` are base-4 digits. -/
def fourQuads : Scalar :=
  let e := ρ.evaluation
  ρ.gated "q_range" "range_separation"
    [delta (e "w_3" - 4 * e "w_4"), delta (e "w_2" - 4 * e "w_3"), delta (e "w_1" - 4 * e "w_2"),
      delta (e "w_4_omega" - 4 * e "w_1")]

/-- The quads of `a`, `b` and `d` are base-4 digits, `c` is the product of the first two, and the third is their
conjunction or exclusive or, as `q_c` says. -/
def logic : Scalar :=
  let e := ρ.evaluation
  let x := e "w_1_omega" - 4 * e "w_1"
  let y := e "w_2_omega" - 4 * e "w_2"
  let z := e "w_4_omega" - 4 * e "w_4"
  let c := e "w_3"
  ρ.gated "q_logic" "logic_separation"
    [delta x, delta y, delta z, c - x * y,
      e "q_c" * (9 * z - 3 * (x + y)) + 3 * (x + y + z)
        - 2 * c * (4 * c ^ 2 - 18 * c * (x + y) + 81 * c + 18 * (x ^ 2 + y ^ 2) - 81 * (x + y) + 83)]

/-- `(a, b) + (c, d) = (a', b')` on the embedded curve, where `d' = a d`. -/
def elliptic : Scalar :=
  let e := ρ.evaluation
  let a := e "w_1"
  let b := e "w_2"
  let c := e "w_3"
  let d := e "w_4"
  let p := e "w_4_omega"
  ρ.gated "q_elliptic" "ecc_separation"
    [a * d - p,
      p + b * c - e "w_1_omega" * (1 + 168696 * p * (b * c)),
      b * d - 168700 * a * c - e "w_2_omega" * (1 - 168696 * p * (b * c))]

/-! ## The grand product -/

/-- `stem_1, stem_2, …`, counted from zero. -/
def nth (stem : String) (i : ℕ) : Scalar := ρ.evaluation (stem ++ "_" ++ toString (i + 1))

/-- The Lagrange polynomial of `ωⁱ` at the evaluation point: `ωⁱ (zⁿ - 1) / (n (z - ωⁱ))`. -/
def lagrange (key : VerificationKey G) (i : ℕ) : Scalar :=
  let z := ρ.challenge Challenge.point
  key.root ^ i * (z ^ key.circuitSize - 1) * ((key.circuitSize : Scalar) * (z - key.root ^ i))⁻¹

/-- `∏ (xᵢ + β k ωⁱ + γ)` over the public inputs `xᵢ`. -/
def inputProduct (key : VerificationKey G) (k : Scalar) : Scalar :=
  (ρ.publicInputs.mapIdx fun i x =>
    x + ρ.challenge Challenge.beta * (k * key.root ^ i) + ρ.challenge Challenge.gamma).prod

/-- The value that the public inputs give to the grand product, with the external coset generator. -/
def publicInputDelta (key : VerificationKey G) : Scalar :=
  ρ.inputProduct key 1 * (ρ.inputProduct key (key.cosetGenerators.getD key.programWidth 0))⁻¹

/-- `∏ (wᵢ + β pᵢ + γ)` over all wires. -/
def wireProduct (width : ℕ) (position : ℕ → Scalar) : Scalar :=
  ∏ i ∈ range width,
    (ρ.nth "w" i + ρ.challenge Challenge.beta * position i + ρ.challenge Challenge.gamma)

/-- The identity position of a wire: evaluated, or the evaluation point in the coset of the wire. -/
def identityPosition (key : VerificationKey G) (ids : Bool) (i : ℕ) : Scalar :=
  if ids then ρ.nth "id" i else key.cosetGenerators.getD i 0 * ρ.challenge Challenge.point

/-- `(z - ω⁻¹) (Z(z) ∏ (wᵢ + β idᵢ + γ) - Z(z ω) ∏ (wᵢ + β σᵢ + γ))`
`+ s (Z(z) - 1) L₀(z) + s² (Z(z ω) - δ) Lₙ₋₂(z)`. -/
def permutation (key : VerificationKey G) (ids : Bool) : Scalar :=
  let z := ρ.challenge Challenge.point
  let s := ρ.challenge Challenge.permutation
  (z - key.root⁻¹) * (ρ.evaluation "z" * ρ.wireProduct key.programWidth (ρ.identityPosition key ids)
      - ρ.evaluation "z_omega" * ρ.wireProduct key.programWidth (ρ.nth "sigma"))
    + s * (ρ.evaluation "z" - 1) * ρ.lagrange key 0
    + s ^ 2 * (ρ.evaluation "z_omega" - ρ.publicInputDelta key) * ρ.lagrange key (key.circuitSize - 2)

end Reading

/-- The identity of a family. -/
def Family.closedForm (family : Family) (key : VerificationKey G) (ids : Bool) (ρ : Reading) : Scalar :=
  match family with
  | permutation => ρ.permutation key ids
  | arithmetic => ρ.arithmetic
  | turboArithmetic => ρ.turboArithmetic
  | turboFixedBase => ρ.fixedBase
  | turboRange => ρ.fourQuads
  | turboLogic => ρ.logic
  | elliptic => ρ.elliptic

/-! ## Passes of gates -/

/-- Separation weighs the sub-identities by the powers of the challenge. -/
theorem separate_eq (s : Scalar) (subIdentities : List Scalar) :
    separate s subIdentities = (subIdentities.mapIdx fun j c => s ^ j * c).sum := by
  rw [separate, Residue.sum_eq, Residue.powers_eq]
  refine congrArg _ (List.ext_getElem (by simp) fun i _ _ => ?_)
  simp

theorem Row.read_eq_ok {row : Row} :
    Row.read transcript.evaluation = .ok row ↔
      transcript.evaluation "w_1" = .ok row.a ∧ transcript.evaluation "w_2" = .ok row.b
        ∧ transcript.evaluation "w_3" = .ok row.c ∧ transcript.evaluation "w_4" = .ok row.d := by
  simp only [read, bind_eq_ok, pure_eq_ok]
  constructor
  · rintro ⟨a, ha, b, hb, c, hc, d, hd, rfl⟩
    exact ⟨ha, hb, hc, hd⟩
  · rintro ⟨ha, hb, hc, hd⟩
    exact ⟨_, ha, _, hb, _, hc, _, hd, rfl⟩

namespace Family

variable {family : Family} {ids : Bool} {part : Scalar} {cs : List Scalar}

/-- The scalar part of a gate family is its selector times its separated sub-identities. -/
theorem exists_gated {gate : Gate} (hgate : family.gate? = some gate)
    (h : family.scalarPart key transcript ⟨false, ids⟩ = .ok part) :
    ∃ cs, gate.subIdentities transcript.evaluation = .ok cs
      ∧ part = transcript.reading.gated gate.selector gate.separation cs := by
  rw [scalarPart_of_gate hgate] at h
  obtain ⟨q, hq, h⟩ := bind_eq_ok.mp h
  obtain ⟨identity, hidentity, h⟩ := bind_eq_ok.mp h
  obtain rfl := pure_eq_ok.mp h
  obtain ⟨s, hs, hidentity⟩ := bind_eq_ok.mp hidentity
  obtain ⟨cs, hcs, hidentity⟩ := bind_eq_ok.mp hidentity
  obtain rfl := pure_eq_ok.mp hidentity
  refine ⟨cs, hcs, ?_⟩
  simp only [Reading.gated, Transcript.reading, hq, hs, answer_ok, separate_eq]

/-- The sub-identities the fixed-base gate computes are the ones of its closed form. -/
theorem fixedBase_eq (h : Gate.fixedBase.subIdentities transcript.evaluation = .ok cs) :
    transcript.reading.gated "q_fixed_base" "fixed_base_separation" cs = transcript.reading.fixedBase := by
  simp only [Gate.fixedBase, bind_eq_ok, pure_eq_ok] at h
  obtain ⟨row, hrow, a', ha', b', hb', d', hd', q₁, hq₁, q₂, hq₂, rfl⟩ := h
  obtain ⟨ha, hb, hc, hd⟩ := Row.read_eq_ok.mp hrow
  simp only [Reading.fixedBase, FixedBase.subIdentities, Scalar.ofNat_eq, Edwards.a, Edwards.d,
    Nat.cast_ofNat]
  simp only [Transcript.reading, ha, hb, hc, hd, ha', hb', hd', hq₁, hq₂, answer_ok]
  refine congrArg (Reading.gated _ _ _) ?_
  simp only [List.cons.injEq, and_true]
  refine ⟨?_, ?_, ?_, ?_⟩ <;> ring

theorem fourQuads_eq (h : Gate.range.subIdentities transcript.evaluation = .ok cs) :
    transcript.reading.gated "q_range" "range_separation" cs = transcript.reading.fourQuads := by
  simp only [Gate.range, bind_eq_ok, pure_eq_ok] at h
  obtain ⟨row, hrow, d', hd', rfl⟩ := h
  obtain ⟨ha, hb, hc, hd⟩ := Row.read_eq_ok.mp hrow
  simp only [Reading.fourQuads, Range.subIdentities, Transcript.reading, ha, hb, hc, hd, hd', answer_ok]
  rfl

theorem logic_eq (h : Gate.logic.subIdentities transcript.evaluation = .ok cs) :
    transcript.reading.gated "q_logic" "logic_separation" cs = transcript.reading.logic := by
  simp only [Gate.logic, bind_eq_ok, pure_eq_ok] at h
  obtain ⟨row, hrow, a', ha', b', hb', d', hd', q, hq, rfl⟩ := h
  obtain ⟨ha, hb, hc, hd⟩ := Row.read_eq_ok.mp hrow
  simp only [Reading.logic, Logic.subIdentities, Logic.digitIdentity]
  simp only [Transcript.reading, ha, hb, hc, hd, ha', hb', hd', hq, answer_ok]
  refine congrArg (Reading.gated _ _ _) ?_
  simp only [List.cons.injEq, true_and, and_true]
  refine ⟨rfl, rfl, rfl, ?_⟩
  ring

theorem elliptic_eq (h : Gate.elliptic.subIdentities transcript.evaluation = .ok cs) :
    transcript.reading.gated "q_elliptic" "ecc_separation" cs = transcript.reading.elliptic := by
  simp only [Gate.elliptic, bind_eq_ok, pure_eq_ok] at h
  obtain ⟨row, hrow, a', ha', b', hb', p, hp, rfl⟩ := h
  obtain ⟨ha, hb, hc, hd⟩ := Row.read_eq_ok.mp hrow
  simp only [Reading.elliptic, Elliptic.subIdentities, Scalar.ofNat_eq, Edwards.a, Edwards.d,
    Nat.cast_ofNat]
  simp only [Transcript.reading, ha, hb, hc, hd, ha', hb', hp, answer_ok]
  refine congrArg (Reading.gated _ _ _) ?_
  simp only [List.cons.injEq, true_and, and_true]
  refine ⟨?_, ?_⟩ <;> ring

/-- The arithmetic family's scalar part is its closed form. -/
theorem scalarPart_of_arithmetic (h : arithmetic.scalarPart key transcript ⟨false, ids⟩ = .ok part) :
    part = transcript.reading.arithmetic := by
  obtain ⟨ms, hms, hsum⟩ := bind_eq_ok.mp h
  obtain ⟨rfl, -⟩ := Arithmetic.selectorSum_eq_ok hsum
  simp only [Arithmetic.readMultipliers, bind_eq_ok, pure_eq_ok] at hms
  obtain ⟨a, ha, b, hb, c, hc, rfl⟩ := hms
  simp only [Reading.arithmetic, Transcript.reading, Arithmetic.selectors, Arithmetic.multipliers,
    List.zip_cons_cons, List.zip_nil_right, List.map_cons, List.map_nil, List.sum_cons, List.sum_nil,
    ha, hb, hc, answer_ok]
  ring

/-- The turbo arithmetic family's scalar part is its closed form. -/
theorem scalarPart_of_turboArithmetic
    (h : turboArithmetic.scalarPart key transcript ⟨false, ids⟩ = .ok part) :
    part = transcript.reading.turboArithmetic := by
  obtain ⟨ms, hms, h⟩ := bind_eq_ok.mp h
  obtain ⟨sum, hsum, h⟩ := bind_eq_ok.mp h
  obtain ⟨q, hq, h⟩ := bind_eq_ok.mp h
  obtain rfl := pure_eq_ok.mp h
  obtain ⟨rfl, -⟩ := Arithmetic.selectorSum_eq_ok hsum
  obtain ⟨row, hrow, hms⟩ := bind_eq_ok.mp hms
  obtain rfl := pure_eq_ok.mp hms
  obtain ⟨ha, hb, hc, hd⟩ := Row.read_eq_ok.mp hrow
  rw [TurboArithmetic.gateSelector] at hq
  simp only [Reading.turboArithmetic, Transcript.reading, TurboArithmetic.selectors,
    TurboArithmetic.multipliers, List.zip_cons_cons, List.zip_nil_right, List.map_cons, List.map_nil,
    List.sum_cons, List.sum_nil, hq, ha, hb, hc, hd, answer_ok]
  ring

end Family

/-! ## The pass of the permutation -/

/-- The values at `stem_1, …, stem_count`, read one after the other. -/
theorem mapM_numbered_eq_ok {stem : String} {count : ℕ} {xs : List Scalar}
    (h : (Label.numbered stem count).mapM transcript.evaluation = .ok xs) :
    xs = (List.range count).map (transcript.reading.nth stem) := by
  rw [(mapM_eq_ok.mp h).1, Label.numbered, List.map_map]
  rfl

/-- The short form of the first Lagrange polynomial is its value at the reading's point. -/
theorem lagrange_zero {y : Scalar}
    (h : Domain.firstLagrange (transcript.reading.challenge Challenge.point) key.circuitSize = .ok y) :
    y = transcript.reading.lagrange key 0 := by
  obtain ⟨d, hd, h⟩ := bind_eq_ok.mp h
  obtain ⟨-, rfl⟩ := Domain.invert_eq_ok.mp hd
  obtain rfl := pure_eq_ok.mp h
  rw [Reading.lagrange, Domain.vanishing_eq, Scalar.ofNat_eq, pow_zero, one_mul]

/-- The denominator of the last point but one is cleared of its power of `ω`. -/
theorem lagrange_penultimate (hkey : key.Consistent) {y : Scalar}
    (h : Domain.penultimateLagrange (transcript.reading.challenge Challenge.point) key.circuitSize
      key.root = .ok y) :
    y = transcript.reading.lagrange key (key.circuitSize - 2) := by
  obtain ⟨d, hd, h⟩ := bind_eq_ok.mp h
  obtain ⟨-, rfl⟩ := Domain.invert_eq_ok.mp hd
  obtain rfl := pure_eq_ok.mp h
  rw [Reading.lagrange, Domain.vanishing_eq, Scalar.ofNat_eq,
    Domain.mul_root_sub_one hkey.root_pow (le_trans (by decide) hkey.four_le), ← mul_assoc, mul_inv, inv_inv]
  ring

/-- The product over the inputs is the closed one on any coset. -/
theorem publicInputProduct_eq (ρ : Reading) (coset : Scalar) :
    Domain.publicInputProduct ρ.publicInputs (ρ.challenge Challenge.beta) (ρ.challenge Challenge.gamma)
      key.root coset = ρ.inputProduct key coset :=
  Domain.publicInputProduct_eq_prod _ _ _ _ _

namespace GrandProduct

/-- Further wires than positions do not count. -/
theorem product_range (beta gamma : Scalar) (w p : ℕ → Scalar) {m n : ℕ} (h : m ≤ n) :
    product beta gamma ((List.range n).map w) ((List.range m).map p)
      = ∏ i ∈ range m, (w i + beta * p i + gamma) := by
  have hfactors : List.zipWith (fun w p => w + beta * p + gamma) ((List.range n).map w)
      ((List.range m).map p) = (List.range m).map fun i => w i + beta * p i + gamma :=
    List.ext_getElem (by simp [h]) fun i _ _ => by simp
  rw [product, Residue.product_eq, hfactors]
  rfl

end GrandProduct

theorem cosetGenerator_eq_ok {i : ℕ} {k : Scalar} (h : key.cosetGenerator i = .ok k) :
    k = key.cosetGenerators.getD i 0 := by
  rw [VerificationKey.cosetGenerator] at h
  split at h
  · next g hg =>
    obtain rfl := Except.ok.inj h
    rw [List.getD_eq_getElem?_getD, hg, Option.getD_some]
  · cases h

/-- The positions of the wires: read from the transcript, or the cosets of the point. -/
theorem identityPositions_eq_ok {ids : Bool} {xs : List Scalar}
    (h : GrandProduct.identityPositions key transcript ⟨false, ids⟩
      (transcript.reading.challenge Challenge.point) = .ok xs) :
    xs = (List.range key.programWidth).map (transcript.reading.identityPosition key ids) := by
  rw [GrandProduct.identityPositions] at h
  cases ids with
  | true => exact mapM_numbered_eq_ok h
  | false =>
    obtain ⟨rfl, hok⟩ := mapM_eq_ok.mp h
    refine List.map_congr_left fun i hi => ?_
    obtain ⟨k, hk, hx⟩ := bind_eq_ok.mp (hok i hi)
    rw [Function.comp_apply, ← pure_eq_ok.mp hx, cosetGenerator_eq_ok hk]
    rfl

/-- A delta that exists is the quotient of the products on the first and the external coset. -/
theorem publicInputDelta_eq_ok {y : Scalar}
    (h : Domain.publicInputDelta transcript.reading.publicInputs
      (transcript.reading.challenge Challenge.beta) (transcript.reading.challenge Challenge.gamma)
      key.root (key.cosetGenerators.getD key.programWidth 0) = .ok y) :
    y = transcript.reading.publicInputDelta key := by
  obtain ⟨d, hd, h⟩ := bind_eq_ok.mp h
  obtain ⟨-, rfl⟩ := Domain.invert_eq_ok.mp hd
  obtain rfl := pure_eq_ok.mp h
  rw [publicInputProduct_eq, publicInputProduct_eq, Reading.publicInputDelta]

/-- The grand product of a reading. -/
def Reading.grandProduct (ρ : Reading) (key : VerificationKey G) (ids : Bool) : GrandProduct where
  beta := ρ.challenge Challenge.beta
  gamma := ρ.challenge Challenge.gamma
  separation := ρ.challenge Challenge.permutation
  lastRow := ρ.challenge Challenge.point - key.root⁻¹
  firstLagrange := ρ.lagrange key 0
  penultimateLagrange := ρ.lagrange key (key.circuitSize - 2)
  publicInputDelta := ρ.publicInputDelta key
  shifted := ρ.evaluation "z_omega"
  identityProduct := ρ.wireProduct key.programWidth (ρ.identityPosition key ids)
  sigmaProduct := ρ.wireProduct (key.programWidth - 1) (ρ.nth "sigma")
  lastWire := ρ.nth "w" (key.programWidth - 1)

namespace GrandProduct

variable {ids : Bool} {gp : GrandProduct}

/-- **What is read is the grand product of the reading.** -/
theorem read_eq_ok (hkey : key.Consistent) (hwidth : 0 < key.programWidth)
    (h : read key transcript ⟨false, ids⟩ = .ok gp) : gp = transcript.reading.grandProduct key ids := by
  simp only [read, bind_eq_ok, guard_eq_ok, pure_eq_ok] at h
  obtain ⟨beta, hbeta, gamma, hgamma, s, hs, z, hz, wires, hwires, shifted, hshifted, inputs, hinputs, -,
    identities, hidentities, sigmas, hsigmas, l₀, hl₀, l, hl, k, hk, delta, hdelta, rfl⟩ := h
  obtain rfl := Transcript.eq_challenge hbeta
  obtain rfl := Transcript.eq_challenge hgamma
  obtain rfl := Transcript.eq_challenge hs
  obtain rfl := Transcript.eq_challenge hz
  obtain rfl : inputs = transcript.reading.publicInputs := by rw [Transcript.reading, hinputs, answer_ok]
  obtain rfl := cosetGenerator_eq_ok hk
  rw [mapM_numbered_eq_ok hwires, mapM_numbered_eq_ok hsigmas, identityPositions_eq_ok hidentities,
    Transcript.eq_evaluation hshifted, lagrange_zero hl₀, lagrange_penultimate hkey hl,
    publicInputDelta_eq_ok hdelta, ← inv_eq_of_mul_eq_one_right hkey.root_mul_rootInverse,
    product_range _ _ _ _ le_rfl, product_range _ _ _ _ (Nat.sub_le _ 1)]
  obtain ⟨m, hm⟩ := Nat.exists_eq_succ_of_ne_zero hwidth.ne'
  simp [Reading.grandProduct, Reading.wireProduct, hm, List.range_succ]

end GrandProduct

namespace Family

variable {family : Family} {ids : Bool} {part : Scalar}

/-- The permutation family's scalar part is its closed form, over a consistent key. -/
theorem scalarPart_of_permutation (hkey : key.Consistent) (hwidth : 0 < key.programWidth)
    (h : permutation.scalarPart key transcript ⟨false, ids⟩ = .ok part) :
    part = transcript.reading.permutation key ids := by
  obtain ⟨gp, hgp, h⟩ := bind_eq_ok.mp h
  obtain ⟨z, hz, h⟩ := bind_eq_ok.mp h
  obtain ⟨sigma, hsigma, h⟩ := bind_eq_ok.mp h
  obtain rfl := pure_eq_ok.mp h
  obtain rfl := GrandProduct.read_eq_ok hkey hwidth hgp
  obtain rfl := Transcript.eq_evaluation hz
  obtain rfl := Transcript.eq_evaluation hsigma
  obtain ⟨m, hm⟩ := Nat.exists_eq_succ_of_ne_zero hwidth.ne'
  have hlast : transcript.reading.evaluation ("sigma_" ++ toString key.programWidth)
      = transcript.reading.nth "sigma" m := by rw [hm]; rfl
  rw [hlast]
  simp only [GrandProduct.constraint, GrandProduct.endCondition, Reading.grandProduct, Reading.permutation,
    hm, Nat.succ_sub_one, Reading.wireProduct, Finset.prod_range_succ, Nat.succ_eq_add_one]
  ring

/-- **The scalar part of an unrolled family is its closed form.** -/
theorem scalarPart_eq_closedForm (hkey : key.Consistent) (hwidth : 0 < key.programWidth)
    (h : family.scalarPart key transcript ⟨false, ids⟩ = .ok part) :
    part = family.closedForm key ids transcript.reading := by
  cases family with
  | permutation => exact scalarPart_of_permutation hkey hwidth h
  | arithmetic => exact scalarPart_of_arithmetic h
  | turboArithmetic => exact scalarPart_of_turboArithmetic h
  | turboFixedBase =>
    obtain ⟨cs, hcs, rfl⟩ := exists_gated rfl h
    exact fixedBase_eq hcs
  | turboRange =>
    obtain ⟨cs, hcs, rfl⟩ := exists_gated rfl h
    exact fourQuads_eq hcs
  | turboLogic =>
    obtain ⟨cs, hcs, rfl⟩ := exists_gated rfl h
    exact logic_eq hcs
  | elliptic =>
    obtain ⟨cs, hcs, rfl⟩ := exists_gated rfl h
    exact elliptic_eq hcs

end Family

/-! ## What the formulas read -/

/-- Readings that may differ in the challenge that combines the families. -/
structure Reading.AgreesOffAlpha (ρ ρ' : Reading) : Prop where
  challenge : ∀ label ≠ Challenge.alpha, ρ.challenge label = ρ'.challenge label
  evaluation : ∀ label, ρ.evaluation label = ρ'.evaluation label
  publicInputs : ρ.publicInputs = ρ'.publicInputs

/-- **No identity reads the challenge that combines the families.** -/
theorem Family.closedForm_congr {ρ ρ' : Reading} (h : ρ.AgreesOffAlpha ρ') (family : Family)
    (key : VerificationKey G) (ids : Bool) :
    family.closedForm key ids ρ = family.closedForm key ids ρ' := by
  obtain ⟨challenge, evaluation, inputs⟩ := ρ
  obtain ⟨challenge', evaluation', inputs'⟩ := ρ'
  obtain rfl : evaluation = evaluation' := funext h.evaluation
  obtain rfl : inputs = inputs' := h.publicInputs
  have hchallenge : ∀ l ∈ [Challenge.point, Challenge.beta, Challenge.gamma, Challenge.permutation,
      "fixed_base_separation", "range_separation", "logic_separation", "ecc_separation"],
      challenge l = challenge' l := fun l hl => h.challenge l (by revert l; decide)
  simp only [List.forall_mem_cons, List.not_mem_nil, false_implies, implies_true, and_true] at hchallenge
  obtain ⟨hz, hbeta, hgamma, hs, hfixed, hrange, hlogic, hecc⟩ := hchallenge
  cases family <;>
    simp only [closedForm, Reading.permutation, Reading.arithmetic, Reading.turboArithmetic,
      Reading.fixedBase, Reading.fourQuads, Reading.logic, Reading.elliptic, Reading.gated,
      Reading.wireProduct, Reading.identityPosition, Reading.nth, Reading.lagrange,
      Reading.publicInputDelta, Reading.inputProduct, hz, hbeta, hgamma, hs, hfixed, hrange, hlogic, hecc]

end PlonkVerifier
