import Mathlib
import PlonkVerifier.Bytes.Lemmas
import PlonkVerifier.Proofs.Closings
import PlonkVerifier.Proofs.Field.Coordinate

/-!
# Proofs/Encodings — which bytes are a scalar or a point

Scalars and points survive their encoding (`Scalar.decode_encode`, `Point.decode_encode`).  Conversely, 32 bytes that
are read as a point other than infinity are the bytes that are written for it, because the sign of the ordinate is one
bit; infinity is read from any bytes with its flag, and a scalar from every number, modulo the group order.  The
canonical forms are told apart from the others by their number alone (`canonical_encodings`).
-/

namespace PlonkVerifier

/-! ## Scalars -/

namespace Scalar

theorem decode_eq_ok {bytes : Bytes} {x : Scalar} :
    decode bytes = .ok x ↔ bytes.length = size ∧ ofNat bytes.toNat = x := by
  rw [decode]
  split
  · next h => rw [ofBytes, if_pos h.le, Except.ok.injEq, and_iff_right h]
  · next h => simp [h]

/-- **Any 32 bytes are read, as the residue of their number.** -/
theorem decode_eq_ok_iff_val {bytes : Bytes} {x : Scalar} :
    decode bytes = .ok x ↔ bytes.length = size ∧ bytes.toNat % scalarModulus = x.val := by
  rw [decode_eq_ok, Fin.ext_iff]
  rfl

/-- **Scalars survive their encoding.** -/
theorem decode_encode (x : Scalar) : decode x.encode = .ok x := by
  have hlt : x.val < 256 ^ size := x.isLt.trans (by decide)
  refine decode_eq_ok.mpr ⟨Bytes.length_ofNat _ _, Fin.ext ?_⟩
  rw [encode, Bytes.toNat_ofNat_of_lt hlt]
  exact Nat.mod_eq_of_lt x.isLt

/-- **The canonical form is the one below the group order.** -/
theorem encode_eq_iff {bytes : Bytes} {x : Scalar} (h : decode bytes = .ok x) :
    x.encode = bytes ↔ bytes.toNat < scalarModulus := by
  obtain ⟨hlength, rfl⟩ := decode_eq_ok.mp h
  constructor
  · intro hbytes
    rw [← hbytes, encode, Bytes.toNat_ofNat]
    exact (Nat.mod_le _ _).trans_lt (Fin.isLt _)
  · intro hlt
    have hval : (ofNat bytes.toNat).val = bytes.toNat := Nat.mod_eq_of_lt hlt
    rw [encode, hval, ← hlength, Bytes.ofNat_toNat]

/-- **Two forms of a scalar differ by a multiple of the group order.** -/
theorem decode_eq_decode_iff {bytes bytes' : Bytes} {x : Scalar} (h : decode bytes = .ok x) :
    decode bytes' = .ok x ↔ bytes'.length = size ∧ bytes'.toNat ≡ bytes.toNat [MOD scalarModulus] := by
  obtain ⟨-, rfl⟩ := decode_eq_ok.mp h
  rw [decode_eq_ok, Fin.ext_iff]
  rfl

end Scalar

/-! ## Points -/

namespace Point

open scoped CoordinateField

theorem infinityFlag_eq : infinityFlag = 2 ^ 254 := Nat.one_shiftLeft 254

theorem largerFlag_eq : largerFlag = 2 ^ 255 := Nat.one_shiftLeft 255

/-- **An abscissa and a bit are one point of the curve at most.** -/
theorem lift_eq_ok {x : Coordinate} {larger : Bool} {P : Point} :
    lift x larger = .ok P ↔ ∃ y, P = affine x y ∧ P.OnCurve ∧ Coordinate.isLarger y = larger := by
  rw [lift]
  constructor
  · intro h
    split at h
    · next hroot =>
      obtain rfl := Except.ok.inj h
      have hne : Coordinate.sqrt (cubic x) ≠ 0 := OnCurve.ordinate_ne_zero (x := x) hroot
      refine ⟨_, rfl, ?_, ?_⟩
      · split
        · exact hroot
        · exact (neg_mul_neg _ _).trans hroot
      · split
        · next hlarger => exact hlarger
        · next hlarger => rw [Coordinate.isLarger_neg hne, Bool.eq_not_of_ne hlarger, Bool.not_not]
    · cases h
  · rintro ⟨y, rfl, hcurve, hlarger⟩
    have hcubic : cubic x = y * y := hcurve.symm
    rw [hcubic, if_pos (Coordinate.sqrt_mul_self y)]
    rcases Coordinate.sqrt_eq_or_eq_neg y with hroot | hroot
    · rw [hroot, if_pos hlarger]
    · rw [hroot, Coordinate.isLarger_neg hcurve.ordinate_ne_zero, hlarger, if_neg (Bool.not_ne_self larger), neg_neg]

/-- The number in the bytes of a point. -/
def word : Point → ℕ
  | infinity => infinityFlag
  | affine x y => x.val + if Coordinate.isLarger y then largerFlag else 0

theorem encode_eq (P : Point) : P.encode = Bytes.ofNat encodedSize P.word := by
  cases P <;> rfl

theorem word_lt (P : Point) : P.word < 256 ^ encodedSize := by
  rw [show 256 ^ encodedSize = 2 ^ 256 by decide]
  cases P with
  | infinity =>
    rw [word, infinityFlag_eq]
    decide
  | affine x y =>
    have hx : x.val < 2 ^ 254 := x.isLt.trans (by decide)
    rw [word, largerFlag_eq]
    split <;> omega

/-- The flags and the abscissa of a number are those of a point: all that reading asks for. -/
inductive Reads (n : ℕ) : Point → Prop where
  | infinity (hlarger : n / largerFlag % 2 ≠ 1) (hinfinity : n / infinityFlag % 2 = 1)
      (habscissa : n % infinityFlag < coordinateModulus) : Reads n infinity
  | affine {x y : Coordinate} (hinfinity : n / infinityFlag % 2 ≠ 1) (habscissa : n % infinityFlag = x.val)
      (hcurve : (affine x y).OnCurve) (hlarger : Coordinate.isLarger y = decide (n / largerFlag % 2 = 1)) :
      Reads n (affine x y)

/-- **What is read is on the curve, and decided by the number in the first 32 bytes.** -/
theorem decode_eq_ok {bytes : Bytes} {P : Point} :
    decode bytes = .ok P ↔ encodedSize ≤ bytes.length ∧ Reads (Bytes.toNat (bytes.take encodedSize)) P := by
  simp only [decode]
  generalize Bytes.toNat (bytes.take encodedSize) = n
  constructor
  · intro h
    split at h
    · cases h
    next hlength =>
    split at h
    · cases h
    next hflags =>
    split at h
    · next habscissa =>
      refine ⟨not_lt.mp hlength, ?_⟩
      split at h
      · next hinfinity =>
        cases h
        exact .infinity (fun hlarger => hflags ⟨hlarger, hinfinity⟩) hinfinity habscissa
      · next hinfinity =>
        obtain ⟨y, rfl, hcurve, hlarger⟩ := lift_eq_ok.mp h
        exact .affine hinfinity rfl hcurve hlarger
    · cases h
  · rintro ⟨hlength, hreads⟩
    rw [if_neg (not_lt.mpr hlength)]
    cases hreads with
    | infinity hlarger hinfinity habscissa =>
      rw [if_neg (fun h => hlarger h.1), dif_pos habscissa, if_pos hinfinity]
    | @affine x y hinfinity habscissa hcurve hlarger =>
      have hlt : n % infinityFlag < coordinateModulus := habscissa ▸ x.isLt
      have hx : (⟨n % infinityFlag, hlt⟩ : Coordinate) = x := Fin.ext habscissa
      rw [if_neg (fun h => hinfinity h.2), dif_pos hlt, if_neg hinfinity, hx]
      exact lift_eq_ok.mpr ⟨y, rfl, hcurve, hlarger⟩

/-- Every word that reads as a point reads as a point of the curve. -/
theorem Reads.onCurve {n : ℕ} {P : Point} (h : Reads n P) : P.OnCurve := by
  cases h with
  | infinity => trivial
  | affine _ _ hcurve _ => exact hcurve

/-- A point of the curve is read from its number. -/
theorem OnCurve.reads {P : Point} (h : P.OnCurve) : Reads P.word P := by
  cases P with
  | infinity => exact .infinity (by decide) (by decide) (by decide)
  | affine x y =>
    have hx : x.val < 2 ^ 254 := x.isLt.trans (by decide)
    rw [word]
    refine .affine ?_ ?_ h ?_
    · rw [infinityFlag_eq, largerFlag_eq]
      split <;> omega
    · rw [infinityFlag_eq, largerFlag_eq]
      split <;> omega
    · rw [largerFlag_eq]
      cases Coordinate.isLarger y
      · exact (decide_eq_false (by rw [if_neg Bool.false_ne_true]; omega)).symm
      · exact (decide_eq_true (by rw [if_pos rfl]; omega)).symm

/-- **A number of 32 bytes is that of the point that is read from it**, if the point is not infinity. -/
theorem Reads.word_eq {n : ℕ} {x y : Coordinate} (h : Reads n (.affine x y)) (hn : n < 256 ^ encodedSize) :
    (Point.affine x y).word = n := by
  obtain _ | ⟨hinfinity, habscissa, -, hlarger⟩ := h
  rw [show 256 ^ encodedSize = 2 ^ 256 by decide] at hn
  rw [infinityFlag_eq] at hinfinity habscissa
  rw [largerFlag_eq] at hlarger
  rw [word, hlarger, ← habscissa, largerFlag_eq]
  by_cases hbit : n / 2 ^ 255 % 2 = 1
  · rw [decide_eq_true hbit, if_pos rfl]
    omega
  · rw [decide_eq_false hbit, if_neg Bool.false_ne_true]
    omega

/-- **Points of the curve survive their encoding.** -/
theorem decode_encode {P : Point} (h : P.OnCurve) : decode P.encode = .ok P := by
  have hlength : P.encode.length = encodedSize := by rw [encode_eq, Bytes.length_ofNat]
  refine decode_eq_ok.mpr ⟨hlength.ge, ?_⟩
  rw [← hlength, List.take_length, encode_eq, Bytes.toNat_ofNat_of_lt P.word_lt]
  exact h.reads

/-- The forms of infinity: 32 bytes with its flag and without the other, beside any abscissa below the modulus. -/
structure InfinityForm (bytes : Bytes) : Prop where
  length : bytes.length = encodedSize
  infinity : bytes.toNat / infinityFlag % 2 = 1
  not_larger : bytes.toNat / largerFlag % 2 ≠ 1
  abscissa : bytes.toNat % infinityFlag < coordinateModulus

/-- **Infinity is read from its forms**, among the bytes that are not longer. -/
theorem decode_eq_infinity {bytes : Bytes} (hlength : bytes.length ≤ encodedSize) :
    decode bytes = .ok infinity ↔ InfinityForm bytes := by
  rw [decode_eq_ok]
  constructor
  · rintro ⟨hle, hreads⟩
    have heq : bytes.length = encodedSize := le_antisymm hlength hle
    rw [← heq, List.take_length] at hreads
    obtain ⟨hlarger, hinfinity, habscissa⟩ | _ := hreads
    exact ⟨heq, hinfinity, hlarger, habscissa⟩
  · intro h
    refine ⟨h.length.ge, ?_⟩
    rw [← h.length, List.take_length]
    exact .infinity h.not_larger h.infinity h.abscissa

/-- Bytes that encode a point as it is written, or infinity in one of its forms. -/
def Canonical (bytes : Bytes) (P : Point) : Prop := P.encode = bytes ∨ P = infinity ∧ InfinityForm bytes

/-- **The only form of 32 bytes is the canonical one**, but for infinity. -/
theorem canonical_of_decode {bytes : Bytes} {P : Point} (hlength : bytes.length ≤ encodedSize)
    (h : decode bytes = .ok P) : Canonical bytes P := by
  cases P with
  | infinity => exact .inr ⟨rfl, (decode_eq_infinity hlength).mp h⟩
  | affine x y =>
    obtain ⟨hle, hreads⟩ := decode_eq_ok.mp h
    have heq : bytes.length = encodedSize := le_antisymm hlength hle
    rw [← heq, List.take_length] at hreads
    have hword := hreads.word_eq (heq ▸ Bytes.toNat_lt bytes)
    exact .inl (by rw [encode_eq, hword, ← heq, Bytes.ofNat_toNat])

/-- **Two forms of one point are the same**, unless it is infinity. -/
theorem eq_or_eq_infinity {bytes bytes' : Bytes} {P : Point} (hlength : bytes.length ≤ encodedSize)
    (hlength' : bytes'.length ≤ encodedSize) (h : decode bytes = .ok P) (h' : decode bytes' = .ok P) :
    bytes' = bytes ∨ P = infinity := by
  rcases canonical_of_decode hlength h with heq | ⟨hinfinity, -⟩
  · rcases canonical_of_decode hlength' h' with heq' | ⟨hinfinity, -⟩
    · exact .inl (heq'.symm.trans heq)
    · exact .inr hinfinity
  · exact .inr hinfinity

end Point

/-! ## Vectors -/

/-- The full blocks of a string are its longest prefix of whole blocks. -/
theorem Bytes.flatten_blocks (size : ℕ) (bytes : Bytes) :
    (bytes.blocks size).flatten = bytes.take (bytes.length / size * size) := by
  rw [blocks]
  induction bytes.length / size with
  | zero => simp
  | succ n ih =>
    rw [List.range_succ, List.map_append, List.flatten_append, ih, Nat.succ_mul, List.take_add]
    simp

/-- Every block has the full size: a shorter rest is dropped. -/
theorem Bytes.length_of_mem_blocks {size : ℕ} {bytes block : Bytes} (h : block ∈ bytes.blocks size) :
    block.length = size := by
  obtain ⟨i, hi, rfl⟩ := List.mem_map.mp h
  have hle : (i + 1) * size ≤ bytes.length / size * size := Nat.mul_le_mul_right _ (List.mem_range.mp hi)
  have hlength := Nat.div_mul_le_self bytes.length size
  rw [Nat.succ_mul] at hle
  rw [List.length_take, List.length_drop]
  omega

namespace Scalar

/-- Scalars one after the other are written block by block. -/
theorem flatMap_encode_eq_flatten_iff {f : Bytes → Scalar} : ∀ {blocks : List Bytes},
    (∀ block ∈ blocks, block.length = size) →
      ((blocks.map f).flatMap encode = blocks.flatten ↔ ∀ block ∈ blocks, (f block).encode = block)
  | [], _ => by simp
  | block :: blocks, h => by
      obtain ⟨hblock, hblocks⟩ := List.forall_mem_cons.mp h
      have hlength : (f block).encode.length = block.length := (Bytes.length_ofNat _ _).trans hblock.symm
      rw [List.map_cons, List.flatMap_cons, List.flatten_cons, List.forall_mem_cons,
        ← flatMap_encode_eq_flatten_iff hblocks]
      exact ⟨fun heq => List.append_inj heq hlength, fun ⟨hhead, htail⟩ => by rw [hhead, htail]⟩

/-- The residues of the blocks of 32 bytes. -/
def residues (bytes : Bytes) : List Scalar := (bytes.blocks size).map fun block => ofNat block.toNat

/-- Every block is the right length for a scalar, and is reduced. -/
theorem decode_of_mem_blocks {bytes block : Bytes} (h : block ∈ bytes.blocks size) :
    decode block = .ok (ofNat block.toNat) :=
  decode_eq_ok.mpr ⟨Bytes.length_of_mem_blocks h, rfl⟩

/-- **Scalars one after the other are read block by block.** -/
theorem mapM_decode_blocks (bytes : Bytes) : (bytes.blocks size).mapM decode = .ok (residues bytes) :=
  mapM_eq_ok_map fun _ => decode_of_mem_blocks

/-- A session reads a vector as the residues of its blocks. -/
theorem scalars_eq (bytes : Bytes) : Session.scalars bytes = .ok (residues bytes) :=
  mapM_eq_ok_map fun _ hblock => if_pos (Bytes.length_of_mem_blocks hblock).le

/-- **A vector is read from its canonical form exactly when each of its scalars is.** -/
theorem flatMap_encode_eq_iff {bytes : Bytes} (hlength : bytes.length % size = 0) :
    (residues bytes).flatMap encode = bytes ↔ ∀ block ∈ bytes.blocks size, block.toNat < scalarModulus := by
  have hflatten : (bytes.blocks size).flatten = bytes := by
    rw [Bytes.flatten_blocks, Nat.div_mul_cancel (Nat.dvd_of_mod_eq_zero hlength), List.take_length]
  calc (residues bytes).flatMap encode = bytes
      ↔ ((bytes.blocks size).map fun block => ofNat block.toNat).flatMap encode = (bytes.blocks size).flatten := by
        rw [hflatten, residues]
    _ ↔ ∀ block ∈ bytes.blocks size, (ofNat block.toNat).encode = block :=
        flatMap_encode_eq_flatten_iff fun _ => Bytes.length_of_mem_blocks
    _ ↔ ∀ block ∈ bytes.blocks size, block.toNat < scalarModulus :=
        forall₂_congr fun block hblock => encode_eq_iff (decode_of_mem_blocks hblock)

/-- **Two forms of a vector differ, block by block, by multiples of the group order.** -/
theorem residues_eq_residues_iff {bytes bytes' : Bytes} : residues bytes' = residues bytes ↔
    (bytes'.blocks size).Forall₂ (fun block' block => block'.toNat ≡ block.toNat [MOD scalarModulus])
      (bytes.blocks size) := by
  rw [residues, residues, ← List.forall₂_eq_eq_eq, List.forall₂_map_left_iff, List.forall₂_map_right_iff]
  simp only [Fin.ext_iff]
  rfl

end Scalar

/-! ## Canonical forms -/

namespace Session

/-- How a session reads a message that it has recorded: as the codecs read its bytes, and back to these bytes from
their canonical form. -/
structure ReadsForms (session : Session) (label : String) (message : Bytes) : Prop where
  evaluation : ∀ x, (session.transcript (G := Point)).evaluation label = .ok x ↔ Scalar.decode message = .ok x
  evaluation_encode : ∀ x, (session.transcript (G := Point)).evaluation label = .ok x →
    (x.encode = message ↔ message.toNat < scalarModulus)
  vector : ∀ xs, (session.transcript (G := Point)).vector label = .ok xs ↔
    message.length % Scalar.size = 0 ∧ (message.blocks Scalar.size).mapM Scalar.decode = .ok xs
  vector_encode : ∀ xs, (session.transcript (G := Point)).vector label = .ok xs →
    (xs.flatMap Scalar.encode = message ↔ ∀ block ∈ message.blocks Scalar.size, block.toNat < scalarModulus)
  commitment : ∀ P, (session.transcript (G := Point)).commitment label = .ok P ↔ Point.decode message = .ok P
  commitment_canonical : ∀ P, message.length ≤ Point.encodedSize →
    (session.transcript (G := Point)).commitment label = .ok P → Point.Canonical message P

/-- Which messages two sessions read alike. -/
structure ReadsAlike (session session' : Session) (label label' : String) (message message' : Bytes) : Prop where
  evaluation : ∀ x, (session.transcript (G := Point)).evaluation label = .ok x →
    ((session'.transcript (G := Point)).evaluation label' = .ok x ↔
      message'.length = Scalar.size ∧ message'.toNat ≡ message.toNat [MOD scalarModulus])
  vector : ∀ xs, (session.transcript (G := Point)).vector label = .ok xs →
    ((session'.transcript (G := Point)).vector label' = .ok xs ↔ message'.length % Scalar.size = 0
      ∧ (message'.blocks Scalar.size).Forall₂ (fun block' block => block'.toNat ≡ block.toNat [MOD scalarModulus])
        (message.blocks Scalar.size))
  commitment : ∀ P, message.length ≤ Point.encodedSize → message'.length ≤ Point.encodedSize →
    (session.transcript (G := Point)).commitment label = .ok P →
      (session'.transcript (G := Point)).commitment label' = .ok P → message' = message ∨ P = .infinity

variable {session session' : Session} {label label' : String} {message message' : Bytes}

/-- **A message is read as the codecs read its bytes.** -/
theorem readsForms (h : session.elements.find? label = some message) : session.ReadsForms label message := by
  have hanswers : session.AnswersFrom Point label message := answersFrom h
  have hevaluation : ∀ x, (session.transcript (G := Point)).evaluation label = .ok x ↔
      Scalar.decode message = .ok x := by
    intro x
    rw [hanswers.evaluation, Scalar.decode]
    split
    · exact liftAlgebra_eq_ok
    · simp
  have hvector : ∀ xs, (session.transcript (G := Point)).vector label = .ok xs ↔
      message.length % Scalar.size = 0 ∧ (message.blocks Scalar.size).mapM Scalar.decode = .ok xs := by
    intro xs
    rw [hanswers.vector, Scalar.mapM_decode_blocks, Scalar.scalars_eq]
    split
    · next hsize => rw [liftAlgebra_eq_ok, and_iff_right hsize]
    · next hsize => simp [hsize]
  have hcommitment : ∀ P, (session.transcript (G := Point)).commitment label = .ok P ↔
      Point.decode message = .ok P := by
    intro P
    rw [hanswers.commitment]
    exact liftAlgebra_eq_ok
  refine ⟨hevaluation, fun x hx => Scalar.encode_eq_iff ((hevaluation x).mp hx), hvector, fun xs hxs => ?_,
    hcommitment, fun P hlength hP => Point.canonical_of_decode hlength ((hcommitment P).mp hP)⟩
  obtain ⟨hsize, hread⟩ := (hvector xs).mp hxs
  rw [Scalar.mapM_decode_blocks] at hread
  obtain rfl := Except.ok.inj hread
  exact Scalar.flatMap_encode_eq_iff hsize

/-- **Two messages are read alike exactly when the codecs read their bytes alike.** -/
theorem readsAlike (h : session.elements.find? label = some message)
    (h' : session'.elements.find? label' = some message') :
    session.ReadsAlike session' label label' message message' := by
  have hread := readsForms h
  have hread' := readsForms h'
  refine ⟨fun x hx => ?_, fun xs hxs => ?_, fun P hlength hlength' hP hP' => ?_⟩
  · rw [hread'.evaluation]
    exact Scalar.decode_eq_decode_iff ((hread.evaluation x).mp hx)
  · obtain ⟨-, hblocks⟩ := (hread.vector xs).mp hxs
    rw [Scalar.mapM_decode_blocks] at hblocks
    obtain rfl := Except.ok.inj hblocks
    rw [hread'.vector, Scalar.mapM_decode_blocks, Except.ok.injEq, Scalar.residues_eq_residues_iff]
  · exact Point.eq_or_eq_infinity hlength hlength' ((hread.commitment P).mp hP) ((hread'.commitment P).mp hP')

end Session

/-- **Encodings are canonical up to the group order and infinity.**  A scalar is read from any 32 bytes, as the residue
of their number, and from nothing else: the forms of a scalar agree modulo the group order, and the one below the order
is the form that is written.  At most 32 bytes that are read as a point are the form that is written, or have the flag
of infinity beside an abscissa below the modulus; so no two of them are read as one point other than infinity.  The same
holds for the scalars, vectors and commitments of a proof, which are read as their bytes are. -/
theorem canonical_encodings :
    (∀ (bytes : Bytes) (x : Scalar), Scalar.decode bytes = .ok x ↔
      bytes.length = Scalar.size ∧ bytes.toNat % scalarModulus = x.val)
    ∧ (∀ (bytes : Bytes) (x : Scalar), Scalar.decode bytes = .ok x →
      (x.encode = bytes ↔ bytes.toNat < scalarModulus)
      ∧ ∀ bytes' : Bytes, Scalar.decode bytes' = .ok x ↔
        bytes'.length = Scalar.size ∧ bytes'.toNat ≡ bytes.toNat [MOD scalarModulus])
    ∧ (∀ (bytes : Bytes) (P : Point), bytes.length ≤ Point.encodedSize → Point.decode bytes = .ok P →
      Point.Canonical bytes P
      ∧ ∀ bytes' : Bytes, bytes'.length ≤ Point.encodedSize → Point.decode bytes' = .ok P →
        bytes' = bytes ∨ P = .infinity)
    ∧ (∀ bytes : Bytes, bytes.length ≤ Point.encodedSize →
      (Point.decode bytes = .ok .infinity ↔ Point.InfinityForm bytes))
    ∧ ∀ (session : Session) (label : String) (message : Bytes), session.elements.find? label = some message →
      session.ReadsForms label message
      ∧ ∀ (session' : Session) (label' : String) (message' : Bytes), session'.elements.find? label' = some message' →
        session.ReadsAlike session' label label' message message' :=
  ⟨fun _ _ => Scalar.decode_eq_ok_iff_val,
    fun _ _ h => ⟨Scalar.encode_eq_iff h, fun _ => Scalar.decode_eq_decode_iff h⟩,
    fun _ _ hlength h => ⟨Point.canonical_of_decode hlength h,
      fun _ hlength' => Point.eq_or_eq_infinity hlength hlength' h⟩,
    fun _ => Point.decode_eq_infinity,
    fun _ _ _ h => ⟨Session.readsForms h, fun _ _ _ => Session.readsAlike h⟩⟩

/-- A message of two scalars, the second of them not below the group order. -/
def reducedVector : Bytes := Scalar.encode 5 ++ Bytes.ofNat 32 (scalarModulus + 7)

/-- Evaluations and vectors above the modulus, and an infinity with a nonzero abscissa beside the flag. -/
theorem canonical_encodings_reduced :
    Scalar.decode (Bytes.ofNat 32 (scalarModulus + 7)) = .ok 7
    ∧ Scalar.encode 7 ≠ Bytes.ofNat 32 (scalarModulus + 7)
    ∧ Scalar.decode (Bytes.ofNat 32 (2 * scalarModulus + 7)) = .ok 7
    ∧ Point.decode Point.base.encode = .ok Point.base
    ∧ Point.Canonical Point.base.encode Point.base
    ∧ ∃ session : Session,
      session.elements = .ofList [("public_inputs", reducedVector), ("w_1", Bytes.ofNat 32 (scalarModulus + 5)),
        ("w_2", Scalar.encode 5), ("W_1", Bytes.ofNat 32 (Point.infinityFlag + 1))]
      ∧ (session.transcript (G := Point)).vector "public_inputs" = .ok [5, 7]
      ∧ [(5 : Scalar), 7].flatMap Scalar.encode ≠ reducedVector
      ∧ (session.transcript (G := Point)).evaluation "w_1" = .ok 5
      ∧ Scalar.encode 5 ≠ Bytes.ofNat 32 (scalarModulus + 5)
      ∧ (session.transcript (G := Point)).evaluation "w_2" = .ok 5
      ∧ (session.transcript (G := Point)).commitment "W_1" = .ok .infinity
      ∧ Point.Canonical (Bytes.ofNat 32 (Point.infinityFlag + 1)) .infinity := by
  let session : Session := ⟨.twoRounds, .keccak256, 16,
    .ofList [("public_inputs", reducedVector), ("w_1", Bytes.ofNat 32 (scalarModulus + 5)),
      ("w_2", Scalar.encode 5), ("W_1", Bytes.ofNat 32 (Point.infinityFlag + 1))],
    .empty, .empty, 0, []⟩
  obtain ⟨hresidue, hscalar, hpoint, hinfinity, hsession⟩ := canonical_encodings
  obtain ⟨hvector, -⟩ := hsession session "public_inputs" reducedVector (by decide +kernel)
  obtain ⟨hreduced, halike⟩ := hsession session "w_1" (Bytes.ofNat 32 (scalarModulus + 5)) (by decide +kernel)
  obtain ⟨hcommitment, -⟩ := hsession session "W_1" (Bytes.ofNat 32 (Point.infinityFlag + 1)) (by decide +kernel)
  have hseven : Scalar.decode (Bytes.ofNat 32 (scalarModulus + 7)) = .ok 7 :=
    (hresidue _ _).mpr ⟨Bytes.length_ofNat _ _, by decide +kernel⟩
  have hbase : Point.decode Point.base.encode = .ok Point.base := by decide +kernel
  have hread : (session.transcript (G := Point)).vector "public_inputs" = .ok [5, 7] :=
    (hvector.vector _).mpr ⟨by decide +kernel, by decide +kernel⟩
  have hfive : (session.transcript (G := Point)).evaluation "w_1" = .ok 5 := by decide +kernel
  have hpoint' : (session.transcript (G := Point)).commitment "W_1" = .ok .infinity :=
    (hcommitment.commitment _).mpr ((hinfinity _ (by decide)).mpr
      ⟨Bytes.length_ofNat _ _, by decide +kernel, by decide +kernel, by decide +kernel⟩)
  obtain ⟨hcanonical, hforms⟩ := hscalar _ 7 hseven
  refine ⟨hseven, fun h => absurd (hcanonical.mp h) (by decide +kernel), (hforms _).mpr ⟨rfl, by decide +kernel⟩, hbase,
    (hpoint _ _ (by decide) hbase).1, session, rfl, hread, fun h => ?_, hfive, fun h => ?_, ?_, hpoint',
    hcommitment.commitment_canonical _ (by decide) hpoint'⟩
  · have hblocks := (hvector.vector_encode _ hread).mp h
    exact absurd (hblocks (Bytes.ofNat 32 (scalarModulus + 7)) (by decide +kernel)) (by decide +kernel)
  · exact absurd ((hreduced.evaluation_encode _ hfive).mp h) (by decide +kernel)
  · exact ((halike session "w_2" (Scalar.encode 5) (by decide +kernel)).evaluation 5 hfive).mpr
      ⟨rfl, by decide +kernel⟩

/-- The group order is read as zero, infinity from an abscissa, and a point from its form with a byte behind it. -/
theorem encodings_aliased :
    Scalar.decode (Bytes.ofNat 32 scalarModulus) = .ok 0
    ∧ Scalar.encode 0 ≠ Bytes.ofNat 32 scalarModulus
    ∧ Point.decode (Bytes.ofNat 32 (Point.infinityFlag + 1)) = .ok .infinity
    ∧ Point.encode .infinity ≠ Bytes.ofNat 32 (Point.infinityFlag + 1)
    ∧ Point.decode (Point.base.encode ++ [0]) = .ok Point.base
    ∧ Point.base.encode ≠ Point.base.encode ++ [0] := by
  decide +kernel

end PlonkVerifier
