import Mathlib
import PlonkVerifier.Format.Documents
import PlonkVerifier.Proofs.Encodings

/-!
# Proofs/Serialization — keys survive serialization

Base64 text is read as the bytes it was written for (`Base64.decode_encode`), so that scalars and points of the curve
survive in every format (`Encoded.Survives`).  A document is read field by field: what survives in each field survives
as a whole.  The keys that survive are those that a document can hold (`keys_survive`).
-/

namespace PlonkVerifier

theorem mapM_map_eq_some {α β : Type} {f : β → Option α} {g : α → β} : ∀ {xs : List α},
    (∀ x ∈ xs, f (g x) = some x) → (xs.map g).mapM f = some xs
  | [], _ => rfl
  | x :: xs, h => by
      obtain ⟨hx, hxs⟩ := List.forall_mem_cons.mp h
      rw [List.map_cons, List.mapM_cons, hx, mapM_map_eq_some hxs]
      rfl

theorem exists_of_mem_mapM {α β : Type} {f : α → Option β} {y : β} : ∀ {xs : List α} {ys : List β},
    xs.mapM f = some ys → y ∈ ys → ∃ x ∈ xs, f x = some y
  | [], ys, h, hy => by
      obtain rfl := Option.some.inj h
      cases hy
  | x :: xs, ys, h, hy => by
      rw [List.mapM_cons, Option.bind_eq_bind, Option.bind_eq_some_iff] at h
      obtain ⟨z, hz, h⟩ := h
      obtain ⟨zs, hzs, h⟩ := Option.bind_eq_some_iff.mp h
      obtain rfl := Option.some.inj h
      rcases List.mem_cons.mp hy with rfl | hy
      · exact ⟨x, List.mem_cons_self, hz⟩
      · obtain ⟨w, hw, hwy⟩ := exists_of_mem_mapM hzs hy
        exact ⟨w, List.mem_cons_of_mem _ hw, hwy⟩

/-! ## Base64 -/

namespace Base64

/-- The six-bit numbers of a byte string. -/
def sextets : Bytes → List ℕ
  | a :: b :: c :: rest =>
    let n := (a.toNat * 256 + b.toNat) * 256 + c.toNat
    n / 2 ^ 18 :: n / 2 ^ 12 % 64 :: n / 2 ^ 6 % 64 :: n % 64 :: sextets rest
  | [a, b] =>
    let n := a.toNat * 256 + b.toNat
    [n / 2 ^ 10, n / 2 ^ 4 % 64, n % 16 * 4]
  | [a] => [a.toNat / 4, a.toNat % 4 * 16]
  | [] => []

/-- The number of symbols that fill up the last group. -/
def fillingLength (bytes : Bytes) : ℕ := (3 - bytes.length % 3) % 3

theorem fillingLength_cons (a b c : UInt8) (rest : Bytes) :
    fillingLength (a :: b :: c :: rest) = fillingLength rest := by
  simp only [fillingLength, List.length_cons]
  omega

theorem encodeChars_eq : ∀ bytes : Bytes,
    encodeChars bytes = (sextets bytes).map symbol ++ List.replicate (fillingLength bytes) '='
  | a :: b :: c :: rest => by
      change symbol _ :: symbol _ :: symbol _ :: symbol _ :: encodeChars rest = _
      rw [encodeChars_eq rest, sextets, fillingLength_cons]
      rfl
  | [_, _] => rfl
  | [_] => rfl
  | [] => rfl

/-- A sextet indexes the alphabet. -/
theorem sextets_lt : ∀ (bytes : Bytes), ∀ n ∈ sextets bytes, n < 64
  | a :: b :: c :: rest => by
      have ha := a.toNat_lt
      have hb := b.toNat_lt
      have hc := c.toNat_lt
      simp only [sextets, List.forall_mem_cons]
      exact ⟨by omega, by omega, by omega, by omega, sextets_lt rest⟩
  | [a, b] => by
      have ha := a.toNat_lt
      have hb := b.toNat_lt
      simp only [sextets, List.forall_mem_cons, List.not_mem_nil, false_imp_iff, implies_true, and_true]
      omega
  | [a] => by
      have ha := a.toNat_lt
      simp only [sextets, List.forall_mem_cons, List.not_mem_nil, false_imp_iff, implies_true, and_true]
      omega
  | [] => by simp [sextets]

/-- Symbols and filling make up whole groups of four. -/
theorem length_sextets : ∀ bytes : Bytes, ((sextets bytes).length + fillingLength bytes) % 4 = 0
  | a :: b :: c :: rest => by
      rw [fillingLength_cons, sextets]
      have := length_sextets rest
      simp only [List.length_cons]
      omega
  | [a, b] => by simp [sextets, fillingLength]
  | [a] => by simp [sextets, fillingLength]
  | [] => rfl

/-- **The bytes are those that were cut into six-bit numbers.** -/
theorem bytes?_sextets : ∀ bytes : Bytes, bytes? (sextets bytes) = some bytes
  | a :: b :: c :: rest => by
      have ha := a.toNat_lt
      have hb := b.toNat_lt
      have hc := c.toNat_lt
      rw [sextets, bytes?, bytes?_sextets rest, Option.map_some]
      congr 4
      all_goals exact (UInt8.ofNat_eq_iff_mod_eq_toNat _ _).mpr (by omega)
  | [a, b] => by
      have ha := a.toNat_lt
      have hb := b.toNat_lt
      rw [sextets, bytes?, if_pos (by omega)]
      congr 3
      all_goals exact (UInt8.ofNat_eq_iff_mod_eq_toNat _ _).mpr (by omega)
  | [a] => by
      have ha := a.toNat_lt
      rw [sextets, bytes?, if_pos (by omega)]
      congr 2
      exact (UInt8.ofNat_eq_iff_mod_eq_toNat _ _).mpr (by omega)
  | [] => rfl

/-- No symbol is the filling. -/
theorem symbol_ne {n : ℕ} (h : n < 64) : symbol n ≠ '=' := by
  intro heq
  have := value?_symbol h
  rw [heq] at this
  exact absurd this (by decide +revert)

/-- **Base64 text is read as the bytes it was written for.** -/
theorem decode_encode (bytes : Bytes) : decode (encode bytes) = .ok bytes := by
  -- No symbol is a filling, so the text is cut where the filling starts.
  have hsymbols : ∀ c ∈ (sextets bytes).map symbol, (c != '=') = true := by
    intro c hc
    obtain ⟨n, hn, rfl⟩ := List.mem_map.mp hc
    exact bne_iff_ne.mpr (symbol_ne (sextets_lt bytes n hn))
  have htext : (encode bytes).toList
      = (sextets bytes).map symbol ++ List.replicate (fillingLength bytes) '=' := by
    rw [encode, String.toList_ofList, encodeChars_eq]
  have htake : (encode bytes).toList.takeWhile (· != '=') = (sextets bytes).map symbol := by
    rw [htext, List.takeWhile_append_of_pos hsymbols]
    simp
  have hdrop : (encode bytes).toList.dropWhile (· != '=') = List.replicate (fillingLength bytes) '=' := by
    rw [htext, List.dropWhile_append_of_pos hsymbols]
    simp
  have hfills : fills (sextets bytes).length (List.replicate (fillingLength bytes) '=') = true := by
    have hlength := length_sextets bytes
    have hlt : fillingLength bytes < 4 := (Nat.mod_lt _ (by decide)).trans (by decide)
    simp only [fills, List.all_replicate, List.length_replicate, BEq.rfl, ite_self, Bool.true_and,
      decide_eq_true_iff]
    omega
  have hvalues : ((sextets bytes).map symbol).mapM value? = some (sextets bytes) :=
    mapM_map_eq_some fun n hn => value?_symbol (sextets_lt bytes n hn)
  rw [decode]
  simp only [htake, hdrop, List.length_map, hfills, if_true, hvalues]
  rw [Option.bind_eq_bind, Option.bind_some, bytes?_sextets]

end Base64

/-! ## Scalars and points in a format -/

namespace Encoded

variable {α : Type} [ByteCodec α]

/-- What is read from every form of a value is the value. -/
structure Survives (a : α) : Prop where
  /-- The bytes themselves. -/
  bytes : ByteCodec.decode (ByteCodec.encode a) = .ok a
  /-- Base64 text, where a format is for people. -/
  text : ofJson (toJson a) = .ok a
  /-- The bytes as they are, where a format is not. -/
  raw : ofBytes (ByteCodec.encode a) = .ok a
  /-- A list of numbers. -/
  numbers : ofNumbers ((ByteCodec.encode a).map UInt8.toNat) = .ok a
  /-- A byte string behind its length, with anything behind it. -/
  binary : ∀ rest : Bytes, ofBinary? (toBinary a ++ rest) = some a

theorem byte_toNat (b : UInt8) : byte b.toNat = .ok b := by
  rw [byte, if_pos b.toNat_lt, UInt8.ofNat_toNat]

theorem mapM_byte (bytes : Bytes) : (bytes.map UInt8.toNat).mapM byte = .ok bytes := by
  have hread : ∀ n ∈ bytes.map UInt8.toNat, byte n = .ok (UInt8.ofNat n) := by
    intro n hn
    obtain ⟨b, -, rfl⟩ := List.mem_map.mp hn
    rw [byte_toNat, UInt8.ofNat_toNat]
  have hbytes : (bytes.map UInt8.toNat).map UInt8.ofNat = bytes := by simp [Function.comp_def]
  rw [mapM_eq_ok_map hread, hbytes]

/-- **A value that survives its bytes survives every format**, if their number is a length. -/
theorem survives {a : α} (hlength : (ByteCodec.encode a).length < 256 ^ lengthSize)
    (h : ByteCodec.decode (ByteCodec.encode a) = .ok a) : Survives a := by
  have hraw : ofBytes (ByteCodec.encode a) = .ok a := mapError_eq_ok.mpr h
  refine ⟨h, ?_, hraw, ?_, fun rest => ?_⟩
  · rw [toJson, ofJson, Base64.decode_encode]
    exact hraw
  · rw [ofNumbers, mapM_byte]
    exact hraw
  · have hsize : (Bytes.ofNat lengthSize (ByteCodec.encode a).length).length = lengthSize := Bytes.length_ofNat _ _
    have hread : Bytes.toNat (Bytes.ofNat lengthSize (ByteCodec.encode a).length) = (ByteCodec.encode a).length :=
      Bytes.toNat_ofNat_of_lt hlength
    rw [ofBinary?, toBinary]
    simp only [List.append_assoc, List.take_append_of_le_length hsize.ge, List.take_of_length_le hsize.le,
      List.drop_left' hsize, hread, List.take_left, hraw, List.length_append, hsize]
    rw [if_neg (by omega)]
    rfl

end Encoded

/-- Every scalar survives its encodings. -/
theorem Scalar.survives (x : Scalar) : Encoded.Survives x := by
  refine Encoded.survives ?_ (decode_encode x)
  change (Bytes.ofNat size x.val).length < _
  rw [Bytes.length_ofNat]
  decide

/-- Every point of the curve survives its encodings, the identity included. -/
theorem Point.OnCurve.survives {P : Point} (h : P.OnCurve) : Encoded.Survives P := by
  refine Encoded.survives ?_ (decode_encode h)
  change P.encode.length < _
  rw [encode_eq, Bytes.length_ofNat]
  decide

/-! ## Documents -/

/-- **A record is read as it was written**, since no two fields have one name. -/
theorem Json.record?_zip {names : List String} {documents : List Json} (hnodup : names.Nodup)
    (hlength : documents.length = names.length) :
    (Json.object (names.zip documents)).record? names = some documents := by
  rw [record?, Option.some.injEq]
  induction names generalizing documents with
  | nil => exact (List.length_eq_zero_iff.mp hlength).symm
  | cons name names ih =>
    obtain ⟨hfresh, hnodup⟩ := List.nodup_cons.mp hnodup
    cases documents with
    | nil => cases hlength
    | cons document documents =>
      have hrest : ∀ other ∈ names, ((name, document) :: names.zip documents).lookup other
          = (names.zip documents).lookup other := fun other hother => by
        rw [LabelMap.lookup_cons, if_neg (ne_of_mem_of_not_mem hother hfresh)]
      rw [List.zip_cons_cons, List.map_cons, LabelMap.lookup_cons, if_pos rfl, Option.getD_some,
        List.map_congr_left fun other hother => congrArg (Option.getD · null) (hrest other hother),
        ih hnodup (Nat.succ.inj hlength)]

namespace JsonCodec

variable {α : Type} [JsonCodec α]

/-- What is read from the document of a value is the value. -/
def Survives (a : α) : Prop := ofJson? (toJson a) = some a

theorem survives_bool (b : Bool) : Survives b := rfl

/-- Sizes survive: they have 64 bits. -/
theorem survives_nat {n : ℕ} (h : n < UInt64.size) : Survives n :=
  if_pos ⟨Int.natCast_nonneg n, h⟩

/-- A list survives when its items do. -/
theorem survives_list {items : List α} (h : ∀ a ∈ items, Survives a) : Survives items :=
  mapM_map_eq_some h

theorem survives_labelMap {m : LabelMap α} (h : ∀ e ∈ m.entries, Survives e.2) : Survives m := by
  refine Option.bind_eq_some_iff.mpr ⟨m.entries,
    mapM_map_eq_some (g := fun e : String × α => (e.1, toJson e.2)) ?_, congrArg some m.ofList_entries⟩
  rintro ⟨label, a⟩ he
  exact Option.bind_eq_some_iff.mpr ⟨a, h _ he, rfl⟩

theorem survives_scalar (x : Scalar) : Survives x := toOption_eq_some.mpr x.survives.text

theorem survives_point {P : Point} (h : P.OnCurve) : Survives P := toOption_eq_some.mpr h.survives.text

end JsonCodec

/-- The sizes of a key have 64 bits and its commitments are on the curve. -/
structure VerificationKey.Representable (key : VerificationKey Point) : Prop where
  circuitSize : key.circuitSize < UInt64.size
  publicInputs : key.publicInputs < UInt64.size
  programWidth : key.programWidth < UInt64.size
  commitments : ∀ e ∈ key.commitments.entries, e.2.OnCurve

/-- **A key whose numbers fit and whose points are on the curve survives.** -/
theorem VerificationKey.Representable.survives {key : VerificationKey Point} (h : key.Representable) :
    JsonCodec.Survives key := by
  have hcircuitSize := JsonCodec.survives_nat h.circuitSize
  have hpublicInputs := JsonCodec.survives_nat h.publicInputs
  have hprogramWidth := JsonCodec.survives_nat h.programWidth
  have hrecursive := JsonCodec.survives_bool key.isRecursive
  have hroot := JsonCodec.survives_scalar key.root
  have hrootInverse := JsonCodec.survives_scalar key.rootInverse
  have hgenerators := JsonCodec.survives_list fun x (_ : x ∈ key.cosetGenerators) => JsonCodec.survives_scalar x
  have hcommitments := JsonCodec.survives_labelMap fun e he => JsonCodec.survives_point (h.commitments e he)
  unfold JsonCodec.Survives at *
  rw [JsonCodec.toJson, JsonCodec.ofJson?]
  simp only [instJsonCodecVerificationKey]
  rw [Json.record?_zip (by decide) rfl]
  simp only [Option.bind_eq_bind, Option.bind_some, hcircuitSize, hpublicInputs, hprogramWidth, hrecursive, hroot,
    hrootInverse, hgenerators, hcommitments]
  rfl

/-- A number that parses fits a word. -/
theorem JsonCodec.lt_size_of_ofJson? {document : Json} {n : ℕ} (h : ofJson? document = some n) :
    n < UInt64.size := by
  cases document with
  | integer k =>
    simp only [ofJson?, Option.ite_none_right_eq_some, Option.some.injEq] at h
    obtain ⟨⟨-, hlt⟩, rfl⟩ := h
    exact hlt
  | _ => cases h

/-- A point that parses is on the curve. -/
theorem JsonCodec.onCurve_of_ofJson? {document : Json} {P : Point} (h : ofJson? document = some P) : P.OnCurve := by
  have htext : Encoded.ofJson document = .ok P := toOption_eq_some.mp h
  cases document with
  | string text =>
    obtain ⟨bytes, -, hbytes⟩ := bind_eq_ok.mp htext
    exact (Point.decode_eq_ok.mp (mapError_eq_ok.mp hbytes)).2.onCurve
  | _ => cases htext

/-- What holds of all that is read holds of the values of a map that is read. -/
theorem JsonCodec.forall_of_ofJson? {α : Type} [JsonCodec α] {p : α → Prop}
    (hread : ∀ {document : Json} {a : α}, ofJson? document = some a → p a) {document : Json} {m : LabelMap α}
    (h : ofJson? document = some m) : ∀ e ∈ m.entries, p e.2 := by
  cases document with
  | object fields =>
    obtain ⟨entries, hentries, hm⟩ := Option.bind_eq_some_iff.mp h
    obtain rfl := Option.some.inj hm
    intro e he
    obtain ⟨field, -, hfield⟩ := exists_of_mem_mapM hentries (LabelMap.mem_of_mem_ofList he)
    obtain ⟨a, ha, hea⟩ := Option.bind_eq_some_iff.mp hfield
    obtain rfl := Option.some.inj hea
    exact hread ha
  | _ => cases h

/-- A document holds no other keys: what it holds was checked when it was read. -/
theorem VerificationKey.representable_of_ofJson? {document : Json} {key : VerificationKey Point}
    (h : JsonCodec.ofJson? document = some key) : key.Representable := by
  rw [JsonCodec.ofJson?] at h
  simp only [instJsonCodecVerificationKey, Option.bind_eq_bind, Option.bind_eq_some_iff] at h
  obtain ⟨fields, -, h⟩ := h
  split at h
  · simp only [Option.bind_eq_some_iff] at h
    obtain ⟨n, hn, k, hk, width, hwidth, _, _, _, _, _, _, _, _, commitments, hcommitments, h⟩ := h
    obtain rfl := Option.some.inj h
    exact ⟨JsonCodec.lt_size_of_ofJson? hn, JsonCodec.lt_size_of_ofJson? hk, JsonCodec.lt_size_of_ofJson? hwidth,
      JsonCodec.forall_of_ofJson? JsonCodec.onCurve_of_ofJson? hcommitments⟩
  · cases h

/-- **Keys survive serialization.**  Every scalar and every point of the curve is read from its bytes, from its base64
text, and from the binary forms of a format.  So a key is read from its document, whatever its sizes of 64 bits, its
flag, its generators and its labels are; and no document holds another key. -/
theorem keys_survive :
    (∀ x : Scalar, Encoded.Survives x)
    ∧ (∀ P : Point, Encoded.Survives P ↔ P.OnCurve)
    ∧ ∀ key : VerificationKey Point, JsonCodec.ofJson? (JsonCodec.toJson key) = some key ↔ key.Representable :=
  ⟨Scalar.survives, fun _ => ⟨fun h => (Point.decode_eq_ok.mp h.bytes).2.onCurve, Point.OnCurve.survives⟩,
    fun _ => ⟨VerificationKey.representable_of_ofJson?, VerificationKey.Representable.survives⟩⟩

/-- A key with the identity among its commitments. -/
theorem keys_survive_identity :
    ∃ key : VerificationKey Point, key.circuitSize = UInt64.size - 1
      ∧ key.commitments.find? "q_1" = some .infinity ∧ key.commitments.find? "q_2" = some .base
      ∧ Encoded.Survives Point.infinity
      ∧ JsonCodec.ofJson? (JsonCodec.toJson key) = some key := by
  let key : VerificationKey Point := ⟨UInt64.size - 1, 0, 3, true, 1, 1, [1, 7],
    .ofList [("q_1", .infinity), ("q_2", .base)]⟩
  obtain ⟨-, hpoint, hkey⟩ := keys_survive
  exact ⟨key, rfl, rfl, rfl, (hpoint _).mpr trivial,
    (hkey key).mpr ⟨by decide, by decide, by decide, by decide⟩⟩

end PlonkVerifier
