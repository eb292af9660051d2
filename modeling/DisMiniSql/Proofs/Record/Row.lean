import DisMiniSql.MiniSql.Record.Row
import DisMiniSql.Proofs.Record.Metadata

/-!
# `DisMiniSql.Proofs.Record.Row`: which rows survive the disk

The bitmap of the null fields has 32 bits, and the field `i` has the bit `i % 32`. So two fields
whose numbers agree modulo 32 share a bit, and `DeserializeFrom` takes both for null if one is
(`nullBitmap_spec`). `Codable` says that they agree, and that every string is one that the
constructor of `Field` copies. `row_round_trip_iff`: these are the rows that are read back as they
were.
-/

set_option autoImplicit false

namespace DisMiniSql.MiniSql.Record

open DisMiniSql.Lib (Bytes writeAll readAll Writes Reads)
open DisMiniSql.Lib.Bytes (le32 set32_eq_blit blit_append holds_append length_le32)

/-! ## The bitmap -/

namespace Row

/-- The shift counts modulo 32, so column `i` gets bit `i % 32`. -/
theorem nullBit_eq (i : Nat) : nullBit i = BitVec.twoPow 32 (i % 32) := rfl

/-- The test of a bit. -/
theorem and_nullBit (bitmap : BitVec 32) (i : Nat) :
    ((bitmap &&& nullBit i) != 0) = bitmap.getLsbD (i % 32) := by
  have hlt : i % 32 < 32 := Nat.mod_lt i (by decide)
  rw [nullBit_eq, BitVec.and_twoPow]
  cases hbit : bitmap.getLsbD (i % 32) with
  | false => rfl
  | true =>
    rw [if_pos rfl, bne_iff_ne]
    intro hzero
    have htop := congrArg (fun x => BitVec.getLsbD x (i % 32)) hzero
    simp [hlt] at htop

/-- A bit is set after the loop if it was, or if a null field has it. -/
theorem getLsbD_nullBitmap (fields : List Field) (i : Nat) (bitmap : BitVec 32) (k : Nat) :
    (nullBitmap i fields bitmap).getLsbD k = true ↔
      bitmap.getLsbD k = true ∨
        ∃ j field, fields[j]? = some field ∧ field.isNull = true ∧ (i + j) % 32 = k := by
  induction fields generalizing i bitmap with
  | nil => simp [nullBitmap]
  | cons field fields ih =>
    have hhead : (if field.isNull then bitmap ||| nullBit i else bitmap).getLsbD k = true ↔
        bitmap.getLsbD k = true ∨ field.isNull = true ∧ i % 32 = k := by
      cases hnull : field.isNull with
      | false => simp
      | true =>
        rw [if_pos rfl, BitVec.getLsbD_or, nullBit_eq, BitVec.getLsbD_twoPow]
        simp [Nat.mod_lt i]
    rw [nullBitmap, ih, hhead, or_assoc]
    refine or_congr_right ⟨?_, ?_⟩
    · rintro (⟨hnull, hi⟩ | ⟨j, g, hg, hnull, hj⟩)
      · exact ⟨0, field, rfl, hnull, hi⟩
      · exact ⟨j + 1, g, hg, hnull, by rw [← hj]; congr 1; omega⟩
    · rintro ⟨j, g, hg, hnull, hj⟩
      cases j with
      | zero =>
        obtain rfl : field = g := Option.some.inj hg
        exact Or.inl ⟨hnull, hj⟩
      | succ j => exact Or.inr ⟨j, g, hg, hnull, by rw [← hj]; congr 1; omega⟩

/-- `DeserializeFrom` takes the field `i` for null if a field with the same number modulo 32 is. -/
theorem nullBitmap_spec (fields : List Field) (i : Nat) :
    ((nullBitmap 0 fields 0 &&& nullBit i) != 0) = true ↔
      ∃ j field, fields[j]? = some field ∧ field.isNull = true ∧ j % 32 = i % 32 := by
  rw [and_nullBit, getLsbD_nullBitmap fields 0 0 (i % 32)]
  simp

end Row

/-! ## Fields -/

namespace Field

/-- The bytes of a field. -/
def layout : Field → List UInt8
  | .int (some integer) => le32 integer.toUInt32.toNat
  | .float (some bits) => le32 bits.toNat
  | .char (some chars) => le32 chars.length ++ chars
  | _ => []

/-- The constructor of the field copies the string. -/
def Short (field : Field) : Prop :=
  ∀ chars, field = .char (some chars) → chars.length < VARCHAR_MAX_LEN

variable {field : Field}

/-- A short string's length does not wrap. -/
theorem Short.uint32_length {chars : List UInt8} (h : Short (.char (some chars))) :
    uint32 (chars.length + 4) = chars.length + 4 :=
  uint32_of_lt (Nat.lt_of_lt_of_le (Nat.add_lt_add_right (h chars rfl) 4) (by decide))

/-- `SerializeTo` writes the layout. -/
theorem writes (h : field.Short) : Writes field.serializeTo field.layout := by
  intro m p
  match field with
  | .int none | .float none | .char none =>
    exact Prod.ext (DisMiniSql.Lib.Bytes.blit_nil).symm rfl
  | .int (some integer) => rfl
  | .float (some bits) => rfl
  | .char (some chars) =>
    simp only [serializeTo, layout, h.uint32_length, set32_eq_blit, blit_append, length_le32,
      List.length_append, Nat.add_comm]

/-- `GetSerializedSize` is the length of the layout. -/
theorem getSerializedSize_eq (h : field.Short) : field.getSerializedSize = field.layout.length := by
  match field with
  | .int none | .float none | .char none => rfl
  | .int (some integer) => rfl
  | .float (some bits) => rfl
  | .char (some chars) =>
    rw [getSerializedSize, h.uint32_length, layout, List.length_append, length_le32, Nat.add_comm]

/-- `DeserializeFrom` takes the layout for the field. -/
theorem reads (h : field.Short) :
    Reads (deserializeFrom field.getTypeId field.isNull) field.layout field := by
  intro m p hm
  match field with
  | .int none | .float none | .char none => rfl
  | .int (some integer) =>
    have hread : (UInt32.ofNat (m.get32 p)).toInt32 = integer := by
      rw [ofNat_get32 hm, Int32.toInt32_toUInt32]
    simp [deserializeFrom, getTypeId, isNull, hread, layout]
  | .float (some bits) =>
    simp [deserializeFrom, getTypeId, isNull, ofNat_get32 hm, layout]
  | .char (some chars) =>
    have hlt : chars.length < VARCHAR_MAX_LEN := h chars rfl
    obtain ⟨hlen, hchars⟩ := holds_append.mp hm
    have hget : m.get32 p = chars.length := hlen.get32 (Nat.lt_trans hlt (by decide))
    have hslice : m.slice (p + 4) chars.length = chars := hchars.slice
    simp [deserializeFrom, getTypeId, isNull, hget, hlt, hslice, h.uint32_length, layout,
      Nat.add_comm]

/-- What `DeserializeFrom` answers is of the type, is null as told, and is no longer than the
constructor copies. -/
theorem of_deserializeFrom {type : TypeId} {isNull : Bool} {m : Bytes} {p n : Nat}
    (h : deserializeFrom type isNull m p = some (field, n)) :
    field.isNull = isNull ∧ field.Short := by
  cases type with
  | kTypeInvalid => exact nomatch h
  | kTypeInt =>
    cases isNull <;> cases h
    · exact ⟨rfl, fun _ h => nomatch h⟩
    · exact ⟨rfl, fun _ h => nomatch h⟩
  | kTypeFloat =>
    cases isNull <;> cases h
    · exact ⟨rfl, fun _ h => nomatch h⟩
    · exact ⟨rfl, fun _ h => nomatch h⟩
  | kTypeChar =>
    cases isNull with
    | true =>
      cases h
      exact ⟨rfl, fun _ h => nomatch h⟩
    | false =>
      simp only [deserializeFrom] at h
      rw [if_neg Bool.false_ne_true] at h
      split at h
      · next hlt =>
        cases h
        refine ⟨rfl, fun chars heq => ?_⟩
        cases heq
        rwa [DisMiniSql.Lib.Bytes.length_slice]
      · exact nomatch h

end Field

/-! ## Rows -/

/-- A size added up as `uint32_t` is the size modulo `2 ^ 32`. -/
theorem foldl_uint32_mod {α : Type} (size : α → Nat) (xs : List α) (n : Nat) :
    xs.foldl (fun ofs x => uint32 (ofs + size x)) (uint32 n) = uint32 (n + (xs.map size).sum) := by
  induction xs generalizing n with
  | nil => rfl
  | cons x xs ih =>
    have hstep : uint32 (uint32 n + size x) = uint32 (n + size x) := Nat.mod_add_mod n (2 ^ 32) _
    rw [List.foldl_cons, hstep, ih, List.map_cons, List.sum_cons, Nat.add_assoc]

namespace Row

variable {row : Row} {schema : Schema}

/-- The fields have the types of the columns. -/
def Of (row : Row) (schema : Schema) : Prop :=
  List.Forall₂ (fun field column => Field.getTypeId field = Column.type column) row.fields
    schema.columns

/-- `DeserializeFrom` makes the row again from what `SerializeTo` wrote, and both take as many bytes
as `GetSerializedSize` says. -/
def RoundTrips (row : Row) (schema : Schema) : Prop :=
  ∀ m p, ∃ m' size, row.getSerializedSize schema = some size ∧
    row.serializeTo schema m p = some (m', size) ∧ deserializeFrom schema m' p = some (row, size)

/-- The number of fields is an `uint32_t`, fields whose numbers agree modulo 32 are null together,
and no string is too long for the constructor of `Field`. -/
structure Codable (row : Row) : Prop where
  few : row.fields.length < 2 ^ 32
  nulls : ∀ i j f g, row.fields[i]? = some f → row.fields[j]? = some g → i % 32 = j % 32 →
    f.isNull = g.isNull
  short : ∀ field ∈ row.fields, field.Short

/-- The bytes of a row. -/
def layout (row : Row) : List UInt8 :=
  le32 ROW_MAGIC_NUM ++ (le32 row.fields.length ++ (le32 (nullBitmap 0 row.fields 0).toNat ++
    row.fields.flatMap Field.layout))

/-- The bytes of a row. -/
theorem length_layout (row : Row) :
    row.layout.length = 12 + (row.fields.flatMap Field.layout).length := by
  simp only [layout, List.length_append, length_le32]
  omega

/-- The count of the schema is the number of fields, if it fits 32 bits. -/
theorem Of.getColumnCount_eq (hof : row.Of schema) (h : row.fields.length < 2 ^ 32) :
    schema.getColumnCount = row.fields.length := by
  rw [Schema.getColumnCount, ← hof.length_eq, uint32_of_lt h]

/-- `GetSerializedSize` is the length of the layout. -/
theorem getSerializedSize_eq (hof : row.Of schema) (hfew : row.fields.length < 2 ^ 32)
    (hshort : ∀ field ∈ row.fields, field.Short) :
    row.getSerializedSize schema = some (uint32 row.layout.length) := by
  have hsum : (row.fields.map Field.getSerializedSize).sum =
      (row.fields.flatMap Field.layout).length := by
    rw [List.length_flatMap]
    exact congrArg List.sum (List.map_congr_left fun field hfield =>
      Field.getSerializedSize_eq (hshort field hfield))
  unfold getSerializedSize
  rw [if_neg (not_not_intro (hof.getColumnCount_eq hfew)), length_layout, ← hsum]
  exact congrArg some (foldl_uint32_mod Field.getSerializedSize row.fields (4 * 3))

/-- `SerializeTo` writes the layout. -/
theorem serializeTo_eq (hof : row.Of schema) (hfew : row.fields.length < 2 ^ 32)
    (hshort : ∀ field ∈ row.fields, field.Short) (m : Bytes) (p : Nat) :
    row.serializeTo schema m p = some (m.blit p row.layout, uint32 row.layout.length) := by
  have hfields := DisMiniSql.Lib.writeAll_eq row.fields
    fun field hfield => Field.writes (hshort field hfield)
  have hsize : p + 4 + 4 + 4 + (row.fields.flatMap Field.layout).length - p =
      row.layout.length := by
    rw [length_layout]
    omega
  unfold serializeTo
  rw [if_neg (not_not_intro (hof.getColumnCount_eq hfew))]
  simp only [uint32_of_lt hfew, hfields, hsize]
  simp only [set32_eq_blit, layout, blit_append, length_le32]

/-- One turn of the loop of `DeserializeFrom`. -/
theorem readField_reads (hof : row.Of schema) (h : row.Codable) {i : Nat} {field : Field}
    (hfield : row.fields[i]? = some field) :
    Reads (readField schema (nullBitmap 0 row.fields 0) i) field.layout field := by
  obtain ⟨hi, heq⟩ := List.getElem?_eq_some_iff.mp hfield
  have hi' : i < schema.columns.length := by
    have := hof.length_eq
    omega
  have htype : field.getTypeId = schema.columns[i].type := by
    rw [← heq]
    exact (List.forall₂_iff_get.mp hof).2 i hi hi'
  have hnull : ((nullBitmap 0 row.fields 0 &&& nullBit i) != 0) = field.isNull := by
    rw [Bool.eq_iff_iff, nullBitmap_spec]
    constructor
    · rintro ⟨j, g, hg, hgnull, hj⟩
      rw [h.nulls i j field g hfield hg hj.symm]
      exact hgnull
    · exact fun hfnull => ⟨i, field, hfield, hfnull, rfl⟩
  have hread := Field.reads (h.short field (List.mem_of_getElem? hfield))
  intro m p hm
  rw [readField, List.getElem?_eq_getElem hi']
  simp only [hnull, ← htype]
  exact hread m p hm

/-- `DeserializeFrom` takes the layout for the row. -/
theorem deserializeFrom_eq (hof : row.Of schema) (h : row.Codable) {m : Bytes} {p : Nat}
    (hm : m.Holds p row.layout) :
    deserializeFrom schema m p = some (row, uint32 row.layout.length) := by
  have hsize : p + 4 + 4 + 4 + (row.fields.flatMap Field.layout).length - p =
      row.layout.length := by
    rw [length_layout]
    omega
  simp only [layout, holds_append, length_le32] at hm
  obtain ⟨hmagic, hcount, hbitmap, hfields⟩ := hm
  have hreaders : List.Forall₂
      (fun i field => Reads (readField schema (nullBitmap 0 row.fields 0) i) field.layout field)
      (List.range row.fields.length) row.fields := by
    refine List.forall₂_iff_get.mpr ⟨List.length_range, fun i hi hi' => ?_⟩
    rw [List.get_eq_getElem, List.get_eq_getElem, List.getElem_range]
    exact readField_reads hof h (List.getElem?_eq_getElem hi')
  have hread := DisMiniSql.Lib.readAll_eq hreaders hfields
  unfold deserializeFrom
  rw [hmagic.get32 (by decide), if_neg (not_not_intro rfl)]
  simp only [hcount.get32 h.few, hbitmap.get32 (BitVec.isLt _), BitVec.ofNat_toNat,
    BitVec.setWidth_eq, hread, hsize]

/-- A codable row is read back. -/
theorem Codable.roundTrips (h : row.Codable) (hof : row.Of schema) : row.RoundTrips schema :=
  fun m p => ⟨m.blit p row.layout, uint32 row.layout.length,
    getSerializedSize_eq hof h.few h.short, serializeTo_eq hof h.few h.short m p,
    deserializeFrom_eq hof h DisMiniSql.Lib.Bytes.holds_blit⟩

/-- What `DeserializeFrom` answers has the null flags of one bitmap and only short strings. -/
theorem of_deserializeFrom {m : Bytes} {p n : Nat}
    (h : deserializeFrom schema m p = some (row, n)) :
    ∃ bitmap, ∀ i field, row.fields[i]? = some field →
      field.isNull = ((bitmap &&& nullBit i) != 0) ∧ field.Short := by
  unfold deserializeFrom at h
  split at h
  · exact nomatch h
  · simp only at h
    split at h
    · exact nomatch h
    · next fields _ hread =>
      cases h
      refine ⟨BitVec.ofNat 32 (m.get32 (p + 4 + 4)), fun i field hfield => ?_⟩
      obtain ⟨hi, heq⟩ := List.getElem?_eq_some_iff.mp hfield
      obtain ⟨hlength, hturns⟩ :=
        List.forall₂_iff_get.mp (DisMiniSql.Lib.forall₂_of_readAll hread)
      obtain ⟨a, n, hturn⟩ := hturns i (by rw [hlength]; exact hi) hi
      rw [List.get_eq_getElem, List.get_eq_getElem, List.getElem_range, heq, readField] at hturn
      split at hturn
      · exact nomatch hturn
      · exact Field.of_deserializeFrom hturn

/-- A row that is read back is codable. -/
theorem RoundTrips.codable (hof : row.Of schema) (h : row.RoundTrips schema) : row.Codable := by
  obtain ⟨m', size, hsize, -, hread⟩ := h (fun _ => 0) 0
  obtain ⟨bitmap, hfields⟩ := of_deserializeFrom hread
  refine ⟨?_, fun i j f g hf hg hij => ?_, fun field hmem => ?_⟩
  · unfold getSerializedSize at hsize
    split at hsize
    · exact nomatch hsize
    · next hcount =>
      rw [Schema.getColumnCount, ← hof.length_eq, not_not] at hcount
      rw [← hcount]
      exact Nat.mod_lt _ (by decide)
  · rw [(hfields i f hf).1, (hfields j g hg).1, nullBit_eq, nullBit_eq, hij]
  · obtain ⟨i, hi⟩ := List.getElem?_of_mem hmem
    exact (hfields i field hi).2

end Row

/-- A row is read back as it was, with the same size everywhere, exactly if it has fewer than
`2 ^ 32` fields, fields whose numbers agree modulo 32 are null together, and every string is shorter
than `VARCHAR_MAX_LEN`. -/
theorem row_round_trip_iff {row : Row} {schema : Schema} (h : row.Of schema) :
    row.RoundTrips schema ↔ row.Codable :=
  ⟨Row.RoundTrips.codable h, fun hcodable => hcodable.roundTrips h⟩

/-- The type of the failing input's columns. -/
theorem admits_kTypeInt : Column.Admits .kTypeInt 4 := .inr ⟨.inl rfl, rfl⟩

/-- A column of integers. -/
def intColumn (name : List UInt8) : Column :=
  ⟨name, .kTypeInt, 4, 0, true, false, admits_kTypeInt⟩

/-- A row of a null and a number. -/
theorem row_round_trip_null_number :
    (Row.mk [.int none, .int (some 7)]).RoundTrips ⟨[intColumn [105], intColumn [106]]⟩ ↔
      (Row.mk [.int none, .int (some 7)]).Codable :=
  row_round_trip_iff (.cons rfl (.cons rfl .nil))

/-- 33 integers, of which the first is null. -/
def rowOf33 : Row := ⟨.int none :: List.replicate 32 (.int (some 7))⟩

/-- The schema of 33 columns of integers. -/
def schemaOf33 : Schema := ⟨List.replicate 33 (intColumn [105])⟩

/-- The row of the failing input belongs to its schema. -/
theorem rowOf33_of : rowOf33.Of schemaOf33 := by
  refine List.forall₂_iff_get.mpr ⟨rfl, fun i hi hi' => ?_⟩
  cases i with
  | zero => rfl
  | succ i =>
    simp only [rowOf33, schemaOf33, List.get_eq_getElem, List.getElem_cons_succ,
      List.getElem_replicate]
    rfl

/-- The last field shares the bit of the first one, and comes back null. -/
theorem row_of_33_columns_fails : rowOf33.Of schemaOf33 ∧ ¬ rowOf33.RoundTrips schemaOf33 := by
  refine ⟨rowOf33_of, fun h => ?_⟩
  have hnull := (h.codable rowOf33_of).nulls 0 32 (.int none) (.int (some 7)) rfl rfl rfl
  exact absurd hnull (by decide)

end DisMiniSql.MiniSql.Record
