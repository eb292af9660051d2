import DisMiniSql.MiniSql.Index.GenericKey
import DisMiniSql.Proofs.Record.Row

/-!
# `DisMiniSql.Proofs.Record.KeySlots`: which keys fit into the slots of an index

`CreateIndex` chooses the size of a slot from the lengths of the columns alone. A key row also has a
header of twelve bytes and a length of four bytes before every string: `Schema.keyBytes` is the most
that it takes. `key_slots_fit_iff` says that the slots are right exactly if that is not more than
the size chosen, and the key has no more columns than the bitmap of the null fields has bits.

With more columns two keys share a slot: `zeroRow` has zeros for its values, so that in a slot
filled with zeros only the bitmap is left of it (`serializeFromKey_zeroRow`).
-/

set_option autoImplicit false

namespace DisMiniSql.MiniSql.Record

open DisMiniSql.Lib (Bytes)
open DisMiniSql.Lib.Bytes (le32 blit_append length_le32)

/-! ## The size of a key row -/

/-- The fields have the types of the columns and are not longer than the columns say. -/
def Row.KeyOf (row : Row) (schema : Schema) : Prop :=
  List.Forall₂ (fun field column => Field.getTypeId field = Column.type column ∧
      ∀ chars, field = .char (some chars) → chars.length ≤ column.len.toNat)
    row.fields schema.columns

/-- The most bytes that a field of the column takes. -/
def Column.keyBytes (column : Column) : Nat :=
  column.len.toNat + if column.type = .kTypeChar then 4 else 0

/-- The most bytes that a key row takes. -/
def Schema.keyBytes (schema : Schema) : Nat := 12 + (schema.columns.map Column.keyBytes).sum

/-- The slots of an index are right: every key row is at most as long as a slot, is written without
touching a byte outside, and no other key row leaves the same bytes in a slot. -/
structure KeyManager.SlotsFit (k : KeyManager) (schema : Schema) : Prop where
  size_le : ∀ row : Row, row.KeyOf schema →
    ∃ size, row.getSerializedSize schema = some size ∧ size ≤ k.keySize
  inside : ∀ row : Row, row.KeyOf schema → ∀ m p, ∃ m',
    k.serializeFromKey m p row schema = some m' ∧
    ∀ i, i < p ∨ p + k.keySize ≤ i → m' i = m i
  distinct : ∀ row row' : Row, row.KeyOf schema → row'.KeyOf schema → row ≠ row' →
    ∀ m m' n n' p p', k.serializeFromKey m p row schema = some n →
      k.serializeFromKey m' p' row' schema = some n' →
      n.slice p k.keySize ≠ n'.slice p' k.keySize

/-- A key of the schema is a row of it. -/
theorem Row.KeyOf.of {row : Row} {schema : Schema} (h : row.KeyOf schema) : row.Of schema :=
  List.Forall₂.imp (fun _ _ h => h.1) h

/-- A field is not longer than its column says. -/
theorem Field.length_layout_le {field : Field} {column : Column}
    (htype : field.getTypeId = column.type)
    (hlen : ∀ chars, field = .char (some chars) → chars.length ≤ column.len.toNat) :
    field.layout.length ≤ column.keyBytes := by
  have hnumber : ∀ type, type ≠ .kTypeChar → column.type = type → column.len = 4 := by
    intro type hne heq
    rcases column.admits with hchar | ⟨-, hfour⟩
    · exact absurd (heq.symm.trans hchar) hne
    · exact hfour
  unfold Column.keyBytes
  rw [← htype]
  match field with
  | .int none | .float none | .char none => exact Nat.zero_le _
  | .int (some _) =>
    rw [hnumber .kTypeInt (by decide) htype.symm]
    exact Nat.le_refl 4
  | .float (some _) =>
    rw [hnumber .kTypeFloat (by decide) htype.symm]
    exact Nat.le_refl 4
  | .char (some chars) =>
    have := hlen chars rfl
    show (le32 chars.length ++ chars).length ≤
      column.len.toNat + if TypeId.kTypeChar = .kTypeChar then 4 else 0
    rw [List.length_append, length_le32, if_pos rfl]
    omega

/-- A key row is not longer than `keyBytes`. -/
theorem Row.KeyOf.length_layout_le {row : Row} {schema : Schema} (h : row.KeyOf schema) :
    row.layout.length ≤ schema.keyBytes := by
  rw [Row.length_layout, Schema.keyBytes, List.length_flatMap]
  refine Nat.add_le_add_left ?_ 12
  unfold Row.KeyOf at h
  generalize row.fields = fields, schema.columns = columns at h
  induction h with
  | nil => exact Nat.le_refl 0
  | cons hfield _ ih =>
    rw [List.map_cons, List.sum_cons, List.map_cons, List.sum_cons]
    exact Nat.add_le_add (Field.length_layout_le hfield.1 hfield.2) ih

/-- The sum of the lengths of the columns. -/
theorem foldl_len (columns : List Column) (n : Nat) :
    columns.foldl (fun maxSize column => maxSize + column.len.toNat) n =
      n + (columns.map fun column => column.len.toNat).sum := by
  induction columns generalizing n with
  | nil => rfl
  | cons column columns ih =>
    rw [List.foldl_cons, ih, List.map_cons, List.sum_cons, Nat.add_assoc]

/-- What `CreateIndex` chooses. -/
theorem slotSize_spec {maxSize slot : Nat} (h : slotSize maxSize = some slot) :
    maxSize ≤ 248 ∧ 16 ≤ slot ∧ slot ≤ 256 := by
  unfold slotSize at h
  repeat' split at h
  all_goals cases h
  all_goals omega

/-- The index that `CreateIndex` makes. -/
theorem createIndex_spec {schema : Schema} {indexType : String} {k : KeyManager}
    (h : createIndex schema indexType = some k) :
    k.keySchema = schema ∧ 16 ≤ k.keySize ∧ k.keySize ≤ 256 ∧
      ∀ column ∈ schema.columns, column.len.toNat ≤ 248 := by
  unfold createIndex at h
  split at h
  · split at h
    · exact nomatch h
    · next slot hslot =>
      cases h
      obtain ⟨hmax, hlow, hhigh⟩ := slotSize_spec hslot
      refine ⟨rfl, hlow, hhigh, fun column hmem => Nat.le_trans ?_ hmax⟩
      obtain ⟨before, after, heq⟩ := List.append_of_mem hmem
      rw [Schema.maxSize, foldl_len, heq, List.map_append, List.map_cons, List.sum_append,
        List.sum_cons]
      omega
  · exact nomatch h

/-- The strings of a key row are short where the columns are. -/
theorem Row.KeyOf.short {row : Row} {schema : Schema} (h : row.KeyOf schema)
    (hlen : ∀ column ∈ schema.columns, column.len.toNat ≤ 248) :
    ∀ field ∈ row.fields, field.Short := by
  generalize hcolumns : schema.columns = columns at hlen
  unfold Row.KeyOf at h
  rw [hcolumns] at h
  clear hcolumns
  generalize row.fields = fields at h
  induction h with
  | nil => exact fun _ hmem => absurd hmem List.not_mem_nil
  | @cons field column fields columns hfield _ ih =>
    intro g hg
    rcases List.mem_cons.mp hg with rfl | hg'
    · intro chars heq
      refine Nat.lt_of_le_of_lt (Nat.le_trans (hfield.2 chars heq)
        (hlen column List.mem_cons_self)) (by decide)
    · exact ih (fun c hc => hlen c (List.mem_cons_of_mem column hc)) g hg'

/-! ## Slots -/

namespace KeyManager

variable {k : KeyManager} {row : Row} {schema : Schema}

/-- A key row that is not longer than a slot is written over zeros. -/
theorem serializeFromKey_eq (hof : row.Of schema) (hfew : row.fields.length < 2 ^ 32)
    (hshort : ∀ field ∈ row.fields, field.Short) (hsize : uint32 row.layout.length ≤ k.keySize)
    (m : Bytes) (p : Nat) :
    k.serializeFromKey m p row schema =
      some ((m.blit p (List.replicate k.keySize 0)).blit p row.layout) := by
  unfold serializeFromKey
  simp only [Row.getSerializedSize_eq hof hfew hshort, hof.getColumnCount_eq hfew,
    Row.serializeTo_eq hof hfew hshort, hsize, ne_eq, not_true_eq_false, if_false]

/-- Where it is written, the key row stands. -/
theorem holds_of_serializeFromKey (hof : row.Of schema) (hfew : row.fields.length < 2 ^ 32)
    (hshort : ∀ field ∈ row.fields, field.Short) (hsize : uint32 row.layout.length ≤ k.keySize)
    {m m' : Bytes} {p : Nat} (h : k.serializeFromKey m p row schema = some m') :
    m'.Holds p row.layout := by
  rw [serializeFromKey_eq hof hfew hshort hsize, Option.some.injEq] at h
  rw [← h]
  exact DisMiniSql.Lib.Bytes.holds_blit

end KeyManager

/-! ## Rows of zeros -/

/-- A null, or the value whose bytes are zeros. -/
def zeroField (type : TypeId) (isNull : Bool) : Field :=
  match type with
  | .kTypeFloat => .float (if isNull then none else some 0)
  | .kTypeChar => .char (if isNull then none else some [])
  | _ => .int (if isNull then none else some 0)

/-- A zero field is NULL when asked to be. -/
theorem zeroField_isNull (type : TypeId) (isNull : Bool) :
    (zeroField type isNull).isNull = isNull := by
  cases type <;> cases isNull <;> rfl

/-- It is stored in four zero bytes, or none. -/
theorem zeroField_layout (type : TypeId) (isNull : Bool) :
    (zeroField type isNull).layout = List.replicate (if isNull then 0 else 4) 0 := by
  cases type <;> cases isNull <;> rfl

/-- It has the type of its column. -/
theorem zeroField_getTypeId (column : Column) (isNull : Bool) :
    (zeroField column.type isNull).getTypeId = column.type := by
  rcases column.admits with h | ⟨h | h, -⟩ <;> rw [h] <;> rfl

/-- Its string is empty. -/
theorem zeroField_chars {type : TypeId} {isNull : Bool} {chars : List UInt8}
    (h : zeroField type isNull = .char (some chars)) : chars = [] := by
  cases type <;> cases isNull <;> cases h
  rfl

/-- The row of zeros with nulls at the fields that `null` tells. -/
def zeroRow (schema : Schema) (null : Nat → Bool) : Row :=
  ⟨schema.columns.mapIdx fun i column => zeroField column.type (null i)⟩

section ZeroRow

variable (schema : Schema) (null : Nat → Bool)

/-- The row of zeros has a field for each column. -/
theorem zeroRow_length : (zeroRow schema null).fields.length = schema.columns.length :=
  List.length_mapIdx

/-- Its NULLs are those asked for. -/
theorem zeroRow_getElem? {i : Nat} {field : Field}
    (h : (zeroRow schema null).fields[i]? = some field) :
    field.isNull = null i := by
  rw [zeroRow, List.getElem?_mapIdx] at h
  obtain ⟨column, -, rfl⟩ := Option.map_eq_some_iff.mp h
  exact zeroField_isNull column.type (null i)

/-- It is a key of the schema. -/
theorem zeroRow_keyOf : (zeroRow schema null).KeyOf schema := by
  refine List.forall₂_iff_get.mpr ⟨zeroRow_length schema null, fun i hi hi' => ?_⟩
  have hget : (zeroRow schema null).fields.get ⟨i, hi⟩ =
      zeroField (schema.columns.get ⟨i, hi'⟩).type (null i) :=
    List.getElem_mapIdx
  rw [hget]
  refine ⟨zeroField_getTypeId _ _, fun chars heq => ?_⟩
  rw [zeroField_chars heq]
  exact Nat.zero_le _

/-- All its strings are short. -/
theorem zeroRow_short : ∀ field ∈ (zeroRow schema null).fields, field.Short := by
  intro field hmem chars heq
  obtain ⟨i, hi⟩ := List.getElem?_of_mem hmem
  rw [zeroRow, List.getElem?_mapIdx] at hi
  obtain ⟨column, -, rfl⟩ := Option.map_eq_some_iff.mp hi
  rw [zeroField_chars heq]
  decide

/-- Nulls take no bytes. -/
theorem flatMap_layout_nulls {fields : List Field} (h : ∀ field ∈ fields, field.isNull = true) :
    fields.flatMap Field.layout = [] := by
  rw [List.flatMap_eq_nil_iff]
  intro field hmem
  have hnull := h field hmem
  match field with
  | .int none | .float none | .char none => rfl

/-- Behind the header there are zeros only. -/
theorem zeroRow_zeros : ∃ n ≤ 4 * schema.columns.length,
    (zeroRow schema null).fields.flatMap Field.layout = List.replicate n 0 := by
  have hfields : ∀ field ∈ (zeroRow schema null).fields,
      ∃ n ≤ 4, field.layout = List.replicate n 0 := by
    intro field hmem
    obtain ⟨i, hi⟩ := List.getElem?_of_mem hmem
    rw [zeroRow, List.getElem?_mapIdx] at hi
    obtain ⟨column, -, rfl⟩ := Option.map_eq_some_iff.mp hi
    refine ⟨_, ?_, zeroField_layout column.type (null i)⟩
    split <;> decide
  rw [← zeroRow_length schema null]
  generalize (zeroRow schema null).fields = fields at hfields
  induction fields with
  | nil => exact ⟨0, Nat.le_refl 0, rfl⟩
  | cons field fields ih =>
    obtain ⟨n, hn, hfield⟩ := hfields field List.mem_cons_self
    obtain ⟨k, hk, hrest⟩ := ih fun g hg => hfields g (List.mem_cons_of_mem field hg)
    refine ⟨n + k, ?_, ?_⟩
    · rw [List.length_cons]
      omega
    · rw [List.flatMap_cons, hfield, hrest, List.replicate_append_replicate]

/-- The bitmap has a bit exactly if a null field has it. -/
theorem getLsbD_zeroRow (b : Nat) :
    (Row.nullBitmap 0 (zeroRow schema null).fields 0).getLsbD b = true ↔
      ∃ i < schema.columns.length, null i = true ∧ i % 32 = b := by
  rw [Row.getLsbD_nullBitmap]
  constructor
  · rintro (hzero | ⟨i, field, hfield, hnull, hi⟩)
    · simp at hzero
    · refine ⟨i, ?_, ?_, by rw [← hi, Nat.zero_add]⟩
      · rw [← zeroRow_length schema null]
        exact (List.getElem?_eq_some_iff.mp hfield).1
      · rw [← zeroRow_getElem? schema null hfield]
        exact hnull
  · rintro ⟨i, hi, hnull, hmod⟩
    have hi' : i < (zeroRow schema null).fields.length := by rwa [zeroRow_length]
    have hfield := List.getElem?_eq_getElem hi'
    refine Or.inr ⟨i, _, hfield, ?_, by rw [Nat.zero_add]; exact hmod⟩
    rw [zeroRow_getElem? schema null hfield]
    exact hnull

/-- The header of a row. -/
def headerBytes (fieldCount : Nat) (bitmap : BitVec 32) : List UInt8 :=
  le32 Row.ROW_MAGIC_NUM ++ (le32 fieldCount ++ le32 bitmap.toNat)

/-- In a slot, a row of zeros is its header and zeros. -/
theorem serializeFromKey_zeroRow {k : KeyManager} (hfew : schema.columns.length < 2 ^ 32)
    (hsize : (zeroRow schema null).layout.length ≤ k.keySize) (m : Bytes) (p : Nat) :
    k.serializeFromKey m p (zeroRow schema null) schema =
      some ((m.blit p (List.replicate k.keySize 0)).blit p (headerBytes schema.columns.length
        (Row.nullBitmap 0 (zeroRow schema null).fields 0))) := by
  obtain ⟨n, -, hzeros⟩ := zeroRow_zeros schema null
  have hlayout : (zeroRow schema null).layout = headerBytes schema.columns.length
      (Row.nullBitmap 0 (zeroRow schema null).fields 0) ++ List.replicate n 0 := by
    rw [Row.layout, hzeros, zeroRow_length, headerBytes, List.append_assoc, List.append_assoc]
  have hheader : (headerBytes schema.columns.length
      (Row.nullBitmap 0 (zeroRow schema null).fields 0)).length = 12 := rfl
  have hn : 12 + n ≤ k.keySize := by
    rwa [hlayout, List.length_append, hheader, List.length_replicate] at hsize
  rw [KeyManager.serializeFromKey_eq (zeroRow_keyOf schema null).of (by rwa [zeroRow_length])
    (zeroRow_short schema null) (Nat.le_trans (Nat.mod_le _ _) hsize), hlayout, blit_append]
  refine congrArg some (DisMiniSql.Lib.Bytes.Holds.blit_eq fun i hi => ?_)
  -- behind the header the slot still has the zeros that it was filled with
  rw [List.length_replicate] at hi
  rw [DisMiniSql.Lib.Bytes.blit_of_outside (by omega), List.getElem_replicate, hheader,
    Nat.add_assoc, DisMiniSql.Lib.Bytes.blit_of_inside (by rw [List.length_replicate]; omega),
    List.getElem_replicate]

end ZeroRow

/-- Rows of zeros with the same bitmap leave the same bytes. -/
theorem serializeFromKey_zeroRow_congr {schema : Schema} {null null' : Nat → Bool} {k : KeyManager}
    (hfew : schema.columns.length < 2 ^ 32)
    (hsize : (zeroRow schema null).layout.length ≤ k.keySize)
    (hsize' : (zeroRow schema null').layout.length ≤ k.keySize)
    (h : ∀ b < 32, (∃ i < schema.columns.length, null i = true ∧ i % 32 = b) ↔
      ∃ i < schema.columns.length, null' i = true ∧ i % 32 = b) (m : Bytes) (p : Nat) :
    k.serializeFromKey m p (zeroRow schema null) schema =
      k.serializeFromKey m p (zeroRow schema null') schema := by
  have hbitmap : Row.nullBitmap 0 (zeroRow schema null).fields 0 =
      Row.nullBitmap 0 (zeroRow schema null').fields 0 := by
    refine BitVec.eq_of_getLsbD_eq fun b hb => ?_
    rw [Bool.eq_iff_iff, getLsbD_zeroRow, getLsbD_zeroRow]
    exact h b hb
  rw [serializeFromKey_zeroRow schema null hfew hsize, serializeFromKey_zeroRow schema null' hfew
    hsize', hbitmap]

/-! ## Slots that are large enough -/

namespace KeyManager

variable {k : KeyManager} {schema : Schema}

/-- The longest key row: no field is null, and every string is as long as its column says. -/
def fullRow (schema : Schema) : Row :=
  ⟨schema.columns.map fun column =>
    match column.type with
    | .kTypeFloat => .float (some 0)
    | .kTypeChar => .char (some (List.replicate column.len.toNat 0))
    | _ => .int (some 0)⟩

/-- The row of the longest strings is a key of the schema. -/
theorem fullRow_keyOf (schema : Schema) : (fullRow schema).KeyOf schema := by
  unfold Row.KeyOf fullRow
  rw [List.forall₂_map_left_iff, List.forall₂_same]
  intro column _
  rcases column.admits with h | ⟨h | h, -⟩ <;> rw [h]
  · refine ⟨rfl, fun chars heq => ?_⟩
    cases heq
    rw [List.length_replicate]
  · exact ⟨rfl, fun _ heq => nomatch heq⟩
  · exact ⟨rfl, fun _ heq => nomatch heq⟩

/-- And takes exactly the bytes the condition counts. -/
theorem fullRow_length_layout (schema : Schema) :
    (fullRow schema).layout.length = schema.keyBytes := by
  rw [Row.length_layout, Schema.keyBytes, List.length_flatMap, fullRow, List.map_map]
  congr 2
  refine List.map_congr_left fun column _ => ?_
  unfold Column.keyBytes Function.comp
  rcases column.admits with h | ⟨h | h, hlen⟩
  · simp only [h, Field.layout, List.length_append, length_le32, List.length_replicate, if_true]
    omega
  · simp only [h, hlen]
    rfl
  · simp only [h, hlen]
    rfl

/-- With all fields null, or all but the first, the row is not longer than the smallest slot. -/
theorem length_zeroRow_le (schema : Schema) (first : Bool) :
    (zeroRow schema fun i => decide (i ≠ 0) || first).layout.length ≤ 16 := by
  rw [Row.length_layout]
  cases hcolumns : schema.columns with
  | nil => simp [zeroRow, hcolumns]
  | cons column columns =>
    have hrest : ∀ field ∈
        columns.mapIdx (fun i c => zeroField c.type (decide (i + 1 ≠ 0) || first)),
        field.isNull = true := by
      intro field hmem
      obtain ⟨i, hi⟩ := List.getElem?_of_mem hmem
      rw [List.getElem?_mapIdx] at hi
      obtain ⟨c, -, rfl⟩ := Option.map_eq_some_iff.mp hi
      rw [zeroField_isNull]
      rfl
    rw [zeroRow, hcolumns, List.mapIdx_cons, List.flatMap_cons, List.length_append,
      zeroField_layout, List.length_replicate, flatMap_layout_nulls hrest]
    cases first <;> decide

/-- A key row takes at most so much. -/
theorem keyBytes_le (hlen : ∀ column ∈ schema.columns, column.len.toNat ≤ 248) :
    schema.keyBytes ≤ 12 + 252 * schema.columns.length := by
  rw [Schema.keyBytes]
  refine Nat.add_le_add_left ?_ 12
  generalize schema.columns = columns at hlen
  induction columns with
  | nil => exact Nat.le_refl 0
  | cons column columns ih =>
    have hhead : column.keyBytes ≤ 252 := by
      have := hlen column List.mem_cons_self
      unfold Column.keyBytes
      split <;> omega
    have hrest := ih fun c hc => hlen c (List.mem_cons_of_mem column hc)
    rw [List.map_cons, List.sum_cons, List.length_cons]
    omega

/-- Slots that are right have room for the longest key row, and a bit for every column. -/
theorem SlotsFit.fits (h : k.SlotsFit schema) (hlow : 16 ≤ k.keySize)
    (hlen : ∀ column ∈ schema.columns, column.len.toNat ≤ 248) :
    schema.keyBytes ≤ k.keySize ∧ schema.columns.length ≤ 32 := by
  have hfew : schema.columns.length < 2 ^ 32 := by
    obtain ⟨size, hsize, -⟩ := h.size_le _ (zeroRow_keyOf schema fun _ => true)
    unfold Row.getSerializedSize at hsize
    split at hsize
    · cases hsize
    · next hcount =>
      rw [Schema.getColumnCount, zeroRow_length, not_not] at hcount
      rw [← hcount]
      exact Nat.mod_lt _ (by decide)
  have hcolumns : schema.columns.length ≤ 32 := by
    refine Nat.le_of_not_lt fun hmany => ?_
    -- all fields null, and all fields null but the first: the 33rd fills the bit of the first
    have hsize (first : Bool) := Nat.le_trans (length_zeroRow_le schema first) hlow
    have hbits (first : Bool) : ∀ b < 32,
        ∃ i < schema.columns.length, (decide (i ≠ 0) || first) = true ∧ i % 32 = b := by
      intro b hb
      by_cases hzero : b = 0
      · exact ⟨32, hmany, rfl, hzero.symm⟩
      · exact ⟨b, by omega, by simp [hzero], Nat.mod_eq_of_lt hb⟩
    have hsame := serializeFromKey_zeroRow_congr hfew (hsize true) (hsize false)
      (fun b hb => iff_of_true (hbits true b hb) (hbits false b hb)) (fun _ => 0) 0
    have hne : (zeroRow schema fun i => decide (i ≠ 0) || true) ≠
        zeroRow schema fun i => decide (i ≠ 0) || false := by
      intro heq
      have hlt : 0 < (zeroRow schema fun i => decide (i ≠ 0) || true).fields.length := by
        rw [zeroRow_length]
        omega
      obtain ⟨field, hfirst⟩ : ∃ field,
          (zeroRow schema fun i => decide (i ≠ 0) || true).fields[0]? = some field :=
        ⟨_, List.getElem?_eq_getElem hlt⟩
      have htrue := zeroRow_getElem? schema _ hfirst
      rw [heq] at hfirst
      have hfalse := zeroRow_getElem? schema _ hfirst
      rw [htrue] at hfalse
      cases hfalse
    obtain ⟨m, hm, -⟩ := h.inside _ (zeroRow_keyOf schema fun i => decide (i ≠ 0) || true)
      (fun _ => 0) 0
    exact h.distinct _ _ (zeroRow_keyOf schema _) (zeroRow_keyOf schema _) hne _ _ m m 0 0 hm
      (hsame ▸ hm) rfl
  refine ⟨?_, hcolumns⟩
  obtain ⟨size, hsize, hle⟩ := h.size_le _ (fullRow_keyOf schema)
  have hbound := keyBytes_le hlen
  rw [Row.getSerializedSize_eq (fullRow_keyOf schema).of
    (by rw [(fullRow_keyOf schema).length_eq]; exact hfew) ((fullRow_keyOf schema).short hlen),
    fullRow_length_layout, uint32_of_lt (by omega), Option.some.injEq] at hsize
  rwa [hsize]

/-- A slot with room for the longest key row holds every key row. -/
theorem length_layout_le_of_fits (hfits : schema.keyBytes ≤ k.keySize) {row : Row}
    (hrow : row.KeyOf schema) : row.layout.length ≤ k.keySize :=
  Nat.le_trans hrow.length_layout_le hfits

/-- Slots with room for the longest key row and a bit for every column are right. -/
theorem slotsFit_of_fits (hfits : schema.keyBytes ≤ k.keySize)
    (hcolumns : schema.columns.length ≤ 32)
    (hhigh : k.keySize ≤ 256) (hlen : ∀ column ∈ schema.columns, column.len.toNat ≤ 248) :
    k.SlotsFit schema := by
  have hfew {row : Row} (hrow : row.KeyOf schema) : row.fields.length < 2 ^ 32 := by
    rw [hrow.length_eq]
    omega
  have hsize {row : Row} (hrow : row.KeyOf schema) : uint32 row.layout.length = row.layout.length :=
    uint32_of_lt (by have := length_layout_le_of_fits hfits hrow; omega)
  have hle {row : Row} (hrow : row.KeyOf schema) : uint32 row.layout.length ≤ k.keySize := by
    rw [hsize hrow]
    exact length_layout_le_of_fits hfits hrow
  constructor
  · exact fun row hrow => ⟨_, Row.getSerializedSize_eq hrow.of (hfew hrow) (hrow.short hlen),
      hle hrow⟩
  · intro row hrow m p
    refine ⟨_, serializeFromKey_eq hrow.of (hfew hrow) (hrow.short hlen) (hle hrow) m p, ?_⟩
    intro i hi
    have := length_layout_le_of_fits hfits hrow
    rw [DisMiniSql.Lib.Bytes.blit_of_outside (by omega),
      DisMiniSql.Lib.Bytes.blit_of_outside (by rw [List.length_replicate]; exact hi)]
  · intro row row' hrow hrow' hne m m' n n' p p' hn hn' hsame
    -- the bytes of the first key stand in the second slot too, so it is read as the first key
    have hholds := holds_of_serializeFromKey hrow.of (hfew hrow) (hrow.short hlen) (hle hrow) hn
    have hholds' :=
      holds_of_serializeFromKey hrow'.of (hfew hrow') (hrow'.short hlen) (hle hrow') hn'
    have hcodable {r : Row} (hr : r.KeyOf schema) : r.Codable := by
      refine ⟨hfew hr, fun i j f g hf hg hij => ?_, hr.short hlen⟩
      have hi := (List.getElem?_eq_some_iff.mp hf).1
      have hj := (List.getElem?_eq_some_iff.mp hg).1
      have := hr.length_eq
      obtain rfl : i = j := by omega
      rw [hf, Option.some.injEq] at hg
      rw [hg]
    have hshift : ∀ i < k.keySize, n' (p' + i) = n (p + i) := by
      intro i hi
      have := congrArg (fun l => l[i]?) hsame
      simpa [DisMiniSql.Lib.Bytes.slice, hi] using this.symm
    have hfirst : n'.Holds p' row.layout := by
      intro i hi
      rw [hshift i (Nat.lt_of_lt_of_le hi (length_layout_le_of_fits hfits hrow))]
      exact hholds i hi
    have hread := Row.deserializeFrom_eq hrow.of (hcodable hrow) hfirst
    rw [Row.deserializeFrom_eq hrow'.of (hcodable hrow') hholds', Option.some.injEq,
      Prod.mk.injEq] at hread
    exact hne hread.1.symm

end KeyManager

/-- The slots of an index are right exactly if the header, the declared lengths and four bytes for
each string are together not more than the size that `CreateIndex` chose, and there are at most 32
columns. -/
theorem key_slots_fit_iff {schema : Schema} {indexType : String} {k : KeyManager}
    (h : createIndex schema indexType = some k) :
    k.SlotsFit schema ↔ schema.keyBytes ≤ k.keySize ∧ schema.columns.length ≤ 32 := by
  obtain ⟨-, hlow, hhigh, hlen⟩ := createIndex_spec h
  exact ⟨fun hfit => hfit.fits hlow hlen,
    fun hfits => KeyManager.slotsFit_of_fits hfits.1 hfits.2 hhigh hlen⟩

/-- An index on one column of integers. -/
theorem key_slots_fit_one :
    KeyManager.SlotsFit ⟨16, ⟨[intColumn [105]]⟩⟩ ⟨[intColumn [105]]⟩ ↔
      Schema.keyBytes ⟨[intColumn [105]]⟩ ≤ 16 ∧ [intColumn [105]].length ≤ 32 :=
  @key_slots_fit_iff _ "bptree" _ (by decide)

/-- For two columns of integers `CreateIndex` chooses slots of 16 bytes, and the key takes 20. -/
theorem key_of_two_columns_overflows :
    createIndex ⟨[intColumn [105], intColumn [106]]⟩ "bptree" =
        some ⟨16, ⟨[intColumn [105], intColumn [106]]⟩⟩ ∧
      (Row.mk [.int (some 1), .int (some 2)]).KeyOf ⟨[intColumn [105], intColumn [106]]⟩ ∧
      (Row.mk [.int (some 1), .int (some 2)]).getSerializedSize
        ⟨[intColumn [105], intColumn [106]]⟩ = some 20 ∧
      ¬ KeyManager.SlotsFit ⟨16, ⟨[intColumn [105], intColumn [106]]⟩⟩
        ⟨[intColumn [105], intColumn [106]]⟩ := by
  have hkey : (Row.mk [.int (some 1), .int (some 2)]).KeyOf
      ⟨[intColumn [105], intColumn [106]]⟩ :=
    .cons ⟨rfl, fun _ h => nomatch h⟩ (.cons ⟨rfl, fun _ h => nomatch h⟩ .nil)
  refine ⟨by decide, hkey, by decide, fun h => ?_⟩
  obtain ⟨size, hsize, hle⟩ := h.size_le _ hkey
  have hsize' : some 20 = some size := hsize
  cases hsize'
  exact absurd hle (by decide)

end DisMiniSql.MiniSql.Record
