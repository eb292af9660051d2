import Mathlib.Algebra.GroupWithZero.Nat
import Mathlib.Data.List.Forall2
import DisMiniSql.MiniSql.Catalog.Metadata

/-!
# `DisMiniSql.Proofs.Record.Metadata`: the metadata survive the disk

The layout of a value is the list of the bytes that stand for it. `SerializeTo` writes the layout,
`DeserializeFrom` takes a layout for its value, and `GetSerializedSize` is its length, as long as
the length is a `uint32_t`. `RoundTrips` puts the three together, and `metadata_round_trip` says so
of the five kinds of metadata, up to the size of a page.
-/

set_option autoImplicit false

namespace DisMiniSql.MiniSql.Record

open DisMiniSql.Lib (Bytes writeAll readAll Writes Reads)
open DisMiniSql.Lib.Bytes (le32 set32_eq_blit blit_append holds_append length_le32)

/-! ## Numbers -/

/-- A number below 2^32 is stored as it is. -/
theorem uint32_of_lt {n : Nat} (h : n < 2 ^ 32) : uint32 n = n := Nat.mod_eq_of_lt h

/-- In particular every length on a page. -/
theorem uint32_of_le {n : Nat} (h : n ≤ PAGE_SIZE) : uint32 n = n :=
  uint32_of_lt (Nat.lt_of_le_of_lt h (by decide))

/-- An `uint32_t` is read back. -/
theorem ofNat_get32 {m : Bytes} {a : Nat} {n : UInt32} (h : m.Holds a (le32 n.toNat)) :
    UInt32.ofNat (m.get32 a) = n := by
  rw [h.get32 n.toNat_lt, UInt32.ofNat_toNat]

/-- A `page_id_t` is read back. -/
theorem readPageId_of_holds {m : Bytes} {a : Nat} {pageId : Int32}
    (h : m.Holds a (le32 (pageBits pageId))) : readPageId m a = pageId := by
  rw [readPageId, h.get32 (UInt32.toNat_lt _), pageBits, UInt32.ofNat_toNat,
    Int32.toInt32_toUInt32]

/-- A `bool` is read back. -/
theorem bool_of_holds {m : Bytes} {a : Nat} {b : Bool} (h : m.Holds a (le32 b.toNat)) :
    (m.get32 a != 0) = b := by
  rw [h.get32 (Nat.lt_of_le_of_lt (Bool.toNat_le b) (by decide))]
  cases b <;> rfl

/-- A type is read back. -/
theorem type_of_holds {m : Bytes} {a : Nat} {type : TypeId} (h : m.Holds a (le32 type.number)) :
    TypeId.ofNumber (m.get32 a) = some type := by
  have hlt : type.number < 2 ^ 32 := by cases type <;> decide
  rw [h.get32 hlt]
  cases type <;> rfl

/-! ## `Column` -/

namespace Column

/-- The bytes of a column. -/
def layout (column : Column) : List UInt8 :=
  le32 COLUMN_MAGIC_NUM ++ (le32 column.name.length ++ (column.name ++
    (le32 column.type.number ++ (le32 column.len.toNat ++ (le32 column.tableInd.toNat ++
      (le32 column.nullable.toNat ++ le32 column.unique.toNat))))))

/-- The bytes of a column. -/
theorem length_layout (column : Column) : column.layout.length = 28 + column.name.length := by
  simp only [layout, List.length_append, length_le32]
  omega

variable {column : Column}

/-- The length of a column's name does not wrap. -/
theorem uint32_nameLen (h : column.layout.length < 2 ^ 32) :
    uint32 column.name.length = column.name.length := by
  rw [length_layout] at h
  exact uint32_of_lt (by omega)

/-- The distance that both functions return. -/
theorem uint32_end (h : column.layout.length < 2 ^ 32) (p : Nat) :
    uint32 (p + 4 + 4 + column.name.length + 4 + 4 + 4 + 4 + 4 - p) = column.layout.length := by
  rw [← uint32_of_lt h, length_layout]
  congr 1
  omega

/-- `SerializeTo` writes the layout. -/
theorem writes (h : column.layout.length < 2 ^ 32) : Writes column.serializeTo column.layout := by
  intro m p
  simp only [serializeTo, uint32_nameLen h, uint32_end h]
  simp only [set32_eq_blit, layout, blit_append, length_le32]

/-- `GetSerializedSize` is the length of the layout. -/
theorem getSerializedSize_eq (h : column.layout.length < 2 ^ 32) :
    column.getSerializedSize = column.layout.length := by
  rw [getSerializedSize, ← length_layout, uint32_of_lt h]

/-- The constructors give a column back for what it has. -/
theorem construct (column : Column) :
    (if column.type = .kTypeChar then
      newChar column.name column.type column.len column.tableInd column.nullable column.unique
    else newNumber column.name column.type column.tableInd column.nullable column.unique) =
      some column := by
  obtain ⟨name, type, len, tableInd, nullable, unique, admits⟩ := column
  rcases admits with rfl | ⟨rfl | rfl, rfl⟩
  · rfl
  · rfl
  · rfl

/-- `DeserializeFrom` takes the layout for the column. -/
theorem reads (h : column.layout.length < 2 ^ 32) : Reads deserializeFrom column.layout column := by
  intro m p hm
  have hname : column.name.length < 2 ^ 32 := by
    rw [length_layout] at h
    omega
  simp only [layout, holds_append, length_le32] at hm
  obtain ⟨hmagic, hlen, hbytes, htype, hcol, hind, hnull, huniq⟩ := hm
  unfold deserializeFrom
  rw [hmagic.get32 (by decide), if_neg (not_not_intro rfl)]
  simp only [hlen.get32 hname, hbytes.slice, type_of_holds htype, ofNat_get32 hcol,
    ofNat_get32 hind, bool_of_holds hnull, bool_of_holds huniq, construct, uint32_end h]

end Column

/-! ## Loops -/

/-- The size of a sequence of parts, added up as `uint32_t`. -/
theorem foldl_uint32 {α : Type} (size : α → Nat) (xs : List α) {n : Nat}
    (h : n + (xs.map size).sum < 2 ^ 32) :
    xs.foldl (fun ofs x => uint32 (ofs + size x)) n = n + (xs.map size).sum := by
  induction xs generalizing n with
  | nil => rfl
  | cons x xs ih =>
    rw [List.map_cons, List.sum_cons] at h ⊢
    show xs.foldl (fun ofs x => uint32 (ofs + size x)) (uint32 (n + size x)) = _
    rw [uint32_of_lt (by omega), ih (by omega)]
    omega

/-- A loop that turns as often as there are values, with the same reader in every turn. -/
theorem readAll_range {α : Type} {read : Bytes → Nat → Option (α × Nat)} {bytes : α → List UInt8}
    {xs : List α} (h : ∀ x ∈ xs, Reads read (bytes x) x) {m : Bytes} {p : Nat}
    (hm : m.Holds p (xs.flatMap bytes)) :
    readAll (fun _ => read) (List.range xs.length) m p =
      some (xs, p + (xs.flatMap bytes).length) := by
  refine DisMiniSql.Lib.readAll_eq (List.forall₂_iff_get.mpr ⟨List.length_range, ?_⟩) hm
  exact fun i _ hi => h _ (List.get_mem xs ⟨i, hi⟩)

/-- As many parts of at least one byte fit into so many bytes. -/
theorem length_le_flatMap {α : Type} {bytes : α → List UInt8} (h : ∀ x, 0 < (bytes x).length)
    (xs : List α) : xs.length ≤ (xs.flatMap bytes).length := by
  induction xs with
  | nil => exact Nat.le_refl 0
  | cons x xs ih =>
    have := h x
    rw [List.flatMap_cons, List.length_append, List.length_cons]
    omega

/-! ## `Schema` -/

namespace Schema

/-- The bytes of a schema. -/
def layout (schema : Schema) : List UInt8 :=
  le32 SCHEMA_MAGIC_NUM ++ (le32 schema.columns.length ++ schema.columns.flatMap Column.layout)

/-- The bytes of a schema. -/
theorem length_layout (schema : Schema) :
    schema.layout.length = 8 + (schema.columns.flatMap Column.layout).length := by
  simp only [layout, List.length_append, length_le32]
  omega

variable {schema : Schema}

/-- Every column is shorter than the schema. -/
theorem length_column_lt (h : schema.layout.length < 2 ^ 32) :
    ∀ column ∈ schema.columns, column.layout.length < 2 ^ 32 := by
  intro column hmem
  have hle : column.layout.length ≤ (schema.columns.flatMap Column.layout).length := by
    obtain ⟨before, after, heq⟩ := List.append_of_mem hmem
    rw [heq, List.flatMap_append, List.flatMap_cons, List.length_append, List.length_append]
    omega
  rw [length_layout] at h
  omega

/-- The number of columns does not wrap. -/
theorem length_columns_lt (h : schema.layout.length < 2 ^ 32) :
    schema.columns.length < 2 ^ 32 := by
  have hpos : ∀ c : Column, 0 < c.layout.length := fun c => by rw [Column.length_layout]; omega
  have := length_le_flatMap hpos schema.columns
  rw [length_layout] at h
  omega

/-- The distance that both functions return. -/
theorem uint32_end (h : schema.layout.length < 2 ^ 32) (p : Nat) :
    uint32 (p + 4 + 4 + (schema.columns.flatMap Column.layout).length - p) =
      schema.layout.length := by
  rw [← uint32_of_lt h, length_layout]
  congr 1
  omega

/-- `SerializeTo` writes the layout. -/
theorem writes (h : schema.layout.length < 2 ^ 32) : Writes schema.serializeTo schema.layout := by
  intro m p
  have hcolumns := DisMiniSql.Lib.writeAll_eq schema.columns
    fun c hc => Column.writes (length_column_lt h c hc)
  simp only [serializeTo, uint32_of_lt (length_columns_lt h), hcolumns, uint32_end h]
  simp only [set32_eq_blit, layout, blit_append, length_le32]

/-- `GetSerializedSize` is the length of the layout. -/
theorem getSerializedSize_eq (h : schema.layout.length < 2 ^ 32) :
    schema.getSerializedSize = schema.layout.length := by
  have hsum : (schema.columns.map Column.getSerializedSize).sum =
      (schema.columns.flatMap Column.layout).length := by
    rw [List.length_flatMap]
    exact congrArg List.sum (List.map_congr_left fun c hc =>
      Column.getSerializedSize_eq (length_column_lt h c hc))
  rw [length_layout] at h ⊢
  rw [getSerializedSize, foldl_uint32 _ _ (by rw [hsum]; exact h), hsum]

/-- `DeserializeFrom` takes the layout for the schema. -/
theorem reads (h : schema.layout.length < 2 ^ 32) : Reads deserializeFrom schema.layout schema := by
  intro m p hm
  simp only [layout, holds_append, length_le32] at hm
  obtain ⟨hmagic, hcount, hcolumns⟩ := hm
  have hread := readAll_range (fun c hc => Column.reads (length_column_lt h c hc)) hcolumns
  unfold deserializeFrom
  rw [hmagic.get32 (by decide), if_neg (not_not_intro rfl)]
  simp only [hcount.get32 (length_columns_lt h), hread, uint32_end h]

end Schema

/-! ## `TableMetadata` -/

namespace TableMetadata

/-- The bytes of the metadata of a table. -/
def layout (t : TableMetadata) : List UInt8 :=
  le32 TABLE_METADATA_MAGIC_NUM ++ (le32 t.tableId.toNat ++ (le32 t.tableName.length ++
    (t.tableName ++ (le32 (pageBits t.rootPageId) ++ (le32 (pageBits t.freespaceMapPageId) ++
      t.schema.layout)))))

/-- The bytes of a table's metadata. -/
theorem length_layout (t : TableMetadata) :
    t.layout.length = 20 + t.tableName.length + t.schema.layout.length := by
  simp only [layout, List.length_append, length_le32]
  omega

variable {t : TableMetadata}

/-- `GetSerializedSize` is the length of the layout. -/
theorem getSerializedSize_eq (h : t.layout.length ≤ PAGE_SIZE) :
    t.getSerializedSize = t.layout.length := by
  have hlength := length_layout t
  have hschema : t.schema.layout.length < 2 ^ 32 :=
    Nat.lt_of_le_of_lt (by omega : _ ≤ PAGE_SIZE) (by decide)
  unfold getSerializedSize
  have hname : uint32 (4 + 4 + 4 + t.tableName.length) = 12 + t.tableName.length :=
    uint32_of_le (by omega)
  have hpages : uint32 (12 + t.tableName.length + 4 + 4) = 20 + t.tableName.length := by
    rw [uint32_of_le (by omega)]
    omega
  simp only [Schema.getSerializedSize_eq hschema, hname, hpages]
  rw [← hlength, uint32_of_le h]

/-- `SerializeTo` writes the layout. -/
theorem serializeTo_eq (h : t.layout.length ≤ PAGE_SIZE) (m : Bytes) (p : Nat) :
    t.serializeTo m p = some (m.blit p t.layout, t.layout.length) := by
  have hlength := length_layout t
  have hschema : t.schema.layout.length < 2 ^ 32 :=
    Nat.lt_of_le_of_lt (by omega : _ ≤ PAGE_SIZE) (by decide)
  have hname : uint32 t.tableName.length = t.tableName.length := uint32_of_le (by omega)
  have hsize : p + 4 + 4 + 4 + t.tableName.length + 4 + 4 + t.schema.layout.length - p =
      t.layout.length := by omega
  simp only [serializeTo, getSerializedSize_eq h, h, not_true_eq_false, if_false,
    Schema.writes hschema _ _, hname, hsize, ne_eq]
  simp only [set32_eq_blit, layout, blit_append, length_le32]

/-- `DeserializeFrom` takes the layout for the metadata. -/
theorem reads (h : t.layout.length ≤ PAGE_SIZE) : Reads deserializeFrom t.layout t := by
  intro m p hm
  have hlength := length_layout t
  have hschema : t.schema.layout.length < 2 ^ 32 :=
    Nat.lt_of_le_of_lt (by omega : _ ≤ PAGE_SIZE) (by decide)
  have hname : t.tableName.length < 2 ^ 32 :=
    Nat.lt_of_le_of_lt (by omega : _ ≤ PAGE_SIZE) (by decide)
  have hsize : uint32 (p + 4 + 4 + 4 + t.tableName.length + 4 + 4 + t.schema.layout.length - p) =
      t.layout.length := by
    rw [← uint32_of_le h]
    congr 1
    omega
  simp only [layout, holds_append, length_le32] at hm
  obtain ⟨hmagic, hid, hlen, hbytes, hroot, hmap, hcolumns⟩ := hm
  unfold deserializeFrom
  rw [hmagic.get32 (by decide)]
  simp only [ne_eq, not_true_eq_false, if_false, ofNat_get32 hid, hlen.get32 hname, hbytes.slice,
    readPageId_of_holds hroot, readPageId_of_holds hmap, Schema.reads hschema m _ hcolumns, hsize]

end TableMetadata

/-! ## `IndexMetadata` -/

namespace IndexMetadata

/-- The bytes of the metadata of an index. -/
def layout (i : IndexMetadata) : List UInt8 :=
  le32 INDEX_METADATA_MAGIC_NUM ++ (le32 i.indexId.toNat ++ (le32 i.indexName.length ++
    (i.indexName ++ (le32 i.tableId.toNat ++ (le32 i.keyMap.length ++
      i.keyMap.flatMap fun n => le32 n.toNat)))))

/-- The bytes of an index's metadata. -/
theorem length_layout (i : IndexMetadata) :
    i.layout.length = 20 + i.indexName.length + 4 * i.keyMap.length := by
  simp only [layout, List.length_append, length_le32, List.length_flatMap, List.map_const',
    List.sum_replicate_nat]
  omega

variable {i : IndexMetadata}

/-- `GetSerializedSize` is the length of the layout. -/
theorem getSerializedSize_eq (h : i.layout.length ≤ PAGE_SIZE) :
    i.getSerializedSize = i.layout.length := by
  have hlength := length_layout i
  have hsum : (i.keyMap.map fun _ => 4).sum = 4 * i.keyMap.length := by
    rw [List.map_const', List.sum_replicate_nat, Nat.mul_comm]
  have hname : uint32 (4 + 4 + 4 + i.indexName.length) = 12 + i.indexName.length :=
    uint32_of_le (by omega)
  have htable : uint32 (12 + i.indexName.length + 4 + 4) = 20 + i.indexName.length := by
    rw [uint32_of_le (by omega)]
    omega
  have hfits : 20 + i.indexName.length + (i.keyMap.map fun _ => 4).sum < 2 ^ 32 := by
    rw [hsum, ← hlength]
    exact Nat.lt_of_le_of_lt h (by decide)
  simp only [getSerializedSize, hname, htable]
  rw [foldl_uint32 (fun _ => 4) i.keyMap hfits, hsum, hlength]

/-- `SerializeTo` writes the layout. -/
theorem serializeTo_eq (h : i.layout.length ≤ PAGE_SIZE) (m : Bytes) (p : Nat) :
    i.serializeTo m p = some (m.blit p i.layout, i.layout.length) := by
  have hlength := length_layout i
  have hname : uint32 i.indexName.length = i.indexName.length := uint32_of_le (by omega)
  have hcount : uint32 i.keyMap.length = i.keyMap.length := uint32_of_le (by omega)
  have hwrite : ∀ n ∈ i.keyMap, Writes (writeUint32 n) (le32 n.toNat) := fun n _ m p => rfl
  have hkeys := DisMiniSql.Lib.writeAll_eq i.keyMap hwrite
  have hflat : (i.keyMap.flatMap fun n => le32 n.toNat).length = 4 * i.keyMap.length := by
    simp only [List.length_flatMap, length_le32, List.map_const', List.sum_replicate_nat]
    omega
  have hsize : p + 4 + 4 + 4 + i.indexName.length + 4 + 4 +
      (i.keyMap.flatMap fun n => le32 n.toNat).length - p = i.layout.length := by omega
  simp only [serializeTo, getSerializedSize_eq h, h, not_true_eq_false, if_false, hname, hcount,
    hkeys, hsize, ne_eq]
  simp only [set32_eq_blit, layout, blit_append, length_le32]

/-- `DeserializeFrom` takes the layout for the metadata. -/
theorem reads (h : i.layout.length ≤ PAGE_SIZE) : Reads deserializeFrom i.layout i := by
  intro m p hm
  have hlength := length_layout i
  have hname : i.indexName.length < 2 ^ 32 :=
    Nat.lt_of_le_of_lt (by omega : _ ≤ PAGE_SIZE) (by decide)
  have hcount : i.keyMap.length < 2 ^ 32 :=
    Nat.lt_of_le_of_lt (by omega : _ ≤ PAGE_SIZE) (by decide)
  have hflat : (i.keyMap.flatMap fun n => le32 n.toNat).length = 4 * i.keyMap.length := by
    simp only [List.length_flatMap, length_le32, List.map_const', List.sum_replicate_nat]
    omega
  have hsize : uint32 (p + 4 + 4 + 4 + i.indexName.length + 4 + 4 +
      (i.keyMap.flatMap fun n => le32 n.toNat).length - p) = i.layout.length := by
    rw [← uint32_of_le h]
    congr 1
    omega
  simp only [layout, holds_append, length_le32] at hm
  obtain ⟨hmagic, hid, hlen, hbytes, htable, hkeyCount, hkeys⟩ := hm
  have hreads : ∀ n ∈ i.keyMap, Reads readUint32 (le32 n.toNat) n := by
    intro n _ m p hn
    rw [readUint32, ofNat_get32 hn]
    rfl
  have hread := readAll_range hreads hkeys
  unfold deserializeFrom
  rw [hmagic.get32 (by decide)]
  simp only [ne_eq, not_true_eq_false, if_false, ofNat_get32 hid, hlen.get32 hname, hbytes.slice,
    ofNat_get32 htable, hkeyCount.get32 hcount, hread, hsize]

end IndexMetadata

/-! ## `CatalogMeta` -/

/-- An entry with a larger id goes to the end. -/
theorem emplaceEntry_of_lt {entry : UInt32 × Int32} {l : List (UInt32 × Int32)}
    (h : ∀ e ∈ l, e.1 < entry.1) : emplaceEntry entry l = l ++ [entry] := by
  induction l with
  | nil => rfl
  | cons e rest ih =>
    have he : e.1 < entry.1 := h e List.mem_cons_self
    rw [emplaceEntry, if_neg (UInt32.lt_asymm he), if_pos he,
      ih fun x hx => h x (List.mem_cons_of_mem e hx)]
    rfl

/-- Entries in the order of their ids fill the map with them. -/
theorem PageMap.foldl_emplace {l : List (UInt32 × Int32)} {pages : PageMap}
    (h : (pages.entries ++ l).Pairwise fun a b => a.1 < b.1) :
    (l.foldl PageMap.emplace pages).entries = pages.entries ++ l := by
  induction l generalizing pages with
  | nil => rw [List.append_nil]; rfl
  | cons e rest ih =>
    have hlast : ∀ x ∈ pages.entries, x.1 < e.1 := fun x hx =>
      (List.pairwise_append.mp h).2.2 x hx e List.mem_cons_self
    have hone : (pages.emplace e).entries = pages.entries ++ [e] := emplaceEntry_of_lt hlast
    show (rest.foldl PageMap.emplace (pages.emplace e)).entries = _
    rw [ih (by rwa [hone, List.append_assoc]), hone, List.append_assoc]
    rfl

/-- The map is filled with its own entries. -/
theorem PageMap.foldl_emplace_empty (pages : PageMap) :
    pages.entries.foldl PageMap.emplace .empty = pages :=
  PageMap.ext (@PageMap.foldl_emplace _ .empty pages.sorted)

namespace CatalogMeta

/-- The bytes of an entry. -/
def entryLayout (entry : UInt32 × Int32) : List UInt8 :=
  le32 entry.1.toNat ++ le32 (pageBits entry.2)

/-- The bytes of the metadata of the catalog. -/
def layout (c : CatalogMeta) : List UInt8 :=
  le32 CATALOG_METADATA_MAGIC_NUM ++ (le32 c.tableMetaPages.entries.length ++
    (le32 c.indexMetaPages.entries.length ++ (c.tableMetaPages.entries.flatMap entryLayout ++
      c.indexMetaPages.entries.flatMap entryLayout)))

/-- The bytes of a list of meta pages. -/
theorem length_flatMap_entryLayout (l : List (UInt32 × Int32)) :
    (l.flatMap entryLayout).length = 8 * l.length := by
  have hentry : ∀ e : UInt32 × Int32, (entryLayout e).length = 8 := fun _ => rfl
  simp only [List.length_flatMap, hentry, List.map_const', List.sum_replicate_nat]
  omega

/-- The bytes of the catalog's metadata. -/
theorem length_layout (c : CatalogMeta) :
    c.layout.length =
      12 + 8 * c.tableMetaPages.entries.length + 8 * c.indexMetaPages.entries.length := by
  simp only [layout, List.length_append, length_le32, length_flatMap_entryLayout]
  omega

/-- An entry is written as its two numbers. -/
theorem writes_entry (entry : UInt32 × Int32) : Writes (writeEntry entry) (entryLayout entry) := by
  intro m p
  simp only [writeEntry, entryLayout, set32_eq_blit, blit_append, length_le32]
  rfl

/-- And read back. -/
theorem reads_entry (entry : UInt32 × Int32) : Reads readEntry (entryLayout entry) entry := by
  intro m p hm
  simp only [entryLayout, holds_append, length_le32] at hm
  rw [readEntry, ofNat_get32 hm.1, readPageId_of_holds hm.2]
  rfl

variable {c : CatalogMeta}

/-- `GetSerializedSize` is the length of the layout. -/
theorem getSerializedSize_eq (h : c.layout.length ≤ PAGE_SIZE) :
    c.getSerializedSize = c.layout.length := by
  have hlength := length_layout c
  have hpage : PAGE_SIZE < 2 ^ 32 := by decide
  have hsum : ∀ l : List (UInt32 × Int32), (l.map fun _ => 8).sum = 8 * l.length := fun l => by
    rw [List.map_const', List.sum_replicate_nat, Nat.mul_comm]
  have htables := foldl_uint32 (fun _ => 8) c.tableMetaPages.entries (n := 12)
    (by rw [hsum]; omega)
  have hindexes := foldl_uint32 (fun _ => 8) c.indexMetaPages.entries
    (n := 12 + 8 * c.tableMetaPages.entries.length) (by rw [hsum]; omega)
  rw [hsum] at htables hindexes
  show List.foldl (fun ofs _ => uint32 (ofs + 8))
    (List.foldl (fun ofs _ => uint32 (ofs + 8)) 12 c.tableMetaPages.entries)
    c.indexMetaPages.entries = _
  rw [htables, hindexes, hlength]

/-- `SerializeTo` writes the layout. -/
theorem serializeTo_eq (h : c.layout.length ≤ PAGE_SIZE) (m : Bytes) (p : Nat) :
    c.serializeTo m p = some (m.blit p c.layout, c.layout.length) := by
  have hlength := length_layout c
  have htables : uint32 c.tableMetaPages.entries.length = c.tableMetaPages.entries.length :=
    uint32_of_le (by omega)
  have hindexes : uint32 c.indexMetaPages.entries.length = c.indexMetaPages.entries.length :=
    uint32_of_le (by omega)
  have hentries (l : List (UInt32 × Int32)) :=
    DisMiniSql.Lib.writeAll_eq l fun e _ => writes_entry e
  have hsize : p + 4 + 4 + 4 + (c.tableMetaPages.entries.flatMap entryLayout).length +
      (c.indexMetaPages.entries.flatMap entryLayout).length - p = c.layout.length := by
    rw [length_flatMap_entryLayout, length_flatMap_entryLayout]
    omega
  simp only [serializeTo, getSerializedSize_eq h, h, not_true_eq_false, if_false, htables, hindexes,
    hentries, hsize]
  simp only [set32_eq_blit, layout, blit_append, length_le32]

/-- `DeserializeFrom` takes the layout for the metadata. -/
theorem reads (h : c.layout.length ≤ PAGE_SIZE) : Reads deserializeFrom c.layout c := by
  intro m p hm
  have hlength := length_layout c
  have hpage : PAGE_SIZE < 2 ^ 32 := by decide
  have htables : c.tableMetaPages.entries.length < 2 ^ 32 := by omega
  have hindexes : c.indexMetaPages.entries.length < 2 ^ 32 := by omega
  have hsize : p + 4 + 4 + 4 + (c.tableMetaPages.entries.flatMap entryLayout).length +
      (c.indexMetaPages.entries.flatMap entryLayout).length - p = c.layout.length := by
    rw [length_flatMap_entryLayout, length_flatMap_entryLayout]
    omega
  simp only [layout, holds_append, length_le32] at hm
  obtain ⟨hmagic, htableNums, hindexNums, htableEntries, hindexEntries⟩ := hm
  have hreadTables := readAll_range (fun e _ => reads_entry e) htableEntries
  have hreadIndexes := readAll_range (fun e _ => reads_entry e) hindexEntries
  unfold deserializeFrom
  rw [hmagic.get32 (by decide)]
  simp only [ne_eq, not_true_eq_false, if_false, htableNums.get32 htables,
    hindexNums.get32 hindexes, hreadTables, hreadIndexes, PageMap.foldl_emplace_empty, hsize]

end CatalogMeta

/-! ## Round trips -/

/-- `write` puts `size` bytes of `x` at any address of any memory and nothing elsewhere. From these
bytes `read` makes `x` again, whatever stands around them, and it takes `size` bytes for it. -/
def RoundTrips {α : Type} (write : Bytes → Nat → Option (Bytes × Nat))
    (read : Bytes → Nat → Option (α × Nat)) (size : Nat) (x : α) : Prop :=
  ∀ m p, ∃ m', write m p = some (m', size) ∧ (∀ i, i < p ∨ p + size ≤ i → m' i = m i) ∧
    ∀ m'' : Bytes, (∀ i, p ≤ i → i < p + size → m'' i = m' i) → read m'' p = some (x, size)

/-- A layout that is written and read gives a round trip. -/
theorem RoundTrips.of_layout {α : Type} {write : Bytes → Nat → Option (Bytes × Nat)}
    {read : Bytes → Nat → Option (α × Nat)} {bytes : List UInt8} {size : Nat} {x : α}
    (hwrite : ∀ m p, write m p = some (m.blit p bytes, bytes.length))
    (hread : Reads read bytes x) (hsize : size = bytes.length) : RoundTrips write read size x := by
  subst hsize
  intro m p
  refine ⟨m.blit p bytes, hwrite m p, fun i hi => DisMiniSql.Lib.Bytes.blit_of_outside hi, ?_⟩
  intro m'' hsame
  have hholds : (m.blit p bytes).Holds p bytes := DisMiniSql.Lib.Bytes.holds_blit
  refine hread m'' p (hholds.congr fun i hi => ?_)
  exact hsame (p + i) (Nat.le_add_right p i) (Nat.add_lt_add_left hi p)

/-- Every metadata value whose bytes fit into a page is read back as it was, from exactly the bytes
that were written, and these are as many as `GetSerializedSize` says. -/
theorem metadata_round_trip :
    (∀ c : Column, c.layout.length ≤ PAGE_SIZE →
      RoundTrips (fun m p => some (c.serializeTo m p)) Column.deserializeFrom c.getSerializedSize
        c) ∧
    (∀ s : Schema, s.layout.length ≤ PAGE_SIZE →
      RoundTrips (fun m p => some (s.serializeTo m p)) Schema.deserializeFrom s.getSerializedSize
        s) ∧
    (∀ t : TableMetadata, t.layout.length ≤ PAGE_SIZE →
      RoundTrips t.serializeTo TableMetadata.deserializeFrom t.getSerializedSize t) ∧
    (∀ i : IndexMetadata, i.layout.length ≤ PAGE_SIZE →
      RoundTrips i.serializeTo IndexMetadata.deserializeFrom i.getSerializedSize i) ∧
    (∀ c : CatalogMeta, c.layout.length ≤ PAGE_SIZE →
      RoundTrips c.serializeTo CatalogMeta.deserializeFrom c.getSerializedSize c) := by
  have hpage : ∀ {n : Nat}, n ≤ PAGE_SIZE → n < 2 ^ 32 := fun h =>
    Nat.lt_of_le_of_lt h (by decide)
  refine ⟨fun c h => ?_, fun s h => ?_, fun t h => ?_, fun i h => ?_, fun c h => ?_⟩
  · exact .of_layout (fun m p => congrArg some (Column.writes (hpage h) m p))
      (Column.reads (hpage h)) (Column.getSerializedSize_eq (hpage h))
  · exact .of_layout (fun m p => congrArg some (Schema.writes (hpage h) m p))
      (Schema.reads (hpage h)) (Schema.getSerializedSize_eq (hpage h))
  · exact .of_layout (TableMetadata.serializeTo_eq h) (TableMetadata.reads h)
      (TableMetadata.getSerializedSize_eq h)
  · exact .of_layout (IndexMetadata.serializeTo_eq h) (IndexMetadata.reads h)
      (IndexMetadata.getSerializedSize_eq h)
  · exact .of_layout (CatalogMeta.serializeTo_eq h) (CatalogMeta.reads h)
      (CatalogMeta.getSerializedSize_eq h)

/-- A column `id` of integers. -/
theorem metadata_round_trip_id :
    RoundTrips (fun m p => some (Column.serializeTo
        ⟨[105, 100], .kTypeInt, 4, 0, false, true, .inr ⟨.inl rfl, rfl⟩⟩ m p))
      Column.deserializeFrom
      (Column.getSerializedSize ⟨[105, 100], .kTypeInt, 4, 0, false, true, .inr ⟨.inl rfl, rfl⟩⟩)
      ⟨[105, 100], .kTypeInt, 4, 0, false, true, .inr ⟨.inl rfl, rfl⟩⟩ :=
  metadata_round_trip.1 _ (by decide)

end DisMiniSql.MiniSql.Record
