import DisMiniSql.MiniSql.Record.Column
import DisMiniSql.MiniSql.Config

/-!
# `DisMiniSql.MiniSql.Catalog.Metadata`: the metadata of the catalog, with their bytes

`TableMetadata` of `catalog/table.cpp`, `IndexMetadata` of `catalog/indexes.cpp` and `CatalogMeta`
of `catalog/catalog.cpp`. `none` is an `ASSERT` that fails.

`CatalogMeta::SerializeTo` and `CatalogMeta::DeserializeFrom` do not answer how far they went. The
number is added here.
-/

set_option autoImplicit false

namespace DisMiniSql.MiniSql.Record

open DisMiniSql.Lib (Bytes writeAll readAll)

/-- The four bytes of a `page_id_t`, as an unsigned number. -/
def pageBits (pageId : Int32) : Nat := pageId.toUInt32.toNat

/-- `MACH_READ_FROM(page_id_t, p)`. -/
def readPageId (buf : Bytes) (p : Nat) : Int32 := (UInt32.ofNat (buf.get32 p)).toInt32

/-! ## `TableMetadata` -/

/-- `TableMetadata`. -/
structure TableMetadata where
  tableId : UInt32
  tableName : List UInt8
  rootPageId : Int32
  freespaceMapPageId : Int32
  schema : Schema
  deriving DecidableEq

namespace TableMetadata

/-- `TableMetadata::TABLE_METADATA_MAGIC_NUM`. -/
def TABLE_METADATA_MAGIC_NUM : Nat := 344528

/-- `TableMetadata::GetSerializedSize`. -/
def getSerializedSize (t : TableMetadata) : Nat :=
  let ofs := 4 + 4 + 4
  let ofs := uint32 (ofs + t.tableName.length)
  let ofs := uint32 (ofs + 4 + 4)
  uint32 (ofs + t.schema.getSerializedSize)

/-- `TableMetadata::SerializeTo`. -/
def serializeTo (t : TableMetadata) (buf : Bytes) (start : Nat) : Option (Bytes × Nat) :=
  let ofs := t.getSerializedSize
  if ¬ ofs ≤ PAGE_SIZE then none
  else
    let buf := buf.set32 start TABLE_METADATA_MAGIC_NUM
    let p := start + 4
    let buf := buf.set32 p t.tableId.toNat
    let p := p + 4
    let buf := buf.set32 p (uint32 t.tableName.length)
    let p := p + 4
    let buf := buf.blit p t.tableName
    let p := p + t.tableName.length
    let buf := buf.set32 p (pageBits t.rootPageId)
    let p := p + 4
    let buf := buf.set32 p (pageBits t.freespaceMapPageId)
    let p := p + 4
    let (buf, n) := t.schema.serializeTo buf p
    let p := p + n
    if p - start ≠ ofs then none else some (buf, ofs)

/-- `TableMetadata::DeserializeFrom`. -/
def deserializeFrom (buf : Bytes) (start : Nat) : Option (TableMetadata × Nat) :=
  let magicNum := buf.get32 start
  let p := start + 4
  if magicNum ≠ TABLE_METADATA_MAGIC_NUM then none
  else
    let tableId := UInt32.ofNat (buf.get32 p)
    let p := p + 4
    let len := buf.get32 p
    let p := p + 4
    let tableName := buf.slice p len
    let p := p + len
    let rootPageId := readPageId buf p
    let p := p + 4
    let freespaceMapPageId := readPageId buf p
    let p := p + 4
    match Schema.deserializeFrom buf p with
    | none => none
    | some (schema, n) =>
      let p := p + n
      some (⟨tableId, tableName, rootPageId, freespaceMapPageId, schema⟩, uint32 (p - start))

end TableMetadata

/-! ## `IndexMetadata` -/

/-- `IndexMetadata`. -/
structure IndexMetadata where
  indexId : UInt32
  indexName : List UInt8
  tableId : UInt32
  /-- The columns of the table that are the key. -/
  keyMap : List UInt32
  deriving DecidableEq

/-- `MACH_WRITE_UINT32`, with the bytes that the pointer moves on. -/
def writeUint32 (n : UInt32) (buf : Bytes) (p : Nat) : Bytes × Nat := (buf.set32 p n.toNat, 4)

/-- `MACH_READ_UINT32`, with the bytes that the pointer moves on. -/
def readUint32 (buf : Bytes) (p : Nat) : Option (UInt32 × Nat) :=
  some (UInt32.ofNat (buf.get32 p), 4)

namespace IndexMetadata

/-- `IndexMetadata::INDEX_METADATA_MAGIC_NUM`. -/
def INDEX_METADATA_MAGIC_NUM : Nat := 344528

/-- `IndexMetadata::GetSerializedSize`. -/
def getSerializedSize (i : IndexMetadata) : Nat :=
  let ofs := 4 + 4 + 4
  let ofs := uint32 (ofs + i.indexName.length)
  let ofs := uint32 (ofs + 4 + 4)
  i.keyMap.foldl (fun ofs _ => uint32 (ofs + 4)) ofs

/-- `IndexMetadata::SerializeTo`. -/
def serializeTo (i : IndexMetadata) (buf : Bytes) (start : Nat) : Option (Bytes × Nat) :=
  let ofs := i.getSerializedSize
  if ¬ ofs ≤ PAGE_SIZE then none
  else
    let buf := buf.set32 start INDEX_METADATA_MAGIC_NUM
    let p := start + 4
    let buf := buf.set32 p i.indexId.toNat
    let p := p + 4
    let buf := buf.set32 p (uint32 i.indexName.length)
    let p := p + 4
    let buf := buf.blit p i.indexName
    let p := p + i.indexName.length
    let buf := buf.set32 p i.tableId.toNat
    let p := p + 4
    let buf := buf.set32 p (uint32 i.keyMap.length)
    let p := p + 4
    let (buf, p) := writeAll writeUint32 i.keyMap buf p
    if p - start ≠ ofs then none else some (buf, ofs)

/-- `IndexMetadata::DeserializeFrom`. -/
def deserializeFrom (buf : Bytes) (start : Nat) : Option (IndexMetadata × Nat) :=
  let magicNum := buf.get32 start
  let p := start + 4
  if magicNum ≠ INDEX_METADATA_MAGIC_NUM then none
  else
    let indexId := UInt32.ofNat (buf.get32 p)
    let p := p + 4
    let len := buf.get32 p
    let p := p + 4
    let indexName := buf.slice p len
    let p := p + len
    let tableId := UInt32.ofNat (buf.get32 p)
    let p := p + 4
    let indexKeyCount := buf.get32 p
    let p := p + 4
    match readAll (fun _ => readUint32) (List.range indexKeyCount) buf p with
    | none => none
    | some (keyMap, p) => some (⟨indexId, indexName, tableId, keyMap⟩, uint32 (p - start))

end IndexMetadata

/-! ## `CatalogMeta` -/

/-- `std::map<table_id_t, page_id_t>`: the entries in the order of the ids. -/
@[ext] structure PageMap where
  entries : List (UInt32 × Int32)
  sorted : entries.Pairwise fun a b => a.1 < b.1
  deriving DecidableEq

/-- `emplace` on the entries of a map. -/
def emplaceEntry (entry : UInt32 × Int32) : List (UInt32 × Int32) → List (UInt32 × Int32)
  | [] => [entry]
  | e :: rest =>
    if entry.1 < e.1 then entry :: e :: rest
    else if e.1 < entry.1 then e :: emplaceEntry entry rest
    else e :: rest

/-- Every entry of the map with one more is that one or was there. -/
theorem mem_of_mem_emplaceEntry {entry x : UInt32 × Int32} {l : List (UInt32 × Int32)}
    (h : x ∈ emplaceEntry entry l) : x = entry ∨ x ∈ l := by
  induction l with
  | nil => exact Or.inl (List.mem_singleton.mp h)
  | cons e rest ih =>
    unfold emplaceEntry at h
    split at h
    · exact List.mem_cons.mp h
    · split at h
      · rcases List.mem_cons.mp h with rfl | hrest
        · exact Or.inr List.mem_cons_self
        · exact (ih hrest).imp_right (List.mem_cons_of_mem e)
      · exact Or.inr h

/-- `emplace` keeps the order. -/
theorem sorted_emplaceEntry (entry : UInt32 × Int32) {l : List (UInt32 × Int32)}
    (h : l.Pairwise fun a b => a.1 < b.1) :
    (emplaceEntry entry l).Pairwise fun a b => a.1 < b.1 := by
  induction l with
  | nil => exact List.pairwise_singleton _ entry
  | cons e rest ih =>
    obtain ⟨he, hrest⟩ := List.pairwise_cons.mp h
    unfold emplaceEntry
    split
    · next hlt =>
      refine List.pairwise_cons.mpr ⟨fun x hx => ?_, h⟩
      rcases List.mem_cons.mp hx with rfl | hx'
      · exact hlt
      · exact UInt32.lt_trans hlt (he x hx')
    · split
      · next hgt =>
        refine List.pairwise_cons.mpr ⟨fun x hx => ?_, ih hrest⟩
        rcases mem_of_mem_emplaceEntry hx with rfl | hx'
        · exact hgt
        · exact he x hx'
      · exact h

/-- `emplace` of a map. -/
def PageMap.emplace (pages : PageMap) (entry : UInt32 × Int32) : PageMap :=
  ⟨emplaceEntry entry pages.entries, sorted_emplaceEntry entry pages.sorted⟩

/-- The empty map. -/
def PageMap.empty : PageMap := ⟨[], List.Pairwise.nil⟩

/-- `CatalogMeta`. -/
structure CatalogMeta where
  tableMetaPages : PageMap
  indexMetaPages : PageMap
  deriving DecidableEq

namespace CatalogMeta

/-- `CatalogMeta::CATALOG_METADATA_MAGIC_NUM`. -/
def CATALOG_METADATA_MAGIC_NUM : Nat := 89849

/-- One turn of the loops of `SerializeTo`. -/
def writeEntry (entry : UInt32 × Int32) (buf : Bytes) (p : Nat) : Bytes × Nat :=
  let buf := buf.set32 p entry.1.toNat
  let p := p + 4
  let buf := buf.set32 p (pageBits entry.2)
  (buf, 4 + 4)

/-- One turn of the loops of `DeserializeFrom`. -/
def readEntry (buf : Bytes) (p : Nat) : Option ((UInt32 × Int32) × Nat) :=
  some ((UInt32.ofNat (buf.get32 p), readPageId buf (p + 4)), 4 + 4)

/-- `CatalogMeta::GetSerializedSize`. -/
def getSerializedSize (c : CatalogMeta) : Nat :=
  let ofs := 4 + 4 + 4
  let ofs := c.tableMetaPages.entries.foldl (fun ofs _ => uint32 (ofs + 4 + 4)) ofs
  c.indexMetaPages.entries.foldl (fun ofs _ => uint32 (ofs + 4 + 4)) ofs

/-- `CatalogMeta::SerializeTo`. -/
def serializeTo (c : CatalogMeta) (buf : Bytes) (start : Nat) : Option (Bytes × Nat) :=
  if ¬ c.getSerializedSize ≤ PAGE_SIZE then none
  else
    let buf := buf.set32 start CATALOG_METADATA_MAGIC_NUM
    let p := start + 4
    let buf := buf.set32 p (uint32 c.tableMetaPages.entries.length)
    let p := p + 4
    let buf := buf.set32 p (uint32 c.indexMetaPages.entries.length)
    let p := p + 4
    let (buf, p) := writeAll writeEntry c.tableMetaPages.entries buf p
    let (buf, p) := writeAll writeEntry c.indexMetaPages.entries buf p
    some (buf, p - start)

/-- `CatalogMeta::DeserializeFrom`. -/
def deserializeFrom (buf : Bytes) (start : Nat) : Option (CatalogMeta × Nat) :=
  let magicNum := buf.get32 start
  let p := start + 4
  if magicNum ≠ CATALOG_METADATA_MAGIC_NUM then none
  else
    let tableNums := buf.get32 p
    let p := p + 4
    let indexNums := buf.get32 p
    let p := p + 4
    match readAll (fun _ => readEntry) (List.range tableNums) buf p with
    | none => none
    | some (tables, p) =>
      match readAll (fun _ => readEntry) (List.range indexNums) buf p with
      | none => none
      | some (indexes, p) =>
        some (⟨tables.foldl PageMap.emplace .empty, indexes.foldl PageMap.emplace .empty⟩,
          p - start)

end CatalogMeta

end DisMiniSql.MiniSql.Record
