import DisMiniSql.MiniSql.Catalog.CatalogManager
import DisMiniSql.MiniSql.Catalog.Metadata

/-!
# `DisMiniSql.MiniSql.Catalog.StoredCatalog`: `CatalogManager` with the pages of its metadata

`CatalogManager` of the module `Catalog.CatalogManager` has the maps alone. Here
`catalog/catalog.cpp` is read once more, with the whole metadata of a table and of an index, with
the pages that `SerializeTo` writes, and with the constructor that makes a catalog from these pages.
`catalog_refines` joins the two: a run here is one of the maps alone, with the same answers.

The pages are a coherent store: `FetchPage` finds the bytes that were last written to the page. The
page that `NewPage` hands out is an argument of the call. It is a free page, so `none` is the
outcome of a call with another one, and of a call that ends the process: an `ASSERT` that fails, a
page that is not there, a column number beyond the columns of a table.

The bytes of a table's heap and of an index's tree are left out. Both are on pages of their own, and
no metadata depends on them.
-/

set_option autoImplicit false

namespace DisMiniSql.MiniSql.Record

open DisMiniSql.Lib (Bytes)

/-- The bytes of every page that is in use. -/
abbrev Pages := Int32 → Option Bytes

/-- `META_PAGE_ID`, which is `CATALOG_META_PAGE_ID` too. -/
def CATALOG_META_PAGE_ID : Int32 := 0

/-- `INDEX_ROOTS_PAGE_ID`. -/
def INDEX_ROOTS_PAGE_ID : Int32 := 1

/-- The bytes are written to the page. -/
def Pages.write (pages : Pages) (pageId : Int32) (buf : Bytes) : Pages :=
  fun q => if q = pageId then some buf else pages q

/-- `NewPage`, with the page that it hands out: a page of zeros. -/
def Pages.newPage (pages : Pages) (pageId : Int32) : Option Pages :=
  if pageId = -1 ∨ (pages pageId).isSome then none else some (pages.write pageId fun _ => 0)

/-- `NewPage` and `SerializeTo` on the page. -/
def Pages.store (pages : Pages) (pageId : Int32)
    (serializeTo : Bytes → Nat → Option (Bytes × Nat)) :
    Option Pages := do
  let pages ← pages.newPage pageId
  let buf ← pages pageId
  let (buf, _) ← serializeTo buf 0
  some (pages.write pageId buf)

/-- `FetchPage` and `DeserializeFrom` on the page. -/
def Pages.read {α : Type} (pages : Pages) (pageId : Int32)
    (deserializeFrom : Bytes → Nat → Option (α × Nat)) : Option α := do
  let buf ← pages pageId
  let (x, _) ← deserializeFrom buf 0
  some x

/-- `Schema::ShallowCopySchema`. -/
def Schema.shallowCopySchema (tableSchema : Schema) (attrs : List UInt32) : Option Schema :=
  (attrs.mapM fun i => tableSchema.columns[i.toNat]?).map Schema.mk

/-- `pages[id] = page_id` of a map. -/
def PageMap.assign (pages : PageMap) (id : UInt32) (pageId : Int32) : PageMap :=
  PageMap.emplace ⟨pages.entries.filter fun e => e.1 != id, pages.sorted.filter _⟩ (id, pageId)

/-- `rbegin()->first + 1`, and zero for a map without entries. -/
def PageMap.nextId (pages : PageMap) : UInt32 :=
  match pages.entries.getLast? with
  | none => 0
  | some e => e.1 + 1

/-- `CatalogMeta::GetNextTableId`. -/
def CatalogMeta.getNextTableId (c : CatalogMeta) : UInt32 := c.tableMetaPages.nextId

/-- `CatalogMeta::GetNextIndexId`. -/
def CatalogMeta.getNextIndexId (c : CatalogMeta) : UInt32 := c.indexMetaPages.nextId

/-- `CatalogManager`, with the pages behind its buffer pool. -/
structure CatalogManager where
  tableNames : StdMap (List UInt8) UInt32
  tables : StdMap UInt32 TableMetadata
  /-- `index_names_`: by the table's name, then by the index's -/
  indexNames : StdMap (List UInt8) (StdMap (List UInt8) UInt32)
  indexes : StdMap UInt32 IndexMetadata
  catalogMeta : CatalogMeta
  pages : Pages

namespace CatalogManager

/-- `CatalogManager::CatalogManager` with `init`, on the two pages that `DBStorageEngine` has taken
before. -/
def new : CatalogManager where
  tableNames := ∅
  tables := ∅
  indexNames := ∅
  indexes := ∅
  catalogMeta := ⟨.empty, .empty⟩
  pages := fun p =>
    if p = CATALOG_META_PAGE_ID ∨ p = INDEX_ROOTS_PAGE_ID then some fun _ => 0 else none

/-- `index_names_[table_name]`: the names of the indexes of a table, an empty map for a table that
has no entry. -/
def indexMap (s : CatalogManager) (tableName : List UInt8) : StdMap (List UInt8) UInt32 :=
  (s.indexNames.lookup tableName).getD ∅

/-- `index_names_[table_name] = index_map`. -/
def setIndexMap (s : CatalogManager) (tableName : List UInt8)
    (indexMap : StdMap (List UInt8) UInt32) : CatalogManager :=
  { s with indexNames := s.indexNames.insert tableName indexMap }

/-- `tables_[table_id] = table_info` and `table_names_[table_name] = table_id`. -/
def enterTable (s : CatalogManager) (tableId : UInt32) (table : TableMetadata) : CatalogManager :=
  { s with
    tables := s.tables.insert tableId table
    tableNames := s.tableNames.insert table.tableName tableId }

/-- `index_names_[table_name][index_name] = index_id` and `indexes_[index_id] = index_info`. -/
def enterIndex (s : CatalogManager) (indexId : UInt32) (tableName : List UInt8)
    (index : IndexMetadata) : CatalogManager :=
  { s with
    indexes := s.indexes.insert indexId index
    indexNames :=
      s.indexNames.insert tableName ((s.indexMap tableName).insert index.indexName indexId) }

/-- `catalog_meta_->table_meta_pages_[table_id] = page_id`, with the pages after `SerializeTo`. -/
def recordTable (s : CatalogManager) (tableId : UInt32) (pageId : Int32) (pages : Pages) :
    CatalogManager :=
  { s with
    catalogMeta :=
      { s.catalogMeta with tableMetaPages := s.catalogMeta.tableMetaPages.assign tableId pageId }
    pages := pages }

/-- `catalog_meta_->index_meta_pages_[index_id] = page_id`, with the pages after `SerializeTo`. -/
def recordIndex (s : CatalogManager) (indexId : UInt32) (pageId : Int32) (pages : Pages) :
    CatalogManager :=
  { s with
    catalogMeta :=
      { s.catalogMeta with indexMetaPages := s.catalogMeta.indexMetaPages.assign indexId pageId }
    pages := pages }

/-- The column numbers of the names of an index's keys; `none` for a name that no column has. -/
def keyMap (table : TableMetadata) (indexKeys : List (List UInt8)) : Option (List UInt32) :=
  indexKeys.mapM fun key =>
    (table.schema.columns.find? fun c => c.name == key).map Column.tableInd

/-- The end of `CatalogManager::CreateIndex`, after the columns of the key are found.
`IndexInfo::Init` takes these columns from the table. -/
def addIndex (s : CatalogManager) (tableName indexName : List UInt8) (tableId : UInt32)
    (table : TableMetadata) (keyMap : List UInt32) (page : Int32) : Option CatalogManager := do
  let indexId := s.catalogMeta.getNextIndexId
  let index : IndexMetadata := ⟨indexId, indexName, tableId, keyMap⟩
  let _ ← table.schema.shallowCopySchema index.keyMap
  let pages ← s.pages.store page index.serializeTo
  some ((s.enterIndex indexId tableName index).recordIndex indexId page pages)

/-- `CatalogManager::CreateIndex`. -/
def createIndex (s : CatalogManager) (tableName indexName : List UInt8)
    (indexKeys : List (List UInt8)) (indexType : String) (page : Int32) :
    Option (Dberr × CatalogManager) :=
  match s.tableNames.lookup tableName with
  | none => some (.tableNotExist, s)
  | some tableId =>
    let s := s.setIndexMap tableName (s.indexMap tableName)
    if ((s.indexMap tableName).lookup indexName).isSome then some (.indexAlreadyExist, s)
    else if indexType ≠ "bptree" then some (.failed, s)
    else
      match s.tables.lookup tableId with
      | none => some (.failed, s)
      | some table =>
        match keyMap table indexKeys with
        | none => some (.columnNameNotExist, s)
        | some keyMap =>
          (s.addIndex tableName indexName tableId table keyMap page).map fun s => (.success, s)

/-- `"_unique_index"`. -/
def UNIQUE_INDEX : List UInt8 := [95, 117, 110, 105, 113, 117, 101, 95, 105, 110, 100, 101, 120]

/-- The name of the index on a unique column. -/
def uniqueIndexName (column : Column) : List UInt8 := column.name ++ UNIQUE_INDEX

/-- The loop of `CatalogManager::CreateTable` over the columns: an index for each unique one, with
the page that it may take. The answer of `CreateIndex` is not read. -/
def createUniqueIndexes (tableName : List UInt8) :
    CatalogManager → List Column → List Int32 → Option CatalogManager
  | s, [], _ => some s
  | s, column :: columns, pages =>
    if column.unique then do
      let (_, s) ← s.createIndex tableName (uniqueIndexName column) [column.name] "bptree"
        (pages.headD (-1))
      createUniqueIndexes tableName s columns pages.tail
    else createUniqueIndexes tableName s columns pages

/-- The pages that `CreateTable` takes: the first page of the heap, the page of its free space map,
that of the metadata, and those of the indexes on the unique columns. -/
structure TablePages where
  root : Int32
  freespaceMap : Int32
  tableMeta : Int32
  indexes : List Int32

/-- `CatalogManager::CreateTable` up to the indexes. -/
def addTable (s : CatalogManager) (tableName : List UInt8) (schema : Schema) (taken : TablePages) :
    Option CatalogManager := do
  let tableId := s.catalogMeta.getNextTableId
  let pages ← s.pages.newPage taken.root
  let pages ← pages.newPage taken.freespaceMap
  let table : TableMetadata := ⟨tableId, tableName, taken.root, taken.freespaceMap, schema⟩
  let pages ← pages.store taken.tableMeta table.serializeTo
  some ((s.enterTable tableId table).recordTable tableId taken.tableMeta pages)

/-- `CatalogManager::CreateTable`. -/
def createTable (s : CatalogManager) (tableName : List UInt8) (schema : Schema)
    (taken : TablePages) : Option (Dberr × CatalogManager) :=
  if (s.tableNames.lookup tableName).isSome then some (.tableAlreadyExist, s)
  else do
    let s ← s.addTable tableName schema taken
    let s ← createUniqueIndexes tableName s schema.columns taken.indexes
    some (.success, s)

/-- `CatalogManager::DropTable`. -/
def dropTable (s : CatalogManager) (tableName : List UInt8) : Option (Dberr × CatalogManager) :=
  match s.tableNames.lookup tableName with
  | none => some (.tableNotExist, s)
  | some tableId =>
    some (.success,
      { s with tableNames := s.tableNames.erase tableName, tables := s.tables.erase tableId })

/-- `CatalogManager::DropIndex`. -/
def dropIndex (s : CatalogManager) (tableName indexName : List UInt8) :
    Option (Dberr × CatalogManager) :=
  match s.tableNames.lookup tableName with
  | none => some (.tableNotExist, s)
  | some _ => do
    let indexMap ← s.indexNames.lookup tableName
    match indexMap.lookup indexName with
    | none => some (.indexNotFound, s)
    | some indexId =>
      match s.indexes.lookup indexId with
      | none => some (.failed, s)
      | some _ =>
        some (.success,
          { s with
            indexes := s.indexes.erase indexId
            indexNames := s.indexNames.insert tableName (indexMap.erase indexName) })

/-- `CatalogManager::FlushCatalogMetaPage`. -/
def flushCatalogMetaPage (s : CatalogManager) : Option CatalogManager := do
  let buf ← s.pages CATALOG_META_PAGE_ID
  let (buf, _) ← s.catalogMeta.serializeTo buf 0
  some { s with pages := s.pages.write CATALOG_META_PAGE_ID buf }

/-- `CatalogManager::~CatalogManager`: what is left are the pages. -/
def close (s : CatalogManager) : Option Pages :=
  s.flushCatalogMetaPage.map CatalogManager.pages

/-- The first loop of `CatalogManager::CatalogManager` without `init`, for one table. -/
def loadTable (s : CatalogManager) (entry : UInt32 × Int32) : Option CatalogManager := do
  let table ← s.pages.read entry.2 TableMetadata.deserializeFrom
  some (s.enterTable entry.1 table)

/-- The second loop, for one index. -/
def loadIndex (s : CatalogManager) (entry : UInt32 × Int32) : Option CatalogManager := do
  let index ← s.pages.read entry.2 IndexMetadata.deserializeFrom
  let table ← s.tables.lookup index.tableId
  let _ ← table.schema.shallowCopySchema index.keyMap
  some (s.enterIndex entry.1 table.tableName index)

/-- `CatalogManager::CatalogManager` without `init`. -/
def load (pages : Pages) : Option CatalogManager := do
  let catalogMeta ← pages.read CATALOG_META_PAGE_ID CatalogMeta.deserializeFrom
  let s : CatalogManager := { new with catalogMeta := catalogMeta, pages := pages }
  let s ← catalogMeta.tableMetaPages.entries.foldlM loadTable s
  catalogMeta.indexMetaPages.entries.foldlM loadIndex s

end CatalogManager

/-- A call that changes the catalog, with the pages that it takes. -/
inductive CatalogCall
  | createTable (tableName : List UInt8) (schema : Schema) (taken : CatalogManager.TablePages)
  | dropTable (tableName : List UInt8)
  | createIndex (tableName indexName : List UInt8) (indexKeys : List (List UInt8))
      (indexType : String) (page : Int32)
  | dropIndex (tableName indexName : List UInt8)

/-- A call: its answer, and the catalog after it. -/
def CatalogManager.call (s : CatalogManager) : CatalogCall → Option (Dberr × CatalogManager)
  | .createTable tableName schema taken => s.createTable tableName schema taken
  | .dropTable tableName => s.dropTable tableName
  | .createIndex tableName indexName indexKeys indexType page =>
    s.createIndex tableName indexName indexKeys indexType page
  | .dropIndex tableName indexName => s.dropIndex tableName indexName

end DisMiniSql.MiniSql.Record
