import DisMiniSql.MiniSql.Config
import Mathlib.Data.List.AList
import Mathlib.Data.List.ReduceOption

/-!
# `DisMiniSql.MiniSql.Catalog.CatalogManager`: `CatalogManager`

`catalog/catalog.cpp` keeps the tables and the indexes of one database in four hash maps and, for
the disk, in the two ordered maps of `CatalogMeta`. A call answers `dberr_t`.

`index_names_.find(table_name)->second` reads the entry of `table_name` without asking whether it is
there, and so do `indexes_.find(index_id)->second` of `GetIndex` and `tables_[table_id]` of
`DropTable`. `none` is the outcome of a call that looks into an entry that is not there.
`index_names_[table_name]`, in `CreateIndex` and in `GetTableIndexes`, makes the entry instead.

A hash map is walked in an order that depends on its history. `walk` takes the order as an
argument of the call. The pages that `NewPage` hands out are arguments too. A pointer to a
`TableInfo` or an `IndexInfo` is the record it points to. The table's pages and the index's tree
are left out: no map of the catalog depends on them. So is a `NewPage` that fails, on which
`CreateTable` and `CreateIndex` end the process.
-/

set_option autoImplicit false

namespace DisMiniSql.MiniSql

/-- `dberr_t`, as far as the catalog answers it. -/
inductive Dberr
  | success
  | failed
  | tableAlreadyExist
  | tableNotExist
  | indexAlreadyExist
  | indexNotFound
  | columnNameNotExist
  deriving DecidableEq, Repr

/-- `Column`: its name, `table_ind_` and `unique_`. -/
structure Column where
  name : String
  tableInd : Nat
  unique : Bool
  deriving DecidableEq, Repr

/-- `TableInfo` and its `TableMetadata`. -/
structure TableInfo where
  tableId : Nat
  tableName : String
  /-- the columns of `schema_` -/
  columns : List Column
  deriving DecidableEq, Repr

/-- `IndexInfo` and its `IndexMetadata`. -/
structure IndexInfo where
  indexId : Nat
  indexName : String
  tableId : Nat
  keyMap : List Nat
  deriving DecidableEq, Repr

/-- A `std::map` or a `std::unordered_map`. -/
abbrev StdMap (κ ν : Type) := AList (fun _ : κ => ν)

/-- `CatalogMeta`: the pages that hold the metadata, by id. -/
structure CatalogMeta where
  tableMetaPages : StdMap Nat PageId
  indexMetaPages : StdMap Nat PageId

/-- `rbegin()->first + 1`, and zero for a map without keys. -/
def nextId (pages : StdMap Nat PageId) : Nat :=
  pages.keys.foldr (fun id next => max (id + 1) next) 0

/-- `CatalogMeta::GetNextTableId`. -/
def CatalogMeta.getNextTableId (m : CatalogMeta) : Nat := nextId m.tableMetaPages

/-- `CatalogMeta::GetNextIndexId`. -/
def CatalogMeta.getNextIndexId (m : CatalogMeta) : Nat := nextId m.indexMetaPages

/-- `CatalogManager`. -/
structure CatalogManager where
  tableNames : StdMap String Nat
  tables : StdMap Nat TableInfo
  /-- `index_names_`: by the table's name, then by the index's -/
  indexNames : StdMap String (StdMap String Nat)
  indexes : StdMap Nat IndexInfo
  catalogMeta : CatalogMeta

/-- The order in which a hash map with the keys `keys` is walked: those that `order` names, in
its order, and then the others. Every order of the keys is that of some `order`. -/
def walk (order keys : List String) : List String :=
  order.filter (fun key => decide (key ∈ keys)) ++ keys.filter (fun key => decide (key ∉ order))

namespace CatalogManager

/-- The catalog of a new database: `CatalogMeta::NewInstance`. -/
def new : CatalogManager := ⟨∅, ∅, ∅, ∅, ⟨∅, ∅⟩⟩

/-- `index_names_[table_name]`: the names of the indexes of a table, an empty map for a table
that has no entry. -/
def indexMap (s : CatalogManager) (tableName : String) : StdMap String Nat :=
  (s.indexNames.lookup tableName).getD ∅

/-- `index_names_[table_name] = index_map`. -/
def setIndexMap (s : CatalogManager) (tableName : String) (indexMap : StdMap String Nat) :
    CatalogManager :=
  { s with indexNames := s.indexNames.insert tableName indexMap }

/-- The column numbers of the names of an index's keys; `none` for a name that no column has. -/
def keyMap (info : TableInfo) (indexKeys : List String) : Option (List Nat) :=
  indexKeys.mapM (fun key => (info.columns.find? (fun c => c.name == key)).map Column.tableInd)

/-- The end of `CatalogManager::CreateIndex`: the new index gets an id, and every map an entry. -/
def addIndex (s : CatalogManager) (tableName indexName : String) (tableId : Nat)
    (keyMap : List Nat) (page : PageId) : CatalogManager :=
  let indexId := s.catalogMeta.getNextIndexId
  { s with
    indexNames := s.indexNames.insert tableName ((s.indexMap tableName).insert indexName indexId)
    indexes := s.indexes.insert indexId ⟨indexId, indexName, tableId, keyMap⟩
    catalogMeta :=
      { s.catalogMeta with
        indexMetaPages := s.catalogMeta.indexMetaPages.insert indexId page } }

/-- `CatalogManager::CreateIndex`. -/
def createIndex (s : CatalogManager) (tableName indexName : String) (indexKeys : List String)
    (indexType : String) (page : PageId) : Dberr × CatalogManager :=
  match s.tableNames.lookup tableName with
  | none => (.tableNotExist, s)
  | some tableId =>
    let s := s.setIndexMap tableName (s.indexMap tableName)
    if ((s.indexMap tableName).lookup indexName).isSome then (.indexAlreadyExist, s)
    else if indexType ≠ "bptree" then (.failed, s)
    else
      match s.tables.lookup tableId with
      | none => (.failed, s)
      | some info =>
        match keyMap info indexKeys with
        | none => (.columnNameNotExist, s)
        | some keyMap => (.success, s.addIndex tableName indexName tableId keyMap page)

/-- The name of the index on a unique column. -/
def uniqueIndexName (column : Column) : String := column.name ++ "_unique_index"

/-- The loop of `CatalogManager::CreateTable` over the columns: an index for each unique one. The
answer of `CreateIndex` is not read. -/
def createUniqueIndexes (tableName : String) :
    CatalogManager → List Column → List PageId → CatalogManager
  | s, [], _ => s
  | s, column :: columns, pages =>
    if column.unique then
      createUniqueIndexes tableName
        (s.createIndex tableName (uniqueIndexName column) [column.name] "bptree"
          (pages.headD INVALID_PAGE_ID)).2
        columns pages.tail
    else createUniqueIndexes tableName s columns pages

/-- `CatalogManager::CreateTable` up to the indexes. -/
def addTable (s : CatalogManager) (tableName : String) (columns : List Column) (page : PageId) :
    CatalogManager :=
  let tableId := s.catalogMeta.getNextTableId
  { s with
    tableNames := s.tableNames.insert tableName tableId
    tables := s.tables.insert tableId ⟨tableId, tableName, columns⟩
    catalogMeta :=
      { s.catalogMeta with
        tableMetaPages := s.catalogMeta.tableMetaPages.insert tableId page } }

/-- `CatalogManager::CreateTable`. `pages` are the pages of the table's metadata and of its
indexes'. -/
def createTable (s : CatalogManager) (tableName : String) (columns : List Column)
    (pages : List PageId) : Dberr × CatalogManager :=
  if (s.tableNames.lookup tableName).isSome then (.tableAlreadyExist, s)
  else
    (.success,
      createUniqueIndexes tableName (s.addTable tableName columns (pages.headD INVALID_PAGE_ID))
        columns pages.tail)

/-- `CatalogManager::GetTable`. -/
def getTable (s : CatalogManager) (tableName : String) : Dberr × Option TableInfo :=
  match s.tableNames.lookup tableName with
  | none => (.tableNotExist, none)
  | some tableId =>
    match s.tables.lookup tableId with
    | none => (.failed, none)
    | some info => (.success, some info)

/-- `CatalogManager::GetIndex`. -/
def getIndex (s : CatalogManager) (tableName indexName : String) :
    Option (Dberr × Option IndexInfo) :=
  match s.tableNames.lookup tableName with
  | none => some (.tableNotExist, none)
  | some _ => do
    let indexMap ← s.indexNames.lookup tableName
    match indexMap.lookup indexName with
    | none => some (.indexNotFound, none)
    | some indexId => do
      let info ← s.indexes.lookup indexId
      some (.success, some info)

/-- `CatalogManager::GetTableIndexes`. The entry of the table is made if it is not there. -/
def getTableIndexes (s : CatalogManager) (tableName : String) :
    Dberr × List IndexInfo × CatalogManager :=
  match s.tableNames.lookup tableName with
  | none => (.tableNotExist, [], s)
  | some _ =>
    let s := s.setIndexMap tableName (s.indexMap tableName)
    -- The walk stops at the first id that `indexes_` does not have.
    let found := (s.indexMap tableName).entries.map (fun e => s.indexes.lookup e.2)
    (if found.all Option.isSome then .success else .failed,
      (found.takeWhile Option.isSome).reduceOption, s)

/-- `CatalogManager::DropTable`. -/
def dropTable (s : CatalogManager) (tableName : String) : Option (Dberr × CatalogManager) :=
  match s.tableNames.lookup tableName with
  | none => some (.tableNotExist, s)
  | some tableId => do
    let _ ← s.tables.lookup tableId
    some (.success,
      { s with tableNames := s.tableNames.erase tableName, tables := s.tables.erase tableId })

/-- `indexes_.erase(index_id)` and `index_map.erase(index_name)`. -/
def eraseIndex (s : CatalogManager) (tableName indexName : String)
    (indexMap : StdMap String Nat) (indexId : Nat) : CatalogManager :=
  { s with
    indexes := s.indexes.erase indexId
    indexNames := s.indexNames.insert tableName (indexMap.erase indexName) }

/-- `CatalogManager::DropIndex`. -/
def dropIndex (s : CatalogManager) (tableName indexName : String) :
    Option (Dberr × CatalogManager) :=
  match s.tableNames.lookup tableName with
  | none => some (.tableNotExist, s)
  | some _ => do
    let indexMap ← s.indexNames.lookup tableName
    match indexMap.lookup indexName with
    | none => some (.indexNotFound, s)
    | some indexId =>
      match s.indexes.lookup indexId with
      | none => some (.failed, s)
      | some _ => some (.success, s.eraseIndex tableName indexName indexMap indexId)

/-- The loop of `CatalogManager::DropAllIndexes` over the tables still to walk, with the number
of indexes dropped so far. -/
def dropAllLoop (indexName : String) :
    CatalogManager → List String → Nat → Option (Dberr × Nat × CatalogManager)
  | s, [], dropTot => some (.success, dropTot, s)
  | s, tableName :: tableNames, dropTot => do
    let indexMap ← s.indexNames.lookup tableName
    match indexMap.lookup indexName with
    | none => dropAllLoop indexName s tableNames dropTot
    | some indexId =>
      match s.indexes.lookup indexId with
      | none => some (.failed, dropTot, s)
      | some _ =>
        dropAllLoop indexName (s.eraseIndex tableName indexName indexMap indexId) tableNames
          (dropTot + 1)

/-- `CatalogManager::DropAllIndexes`, in the order `order`. -/
def dropAllIndexes (s : CatalogManager) (indexName : String) (order : List String) :
    Option (Dberr × Nat × CatalogManager) :=
  dropAllLoop indexName s (walk order s.tableNames.keys) 0

end CatalogManager

/-- A call of the catalog manager, with what the buffer pool and the hash maps answer in it. -/
inductive CatalogCall
  | createTable (tableName : String) (columns : List Column) (pages : List PageId)
  | dropTable (tableName : String)
  | createIndex (tableName indexName : String) (indexKeys : List String) (indexType : String)
      (page : PageId)
  | dropIndex (tableName indexName : String)
  | dropAllIndexes (indexName : String) (order : List String)
  | getTable (tableName : String)
  | getIndex (tableName indexName : String)
  | getTableIndexes (tableName : String)

/-- The state after a call; `none` if the call looks into an entry that is not there. -/
def CatalogManager.call (s : CatalogManager) : CatalogCall → Option CatalogManager
  | .createTable tableName columns pages => some (s.createTable tableName columns pages).2
  | .dropTable tableName => (s.dropTable tableName).map Prod.snd
  | .createIndex tableName indexName indexKeys indexType page =>
    some (s.createIndex tableName indexName indexKeys indexType page).2
  | .dropIndex tableName indexName => (s.dropIndex tableName indexName).map Prod.snd
  | .dropAllIndexes indexName order => (s.dropAllIndexes indexName order).map (fun r => r.2.2)
  | .getTable _ => some s
  | .getIndex tableName indexName => (s.getIndex tableName indexName).map (fun _ => s)
  | .getTableIndexes tableName => some (s.getTableIndexes tableName).2.2

end DisMiniSql.MiniSql
