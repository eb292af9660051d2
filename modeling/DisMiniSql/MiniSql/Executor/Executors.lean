import DisMiniSql.MiniSql.Storage.TableHeap

/-!
# `DisMiniSql.MiniSql.Executor.Executors`: statements on one table

`executor/insert_executor.cpp`, `update_executor.cpp` and `delete_executor.cpp` change the rows of
a table and its indexes. `CatalogManager::CreateIndex` and `IndexInfo::Init` make an index and fill
it from the rows that are there. A B+ tree index is a finite map from keys to row ids.

`ExecutePlan` calls `Next` until it answers `false`. An update or a delete changes the rows that
its sequential scan has passed, and no row that the scan is still to read, so the loop runs over
the rows of the scan as they are before the statement.

`FieldOps` is what the executors use of a value: whether two values are equal to the comparison of
keys, to which a null is equal to everything, and the size of a row.
-/

set_option autoImplicit false

namespace DisMiniSql.MiniSql

/-- The operations on the fields of a row. -/
structure FieldOps (V : Type) where
  /-- `KeyManager::CompareKeys` finds the two fields equal. -/
  same : V → V → Bool
  /-- `Row::GetSerializedSize`. -/
  size : List V → Nat
  same_refl : ∀ a, same a a = true
  same_symm : ∀ a b, same a b = same b a

variable {V : Type}

/-- `CompareKeys` is zero. -/
def FieldOps.sameKey (F : FieldOps V) : List V → List V → Bool
  | [], [] => true
  | a :: as, b :: bs => F.same a b && F.sameKey as bs
  | _, _ => false

/-- The entries of a `BPlusTreeIndex`: keys and row ids. -/
abbrev IndexEntries (V : Type) := List (List V × RowId)

namespace IndexEntries

/-- `BPlusTreeIndex::ScanKey` with the operator `=`. -/
def scanKey (F : FieldOps V) (index : IndexEntries V) (key : List V) : Option RowId :=
  (index.find? (fun e => F.sameKey key e.1)).map Prod.snd

/-- `BPlusTreeIndex::InsertEntry`: a key that is there already stays. -/
def insertEntry (F : FieldOps V) (index : IndexEntries V) (key : List V) (rid : RowId) :
    IndexEntries V :=
  if (index.scanKey F key).isSome then index else index ++ [(key, rid)]

/-- `BPlusTreeIndex::RemoveEntry`: by the key alone. -/
def removeEntry (F : FieldOps V) (index : IndexEntries V) (key : List V) : IndexEntries V :=
  index.eraseP (fun e => F.sameKey key e.1)

end IndexEntries

/-- `IndexInfo`. -/
structure TableIndex (V : Type) where
  indexName : String
  /-- `key_map_` -/
  keyMap : List Nat
  index : IndexEntries V
  deriving DecidableEq

/-- `TableInfo`, its heap and its indexes. -/
structure Table (V : Type) where
  /-- the names of the columns -/
  columns : List String
  heap : TableHeap V
  indexes : List (TableIndex V)

/-- `Row::GetKeyFromRow`: the columns of the key are looked up by their names. -/
def getKeyFromRow (columns : List String) (keyMap : List Nat) (row : List V) : List V :=
  keyMap.filterMap (fun i => (columns[i]?).bind (fun name => row[columns.idxOf name]?))

namespace Table

/-- `CatalogManager::CreateIndex`: the number of the first column with the name. -/
def keyMap (columns : List String) (indexKeys : List String) : Option (List Nat) :=
  indexKeys.mapM (fun key => columns.idxOf? key)

/-- `IndexInfo::Init`: the index holds the rows of a scan. The fields of the key are taken by
their numbers. -/
def backFill (F : FieldOps V) (keyMap : List Nat) (rows : List (RowId × List V)) :
    IndexEntries V :=
  rows.foldl
    (fun index r => index.insertEntry F (keyMap.filterMap (fun i => r.2[i]?)) r.1) []

/-- `CatalogManager::CreateIndex` on this table. An index name that is taken and a name that no
column has are errors. -/
def createIndex (F : FieldOps V) (t : Table V) (indexName : String) (indexKeys : List String) :
    Table V :=
  if t.indexes.any (fun index => index.indexName == indexName) then t
  else
    match keyMap t.columns indexKeys with
    | none => t
    | some keyMap =>
      { t with indexes := t.indexes ++ [⟨indexName, keyMap, backFill F keyMap t.heap.scan⟩] }

/-- `CatalogManager::CreateTable`: the columns, each with its name and whether it is unique. -/
def create (F : FieldOps V) (columns : List (String × Bool)) : Table V :=
  (columns.filter Prod.snd).foldl
    (fun t column => t.createIndex F (column.1 ++ "_unique_index") [column.1])
    ⟨columns.map Prod.fst, TableHeap.create, []⟩

/-- The key of a row in an index. -/
def key (t : Table V) (index : TableIndex V) (row : List V) : List V :=
  getKeyFromRow t.columns index.keyMap row

/-- The loop over `index_info_` of the executors. -/
def updateIndexes (t : Table V) (f : TableIndex V → IndexEntries V) : Table V :=
  { t with indexes := t.indexes.map (fun index => { index with index := f index }) }

/-- The first loop of `InsertExecutor::Next`: an index has the key of the row already. -/
def keyExists (F : FieldOps V) (t : Table V) (row : List V) : Bool :=
  t.indexes.any (fun index =>
    !(t.key index row).isEmpty && (index.index.scanKey F (t.key index row)).isSome)

/-- `InsertExecutor::Next` until it answers `false`, over the rows of `raw_values_`. -/
def insertRows (F : FieldOps V) (frames : Frames) : Table V → List (List V) → Table V
  | t, [] => t
  | t, row :: rows =>
    if t.keyExists F row then t
    else
      match t.heap.insertTuple F.size frames row with
      | none => t
      | some (rid, heap) =>
        let t := { t with heap := heap }
        insertRows F frames
          (t.updateIndexes (fun index => index.index.insertEntry F (t.key index row) rid)) rows

/-- `UpdateExecutor::GenerateUpdatedTuple`. -/
def generateUpdatedTuple (updateAttrs : Nat → Option V) (src : List V) : List V :=
  src.mapIdx (fun idx value => (updateAttrs idx).getD value)

/-- `UpdateExecutor::Next` until it answers `false`, over the rows that the scan yields. -/
def updateRows (F : FieldOps V) (frames : Frames) (updateAttrs : Nat → Option V) :
    Table V → List (RowId × List V) → Table V
  | t, [] => t
  | t, (srcRid, src) :: rows =>
    let dest := generateUpdatedTuple updateAttrs src
    let (updated, heap) := t.heap.updateTuple F.size frames dest srcRid
    let t := { t with heap := heap }
    if updated then
      updateRows F frames updateAttrs
        (t.updateIndexes (fun index =>
          (index.index.removeEntry F (t.key index src)).insertEntry F (t.key index dest) srcRid))
        rows
    else t

/-- `DeleteExecutor::Next` until it answers `false`, over the rows that the scan yields. -/
def deleteRows (F : FieldOps V) (frames : Frames) : Table V → List (RowId × List V) → Table V
  | t, [] => t
  | t, (rid, row) :: rows =>
    let (marked, heap) := t.heap.markDelete frames rid
    let t := { t with heap := heap }
    if marked then
      deleteRows F frames
        (t.updateIndexes (fun index => index.index.removeEntry F (t.key index row))) rows
    else t

end Table

/-- An insert, an update or a delete. A `where_` that is absent holds for every row. -/
inductive Dml (V : Type)
  | insert (rawValues : List (List V))
  | update (updateAttrs : Nat → Option V) (where_ : List V → Bool)
  | delete (where_ : List V → Bool)

/-- A statement on the table. The keys of an index are a first column and the others. -/
inductive Statement (V : Type)
  | createIndex (indexName : String) (indexKey : String) (indexKeys : List String)
  | dml (dml : Dml V)

namespace Table

/-- The planner refuses values that do not match the schema; the rest is `ExecutePlan`. -/
def executeDml (F : FieldOps V) (frames : Frames) (t : Table V) : Dml V → Table V
  | .insert rawValues =>
    if rawValues.all (fun row => row.length == t.columns.length) then
      t.insertRows F frames rawValues
    else t
  | .update updateAttrs where_ =>
    t.updateRows F frames updateAttrs (t.heap.scan.filter (fun r => where_ r.2))
  | .delete where_ => t.deleteRows F frames (t.heap.scan.filter (fun r => where_ r.2))

/-- A statement with what the buffer pool answers during it. -/
def execute (F : FieldOps V) (t : Table V) (s : Frames × Statement V) : Table V :=
  match s.2 with
  | .createIndex indexName indexKey indexKeys => t.createIndex F indexName (indexKey :: indexKeys)
  | .dml dml => t.executeDml F s.1 dml

end Table

end DisMiniSql.MiniSql
