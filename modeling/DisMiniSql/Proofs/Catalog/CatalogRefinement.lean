import DisMiniSql.Proofs.Catalog.Consistency
import DisMiniSql.Proofs.Catalog.Reopen

/-!
# `DisMiniSql.Proofs.Catalog.CatalogRefinement`: the two models of the catalog

`CatalogManager` has the maps with texts and numbers, and the executors run on it.
`Record.CatalogManager` has the same maps with bytes and machine words, and the pages of the
metadata. Here the second one refines the first:

* `Renames` says that two maps have related values, under keys that a function renames. `Listed`
  says the same of the two maps of the metadata pages, where it also gives the same next id.
* `Refines` puts them together. `Refines.createTable`, `Refines.createIndex`, `Refines.dropTable`
  and `Refines.dropIndex` show that a call answers the same on both and keeps it.
* `catalog_refines` is about a whole run from a new database.

A call that ends the process, since a page is missing or too small, ends it in the second model
only. So the refinement is about the calls that return there.
-/

set_option autoImplicit false

namespace DisMiniSql.MiniSql.Record

open DisMiniSql.Lib (Steps)

/-! ## Maps -/

section Maps

variable {κ κ' ν ν' : Type} [DecidableEq κ] [DecidableEq κ'] {f : κ → κ'} {R : ν → ν' → Prop}
  {m : StdMap κ ν} {m' : StdMap κ' ν'} {k : κ} {v : ν} {v' : ν'}

/-- Under the keys that `f` renames stand values that `R` relates. -/
def Renames (f : κ → κ') (R : ν → ν' → Prop) (m : StdMap κ ν) (m' : StdMap κ' ν') : Prop :=
  ∀ k, Option.Rel R (m.lookup k) (m'.lookup (f k))

theorem renames_empty : Renames f R (∅ : StdMap κ ν) (∅ : StdMap κ' ν') := fun _ => .none

/-- What the first map has, the other has too. -/
theorem Renames.of_some (h : Renames f R m m') (hk : m.lookup k = some v) :
    ∃ v', m'.lookup (f k) = some v' ∧ R v v' := by
  have hrel := h k
  rw [hk] at hrel
  generalize m'.lookup (f k) = found at hrel
  cases hrel with
  | some hv => exact ⟨_, rfl, hv⟩

/-- A missing key is missing in the other map. -/
theorem Renames.of_none (h : Renames f R m m') (hk : m.lookup k = none) :
    m'.lookup (f k) = none := by
  have hrel := h k
  rw [hk] at hrel
  generalize m'.lookup (f k) = found at hrel
  cases hrel with
  | none => rfl

/-- So both maps have the same keys. -/
theorem Renames.isSome_eq (h : Renames f R m m') (k : κ) :
    (m'.lookup (f k)).isSome = (m.lookup k).isSome := by
  cases hk : m.lookup k with
  | none =>
    rw [h.of_none hk]
    rfl
  | some v =>
    obtain ⟨v', hv', -⟩ := h.of_some hk
    rw [hv']
    rfl

/-- Inserting under a name and under its text keeps the two in step; different names have different
texts. -/
theorem Renames.insert (h : Renames f R m m') (hf : Function.Injective f) (hv : R v v') :
    Renames f R (m.insert k v) (m'.insert (f k) v') := by
  intro j
  by_cases hj : j = k
  · subst hj
    rw [AList.lookup_insert, AList.lookup_insert]
    exact .some hv
  · rw [AList.lookup_insert_ne hj, AList.lookup_insert_ne (hf.ne hj)]
    exact h j

/-- Erasing too. -/
theorem Renames.erase (h : Renames f R m m') (hf : Function.Injective f) (k : κ) :
    Renames f R (m.erase k) (m'.erase (f k)) := by
  intro j
  by_cases hj : j = k
  · subst hj
    rw [AList.lookup_erase, AList.lookup_erase]
    exact .none
  · rw [AList.lookup_erase_ne hj, AList.lookup_erase_ne (hf.ne hj)]
    exact h j

end Maps

/-! ## Names and numbers -/

/-- The text of a name. -/
def textOf (name : List UInt8) : String := String.ofList (name.map fun b => Char.ofNat b.toNat)

/-- A byte read as a character keeps its number. -/
theorem toNat_charOfByte (b : UInt8) : (Char.ofNat b.toNat).toNat = b.toNat := by
  have hvalid : b.toNat.isValidChar := .inl (Nat.lt_trans b.toNat_lt (by decide))
  rw [Char.ofNat, dif_pos hvalid]
  rfl

/-- So different byte strings have different texts. -/
theorem textOf_injective : Function.Injective textOf := by
  intro a b hab
  refine List.map_injective_iff.mpr (fun x y hxy => ?_) (String.ofList_injective hab)
  have hnat := congrArg Char.toNat hxy
  rw [toNat_charOfByte, toNat_charOfByte] at hnat
  exact UInt8.toNat_inj.mp hnat

/-- The text of two byte strings one after the other. -/
theorem textOf_append (a b : List UInt8) : textOf (a ++ b) = textOf a ++ textOf b := by
  unfold textOf
  rw [List.map_append, String.ofList_append]

/-- Different 32-bit numbers are different numbers. -/
theorem toNat_injective : Function.Injective UInt32.toNat := fun _ _ h => UInt32.toNat_inj.mp h

/-- The column with its text. -/
def Column.text (c : Column) : MiniSql.Column := ⟨textOf c.name, c.tableInd.toNat, c.unique⟩

/-- `TableInfo` of the metadata. -/
def TableMetadata.info (t : TableMetadata) : TableInfo :=
  ⟨t.tableId.toNat, textOf t.tableName, t.schema.columns.map Column.text⟩

/-- `IndexInfo` of the metadata. -/
def IndexMetadata.info (i : IndexMetadata) : IndexInfo :=
  ⟨i.indexId.toNat, textOf i.indexName, i.tableId.toNat, i.keyMap.map UInt32.toNat⟩

/-- Both models name the index of a unique column alike. -/
theorem uniqueIndexName_text (c : Column) :
    MiniSql.CatalogManager.uniqueIndexName c.text =
      textOf (CatalogManager.uniqueIndexName c) := by
  unfold MiniSql.CatalogManager.uniqueIndexName CatalogManager.uniqueIndexName
  rw [textOf_append]
  have hsuffix : textOf CatalogManager.UNIQUE_INDEX = "_unique_index" := by decide
  rw [hsuffix]
  rfl

/-- Both find the same columns for the key of an index. -/
theorem keyMap_text (t : TableMetadata) (indexKeys : List (List UInt8)) :
    MiniSql.CatalogManager.keyMap t.info (indexKeys.map textOf) =
      (CatalogManager.keyMap t indexKeys).map (List.map UInt32.toNat) := by
  unfold MiniSql.CatalogManager.keyMap CatalogManager.keyMap TableMetadata.info
  have hfind : ∀ (key : List UInt8) (columns : List Column),
      ((columns.map Column.text).find? fun c => c.name == textOf key) =
        (columns.find? fun c => c.name == key).map Column.text := by
    intro key columns
    rw [List.find?_map]
    refine congrArg _ (congrFun (congrArg _ (funext fun c => ?_)) _)
    show (textOf c.name == textOf key) = (c.name == key)
    rw [Bool.eq_iff_iff, beq_iff_eq, beq_iff_eq]
    exact textOf_injective.eq_iff
  induction indexKeys with
  | nil => rfl
  | cons key indexKeys ih =>
    rw [List.map_cons, List.mapM_cons, List.mapM_cons, ih, hfind]
    cases t.schema.columns.find? fun c => c.name == key with
    | none => rfl
    | some c =>
      cases indexKeys.mapM fun key =>
        (t.schema.columns.find? fun c => c.name == key).map Column.tableInd with
      | none => rfl
      | some keys => rfl

/-! ## The metadata pages -/

/-- The map of numbers lists the same pages, and their ids are the numbers from zero on. -/
structure PageMap.Listed (p : PageMap) (m : StdMap Nat PageId) : Prop where
  numbered : p.Numbered
  mem_iff : ∀ id, id ∈ m ↔ id < p.entries.length
  lookup : ∀ e ∈ p.entries, m.lookup e.1.toNat = some e.2.toInt

/-- The next id of a map with the keys below `n`. -/
theorem nextId_eq {m : StdMap Nat PageId} {n : Nat} (hmem : ∀ id, id ∈ m ↔ id < n) :
    MiniSql.nextId m = n := by
  have hle : ∀ keys : List Nat, (∀ id ∈ keys, id < n) →
      keys.foldr (fun id next => max (id + 1) next) 0 ≤ n := by
    intro keys hkeys
    induction keys with
    | nil => exact Nat.zero_le n
    | cons id keys ih =>
      rw [List.forall_mem_cons] at hkeys
      exact Nat.max_le.mpr ⟨hkeys.1, ih hkeys.2⟩
  refine Nat.le_antisymm (hle _ fun id hid => (hmem id).mp (AList.mem_keys.mpr hid)) ?_
  cases n with
  | zero => exact Nat.zero_le _
  | succ n => exact MiniSql.CatalogManager.lt_nextId ((hmem n).mpr (Nat.lt_succ_self n))

namespace PageMap

variable {p : PageMap} {m : StdMap Nat PageId}

/-- Neither lists a page at the start. -/
theorem Listed.empty : PageMap.empty.Listed ∅ where
  numbered := rfl
  mem_iff id := ⟨fun h => absurd h (AList.notMem_empty id), fun h => absurd h (Nat.not_lt_zero id)⟩
  lookup _ h := absurd h List.not_mem_nil

/-- The next id of both is the same, as long as the counter does not wrap. -/
theorem Listed.nextId_eq (h : p.Listed m) (hlt : p.entries.length < 2 ^ 32) :
    MiniSql.nextId m = p.nextId.toNat := by
  rw [h.numbered.toNat_nextId hlt]
  exact Record.nextId_eq h.mem_iff

/-- A new page at the end of both. -/
theorem Listed.assign (h : p.Listed m) (hlt : p.entries.length < 2 ^ 32) (page : Int32) :
    (p.assign p.nextId page).Listed (m.insert (MiniSql.nextId m) page.toInt) := by
  have hentries : (p.assign p.nextId page).entries = p.entries ++ [(p.nextId, page)] :=
    h.numbered.assign_entries hlt rfl
  have hnext := h.nextId_eq hlt
  refine ⟨h.numbered.assign hlt rfl, fun id => ?_, fun e he => ?_⟩
  · rw [hentries, List.length_append, List.length_singleton, AList.mem_insert, h.mem_iff, hnext,
      h.numbered.toNat_nextId hlt]
    omega
  · rw [hentries] at he
    rcases List.mem_append.mp he with hold | hnew
    · have hbelow := h.numbered.toNat_lt (List.mem_map_of_mem hold)
      rw [AList.lookup_insert_ne]
      · exact h.lookup e hold
      · rw [hnext, h.numbered.toNat_nextId hlt]
        exact Nat.ne_of_lt hbelow
    · rw [List.mem_singleton.mp hnew, ← hnext, AList.lookup_insert]

end PageMap

/-! ## Catalogs -/

/-- The number of a machine word. -/
def IsNumber (id : UInt32) (n : Nat) : Prop := n = id.toNat

/-- The maps of `v` have what the maps of `s` have. -/
structure CatalogManager.Refines (s : CatalogManager) (v : MiniSql.CatalogManager) : Prop where
  tableNames : Renames textOf IsNumber s.tableNames v.tableNames
  tables : Renames UInt32.toNat (fun t info => info = t.info) s.tables v.tables
  indexNames : Renames textOf (Renames textOf IsNumber) s.indexNames v.indexNames
  indexes : Renames UInt32.toNat (fun i info => info = i.info) s.indexes v.indexes
  tableMeta : s.catalogMeta.tableMetaPages.Listed v.catalogMeta.tableMetaPages
  indexMeta : s.catalogMeta.indexMetaPages.Listed v.catalogMeta.indexMetaPages

/-- Each name is that of a table which is there. -/
def CatalogManager.Named (s : CatalogManager) : Prop :=
  ∀ name id, s.tableNames.lookup name = some id →
    ∃ t, s.tables.lookup id = some t ∧ t.tableName = name

namespace CatalogManager

variable {s s' : CatalogManager} {v : MiniSql.CatalogManager} {d : Dberr}

/-- The indexes of a table in both. -/
theorem Refines.indexMap (hr : s.Refines v) (tableName : List UInt8) :
    Renames textOf IsNumber (s.indexMap tableName) (v.indexMap (textOf tableName)) := by
  unfold CatalogManager.indexMap MiniSql.CatalogManager.indexMap
  cases hmap : s.indexNames.lookup tableName with
  | none =>
    rw [hr.indexNames.of_none hmap]
    exact renames_empty
  | some indexMap =>
    obtain ⟨indexMap', hmap', hrel⟩ := hr.indexNames.of_some hmap
    rw [hmap']
    exact hrel

/-- The entry of a table in `index_names_` is made on both sides. -/
theorem Refines.touch (hr : s.Refines v) (tableName : List UInt8) :
    (s.setIndexMap tableName (s.indexMap tableName)).Refines
      (v.setIndexMap (textOf tableName) (v.indexMap (textOf tableName))) :=
  { hr with indexNames := hr.indexNames.insert textOf_injective (hr.indexMap tableName) }

variable {tableName indexName : List UInt8}

/-- The end of `CreateIndex`. -/
theorem Refines.addIndex (hr : s.Refines v) {tableId : UInt32} {table : TableMetadata}
    {keyMap : List UInt32} {page : Int32}
    (hlt : s.catalogMeta.indexMetaPages.entries.length < 2 ^ 32)
    (h : s.addIndex tableName indexName tableId table keyMap page = some s') :
    s'.Refines (v.addIndex (textOf tableName) (textOf indexName) tableId.toNat
      (keyMap.map UInt32.toNat) page.toInt) := by
  simp only [CatalogManager.addIndex, Option.bind_eq_bind, Option.bind_eq_some_iff] at h
  obtain ⟨_, -, pages, -, h⟩ := h
  cases h
  have hid : v.catalogMeta.getNextIndexId = s.catalogMeta.getNextIndexId.toNat :=
    hr.indexMeta.nextId_eq hlt
  have hnames := (hr.indexMap tableName).insert (k := indexName) textOf_injective
    (show IsNumber s.catalogMeta.getNextIndexId v.catalogMeta.getNextIndexId from hid)
  refine ⟨hr.tableNames, hr.tables, hr.indexNames.insert textOf_injective hnames, ?_,
    hr.tableMeta, hr.indexMeta.assign hlt page⟩
  show Renames _ _ (s.indexes.insert _ _) (v.indexes.insert v.catalogMeta.getNextIndexId _)
  rw [hid]
  exact hr.indexes.insert toNat_injective rfl

/-- `CreateIndex` answers the same on both. -/
theorem Refines.createIndex (hr : s.Refines v) {indexKeys : List (List UInt8)} {indexType : String}
    {page : Int32} (hlt : s.catalogMeta.indexMetaPages.entries.length < 2 ^ 32)
    (h : s.createIndex tableName indexName indexKeys indexType page = some (d, s')) :
    ∃ v', v.createIndex (textOf tableName) (textOf indexName) (indexKeys.map textOf) indexType
      page.toInt = (d, v') ∧ s'.Refines v' := by
  unfold CatalogManager.createIndex at h
  unfold MiniSql.CatalogManager.createIndex
  cases hname : s.tableNames.lookup tableName with
  | none =>
    rw [hname] at h
    cases h
    rw [hr.tableNames.of_none hname]
    exact ⟨v, rfl, hr⟩
  | some tableId =>
    obtain ⟨_, hname', rfl⟩ := hr.tableNames.of_some hname
    rw [hname] at h
    rw [hname']
    have ht := hr.touch tableName
    have hlt₁ : (s.setIndexMap tableName
      (s.indexMap tableName)).catalogMeta.indexMetaPages.entries.length < 2 ^ 32 := hlt
    dsimp only at h ⊢
    rw [(ht.indexMap tableName).isSome_eq]
    generalize s.setIndexMap tableName (s.indexMap tableName) = s₁ at h ht hlt₁ ⊢
    generalize v.setIndexMap (textOf tableName) (v.indexMap (textOf tableName)) = v₁ at ht ⊢
    by_cases hindex : ((s₁.indexMap tableName).lookup indexName).isSome = true
    · rw [if_pos hindex] at h ⊢
      cases h
      exact ⟨v₁, rfl, ht⟩
    rw [if_neg hindex] at h ⊢
    by_cases htype : indexType ≠ "bptree"
    · rw [if_pos htype] at h ⊢
      cases h
      exact ⟨v₁, rfl, ht⟩
    rw [if_neg htype] at h ⊢
    cases htable : s₁.tables.lookup tableId with
    | none =>
      rw [htable] at h
      cases h
      rw [ht.tables.of_none htable]
      exact ⟨v₁, rfl, ht⟩
    | some table =>
      obtain ⟨_, htable', rfl⟩ := ht.tables.of_some htable
      rw [htable] at h
      rw [htable']
      dsimp only at h ⊢
      rw [keyMap_text]
      cases hkeys : keyMap table indexKeys with
      | none =>
        rw [hkeys] at h
        cases h
        exact ⟨v₁, rfl, ht⟩
      | some keys =>
        rw [hkeys] at h
        obtain ⟨s₂, hadd, heq⟩ := Option.map_eq_some_iff.mp h
        cases heq
        exact ⟨_, rfl, ht.addIndex hlt₁ hadd⟩

/-- The indexes on the unique columns. -/
theorem Refines.createUniqueIndexes {columns : List Column} :
    ∀ {s : CatalogManager} {v : MiniSql.CatalogManager} {pages : List Int32}, s.Refines v →
      (∀ column ∈ columns, IndexFits (uniqueIndexName column) 1) →
      s.catalogMeta.indexMetaPages.entries.length + columns.length < 2 ^ 32 →
      CatalogManager.createUniqueIndexes tableName s columns pages = some s' →
      s'.Refines (MiniSql.CatalogManager.createUniqueIndexes (textOf tableName) v
        (columns.map Column.text) (pages.map Int32.toInt)) := by
  induction columns with
  | nil =>
    intro s v pages hr hfits hlt h
    cases h
    exact hr
  | cons column columns ih =>
    intro s v pages hr hfits hlt h
    rw [List.forall_mem_cons] at hfits
    rw [List.length_cons] at hlt
    rw [CatalogManager.createUniqueIndexes] at h
    rw [List.map_cons, MiniSql.CatalogManager.createUniqueIndexes]
    by_cases hunique : column.unique = true
    · have hunique' : column.text.unique = true := hunique
      rw [if_pos hunique] at h
      rw [if_pos hunique']
      rw [Option.bind_eq_bind, Option.bind_eq_some_iff] at h
      obtain ⟨⟨d, s₁⟩, hindex, h⟩ := h
      obtain ⟨-, hlength⟩ := createIndex_changes hfits.1 (by omega) hindex
      obtain ⟨v₁, hindex', hr₁⟩ := hr.createIndex (by omega) hindex
      have hrest := ih hr₁ hfits.2 (by omega) h
      have hpage : (pages.map Int32.toInt).headD INVALID_PAGE_ID = (pages.headD (-1)).toInt := by
        cases pages with
        | nil => rfl
        | cons page pages => rfl
      rw [List.map_singleton] at hindex'
      rw [uniqueIndexName_text, hpage, ← List.map_tail]
      show s'.Refines (MiniSql.CatalogManager.createUniqueIndexes _
        (v.createIndex _ _ [textOf column.name] _ _).2 _ _)
      rw [hindex']
      exact hrest
    · have hunique' : ¬ column.text.unique = true := hunique
      rw [if_neg hunique] at h
      rw [if_neg hunique']
      exact ih hr hfits.2 (by omega) h

/-- `CreateTable` answers the same on both. -/
theorem Refines.createTable (hr : s.Refines v) {schema : Schema} {taken : TablePages}
    (hfits : TableFits tableName schema) (hroom : s.catalogMeta.layout.length ≤ PAGE_SIZE)
    (h : s.createTable tableName schema taken = some (d, s')) :
    ∃ v', v.createTable (textOf tableName) (schema.columns.map Column.text)
      (taken.tableMeta.toInt :: taken.indexes.map Int32.toInt) = (d, v') ∧ s'.Refines v' := by
  have hpage : PAGE_SIZE = 4096 := rfl
  rw [CatalogMeta.length_layout] at hroom
  unfold CatalogManager.createTable at h
  unfold MiniSql.CatalogManager.createTable
  rw [hr.tableNames.isSome_eq]
  by_cases hname : (s.tableNames.lookup tableName).isSome = true
  · rw [if_pos hname] at h ⊢
    cases h
    exact ⟨v, rfl, hr⟩
  rw [if_neg hname] at h ⊢
  simp only [Option.bind_eq_bind, Option.bind_eq_some_iff] at h
  obtain ⟨s₁, hadd, s₂, hindexes, h⟩ := h
  cases h
  simp only [CatalogManager.addTable, Option.bind_eq_bind, Option.bind_eq_some_iff] at hadd
  obtain ⟨_, -, _, -, pages, -, hadd⟩ := hadd
  cases hadd
  have hid : v.catalogMeta.getNextTableId = s.catalogMeta.getNextTableId.toNat :=
    hr.tableMeta.nextId_eq (by omega)
  have hcolumns := hfits.columns
  refine ⟨_, rfl, Refines.createUniqueIndexes ?_ hcolumns.2 ?_ hindexes⟩
  · refine ⟨hr.tableNames.insert textOf_injective hid, ?_, hr.indexNames, hr.indexes,
      hr.tableMeta.assign (by omega) _, hr.indexMeta⟩
    show Renames _ _ (s.tables.insert _ _) (v.tables.insert v.catalogMeta.getNextTableId _)
    rw [hid]
    exact hr.tables.insert toNat_injective rfl
  · show s.catalogMeta.indexMetaPages.entries.length + schema.columns.length < 2 ^ 32
    omega

/-- `DropTable` answers the same on both. -/
theorem Refines.dropTable (hr : s.Refines v) (hn : s.Named)
    (h : s.dropTable tableName = some (d, s')) :
    ∃ v', v.dropTable (textOf tableName) = some (d, v') ∧ s'.Refines v' := by
  unfold CatalogManager.dropTable at h
  unfold MiniSql.CatalogManager.dropTable
  cases hname : s.tableNames.lookup tableName with
  | none =>
    rw [hname] at h
    cases h
    rw [hr.tableNames.of_none hname]
    exact ⟨v, rfl, hr⟩
  | some tableId =>
    obtain ⟨_, hname', rfl⟩ := hr.tableNames.of_some hname
    obtain ⟨t, htable, -⟩ := hn tableName tableId hname
    obtain ⟨_, htable', rfl⟩ := hr.tables.of_some htable
    rw [hname] at h
    cases h
    rw [hname']
    dsimp only
    rw [htable']
    exact ⟨_, rfl, hr.tableNames.erase textOf_injective tableName,
      hr.tables.erase toNat_injective tableId, hr.indexNames, hr.indexes, hr.tableMeta,
      hr.indexMeta⟩

/-- `DropIndex` answers the same on both. -/
theorem Refines.dropIndex (hr : s.Refines v) (h : s.dropIndex tableName indexName = some (d, s')) :
    ∃ v', v.dropIndex (textOf tableName) (textOf indexName) = some (d, v') ∧ s'.Refines v' := by
  unfold CatalogManager.dropIndex at h
  unfold MiniSql.CatalogManager.dropIndex
  cases hname : s.tableNames.lookup tableName with
  | none =>
    rw [hname] at h
    cases h
    rw [hr.tableNames.of_none hname]
    exact ⟨v, rfl, hr⟩
  | some tableId =>
    obtain ⟨_, hname', rfl⟩ := hr.tableNames.of_some hname
    rw [hname] at h
    rw [hname']
    dsimp only at h ⊢
    rw [Option.bind_eq_bind, Option.bind_eq_some_iff] at h
    obtain ⟨indexMap, hmap, h⟩ := h
    obtain ⟨indexMap', hmap', hrel⟩ := hr.indexNames.of_some hmap
    rw [hmap', Option.bind_eq_bind, Option.bind_some]
    cases hindex : indexMap.lookup indexName with
    | none =>
      rw [hindex] at h
      cases h
      rw [hrel.of_none hindex]
      exact ⟨v, rfl, hr⟩
    | some indexId =>
      obtain ⟨_, hindex', rfl⟩ := hrel.of_some hindex
      rw [hindex] at h
      rw [hindex']
      dsimp only at h ⊢
      cases hinfo : s.indexes.lookup indexId with
      | none =>
        rw [hinfo] at h
        cases h
        rw [hr.indexes.of_none hinfo]
        exact ⟨v, rfl, hr⟩
      | some index =>
        obtain ⟨_, hinfo', rfl⟩ := hr.indexes.of_some hinfo
        rw [hinfo] at h
        cases h
        rw [hinfo']
        exact ⟨_, rfl, hr.tableNames, hr.tables,
          hr.indexNames.insert textOf_injective (hrel.erase textOf_injective indexName),
          hr.indexes.erase toNat_injective indexId, hr.tableMeta, hr.indexMeta⟩

/-! ## Runs -/

/-- A change keeps the names: a new id is the id of no table. -/
theorem Named.change (hn : s.Named) (hs : s.Orderly) (hchange : Change s s') : s'.Named := by
  cases hchange with
  | touch tableName => exact hn
  | index room next named found newName copies newPage grows read => exact hn
  | table room next newName newPage grows read =>
    rename_i t page pages
    intro name id (hlook : (s.tableNames.insert t.tableName t.tableId).lookup name = some id)
    show ∃ other, (s.tables.insert t.tableId t).lookup id = some other ∧ _
    rw [lookup_insert] at hlook
    by_cases hname : name = t.tableName
    · rw [if_pos hname] at hlook
      cases hlook
      exact ⟨t, AList.lookup_insert _, hname.symm⟩
    · rw [if_neg hname] at hlook
      have hne : id ≠ t.tableId := by
        rintro rfl
        exact hs.tableIds.nextId_new room next (hs.tableNames name _ hlook)
      rw [AList.lookup_insert_ne hne]
      exact hn name id hlook

/-- A drop keeps the names: no two tables have one id. -/
theorem Named.dropTable (hn : s.Named) (h : s.dropTable tableName = some (d, s')) : s'.Named := by
  unfold CatalogManager.dropTable at h
  cases hname : s.tableNames.lookup tableName with
  | none =>
    rw [hname] at h
    cases h
    exact hn
  | some tableId =>
    rw [hname] at h
    cases h
    intro name id (hlook : (s.tableNames.erase tableName).lookup name = some id)
    show ∃ t, (s.tables.erase tableId).lookup id = some t ∧ _
    by_cases heq : name = tableName
    · subst heq
      rw [AList.lookup_erase] at hlook
      cases hlook
    · rw [AList.lookup_erase_ne heq] at hlook
      obtain ⟨t, ht, htname⟩ := hn name id hlook
      have hne : id ≠ tableId := by
        rintro rfl
        obtain ⟨t', ht', htname'⟩ := hn tableName id hname
        rw [ht] at ht'
        cases ht'
        exact heq (htname.symm.trans htname')
      rw [AList.lookup_erase_ne hne]
      exact ⟨t, ht, htname⟩

/-- A drop that fails changes nothing. -/
theorem dropTable_of_ne (h : s.dropTable tableName = some (d, s')) (hd : d ≠ .success) :
    s' = s := by
  unfold CatalogManager.dropTable at h
  split at h
  · cases h
    rfl
  · cases h
    exact absurd rfl hd

/-- `DropIndex` changes no table, and if it fails, nothing. -/
theorem dropIndex_spec (h : s.dropIndex tableName indexName = some (d, s')) :
    s'.tableNames = s.tableNames ∧ s'.tables = s.tables ∧ (d ≠ .success → s' = s) := by
  unfold CatalogManager.dropIndex at h
  split at h
  · cases h
    exact ⟨rfl, rfl, fun _ => rfl⟩
  · rw [Option.bind_eq_bind, Option.bind_eq_some_iff] at h
    obtain ⟨indexMap, -, h⟩ := h
    split at h
    · cases h
      exact ⟨rfl, rfl, fun _ => rfl⟩
    · split at h
      · cases h
        exact ⟨rfl, rfl, fun _ => rfl⟩
      · cases h
        exact ⟨rfl, rfl, fun hd => absurd rfl hd⟩

/-- A call whose metadata fit one page, with its answer. -/
def Answers (s : CatalogManager) (c : CatalogCall × Dberr) (s' : CatalogManager) : Prop :=
  c.1.Fits ∧ s.call c.1 = some (c.2, s') ∧ s'.catalogMeta.layout.length ≤ PAGE_SIZE

/-- The call on the maps of texts and numbers. -/
def textCall (v : MiniSql.CatalogManager) :
    CatalogCall → Option (Dberr × MiniSql.CatalogManager)
  | .createTable tableName schema taken =>
    some (v.createTable (textOf tableName) (schema.columns.map Column.text)
      (taken.tableMeta.toInt :: taken.indexes.map Int32.toInt))
  | .dropTable tableName => v.dropTable (textOf tableName)
  | .createIndex tableName indexName indexKeys indexType page =>
    some (v.createIndex (textOf tableName) (textOf indexName) (indexKeys.map textOf) indexType
      page.toInt)
  | .dropIndex tableName indexName => v.dropIndex (textOf tableName) (textOf indexName)

/-- What a run keeps of the maps of bytes. -/
structure Kept (s : CatalogManager) : Prop where
  orderly : s.Orderly
  named : s.Named
  room : s.catalogMeta.layout.length ≤ PAGE_SIZE

/-- There are too few pages for the number of indexes to wrap. -/
theorem Kept.length_indexes (hk : s.Kept) :
    s.catalogMeta.indexMetaPages.entries.length < 2 ^ 32 := by
  have hroom := hk.room
  have hpage : PAGE_SIZE = 4096 := rfl
  rw [CatalogMeta.length_layout] at hroom
  omega

/-- One change of the stored catalog keeps the invariant, if the meta page still has room. -/
theorem Kept.changes (hk : s.Kept) (h : Changes s s')
    (hroom : s'.catalogMeta.layout.length ≤ PAGE_SIZE) : s'.Kept := by
  obtain ⟨horderly, hnamed⟩ := Changes.invariant (P := Named)
    (fun _ _ hs hn hchange => hn.change hs hchange) h hk.orderly hk.named
  exact ⟨horderly, hnamed, hroom⟩

/-- An answered call keeps it: it is a chain of changes, or changes nothing. -/
theorem Kept.answers (hk : s.Kept) {c : CatalogCall × Dberr} (h : Answers s c s') : s'.Kept := by
  obtain ⟨call, d⟩ := c
  obtain ⟨hfits, hcall, hroom⟩ := h
  cases call with
  | createTable tableName schema taken =>
    exact hk.changes (createTable_changes hfits hk.room hcall) hroom
  | createIndex tableName indexName indexKeys indexType page =>
    exact hk.changes (createIndex_changes hfits hk.length_indexes hcall).1 hroom
  | dropTable tableName =>
    refine ⟨?_, hk.named.dropTable hcall, hroom⟩
    by_cases hd : d = .success
    · subst hd
      exact hk.orderly.step hk.room ⟨hfits, hcall, hroom⟩
    · rw [dropTable_of_ne hcall hd]
      exact hk.orderly
  | dropIndex tableName indexName =>
    obtain ⟨hnames, htables, hne⟩ := dropIndex_spec hcall
    refine ⟨?_, ?_, hroom⟩
    · by_cases hd : d = .success
      · subst hd
        exact hk.orderly.step hk.room ⟨hfits, hcall, hroom⟩
      · rw [hne hd]
        exact hk.orderly
    · unfold Named
      rw [hnames, htables]
      exact hk.named

/-- One call on both catalogs. -/
theorem Refines.answers (hr : s.Refines v) (hk : s.Kept) {c : CatalogCall × Dberr}
    (h : Answers s c s') : ∃ v', textCall v c.1 = some (c.2, v') ∧ s'.Refines v' := by
  obtain ⟨call, d⟩ := c
  obtain ⟨hfits, hcall, -⟩ := h
  cases call with
  | createTable tableName schema taken =>
    obtain ⟨v', hv', hr'⟩ := hr.createTable hfits hk.room hcall
    exact ⟨v', congrArg some hv', hr'⟩
  | createIndex tableName indexName indexKeys indexType page =>
    obtain ⟨v', hv', hr'⟩ := hr.createIndex hk.length_indexes hcall
    exact ⟨v', congrArg some hv', hr'⟩
  | dropTable tableName => exact hr.dropTable hk.named hcall
  | dropIndex tableName indexName => exact hr.dropIndex hcall

/-- The empty catalogs. -/
theorem refines_new : new.Refines MiniSql.CatalogManager.new where
  tableNames := renames_empty
  tables := renames_empty
  indexNames := renames_empty
  indexes := renames_empty
  tableMeta := .empty
  indexMeta := .empty

/-- The empty catalog keeps the invariant. -/
theorem kept_new : new.Kept where
  orderly := orderly_new
  named _ _ h := by cases h
  room := by decide

/-- A run of calls from a new database is one of the maps of texts and numbers, with the same
answers, and at its end both have the same tables and indexes. -/
theorem catalog_refines {calls : List (CatalogCall × Dberr)} (hrun : Steps Answers new calls s) :
    ∃ v, Steps (fun v c v' => textCall v c.1 = some (c.2, v')) MiniSql.CatalogManager.new calls v ∧
      s.Refines v := by
  have hall : ∀ {s t : CatalogManager} {calls : List (CatalogCall × Dberr)}
      {v : MiniSql.CatalogManager}, Steps Answers s calls t → s.Kept → s.Refines v →
        ∃ w, Steps (fun v c v' => textCall v c.1 = some (c.2, v')) v calls w ∧ t.Refines w := by
    intro s t calls v hrun hk hr
    induction hrun generalizing v with
    | nil s => exact ⟨v, .nil v, hr⟩
    | cons hstep _ ih =>
      obtain ⟨v', hv', hr'⟩ := hr.answers hk hstep
      obtain ⟨w, hw, ht⟩ := ih (hk.answers hstep) hr'
      exact ⟨w, .cons hv' hw, ht⟩
  exact hall hrun kept_new refines_new

end CatalogManager

end DisMiniSql.MiniSql.Record
