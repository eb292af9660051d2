import DisMiniSql.Lib.Finds
import DisMiniSql.MiniSql.Catalog.StoredCatalog
import DisMiniSql.Proofs.Record.Metadata
import Mathlib.Logic.Relation

/-!
# The maps of the catalog and the pages of its metadata

`Change` is one change that `CreateTable` or `CreateIndex` makes: an entry of `index_names_`, a new
table, a new index. `createTable_changes` and `createIndex_changes` say that these calls are
sequences of changes, as long as the metadata fit their pages. What is proved of one change holds of
the calls.

`Tracks` says that the maps and the pages have one `Content`, the tables and indexes in the order of
their ids. A change keeps it (`Tracks.change`): the id of a new table or index is larger than every
id of the metadata, so it comes last, and its page was free, so no other page is written.

`Orderly` holds in every run, drops included, and `Orphaned` says that a table or an index is in the
metadata and not in the maps. A change does not bring it back (`Orphaned.change`).
-/

set_option autoImplicit false

namespace DisMiniSql.MiniSql.Record

open DisMiniSql.Lib (Bytes Reads Finds)

/-! ## The numbers of the metadata pages -/

namespace PageMap

/-- The map has an entry for the id. -/
def Has (pages : PageMap) (id : UInt32) : Prop := id ∈ pages.entries.map Prod.fst

/-- The ids of the entries are the numbers from zero on. -/
def Numbered (pages : PageMap) : Prop :=
  pages.entries.map (fun e => e.1.toNat) = List.range pages.entries.length

variable {pages : PageMap}

/-- The ids in use are below their number. -/
theorem Numbered.toNat_lt (h : pages.Numbered) {id : UInt32} (hid : pages.Has id) :
    id.toNat < pages.entries.length := by
  have hmem : id.toNat ∈ pages.entries.map fun e => e.1.toNat := by
    obtain ⟨e, he, rfl⟩ := List.mem_map.mp hid
    exact List.mem_map.mpr ⟨e, he, rfl⟩
  rw [h] at hmem
  exact List.mem_range.mp hmem

/-- The next id is the number of the entries. -/
theorem Numbered.toNat_nextId (h : pages.Numbered) (hlt : pages.entries.length < 2 ^ 32) :
    pages.nextId.toNat = pages.entries.length := by
  have hlast := congrArg List.getLast? h
  rw [List.getLast?_map, List.getLast?_range] at hlast
  unfold nextId
  cases he : pages.entries.getLast? with
  | none =>
    rw [List.getLast?_eq_none_iff] at he
    rw [he]
    rfl
  | some e =>
    have hpos : pages.entries.length ≠ 0 := by
      rintro hzero
      rw [List.length_eq_zero_iff.mp hzero] at he
      cases he
    rw [he, Option.map_some, if_neg hpos, Option.some.injEq] at hlast
    show (e.1 + 1).toNat = pages.entries.length
    rw [UInt32.toNat_add, hlast]
    have hone : (1 : UInt32).toNat = 1 := rfl
    rw [hone, Nat.mod_eq_of_lt (by omega)]
    omega

variable {id : UInt32} {pageId : Int32}

/-- So the next id is new. -/
theorem Numbered.nextId_new (h : pages.Numbered) (hlt : pages.entries.length < 2 ^ 32)
    (hid : id = pages.nextId) : ¬ pages.Has id := by
  rintro hhas
  have hbelow := h.toNat_lt hhas
  rw [hid, h.toNat_nextId hlt] at hbelow
  exact Nat.lt_irrefl _ hbelow

/-- The entry with the next id comes last. -/
theorem Numbered.assign_entries (h : pages.Numbered) (hlt : pages.entries.length < 2 ^ 32)
    (hid : id = pages.nextId) :
    (pages.assign id pageId).entries = pages.entries ++ [(id, pageId)] := by
  have hall : (pages.entries.filter fun e => e.1 != id) = pages.entries := by
    rw [List.filter_eq_self]
    intro e he
    rw [bne_iff_ne]
    intro heq
    exact h.nextId_new hlt hid (heq ▸ List.mem_map_of_mem he)
  show emplaceEntry _ (pages.entries.filter _) = _
  rw [hall]
  refine emplaceEntry_of_lt fun e he => ?_
  rw [UInt32.lt_iff_toNat_lt, hid, h.toNat_nextId hlt]
  exact h.toNat_lt (List.mem_map_of_mem he)

/-- Assigning it keeps the numbering. -/
theorem Numbered.assign (h : pages.Numbered) (hlt : pages.entries.length < 2 ^ 32)
    (hid : id = pages.nextId) : (pages.assign id pageId).Numbered := by
  unfold Numbered
  rw [h.assign_entries hlt hid, List.map_append, h, List.length_append, List.map_singleton,
    List.length_singleton, List.range_succ, hid, h.toNat_nextId hlt]

/-- And adds that id only. -/
theorem Numbered.has_assign (h : pages.Numbered) (hlt : pages.entries.length < 2 ^ 32)
    (hid : id = pages.nextId) {other : UInt32} :
    (pages.assign id pageId).Has other ↔ pages.Has other ∨ other = id := by
  unfold Has
  rw [h.assign_entries hlt hid, List.map_append, List.mem_append, List.map_singleton,
    List.mem_singleton]

/-- An assignment adds one entry at most. -/
theorem length_assign_le (pages : PageMap) (id : UInt32) (pageId : Int32) :
    (pages.assign id pageId).entries.length ≤ pages.entries.length + 1 := by
  have hemplace : ∀ l : List (UInt32 × Int32),
      (emplaceEntry (id, pageId) l).length ≤ l.length + 1 := by
    intro l
    -- `emplace` walks to the place of the id and puts the entry there
    induction l with
    | nil => exact Nat.le_refl 1
    | cons e rest ih =>
      unfold emplaceEntry
      split
      · exact Nat.le_refl _
      · split
        · exact Nat.succ_le_succ ih
        · exact Nat.le_succ _
  exact Nat.le_trans (hemplace _) (Nat.succ_le_succ (List.length_filter_le _ _))

end PageMap

/-! ## Pages -/

namespace Pages

/-- Every page that is in use stays as it is. -/
def Grows (pages pages' : Pages) : Prop :=
  ∀ p buf, pages p = some buf → pages' p = some buf

/-- Pages that grew twice have grown. -/
theorem Grows.trans {pages pages' pages'' : Pages} (h : pages.Grows pages')
    (h' : pages'.Grows pages'') : pages.Grows pages'' :=
  fun p buf hp => h' p buf (h p buf hp)

/-- What is read from a page in use is read from it later. -/
theorem Grows.read {pages pages' : Pages} (h : pages.Grows pages') {α : Type} {p : Int32}
    {deserializeFrom : Bytes → Nat → Option (α × Nat)} {x : α}
    (hread : pages.read p deserializeFrom = some x) :
    pages'.read p deserializeFrom = some x := by
  unfold Pages.read at hread ⊢
  cases hp : pages p with
  | none =>
    rw [hp] at hread
    cases hread
  | some buf =>
    rw [hp] at hread
    rw [h p buf hp]
    exact hread

/-- Writing a free page adds it. -/
theorem grows_write {pages : Pages} {p : Int32} (hfree : pages p = none) (buf : Bytes) :
    pages.Grows (pages.write p buf) := by
  intro q buf' hq
  have hne : q ≠ p := by
    rintro rfl
    rw [hfree] at hq
    cases hq
  show (if q = p then some buf else pages q) = some buf'
  rw [if_neg hne, hq]

/-- `NewPage` hands out a free page. -/
theorem newPage_spec {pages pages' : Pages} {p : Int32} (h : pages.newPage p = some pages') :
    pages p = none ∧ pages' = pages.write p fun _ => 0 := by
  unfold newPage at h
  split at h
  · cases h
  · next hfree =>
    rw [not_or, Option.not_isSome_iff_eq_none] at hfree
    exact ⟨hfree.2, (Option.some.inj h).symm⟩

/-- A value that is stored on a new page is read from it. -/
theorem store_spec {α : Type} {pages pages' : Pages} {p : Int32}
    {serializeTo : Bytes → Nat → Option (Bytes × Nat)} {bytes : List UInt8}
    {deserializeFrom : Bytes → Nat → Option (α × Nat)} {x : α}
    (hwrite : ∀ m a, serializeTo m a = some (m.blit a bytes, bytes.length))
    (hread : Reads deserializeFrom bytes x) (h : pages.store p serializeTo = some pages') :
    pages p = none ∧ pages.Grows pages' ∧ pages'.read p deserializeFrom = some x := by
  unfold store at h
  simp only [Option.bind_eq_bind, Option.bind_eq_some_iff] at h
  obtain ⟨pages₁, hnew, buf, -, ⟨buf', n⟩, hser, h⟩ := h
  obtain ⟨hfree, rfl⟩ := newPage_spec hnew
  rw [hwrite, Option.some.injEq, Prod.mk.injEq] at hser
  obtain ⟨rfl, -⟩ := hser
  cases h
  have hself : ((pages.write p fun _ => 0).write p (buf.blit 0 bytes)) p =
      some (buf.blit 0 bytes) := if_pos rfl
  have hsame : (pages.write p fun _ => 0).write p (buf.blit 0 bytes) =
      pages.write p (buf.blit 0 bytes) := by
    funext q
    unfold write
    split <;> rfl
  refine ⟨hfree, ?_, ?_⟩
  · rw [hsame]
    exact grows_write hfree _
  · unfold Pages.read
    rw [hself]
    simp only [Option.bind_eq_bind, Option.bind_some]
    rw [hread _ 0 DisMiniSql.Lib.Bytes.holds_blit]
    rfl

end Pages

/-! ## What the maps and the pages say -/

/-- The tables, and the indexes with the names of their tables, in the order of their ids. -/
structure Content where
  tables : List TableMetadata
  indexes : List (List UInt8 × IndexMetadata)

/-- The names of an index's table and of the index. -/
def indexKey (i : List UInt8 × IndexMetadata) : List UInt8 × List UInt8 := (i.1, i.2.indexName)

/-- The index is on one of the tables, and its key is made of columns of the table. -/
def OnTable (tables : List TableMetadata) (i : List UInt8 × IndexMetadata) : Prop :=
  ∃ t ∈ tables, t.tableId = i.2.tableId ∧ t.tableName = i.1 ∧
    (t.schema.shallowCopySchema i.2.keyMap).isSome

/-- The value `val x` of the entry with the id `id x` is on the entry's page. -/
def StoredAt {ν α : Type} (pages : Pages) (deserializeFrom : Bytes → Nat → Option (α × Nat))
    (id : ν → UInt32) (val : ν → α) (entry : UInt32 × Int32) (x : ν) : Prop :=
  entry.1 = id x ∧ entry.2 ≠ CATALOG_META_PAGE_ID ∧
    pages.read entry.2 deserializeFrom = some (val x)

namespace CatalogManager

/-- `table_names_` and `tables_` have these tables. -/
structure ListsTables (s : CatalogManager) (ts : List TableMetadata) : Prop where
  tables : Finds s.tables.lookup ts TableMetadata.tableId id
  tableNames : Finds s.tableNames.lookup ts TableMetadata.tableName TableMetadata.tableId

/-- `index_names_` and `indexes_` have these indexes. -/
structure ListsIndexes (s : CatalogManager) (is : List (List UInt8 × IndexMetadata)) :
    Prop where
  indexes : Finds s.indexes.lookup is (fun i => i.2.indexId) Prod.snd
  indexNames : Finds (fun k : List UInt8 × List UInt8 => (s.indexMap k.1).lookup k.2) is
    indexKey fun i => i.2.indexId

/-- The tables and indexes are in the pages that the metadata names. -/
structure Stored (pages : Pages) (m : CatalogMeta) (c : Content) : Prop where
  tables : List.Forall₂
    (StoredAt pages TableMetadata.deserializeFrom TableMetadata.tableId id)
    m.tableMetaPages.entries c.tables
  indexes : List.Forall₂
    (StoredAt pages IndexMetadata.deserializeFrom (fun i => i.2.indexId) Prod.snd)
    m.indexMetaPages.entries c.indexes
  tableNames : (c.tables.map TableMetadata.tableName).Nodup
  indexNames : (c.indexes.map indexKey).Nodup
  owners : ∀ i ∈ c.indexes, OnTable c.tables i

/-- The maps of the catalog have the tables and indexes that the pages have. -/
structure Tracks (s : CatalogManager) (c : Content) : Prop where
  tables : s.ListsTables c.tables
  indexes : s.ListsIndexes c.indexes
  stored : Stored s.pages s.catalogMeta c

/-- The two catalogs have the same tables and indexes, under the same ids and names. -/
structure Same (s r : CatalogManager) : Prop where
  tables : ∀ id, r.tables.lookup id = s.tables.lookup id
  tableNames : ∀ name, r.tableNames.lookup name = s.tableNames.lookup name
  indexes : ∀ id, r.indexes.lookup id = s.indexes.lookup id
  indexNames : ∀ name index, (r.indexMap name).lookup index = (s.indexMap name).lookup index

/-- Two catalogs with the same content. -/
theorem ListsTables.same {s r : CatalogManager} {c : Content} (hs : s.ListsTables c.tables)
    (hr : r.ListsTables c.tables) (his : s.ListsIndexes c.indexes)
    (hir : r.ListsIndexes c.indexes) : Same s r where
  tables := hs.tables.eq hr.tables
  tableNames := hs.tableNames.eq hr.tableNames
  indexes := his.indexes.eq hir.indexes
  indexNames name index := his.indexNames.eq hir.indexNames (name, index)

variable {s s' : CatalogManager}

/-! ## Tables and indexes that come in -/

/-- What is found after an insert. -/
theorem lookup_insert {κ ν : Type} [DecidableEq κ] (m : StdMap κ ν) (k₀ : κ) (v : ν) (k : κ) :
    (m.insert k₀ v).lookup k = if k = k₀ then some v else m.lookup k := by
  by_cases hk : k = k₀
  · subst hk
    rw [AList.lookup_insert, if_pos rfl]
  · rw [AList.lookup_insert_ne hk, if_neg hk]

variable {t : TableMetadata}

/-- A table with a new id and a new name. -/
theorem ListsTables.enterTable {ts : List TableMetadata} (h : s.ListsTables ts)
    (hid : t.tableId ∉ ts.map TableMetadata.tableId)
    (hname : t.tableName ∉ ts.map TableMetadata.tableName) :
    (s.enterTable t.tableId t).ListsTables (ts ++ [t]) where
  tables := h.tables.append hid (lookup_insert _ _ _)
  tableNames := h.tableNames.append hname (lookup_insert _ _ _)

/-- Setting the indexes of one table leaves the others alone. -/
theorem indexMap_setIndexMap (s : CatalogManager) (t : List UInt8) (m : StdMap (List UInt8) UInt32)
    (name : List UInt8) :
    (s.setIndexMap t m).indexMap name = if name = t then m else s.indexMap name := by
  show ((s.indexNames.insert t m).lookup name).getD ∅ = _
  rw [lookup_insert]
  split <;> rfl

/-- An index with a new id and a new name. -/
theorem ListsIndexes.enterIndex {is : List (List UInt8 × IndexMetadata)} (h : s.ListsIndexes is)
    {name : List UInt8} {i : IndexMetadata} (hid : i.indexId ∉ is.map fun i => i.2.indexId)
    (hname : indexKey (name, i) ∉ is.map indexKey) :
    (s.enterIndex i.indexId name i).ListsIndexes (is ++ [(name, i)]) where
  indexes := h.indexes.append (y := (name, i)) hid (lookup_insert _ _ _)
  indexNames := by
    refine h.indexNames.append (y := (name, i)) hname fun k => ?_
    show ((s.setIndexMap name ((s.indexMap name).insert i.indexName i.indexId)).indexMap
      k.1).lookup k.2 = _
    rw [indexMap_setIndexMap]
    by_cases htable : k.1 = name
    · rw [if_pos htable, lookup_insert, htable]
      by_cases hindex : k.2 = i.indexName
      · rw [if_pos hindex, if_pos (Prod.ext htable hindex)]
      · rw [if_neg hindex, if_neg fun heq => hindex (congrArg Prod.snd heq)]
    · rw [if_neg htable, if_neg fun heq => htable (congrArg Prod.fst heq)]

/-! ## The changes of a call -/

/-- What holds of the catalog in every run: the metadata number the tables and indexes from zero on
and forget none. -/
structure Orderly (s : CatalogManager) : Prop where
  metaPage : (s.pages CATALOG_META_PAGE_ID).isSome
  tableIds : s.catalogMeta.tableMetaPages.Numbered
  indexIds : s.catalogMeta.indexMetaPages.Numbered
  tableNames : ∀ name id, s.tableNames.lookup name = some id → s.catalogMeta.tableMetaPages.Has id
  indexes : ∀ id, id ∈ s.indexes → s.catalogMeta.indexMetaPages.Has id

/-- A table or an index that the metadata still name is gone from the maps. -/
def Orphaned (s : CatalogManager) : Prop :=
  (∃ id, s.catalogMeta.tableMetaPages.Has id ∧ id ∉ s.tables) ∨
    ∃ id, s.catalogMeta.indexMetaPages.Has id ∧ id ∉ s.indexes

/-- One change that a call without a drop makes: the entry of a table in `index_names_`, a new
table, or a new index. -/
inductive Change : CatalogManager → CatalogManager → Prop
  | touch (s : CatalogManager) (tableName : List UInt8) :
      Change s (s.setIndexMap tableName (s.indexMap tableName))
  | table {s : CatalogManager} {t : TableMetadata} {page : Int32} {pages : Pages}
      (room : s.catalogMeta.tableMetaPages.entries.length < 2 ^ 32)
      (next : t.tableId = s.catalogMeta.getNextTableId)
      (newName : s.tableNames.lookup t.tableName = none)
      (newPage : s.pages page = none) (grows : s.pages.Grows pages)
      (read : pages.read page TableMetadata.deserializeFrom = some t) :
      Change s ((s.enterTable t.tableId t).recordTable t.tableId page pages)
  | index {s : CatalogManager} {tableName : List UInt8} {t : TableMetadata} {i : IndexMetadata}
      {page : Int32} {pages : Pages}
      (room : s.catalogMeta.indexMetaPages.entries.length < 2 ^ 32)
      (next : i.indexId = s.catalogMeta.getNextIndexId)
      (named : s.tableNames.lookup tableName = some i.tableId)
      (found : s.tables.lookup i.tableId = some t)
      (newName : (s.indexMap tableName).lookup i.indexName = none)
      (copies : (t.schema.shallowCopySchema i.keyMap).isSome)
      (newPage : s.pages page = none) (grows : s.pages.Grows pages)
      (read : pages.read page IndexMetadata.deserializeFrom = some i) :
      Change s ((s.enterIndex i.indexId tableName i).recordIndex i.indexId page pages)

/-- The entry of a table in `index_names_` that is made if it is not there. -/
theorem indexMap_touch (s : CatalogManager) (tableName name : List UInt8) :
    (s.setIndexMap tableName (s.indexMap tableName)).indexMap name = s.indexMap name := by
  rw [indexMap_setIndexMap]
  split
  · next heq => rw [heq]
  · rfl

/-- A page that was free is not the page of the metadata. -/
theorem Orderly.page_ne (h : s.Orderly) {page : Int32} (hfree : s.pages page = none) :
    page ≠ CATALOG_META_PAGE_ID := by
  rintro rfl
  have := h.metaPage
  rw [hfree] at this
  cases this

/-- The meta page stays when pages are added. -/
theorem Orderly.grows (h : s.Orderly) {pages : Pages} (hgrows : s.pages.Grows pages) :
    (pages CATALOG_META_PAGE_ID).isSome := by
  obtain ⟨buf, hbuf⟩ := Option.isSome_iff_exists.mp h.metaPage
  rw [hgrows _ buf hbuf]
  rfl

/-- Each change of the catalog keeps it orderly, one case for each. -/
theorem Orderly.change (h : s.Orderly) (hchange : Change s s') : s'.Orderly := by
  cases hchange with
  | touch tableName => exact ⟨h.metaPage, h.tableIds, h.indexIds, h.tableNames, h.indexes⟩
  | table room next newName newPage grows read =>
    rename_i t page pages
    refine ⟨h.grows grows, h.tableIds.assign room next, h.indexIds, ?_, h.indexes⟩
    intro name id (hlook : (s.tableNames.insert t.tableName t.tableId).lookup name = some id)
    refine (h.tableIds.has_assign room next).mpr ?_
    rw [lookup_insert] at hlook
    split at hlook
    · exact .inr (Option.some.inj hlook).symm
    · exact .inl (h.tableNames name id hlook)
  | index room next named found newName copies newPage grows read =>
    rename_i tableName t i page pages
    refine ⟨h.grows grows, h.tableIds, h.indexIds.assign room next, h.tableNames, ?_⟩
    intro id hmem
    refine (h.indexIds.has_assign room next).mpr ?_
    rcases (AList.mem_insert _).mp hmem with rfl | hmem
    · exact .inr rfl
    · exact .inl (h.indexes id hmem)

/-- What is gone does not come back: a new id is none of the metadata. -/
theorem Orphaned.change (h : s.Orphaned) (hs : s.Orderly) (hchange : Change s s') :
    s'.Orphaned := by
  cases hchange with
  | touch tableName => exact h
  | table room next newName newPage grows read =>
    rcases h with ⟨id, hhas, hgone⟩ | hindex
    · refine .inl ⟨id, (hs.tableIds.has_assign room next).mpr (.inl hhas), fun hmem => ?_⟩
      rcases (AList.mem_insert _).mp hmem with rfl | hmem
      · exact hs.tableIds.nextId_new room next hhas
      · exact hgone hmem
    · exact .inr hindex
  | index room next named found newName copies newPage grows read =>
    rcases h with htable | ⟨id, hhas, hgone⟩
    · exact .inl htable
    · refine .inr ⟨id, (hs.indexIds.has_assign room next).mpr (.inl hhas), fun hmem => ?_⟩
      rcases (AList.mem_insert _).mp hmem with rfl | hmem
      · exact hs.indexIds.nextId_new room next hhas
      · exact hgone hmem

/-! ## Content -/

/-- The ids of the entries are those of the values. -/
theorem map_id_of_stored {ν α : Type} {pages : Pages}
    {deserializeFrom : Bytes → Nat → Option (α × Nat)} {id : ν → UInt32} {val : ν → α}
    {entries : List (UInt32 × Int32)} {xs : List ν}
    (h : List.Forall₂ (StoredAt pages deserializeFrom id val) entries xs) :
    xs.map id = entries.map Prod.fst := by
  induction h with
  | nil => rfl
  | cons hx _ ih => rw [List.map_cons, List.map_cons, hx.1, ih]

/-- Pages that are in use stay as they are, so the values stay on theirs. -/
theorem stored_grows {ν α : Type} {pages pages' : Pages} (hgrows : pages.Grows pages')
    {deserializeFrom : Bytes → Nat → Option (α × Nat)} {id : ν → UInt32} {val : ν → α}
    {entries : List (UInt32 × Int32)} {xs : List ν}
    (h : List.Forall₂ (StoredAt pages deserializeFrom id val) entries xs) :
    List.Forall₂ (StoredAt pages' deserializeFrom id val) entries xs :=
  h.imp fun _ _ hx => ⟨hx.1, hx.2.1, hgrows.read hx.2.2⟩

/-- No two tables of the metadata have the same id. -/
theorem Stored.nodup_ids {pages : Pages} {m : CatalogMeta} {c : Content} (h : Stored pages m c) :
    (c.tables.map TableMetadata.tableId).Nodup := by
  rw [map_id_of_stored h.tables]
  refine List.pairwise_map.mpr (m.tableMetaPages.sorted.imp ?_)
  intro a b hlt
  exact UInt32.ne_of_lt hlt

/-- One more table. -/
theorem Tracks.table {c : Content} (h : s.Tracks c) (hs : s.Orderly) {page : Int32} {pages : Pages}
    (room : s.catalogMeta.tableMetaPages.entries.length < 2 ^ 32)
    (next : t.tableId = s.catalogMeta.getNextTableId)
    (newName : s.tableNames.lookup t.tableName = none) (newPage : s.pages page = none)
    (grows : s.pages.Grows pages) (read : pages.read page TableMetadata.deserializeFrom = some t) :
    ((s.enterTable t.tableId t).recordTable t.tableId page pages).Tracks
      ⟨c.tables ++ [t], c.indexes⟩ := by
  have hid : t.tableId ∉ c.tables.map TableMetadata.tableId := by
    rw [map_id_of_stored h.stored.tables]
    exact hs.tableIds.nextId_new room next
  have hname : t.tableName ∉ c.tables.map TableMetadata.tableName :=
    h.tables.tableNames.not_mem newName
  have henter := h.tables.enterTable hid hname
  refine ⟨⟨henter.tables, henter.tableNames⟩, ⟨h.indexes.indexes, h.indexes.indexNames⟩, ?_⟩
  constructor
  case tables =>
    show List.Forall₂ _ (s.catalogMeta.tableMetaPages.assign t.tableId page).entries _
    rw [hs.tableIds.assign_entries room next]
    refine List.rel_append (stored_grows grows h.stored.tables) (.cons ?_ .nil)
    exact ⟨rfl, hs.page_ne newPage, read⟩
  case indexes => exact stored_grows grows h.stored.indexes
  case tableNames =>
    rw [List.map_append]
    exact List.nodup_append'.mpr ⟨h.stored.tableNames, List.nodup_singleton _,
      List.disjoint_singleton.mpr hname⟩
  case indexNames => exact h.stored.indexNames
  case owners =>
    intro i hi
    obtain ⟨u, hu, howner⟩ := h.stored.owners i hi
    exact ⟨u, List.mem_append_left _ hu, howner⟩

variable {tableName : List UInt8}

/-- One more index. -/
theorem Tracks.index {c : Content} (h : s.Tracks c) (hs : s.Orderly) {i : IndexMetadata}
    {page : Int32} {pages : Pages} (room : s.catalogMeta.indexMetaPages.entries.length < 2 ^ 32)
    (next : i.indexId = s.catalogMeta.getNextIndexId)
    (named : s.tableNames.lookup tableName = some i.tableId)
    (found : s.tables.lookup i.tableId = some t)
    (newName : (s.indexMap tableName).lookup i.indexName = none)
    (copies : (t.schema.shallowCopySchema i.keyMap).isSome) (newPage : s.pages page = none)
    (grows : s.pages.Grows pages) (read : pages.read page IndexMetadata.deserializeFrom = some i) :
    ((s.enterIndex i.indexId tableName i).recordIndex i.indexId page pages).Tracks
      ⟨c.tables, c.indexes ++ [(tableName, i)]⟩ := by
  have hid : i.indexId ∉ c.indexes.map fun i => i.2.indexId := by
    rw [map_id_of_stored h.stored.indexes]
    exact hs.indexIds.nextId_new room next
  have hname : indexKey (tableName, i) ∉ c.indexes.map indexKey :=
    h.indexes.indexNames.not_mem (k := indexKey (tableName, i)) newName
  have henter := h.indexes.enterIndex hid hname
  refine ⟨⟨h.tables.tables, h.tables.tableNames⟩, ⟨henter.indexes, henter.indexNames⟩, ?_⟩
  constructor
  case tables => exact stored_grows grows h.stored.tables
  case indexes =>
    show List.Forall₂ _ (s.catalogMeta.indexMetaPages.assign i.indexId page).entries _
    rw [hs.indexIds.assign_entries room next]
    refine List.rel_append (stored_grows grows h.stored.indexes) (.cons ?_ .nil)
    exact ⟨rfl, hs.page_ne newPage, read⟩
  case tableNames => exact h.stored.tableNames
  case indexNames =>
    rw [List.map_append]
    exact List.nodup_append'.mpr ⟨h.stored.indexNames, List.nodup_singleton _,
      List.disjoint_singleton.mpr hname⟩
  case owners =>
    intro j hj
    rcases List.mem_append.mp hj with hj | hj
    · exact h.stored.owners j hj
    · obtain rfl := List.mem_singleton.mp hj
      -- The table with the name is the table with the id.
      obtain ⟨u, hu, huname, huid⟩ := h.tables.tableNames.mem named
      obtain ⟨v, hv, hvid, rfl⟩ := h.tables.tables.mem found
      obtain rfl : u = v :=
        List.inj_on_of_nodup_map h.stored.nodup_ids hu hv (huid.trans hvid.symm)
      exact ⟨u, hu, huid, huname, copies⟩

/-- A change keeps the maps and the pages together. -/
theorem Tracks.change {c : Content} (h : s.Tracks c) (hs : s.Orderly) (hchange : Change s s') :
    ∃ c', s'.Tracks c' := by
  cases hchange with
  | touch tableName =>
    refine ⟨c, ⟨h.tables.tables, h.tables.tableNames⟩, ⟨h.indexes.indexes, fun k => ?_⟩, h.stored⟩
    show ((s.setIndexMap tableName (s.indexMap tableName)).indexMap k.1).lookup k.2 = _
    rw [indexMap_touch]
    exact h.indexes.indexNames k
  | table room next newName newPage grows read =>
    exact ⟨_, h.table hs room next newName newPage grows read⟩
  | index room next named found newName copies newPage grows read =>
    exact ⟨_, h.index hs room next named found newName copies newPage grows read⟩

/-! ## Calls -/

/-- The metadata of an index fit one page. -/
def IndexFits (indexName : List UInt8) (keys : Nat) : Prop :=
  ∀ i : IndexMetadata, i.indexName = indexName → i.keyMap.length = keys →
    i.layout.length ≤ PAGE_SIZE

/-- The metadata of a table fit one page. -/
def TableFits (tableName : List UInt8) (schema : Schema) : Prop :=
  ∀ t : TableMetadata, t.tableName = tableName → t.schema = schema → t.layout.length ≤ PAGE_SIZE

/-- The changes of a call, one after another. -/
abbrev Changes : CatalogManager → CatalogManager → Prop := Relation.ReflTransGen Change

/-- A key map has one column for each name. -/
theorem length_keyMap {indexKeys : List (List UInt8)} {keys : List UInt32}
    (h : keyMap t indexKeys = some keys) : keys.length = indexKeys.length := by
  unfold keyMap at h
  induction indexKeys generalizing keys with
  | nil =>
    cases h
    rfl
  | cons key rest ih =>
    simp only [List.mapM_cons, Option.bind_eq_bind, Option.bind_eq_some_iff] at h
    obtain ⟨_, -, others, hothers, h⟩ := h
    cases h
    exact congrArg Nat.succ (ih hothers)

/-- `CreateIndex` makes an entry of `index_names_`, and then the index or nothing. -/
theorem createIndex_changes {indexName : List UInt8} {indexKeys : List (List UInt8)}
    {indexType : String} {page : Int32} {d : Dberr} (hfits : IndexFits indexName indexKeys.length)
    (hroom : s.catalogMeta.indexMetaPages.entries.length < 2 ^ 32)
    (h : s.createIndex tableName indexName indexKeys indexType page = some (d, s')) :
    Changes s s' ∧ s'.catalogMeta.indexMetaPages.entries.length ≤
      s.catalogMeta.indexMetaPages.entries.length + 1 := by
  unfold createIndex at h
  cases hname : s.tableNames.lookup tableName with
  | none =>
    rw [hname] at h
    cases h
    exact ⟨.refl, Nat.le_succ _⟩
  | some tableId =>
    simp only [hname] at h
    have htouch : Changes s (s.setIndexMap tableName (s.indexMap tableName)) :=
      .single (.touch s tableName)
    split at h
    · cases h
      exact ⟨htouch, Nat.le_succ _⟩
    · next hindex =>
      split at h
      · cases h
        exact ⟨htouch, Nat.le_succ _⟩
      · split at h
        · cases h
          exact ⟨htouch, Nat.le_succ _⟩
        · next t htable =>
          split at h
          · cases h
            exact ⟨htouch, Nat.le_succ _⟩
          · next keys hkeys =>
            obtain ⟨s₁, hadd, h⟩ := Option.map_eq_some_iff.mp h
            cases h
            simp only [addIndex, Option.bind_eq_bind, Option.bind_eq_some_iff] at hadd
            obtain ⟨_, hcopy, pages, hstore, hadd⟩ := hadd
            cases hadd
            have hlayout := hfits ⟨s.catalogMeta.getNextIndexId, indexName, tableId, keys⟩ rfl
              (length_keyMap hkeys)
            obtain ⟨hfree, hgrows, hread⟩ := Pages.store_spec
              (IndexMetadata.serializeTo_eq hlayout) (IndexMetadata.reads hlayout) hstore
            refine ⟨htouch.tail ?_, PageMap.length_assign_le _ _ _⟩
            exact .index hroom rfl hname htable (Option.not_isSome_iff_eq_none.mp hindex)
              (Option.isSome_iff_exists.mpr ⟨_, hcopy⟩) hfree hgrows hread

/-- The indexes on the unique columns. -/
theorem createUniqueIndexes_changes {columns : List Column} :
    ∀ {s : CatalogManager} {pages : List Int32},
      (∀ column ∈ columns, IndexFits (uniqueIndexName column) 1) →
      s.catalogMeta.indexMetaPages.entries.length + columns.length < 2 ^ 32 →
      createUniqueIndexes tableName s columns pages = some s' → Changes s s' := by
  induction columns with
  | nil =>
    intro s pages hfits hroom h
    cases h
    exact .refl
  | cons column columns ih =>
    intro s pages hfits hroom h
    rw [List.forall_mem_cons] at hfits
    rw [List.length_cons] at hroom
    rw [createUniqueIndexes] at h
    split at h
    · rw [Option.bind_eq_bind, Option.bind_eq_some_iff] at h
      obtain ⟨⟨d, s₁⟩, hindex, h⟩ := h
      obtain ⟨hone, hlength⟩ := createIndex_changes hfits.1 (by omega) hindex
      exact hone.trans (ih hfits.2 (by omega) h)
    · exact ih hfits.2 (by omega) h

/-- The metadata of a table are longer than a column of it. -/
theorem length_column_le {schema : Schema} {column : Column} (h : column ∈ schema.columns) :
    36 + column.name.length ≤ schema.layout.length := by
  obtain ⟨before, after, heq⟩ := List.append_of_mem h
  have hcolumn := column.length_layout
  rw [Schema.length_layout, heq, List.flatMap_append, List.flatMap_cons, List.length_append,
    List.length_append]
  omega

/-- Where the metadata of a table fit one page, there are few columns, and the metadata of the
indexes on them fit one page too. -/
theorem TableFits.columns {schema : Schema} (h : TableFits tableName schema) :
    schema.columns.length ≤ PAGE_SIZE ∧
      ∀ column ∈ schema.columns, IndexFits (uniqueIndexName column) 1 := by
  have hle := h ⟨0, tableName, 0, 0, schema⟩ rfl rfl
  rw [TableMetadata.length_layout] at hle
  constructor
  · have hpos : ∀ c : Column, 0 < c.layout.length := fun c => by
      rw [Column.length_layout]
      omega
    have hcolumns := length_le_flatMap hpos schema.columns
    have hschema := schema.length_layout
    simp only at hle
    omega
  · intro column hmem i hname hkeys
    have hcolumn := length_column_le hmem
    rw [IndexMetadata.length_layout, hname, hkeys, uniqueIndexName, List.length_append]
    have hsuffix : UNIQUE_INDEX.length = 13 := rfl
    simp only at hle
    omega

/-- `CreateTable` makes the table, and then its indexes. -/
theorem createTable_changes {schema : Schema} {taken : TablePages} {d : Dberr}
    (hfits : TableFits tableName schema) (hroom : s.catalogMeta.layout.length ≤ PAGE_SIZE)
    (h : s.createTable tableName schema taken = some (d, s')) : Changes s s' := by
  have hpage : PAGE_SIZE = 4096 := rfl
  rw [CatalogMeta.length_layout] at hroom
  unfold createTable at h
  split at h
  · cases h
    exact .refl
  · next hname =>
    simp only [Option.bind_eq_bind, Option.bind_eq_some_iff] at h
    obtain ⟨s₁, hadd, s₂, hindexes, h⟩ := h
    cases h
    simp only [addTable, Option.bind_eq_bind, Option.bind_eq_some_iff] at hadd
    obtain ⟨pages₁, hroot, pages₂, hmap, pages₃, hstore, hadd⟩ := hadd
    cases hadd
    obtain ⟨hrootFree, rfl⟩ := Pages.newPage_spec hroot
    obtain ⟨hmapFree, rfl⟩ := Pages.newPage_spec hmap
    have hlayout := hfits ⟨s.catalogMeta.getNextTableId, tableName, taken.root, taken.freespaceMap,
      schema⟩ rfl rfl
    obtain ⟨hfree, hgrows, hread⟩ := Pages.store_spec (TableMetadata.serializeTo_eq hlayout)
      (TableMetadata.reads hlayout) hstore
    have hheap : s.pages.Grows
        ((s.pages.write taken.root fun _ => 0).write taken.freespaceMap fun _ => 0) :=
      (Pages.grows_write hrootFree _).trans (Pages.grows_write hmapFree _)
    -- The page was free before the pages of the heap were taken.
    have hfree' : s.pages taken.tableMeta = none := by
      cases hbuf : s.pages taken.tableMeta with
      | none => rfl
      | some buf => rw [hheap _ buf hbuf] at hfree; cases hfree
    refine .head ?_ (createUniqueIndexes_changes hfits.columns.2 ?_ hindexes)
    · refine .table ?_ rfl (Option.not_isSome_iff_eq_none.mp hname) hfree' (hheap.trans hgrows)
        hread
      omega
    · have hcolumns := hfits.columns.1
      show s.catalogMeta.indexMetaPages.entries.length + schema.columns.length < 2 ^ 32
      omega

end CatalogManager

end DisMiniSql.MiniSql.Record
