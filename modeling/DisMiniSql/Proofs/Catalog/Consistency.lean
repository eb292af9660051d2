import DisMiniSql.MiniSql.Catalog.CatalogManager

/-!
# The maps of the catalog agree

`Consistent` says that `table_names_` and `tables_` describe the same tables, `index_names_` and
`indexes_` the same indexes, each on a table that exists, and that the maps of the metadata hold
the ids of these tables and indexes and no others.

Creating a table or an index changes every map at once. Dropping one does not: `DropTable` leaves
the entries of the metadata and of the table's indexes behind, and `DropIndex` and
`DropAllIndexes` leave the entry of the metadata. `GetIndex`, `DropIndex` and `DropAllIndexes`
look into the entry that a table without indexes does not have yet. `Harmless` is a call that
does neither. `sound_iff` states that a run keeps the catalog consistent, call by call, exactly if
its calls are harmless.
-/

set_option autoImplicit false

namespace DisMiniSql.MiniSql.CatalogManager

/-- The four maps and the metadata describe the same tables and indexes. -/
structure Consistent (s : CatalogManager) : Prop where
  /-- `table_names_` and `tables_` describe the same tables. -/
  tables : ∀ name id, s.tableNames.lookup name = some id ↔
    ∃ info, s.tables.lookup id = some info ∧ info.tableName = name
  /-- `index_names_` and `indexes_` describe the same indexes. -/
  indexes : ∀ name index id, (s.indexMap name).lookup index = some id ↔
    ∃ info, s.indexes.lookup id = some info ∧ info.indexName = index ∧
      ∃ table, s.tables.lookup info.tableId = some table ∧ table.tableName = name
  /-- Each index is on a table that exists. -/
  owners : ∀ id info, s.indexes.lookup id = some info → info.tableId ∈ s.tables
  tableMeta : ∀ id, id ∈ s.catalogMeta.tableMetaPages ↔ id ∈ s.tables
  indexMeta : ∀ id, id ∈ s.catalogMeta.indexMetaPages ↔ id ∈ s.indexes

/-- A table that `CreateTable` makes has the indexes that its creation makes, and no other. -/
def Fresh (s : CatalogManager) (c : CatalogCall) (s' : CatalogManager) : Prop :=
  ∀ name columns pages, c = .createTable name columns pages → name ∉ s.tableNames →
    ∀ index id, (s'.indexMap name).lookup index = some id →
      index ∈ (columns.filter Column.unique).map uniqueIndexName ∧ id ∉ s.indexes

/-- Along a run no call looks into a missing entry, every state is consistent, and every table
starts with its own indexes. -/
def Sound : CatalogManager → List CatalogCall → Prop
  | s, [] => s.Consistent
  | s, c :: cs => s.Consistent ∧ ∃ s', s.call c = some s' ∧ Fresh s c s' ∧ Sound s' cs

/-- The call drops nothing and asks for the indexes of a table only where `index_names_` has an
entry for it. -/
def Harmless (s : CatalogManager) : CatalogCall → Prop
  | .createTable _ _ _ | .createIndex _ _ _ _ _ | .getTable _ | .getTableIndexes _ => True
  | .dropTable name => name ∉ s.tableNames
  | .getIndex name _ => name ∈ s.tableNames → name ∈ s.indexNames
  | .dropIndex name index =>
    name ∈ s.tableNames → name ∈ s.indexNames ∧ index ∉ s.indexMap name
  | .dropAllIndexes index _ =>
    ∀ name ∈ s.tableNames, name ∈ s.indexNames ∧ index ∉ s.indexMap name

/-- Every call of a run is harmless in the state that it meets. -/
def HarmlessRun : CatalogManager → List CatalogCall → Prop
  | _, [] => True
  | s, c :: cs => s.Harmless c ∧ ∀ s', s.call c = some s' → HarmlessRun s' cs

/-! ## The maps -/

section Maps

variable {κ ν : Type} [DecidableEq κ]

/-- A key of a map has a value. -/
theorem lookup_of_mem {m : StdMap κ ν} {k : κ} (h : k ∈ m) : ∃ v, m.lookup k = some v :=
  Option.isSome_iff_exists.mp (AList.lookup_isSome.mpr h)

/-- And a key with a value is one of the map. -/
theorem mem_of_lookup {m : StdMap κ ν} {k : κ} {v : ν} (h : m.lookup k = some v) : k ∈ m :=
  AList.lookup_isSome.mp (Option.isSome_iff_exists.mpr ⟨v, h⟩)

/-- What is found after an insert. -/
theorem lookup_insert_iff (m : StdMap κ ν) (k k₀ : κ) (v v₀ : ν) :
    (m.insert k₀ v₀).lookup k = some v ↔
      (k = k₀ ∧ v₀ = v) ∨ (k ≠ k₀ ∧ m.lookup k = some v) := by
  by_cases hk : k = k₀
  · subst hk
    simp [AList.lookup_insert]
  · simp [AList.lookup_insert_ne hk, hk]

end Maps

/-- Every id of the metadata is below the next one. -/
theorem lt_nextId {pages : StdMap Nat PageId} {id : Nat} (h : id ∈ pages) : id < nextId pages := by
  rw [AList.mem_keys] at h
  unfold nextId
  generalize pages.keys = keys at h ⊢
  induction keys with
  | nil => simp at h
  | cons k ks ih =>
    rw [List.foldr_cons]
    rcases List.mem_cons.mp h with rfl | hmem
    · omega
    · have := ih hmem
      omega

/-- The next id is not in use. -/
theorem nextId_not_mem (pages : StdMap Nat PageId) : nextId pages ∉ pages :=
  fun h => Nat.lt_irrefl _ (lt_nextId h)

/-- A walk visits the keys of the map. -/
theorem mem_walk (order keys : List String) (key : String) :
    key ∈ walk order keys ↔ key ∈ keys := by
  simp only [walk, List.mem_append, List.mem_filter, decide_eq_true_eq]
  tauto

/-! ## The entry of a table in `index_names_` -/

/-- Setting the indexes of one table leaves the others alone. -/
theorem indexMap_setIndexMap (s : CatalogManager) (t : String) (m : StdMap String Nat)
    (name : String) :
    (s.setIndexMap t m).indexMap name = if name = t then m else s.indexMap name := by
  unfold setIndexMap indexMap
  by_cases hname : name = t
  · subst hname
    simp [AList.lookup_insert]
  · simp [AList.lookup_insert_ne hname, hname]

/-- Making the entry of a table changes no map of indexes. -/
@[simp] theorem indexMap_touch (s : CatalogManager) (t name : String) :
    (s.setIndexMap t (s.indexMap t)).indexMap name = s.indexMap name := by
  rw [indexMap_setIndexMap]
  split
  · next h => rw [h]
  · rfl

variable {s : CatalogManager}

/-- Making the entry of a table explicit changes nothing. -/
theorem Consistent.touch (h : s.Consistent) (t : String) :
    (s.setIndexMap t (s.indexMap t)).Consistent where
  tables := h.tables
  indexes name index id := by
    rw [indexMap_touch]
    exact h.indexes name index id
  owners := h.owners
  tableMeta := h.tableMeta
  indexMeta := h.indexMeta

/-! ## Creating an index -/

/-- A new index id is the id of no index. -/
theorem Consistent.nextIndexId (h : s.Consistent) :
    s.catalogMeta.getNextIndexId ∉ s.indexes :=
  fun hmem => nextId_not_mem _ ((h.indexMeta _).mpr hmem)

/-- A new table id is the id of no table. -/
theorem Consistent.nextTableId (h : s.Consistent) :
    s.catalogMeta.getNextTableId ∉ s.tables :=
  fun hmem => nextId_not_mem _ ((h.tableMeta _).mpr hmem)

/-- A new index is added to its table only. -/
theorem indexMap_addIndex (s : CatalogManager) (t i : String) (tableId : Nat) (keyMap : List Nat)
    (page : PageId) (name : String) :
    (s.addIndex t i tableId keyMap page).indexMap name =
      if name = t then (s.indexMap t).insert i s.catalogMeta.getNextIndexId
      else s.indexMap name :=
  indexMap_setIndexMap s t _ name

/-- The end of `CreateIndex` keeps the maps in step. -/
theorem Consistent.addIndex (h : s.Consistent) {t i : String} {tableId : Nat} {info : TableInfo}
    (htable : s.tables.lookup tableId = some info) (hname : info.tableName = t)
    (hnew : (s.indexMap t).lookup i = none) (keyMap : List Nat) (page : PageId) :
    (s.addIndex t i tableId keyMap page).Consistent where
  tables := h.tables
  indexes name index id := by
    have hid := h.nextIndexId
    have hold := h.indexes name index id
    rw [indexMap_addIndex]
    show _ ↔ ∃ info, (s.indexes.insert _ _).lookup id = some info ∧ info.indexName = index ∧
      ∃ table, s.tables.lookup info.tableId = some table ∧ table.tableName = name
    by_cases hnew_id : id = s.catalogMeta.getNextIndexId
    · -- The new id: it stands under the new name, and under no other.
      have hnone : ∀ x, ¬ s.indexes.lookup id = some x := by
        intro x hx
        exact hid (hnew_id ▸ mem_of_lookup hx)
      have hfree : ¬ (s.indexMap name).lookup index = some id := by
        intro hx
        obtain ⟨x, hx, _⟩ := hold.mp hx
        exact hnone x hx
      constructor
      · intro hlook
        split at hlook
        · next hn =>
          subst hn
          rcases (lookup_insert_iff _ _ _ _ _).mp hlook with ⟨rfl, _⟩ | ⟨_, hx⟩
          · exact ⟨_, (lookup_insert_iff _ _ _ _ _).mpr (.inl ⟨hnew_id, rfl⟩), rfl, info, htable,
              hname⟩
          · exact absurd hx hfree
        · exact absurd hlook hfree
      · rintro ⟨x, hx, rfl, table, htab, rfl⟩
        rcases (lookup_insert_iff _ _ _ _ _).mp hx with ⟨_, rfl⟩ | ⟨hne, _⟩
        · have : table = info := Option.some.inj (htab.symm.trans htable)
          subst this
          rw [if_pos hname]
          exact (lookup_insert_iff _ _ _ _ _).mpr (.inl ⟨rfl, hnew_id.symm⟩)
        · exact absurd hnew_id hne
    · -- An old id: its name is not the new one, which no index of the table had.
      have hold' : (∃ info, (s.indexes.insert s.catalogMeta.getNextIndexId
          ⟨s.catalogMeta.getNextIndexId, i, tableId, keyMap⟩).lookup id = some info ∧
          info.indexName = index ∧
          ∃ table, s.tables.lookup info.tableId = some table ∧ table.tableName = name) ↔
          (s.indexMap name).lookup index = some id := by
        rw [hold, AList.lookup_insert_ne hnew_id]
      rw [hold']
      split
      · next hn =>
        subst hn
        rw [lookup_insert_iff]
        constructor
        · rintro (⟨_, heq⟩ | ⟨_, hx⟩)
          · exact absurd heq.symm hnew_id
          · exact hx
        · intro hx
          refine .inr ⟨?_, hx⟩
          rintro rfl
          rw [hnew] at hx
          cases hx
      · rfl
  owners id x hx := by
    rcases (lookup_insert_iff _ _ _ _ _).mp hx with ⟨_, rfl⟩ | ⟨_, hx⟩
    · exact mem_of_lookup htable
    · exact h.owners id x hx
  tableMeta := h.tableMeta
  indexMeta id := by
    show id ∈ s.catalogMeta.indexMetaPages.insert _ _ ↔ id ∈ s.indexes.insert _ _
    rw [AList.mem_insert, AList.mem_insert, h.indexMeta]

/-- What `CreateIndex` makes of the catalog: nothing, the entry of the table, or a new index under
a name that no index of the table has. -/
theorem createIndex_cases (s : CatalogManager) (t i : String) (keys : List String) (kind : String)
    (page : PageId) :
    (s.createIndex t i keys kind page).2 = s ∨
    (s.createIndex t i keys kind page).2 = s.setIndexMap t (s.indexMap t) ∨
    ∃ tableId info keyMap, s.tableNames.lookup t = some tableId ∧
      s.tables.lookup tableId = some info ∧ (s.indexMap t).lookup i = none ∧
      (s.createIndex t i keys kind page).2 =
        (s.setIndexMap t (s.indexMap t)).addIndex t i tableId keyMap page := by
  unfold createIndex
  cases hname : s.tableNames.lookup t with
  | none => exact .inl rfl
  | some tableId =>
    right
    dsimp only
    rw [indexMap_touch]
    split
    · exact .inl rfl
    · next hindex =>
      have hindex : (s.indexMap t).lookup i = none := by simpa using hindex
      split
      · exact .inl rfl
      · cases htable : (s.setIndexMap t (s.indexMap t)).tables.lookup tableId with
        | none => exact .inl rfl
        | some info =>
          dsimp only
          cases hkeys : CatalogManager.keyMap info keys with
          | none => exact .inl rfl
          | some keyMap => exact .inr ⟨tableId, info, keyMap, rfl, htable, hindex, rfl⟩

/-- `CreateIndex` keeps the catalog consistent. -/
theorem Consistent.createIndex (h : s.Consistent) (t i : String) (keys : List String)
    (kind : String) (page : PageId) :
    (s.createIndex t i keys kind page).2.Consistent := by
  rcases createIndex_cases s t i keys kind page with
    heq | heq | ⟨tableId, info, keyMap, hname, htable, hnew, heq⟩
  · rw [heq]
    exact h
  · rw [heq]
    exact h.touch t
  · rw [heq]
    obtain ⟨info', hinfo, hname⟩ := (h.tables _ _).mp hname
    have : info' = info := Option.some.inj (hinfo.symm.trans htable)
    subst this
    exact (h.touch t).addIndex htable hname (by rw [indexMap_touch]; exact hnew) keyMap page

/-! ## Creating a table -/

/-- The indexes of the table `t` in `s` have the names `names`, and none of them is in `s₀`, whose
indexes are still there. -/
structure OwnIndexes (s₀ : CatalogManager) (t : String) (names : List String)
    (s : CatalogManager) : Prop where
  own : ∀ index id, (s.indexMap t).lookup index = some id → index ∈ names ∧ id ∉ s₀.indexes
  kept : ∀ id ∈ s₀.indexes, id ∈ s.indexes

/-- `CreateIndex` adds its own index. -/
theorem OwnIndexes.createIndex {s₀ : CatalogManager} {t : String} {names : List String}
    (h : s.Consistent) (ho : OwnIndexes s₀ t names s) {i : String} (hi : i ∈ names)
    (keys : List String) (kind : String) (page : PageId) :
    OwnIndexes s₀ t names (s.createIndex t i keys kind page).2 := by
  rcases createIndex_cases s t i keys kind page with
    heq | heq | ⟨tableId, info, keyMap, _, _, _, heq⟩
  · rw [heq]
    exact ho
  · rw [heq]
    refine ⟨fun index id hlook => ?_, ho.kept⟩
    rw [indexMap_touch] at hlook
    exact ho.own index id hlook
  · rw [heq]
    refine ⟨fun index id hlook => ?_, fun id hid => ?_⟩
    · rw [indexMap_addIndex, if_pos rfl, indexMap_touch, lookup_insert_iff] at hlook
      rcases hlook with ⟨rfl, rfl⟩ | ⟨_, hlook⟩
      · exact ⟨hi, fun hmem => (h.touch t).nextIndexId (ho.kept _ hmem)⟩
      · exact ho.own index id hlook
    · show id ∈ s.indexes.insert _ _
      exact (AList.mem_insert _).mpr (.inr (ho.kept id hid))

/-- The loop over the unique columns keeps the catalog consistent and adds only its own
indexes. -/
theorem createUniqueIndexes_spec {s₀ : CatalogManager} {t : String} {names : List String}
    (columns : List Column) :
    ∀ (s : CatalogManager) (pages : List PageId), s.Consistent → OwnIndexes s₀ t names s →
      (∀ c ∈ columns, c.unique → uniqueIndexName c ∈ names) →
      (createUniqueIndexes t s columns pages).Consistent ∧
        OwnIndexes s₀ t names (createUniqueIndexes t s columns pages) := by
  induction columns with
  | nil => exact fun s pages h ho _ => ⟨h, ho⟩
  | cons column columns ih =>
    intro s pages h ho hnames
    have htail : ∀ c ∈ columns, c.unique → uniqueIndexName c ∈ names :=
      fun c hc => hnames c (List.mem_cons_of_mem _ hc)
    rw [createUniqueIndexes]
    split
    · next hunique =>
      have hname := hnames column List.mem_cons_self hunique
      exact ih _ _ (h.createIndex _ _ _ _ _) (ho.createIndex h hname _ _ _) htail
    · exact ih _ _ h ho htail

/-- A table whose name is new gets an id that is new. -/
theorem Consistent.addTable (h : s.Consistent) {t : String} (hnew : s.tableNames.lookup t = none)
    (columns : List Column) (page : PageId) :
    (s.addTable t columns page).Consistent where
  tables name id := by
    have hid := h.nextTableId
    show (s.tableNames.insert _ _).lookup name = some id ↔
      ∃ info, (s.tables.insert _ _).lookup id = some info ∧ info.tableName = name
    rw [lookup_insert_iff]
    constructor
    · rintro (⟨rfl, rfl⟩ | ⟨_, hlook⟩)
      · exact ⟨_, AList.lookup_insert _, rfl⟩
      · obtain ⟨info, hinfo, hname⟩ := (h.tables name id).mp hlook
        refine ⟨info, (lookup_insert_iff _ _ _ _ _).mpr (.inr ⟨?_, hinfo⟩), hname⟩
        rintro rfl
        exact hid (mem_of_lookup hinfo)
    · rintro ⟨info, hinfo, rfl⟩
      rcases (lookup_insert_iff _ _ _ _ _).mp hinfo with ⟨rfl, rfl⟩ | ⟨_, hinfo⟩
      · exact .inl ⟨rfl, rfl⟩
      · have hlook := (h.tables info.tableName id).mpr ⟨info, hinfo, rfl⟩
        refine .inr ⟨?_, hlook⟩
        rintro heq
        rw [heq, hnew] at hlook
        cases hlook
  indexes name index id := by
    show (s.indexMap name).lookup index = some id ↔ _
    rw [h.indexes name index id]
    -- An index is on a table that was there, and that table is still the same.
    refine exists_congr fun info => and_congr_right fun hinfo => and_congr_right fun _ => ?_
    have hne : info.tableId ≠ s.catalogMeta.getNextTableId := by
      intro heq
      exact h.nextTableId (heq ▸ h.owners id info hinfo)
    show _ ↔ ∃ table, (s.tables.insert _ _).lookup info.tableId = some table ∧ _
    rw [AList.lookup_insert_ne hne]
  owners id info hinfo := (AList.mem_insert _).mpr (.inr (h.owners id info hinfo))
  tableMeta id := by
    show id ∈ s.catalogMeta.tableMetaPages.insert _ _ ↔ id ∈ s.tables.insert _ _
    rw [AList.mem_insert, AList.mem_insert, h.tableMeta]
  indexMeta := h.indexMeta

/-- A table that does not exist has no index. -/
theorem Consistent.indexMap_of_new (h : s.Consistent) {t : String}
    (hnew : s.tableNames.lookup t = none) (index : String) (id : Nat) :
    (s.indexMap t).lookup index ≠ some id := by
  intro hlook
  obtain ⟨info, _, _, table, htable, hname⟩ := (h.indexes t index id).mp hlook
  have := (h.tables t info.tableId).mpr ⟨table, htable, hname⟩
  rw [hnew] at this
  cases this

/-- `CreateTable` keeps the catalog consistent, and the new table has its own indexes. -/
theorem Consistent.createTable (h : s.Consistent) (t : String) (columns : List Column)
    (pages : List PageId) :
    (s.createTable t columns pages).2.Consistent ∧
      (s.tableNames.lookup t = none →
        OwnIndexes s t ((columns.filter Column.unique).map uniqueIndexName)
          (s.createTable t columns pages).2) := by
  unfold CatalogManager.createTable
  cases hnew : s.tableNames.lookup t with
  | some id => exact ⟨h, fun hnone => by cases hnone⟩
  | none =>
    have hstart : OwnIndexes s t ((columns.filter Column.unique).map uniqueIndexName)
        (s.addTable t columns (pages.headD INVALID_PAGE_ID)) :=
      ⟨fun index id hlook => absurd hlook (h.indexMap_of_new hnew index id), fun _ hid => hid⟩
    have hspec := createUniqueIndexes_spec columns _ pages.tail
      (h.addTable hnew columns (pages.headD INVALID_PAGE_ID)) hstart
      (fun c hc hunique => List.mem_map_of_mem (List.mem_filter.mpr ⟨hc, hunique⟩))
    exact ⟨hspec.1, fun _ => hspec.2⟩

/-! ## Dropping -/

/-- The loop of `DropAllIndexes` leaves the metadata alone and makes no index. -/
theorem dropAllLoop_kept (index : String) (names : List String) :
    ∀ (s : CatalogManager) (n : Nat) (r : Dberr × Nat × CatalogManager),
      dropAllLoop index s names n = some r →
      r.2.2.catalogMeta = s.catalogMeta ∧ ∀ id, id ∉ s.indexes → id ∉ r.2.2.indexes := by
  induction names with
  | nil =>
    intro s n r hr
    cases hr
    exact ⟨rfl, fun _ hid => hid⟩
  | cons name names ih =>
    intro s n r hr
    rw [dropAllLoop, Option.bind_eq_bind, Option.bind_eq_some_iff] at hr
    obtain ⟨indexMap, _, hr⟩ := hr
    cases hindex : indexMap.lookup index with
    | none =>
      simp only [hindex] at hr
      exact ih s n r hr
    | some id =>
      simp only [hindex] at hr
      cases hinfo : s.indexes.lookup id with
      | none =>
        simp only [hinfo, Option.some.injEq] at hr
        subst hr
        exact ⟨rfl, fun _ hid => hid⟩
      | some info =>
        simp only [hinfo] at hr
        obtain ⟨hmeta, hkept⟩ := ih _ _ r hr
        refine ⟨hmeta, fun id' hid => hkept id' ?_⟩
        show id' ∉ s.indexes.erase id
        rw [AList.mem_erase]
        exact fun hmem => hid hmem.2

/-- An index that is gone from `indexes_` and not from the metadata. -/
theorem not_consistent_of_gone {s' : CatalogManager} (h : s.Consistent) {id : Nat}
    (hid : id ∈ s.indexes) (hmeta : s'.catalogMeta = s.catalogMeta) (hgone : id ∉ s'.indexes) :
    ¬ s'.Consistent := by
  intro h'
  rw [← h'.indexMeta, hmeta, h.indexMeta] at hgone
  exact hgone hid

/-- The id under the name of an index is that of an index. -/
theorem Consistent.mem_indexes (h : s.Consistent) {name index : String} {id : Nat}
    (hlook : (s.indexMap name).lookup index = some id) : id ∈ s.indexes := by
  obtain ⟨info, hinfo, _⟩ := (h.indexes name index id).mp hlook
  exact mem_of_lookup hinfo

/-- The indexes of a table that has an entry. -/
theorem indexMap_of_lookup {name : String} {m : StdMap String Nat}
    (h : s.indexNames.lookup name = some m) : s.indexMap name = m := by
  rw [indexMap, h, Option.getD_some]

/-- If the state after the loop of `DropAllIndexes` is consistent, then every table of the walk has
an entry, and none has the index. -/
theorem dropAllLoop_consistent (h : s.Consistent) (index : String) (names : List String) :
    ∀ (n : Nat) (r : Dberr × Nat × CatalogManager), dropAllLoop index s names n = some r →
      r.2.2.Consistent → ∀ name ∈ names, name ∈ s.indexNames ∧ index ∉ s.indexMap name := by
  induction names with
  | nil => exact fun n r _ _ name hmem => absurd hmem List.not_mem_nil
  | cons name names ih =>
    intro n r hr hcons
    rw [dropAllLoop, Option.bind_eq_bind, Option.bind_eq_some_iff] at hr
    obtain ⟨indexMap, hentry, hr⟩ := hr
    have hmap := indexMap_of_lookup hentry
    cases hindex : indexMap.lookup index with
    | none =>
      simp only [hindex] at hr
      rw [List.forall_mem_cons]
      refine ⟨⟨mem_of_lookup hentry, ?_⟩, ih n r hr hcons⟩
      rw [hmap, ← AList.lookup_eq_none]
      exact hindex
    | some id =>
      -- The walk would drop this index, and the metadata would keep it.
      simp only [hindex] at hr
      have hid : id ∈ s.indexes := h.mem_indexes (hmap ▸ hindex)
      obtain ⟨info, hinfo⟩ := lookup_of_mem hid
      simp only [hinfo] at hr
      obtain ⟨hmeta, hkept⟩ := dropAllLoop_kept index names _ _ r hr
      refine absurd hcons (not_consistent_of_gone h hid hmeta (hkept id ?_))
      show id ∉ s.indexes.erase id
      simp [AList.mem_erase]

/-- Where no table has the index, `DropAllIndexes` changes nothing. -/
theorem dropAllLoop_eq (index : String) (names : List String) (n : Nat)
    (h : ∀ name ∈ names, name ∈ s.indexNames ∧ index ∉ s.indexMap name) :
    dropAllLoop index s names n = some (.success, n, s) := by
  induction names with
  | nil => rfl
  | cons name names ih =>
    rw [List.forall_mem_cons] at h
    obtain ⟨m, hm⟩ := lookup_of_mem h.1.1
    have hnone : m.lookup index = none := by
      rw [AList.lookup_eq_none, ← indexMap_of_lookup hm]
      exact h.1.2
    rw [dropAllLoop, hm, Option.bind_eq_bind, Option.bind_some]
    simp only [hnone]
    exact ih h.2

/-! ## One call -/

/-- A call other than `CreateTable` makes no table. -/
theorem fresh_of_ne {s' : CatalogManager} {c : CatalogCall}
    (h : ∀ name columns pages, c ≠ .createTable name columns pages) : Fresh s c s' :=
  fun name columns pages heq => absurd heq (h name columns pages)

/-- A harmless call ends in a consistent state, and a new table has its own indexes. -/
theorem Consistent.call (h : s.Consistent) {c : CatalogCall} (hc : s.Harmless c) :
    ∃ s', s.call c = some s' ∧ Fresh s c s' ∧ s'.Consistent := by
  cases c with
  | createTable name columns pages =>
    obtain ⟨hcons, hown⟩ := h.createTable name columns pages
    refine ⟨_, rfl, ?_, hcons⟩
    intro name' columns' pages' heq hnew
    cases heq
    exact (hown (AList.lookup_eq_none.mpr hnew)).own
  | createIndex name index keys kind page =>
    exact ⟨_, rfl, fresh_of_ne (fun _ _ _ => by simp), h.createIndex name index keys kind page⟩
  | getTable name => exact ⟨s, rfl, fresh_of_ne (fun _ _ _ => by simp), h⟩
  | getTableIndexes name =>
    refine ⟨_, rfl, fresh_of_ne (fun _ _ _ => by simp), ?_⟩
    unfold getTableIndexes
    split
    · exact h
    · exact h.touch name
  | dropTable name =>
    refine ⟨s, ?_, fresh_of_ne (fun _ _ _ => by simp), h⟩
    simp [CatalogManager.call, CatalogManager.dropTable, AList.lookup_eq_none.mpr hc]
  | getIndex name index =>
    refine ⟨s, ?_, fresh_of_ne (fun _ _ _ => by simp), h⟩
    show (s.getIndex name index).map (fun _ => s) = some s
    unfold CatalogManager.getIndex
    cases hname : s.tableNames.lookup name with
    | none => rfl
    | some tableId =>
      obtain ⟨m, hm⟩ := lookup_of_mem (hc (mem_of_lookup hname))
      simp only [hm, Option.bind_eq_bind, Option.bind_some]
      cases hindex : m.lookup index with
      | none => rfl
      | some id =>
        rw [← indexMap_of_lookup hm] at hindex
        obtain ⟨info, hinfo⟩ := lookup_of_mem (h.mem_indexes hindex)
        simp only [hinfo, Option.bind_some, Option.map_some]
  | dropIndex name index =>
    refine ⟨s, ?_, fresh_of_ne (fun _ _ _ => by simp), h⟩
    show (s.dropIndex name index).map Prod.snd = some s
    unfold CatalogManager.dropIndex
    cases hname : s.tableNames.lookup name with
    | none => rfl
    | some tableId =>
      obtain ⟨hentry, hindex⟩ := hc (mem_of_lookup hname)
      obtain ⟨m, hm⟩ := lookup_of_mem hentry
      rw [indexMap_of_lookup hm, ← AList.lookup_eq_none] at hindex
      simp only [hm, Option.bind_eq_bind, Option.bind_some, hindex, Option.map_some]
  | dropAllIndexes index order =>
    refine ⟨s, ?_, fresh_of_ne (fun _ _ _ => by simp), h⟩
    show (dropAllLoop index s (walk order s.tableNames.keys) 0).map (fun r => r.2.2) = some s
    rw [dropAllLoop_eq index _ 0]
    · rfl
    · intro name hmem
      exact hc name (AList.mem_keys.mpr ((mem_walk _ _ _).mp hmem))

/-- A call that ends in a consistent state is harmless. -/
theorem Consistent.harmless {s' : CatalogManager} (h : s.Consistent) {c : CatalogCall}
    (hcall : s.call c = some s') (h' : s'.Consistent) : s.Harmless c := by
  cases c with
  | createTable name columns pages => trivial
  | createIndex name index keys kind page => trivial
  | getTable name => trivial
  | getTableIndexes name => trivial
  | dropTable name =>
    intro hmem
    obtain ⟨id, hid⟩ := lookup_of_mem hmem
    obtain ⟨info, hinfo, _⟩ := (h.tables name id).mp hid
    simp only [CatalogManager.call, CatalogManager.dropTable, hid, hinfo, Option.bind_eq_bind,
      Option.bind_some, Option.map_some, Option.some.injEq] at hcall
    subst hcall
    -- The metadata still has the id of the table.
    have hgone : id ∈ s.tables.erase id :=
      (h'.tableMeta id).mp ((h.tableMeta id).mpr (mem_of_lookup hinfo))
    simp [AList.mem_erase] at hgone
  | getIndex name index =>
    intro hmem
    obtain ⟨id, hid⟩ := lookup_of_mem hmem
    by_contra hentry
    rw [← AList.lookup_eq_none] at hentry
    simp [CatalogManager.call, CatalogManager.getIndex, hid, hentry] at hcall
  | dropIndex name index =>
    intro hmem
    obtain ⟨tableId, htable⟩ := lookup_of_mem hmem
    cases hentry : s.indexNames.lookup name with
    | none => simp [CatalogManager.call, CatalogManager.dropIndex, htable, hentry] at hcall
    | some m =>
      refine ⟨mem_of_lookup hentry, fun hindex => ?_⟩
      obtain ⟨id, hid⟩ := lookup_of_mem hindex
      have hmemId := h.mem_indexes hid
      obtain ⟨info, hinfo⟩ := lookup_of_mem hmemId
      rw [indexMap_of_lookup hentry] at hid
      simp only [CatalogManager.call, CatalogManager.dropIndex, htable, hentry,
        Option.bind_eq_bind, Option.bind_some, hid, hinfo, Option.map_some,
        Option.some.injEq] at hcall
      subst hcall
      have hgone : id ∉ (s.eraseIndex name index m id).indexes := by
        show id ∉ s.indexes.erase id
        simp [AList.mem_erase]
      exact not_consistent_of_gone h hmemId (by rfl) hgone h'
  | dropAllIndexes index order =>
    intro name hmem
    obtain ⟨r, hr, rfl⟩ := Option.map_eq_some_iff.mp hcall
    exact dropAllLoop_consistent h index _ 0 r hr h' name
      ((mem_walk _ _ _).mpr (AList.mem_keys.mp hmem))

/-! ## Runs -/

/-- The empty catalog is consistent. -/
theorem consistent_new : new.Consistent where
  tables := by simp [new]
  indexes := by simp [new, indexMap]
  owners := by simp [new]
  tableMeta := by simp [new]
  indexMeta := by simp [new]

/-- From a consistent state, a run is sound exactly if its calls are harmless. -/
theorem Consistent.soundFrom_iff (h : s.Consistent) (cs : List CatalogCall) :
    Sound s cs ↔ HarmlessRun s cs := by
  induction cs generalizing s with
  | nil => exact ⟨fun _ => trivial, fun _ => h⟩
  | cons c cs ih =>
    constructor
    · rintro ⟨_, s', hcall, _, hsound⟩
      have h' : s'.Consistent := by
        cases cs with
        | nil => exact hsound
        | cons d ds => exact hsound.1
      refine ⟨h.harmless hcall h', fun s'' hcall' => ?_⟩
      rw [hcall] at hcall'
      cases hcall'
      exact (ih h').mp hsound
    · rintro ⟨hc, hrun⟩
      obtain ⟨s', hcall, hfresh, h'⟩ := h.call hc
      exact ⟨h, s', hcall, hfresh, (ih h').mpr (hrun s' hcall)⟩

/-- Every run of calls of a new catalog is sound exactly if its calls are harmless. -/
theorem sound_iff (cs : List CatalogCall) : Sound new cs ↔ HarmlessRun new cs :=
  consistent_new.soundFrom_iff cs

/-- A table with one unique column is created and dropped, and the metadata keeps its id. -/
theorem dropped_table_stays :
    ¬ Sound new [.createTable "t" [⟨"a", 0, true⟩] [2, 3], .dropTable "t"] := by
  rw [consistent_new.soundFrom_iff]
  intro h
  have hdrop := (h.2 _ rfl).1
  exact hdrop (by decide +kernel)

end DisMiniSql.MiniSql.CatalogManager
