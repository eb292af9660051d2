import DisMiniSql.Lib.Run
import DisMiniSql.Proofs.Catalog.StoredCatalog
import DisMiniSql.Proofs.Record.Row

/-!
# The catalog after the database was closed and opened

`close` writes the metadata of the catalog to the first page, and `load` makes a catalog from the
pages that it names. `Tracks.reopens` says that a catalog whose maps have what the pages have comes
back as it was. `Orphaned.not_reopens` says that one with a table or an index that only the metadata
have does not.

No drop takes an entry out of the metadata. `reopens_iff` puts the two together: after a run of
successful calls the catalog comes back as it was exactly if the run had no drop.
-/

set_option autoImplicit false

namespace DisMiniSql.MiniSql.Record

open DisMiniSql.Lib (Bytes Steps)

namespace CatalogManager

variable {s s' : CatalogManager}

/-! ## Closing and opening -/

/-- The pages are closed and opened again, and the catalog is the same. -/
def Reopens (s : CatalogManager) : Prop :=
  ∃ pages r, s.close = some pages ∧ load pages = some r ∧ Same s r

/-- What the catalog leaves behind: its metadata on the first page, and the other pages as they
were. -/
theorem close_spec (hs : s.Orderly) (hfits : s.catalogMeta.layout.length ≤ PAGE_SIZE) :
    ∃ pages, s.close = some pages ∧
      pages.read CATALOG_META_PAGE_ID CatalogMeta.deserializeFrom = some s.catalogMeta ∧
      ∀ p, p ≠ CATALOG_META_PAGE_ID → pages p = s.pages p := by
  obtain ⟨buf, hbuf⟩ := Option.isSome_iff_exists.mp hs.metaPage
  refine ⟨s.pages.write CATALOG_META_PAGE_ID (buf.blit 0 s.catalogMeta.layout), ?_, ?_, ?_⟩
  · simp only [close, flushCatalogMetaPage, hbuf, Option.bind_eq_bind, Option.bind_some,
      CatalogMeta.serializeTo_eq hfits, Option.map_some]
  · have hself : s.pages.write CATALOG_META_PAGE_ID (buf.blit 0 s.catalogMeta.layout)
        CATALOG_META_PAGE_ID = some (buf.blit 0 s.catalogMeta.layout) := if_pos rfl
    unfold Pages.read
    simp only [hself, Option.bind_eq_bind, Option.bind_some]
    rw [CatalogMeta.reads hfits _ 0 DisMiniSql.Lib.Bytes.holds_blit]
    rfl
  · intro p hp
    exact if_neg hp

variable {entries : List (UInt32 × Int32)}

/-- The tables of the pages come into the maps, one after another. -/
theorem loadTables_spec {ts : List TableMetadata} :
    ∀ {s : CatalogManager} {before : List TableMetadata},
      List.Forall₂ (StoredAt s.pages TableMetadata.deserializeFrom TableMetadata.tableId id)
        entries ts →
      ((before ++ ts).map TableMetadata.tableId).Nodup →
      ((before ++ ts).map TableMetadata.tableName).Nodup →
      s.ListsTables before → s.ListsIndexes [] →
      ∃ r, entries.foldlM loadTable s = some r ∧ r.ListsTables (before ++ ts) ∧
        r.ListsIndexes [] ∧ r.pages = s.pages := by
  induction entries generalizing ts with
  | nil =>
    intro s before hstored _ _ htables hindexes
    cases hstored
    rw [List.append_nil]
    exact ⟨s, rfl, htables, hindexes, rfl⟩
  | cons entry entries ih =>
    intro s before hstored hids hnames htables hindexes
    cases hstored with
    | @cons _ t _ ts hentry hrest =>
      obtain ⟨hid, -, hread⟩ := hentry
      have hnext : before ++ t :: ts = (before ++ [t]) ++ ts := List.append_cons _ _ _
      have hload : loadTable s entry = some (s.enterTable t.tableId t) := by
        simp only [loadTable, hread, hid, Option.bind_eq_bind, Option.bind_some, id]
      have hnewId : t.tableId ∉ before.map TableMetadata.tableId := by
        rw [List.map_append, List.map_cons] at hids
        exact fun hmem => List.disjoint_of_nodup_append hids hmem List.mem_cons_self
      have hnewName : t.tableName ∉ before.map TableMetadata.tableName := by
        rw [List.map_append, List.map_cons] at hnames
        exact fun hmem => List.disjoint_of_nodup_append hnames hmem List.mem_cons_self
      rw [hnext] at hids hnames
      obtain ⟨r, hfold, hr⟩ := @ih ts (s.enterTable t.tableId t) (before ++ [t]) hrest hids
        hnames (htables.enterTable hnewId hnewName) ⟨hindexes.indexes, hindexes.indexNames⟩
      rw [hnext, List.foldlM_cons, hload]
      exact ⟨r, hfold, hr⟩

/-- The indexes of the pages come into the maps, one after another. -/
theorem loadIndexes_spec {is : List (List UInt8 × IndexMetadata)} {ts : List TableMetadata}
    (htableIds : (ts.map TableMetadata.tableId).Nodup) :
    ∀ {s : CatalogManager} {before : List (List UInt8 × IndexMetadata)},
      List.Forall₂ (StoredAt s.pages IndexMetadata.deserializeFrom (fun i => i.2.indexId) Prod.snd)
        entries is →
      ((before ++ is).map fun i => i.2.indexId).Nodup →
      ((before ++ is).map indexKey).Nodup → (∀ i ∈ is, OnTable ts i) →
      s.ListsTables ts → s.ListsIndexes before →
      ∃ r, entries.foldlM loadIndex s = some r ∧ r.ListsTables ts ∧
        r.ListsIndexes (before ++ is) := by
  induction entries generalizing is with
  | nil =>
    intro s before hstored _ _ _ htables hindexes
    cases hstored
    rw [List.append_nil]
    exact ⟨s, rfl, htables, hindexes⟩
  | cons entry entries ih =>
    intro s before hstored hids hnames howners htables hindexes
    cases hstored with
    | @cons _ i _ is hentry hrest =>
      obtain ⟨hid, -, hread⟩ := hentry
      have hnext : before ++ i :: is = (before ++ [i]) ++ is := List.append_cons _ _ _
      rw [List.forall_mem_cons] at howners
      obtain ⟨⟨t, ht, htableId, htableName, hcopies⟩, howners⟩ := howners
      obtain ⟨schema, hcopy⟩ := Option.isSome_iff_exists.mp hcopies
      have hfound : s.tables.lookup i.2.tableId = some t := by
        rw [← htableId]
        exact htables.tables.of_mem htableIds ht
      have hload : loadIndex s entry = some (s.enterIndex i.2.indexId i.1 i.2) := by
        simp only [loadIndex, hread, hid, hfound, hcopy, htableName, Option.bind_eq_bind,
          Option.bind_some]
      have hnewId : i.2.indexId ∉ before.map fun i => i.2.indexId := by
        rw [List.map_append, List.map_cons] at hids
        exact fun hmem => List.disjoint_of_nodup_append hids hmem List.mem_cons_self
      have hnewName : indexKey i ∉ before.map indexKey := by
        rw [List.map_append, List.map_cons] at hnames
        exact fun hmem => List.disjoint_of_nodup_append hnames hmem List.mem_cons_self
      rw [hnext] at hids hnames
      obtain ⟨r, hfold, hr⟩ := @ih is (s.enterIndex i.2.indexId i.1 i.2) (before ++ [i]) hrest
        hids hnames howners ⟨htables.tables, htables.tableNames⟩
        (hindexes.enterIndex hnewId hnewName)
      rw [hnext, List.foldlM_cons, hload]
      exact ⟨r, hfold, hr⟩

/-- Where the maps have what the pages have, the catalog comes back as it was. -/
theorem Tracks.reopens {c : Content} (h : s.Tracks c) (hs : s.Orderly)
    (hfits : s.catalogMeta.layout.length ≤ PAGE_SIZE) : s.Reopens := by
  obtain ⟨pages, hclose, hmeta, hothers⟩ := close_spec hs hfits
  let start : CatalogManager := { new with catalogMeta := s.catalogMeta, pages := pages }
  -- The flush has written one page, and that is the page of no table and no index.
  have hkept : ∀ {ν α : Type} {deserializeFrom : Bytes → Nat → Option (α × Nat)} {id : ν → UInt32}
      {val : ν → α} {entries : List (UInt32 × Int32)} {xs : List ν},
      List.Forall₂ (StoredAt s.pages deserializeFrom id val) entries xs →
      List.Forall₂ (StoredAt pages deserializeFrom id val) entries xs := by
    intro ν α deserializeFrom id val entries xs hstored
    refine hstored.imp fun entry x hx => ⟨hx.1, hx.2.1, ?_⟩
    unfold Pages.read
    rw [hothers _ hx.2.1]
    exact hx.2.2
  have hindexIds : (c.indexes.map fun i => i.2.indexId).Nodup := by
    rw [map_id_of_stored h.stored.indexes]
    refine List.pairwise_map.mpr (s.catalogMeta.indexMetaPages.sorted.imp ?_)
    intro a b hlt
    exact UInt32.ne_of_lt hlt
  obtain ⟨r, hloadTables, htables, hempty, hpages⟩ := @loadTables_spec _ c.tables start []
    (hkept h.stored.tables) h.stored.nodup_ids h.stored.tableNames
    ⟨fun id => rfl, fun name => rfl⟩ ⟨fun id => rfl, fun k => rfl⟩
  have hstoredIndexes := hkept h.stored.indexes
  rw [show pages = r.pages from hpages.symm] at hstoredIndexes
  obtain ⟨r', hloadIndexes, htables', hindexes'⟩ := @loadIndexes_spec _ c.indexes c.tables
    h.stored.nodup_ids r [] hstoredIndexes hindexIds h.stored.indexNames h.stored.owners htables
    hempty
  refine ⟨pages, r', hclose, ?_, h.tables.same htables' h.indexes hindexes'⟩
  simp only [load, hmeta, Option.bind_eq_bind, Option.bind_some]
  show (List.foldlM loadTable start s.catalogMeta.tableMetaPages.entries).bind _ = _
  rw [hloadTables, Option.bind_some]
  exact hloadIndexes

/-- Every table of the metadata comes into the maps. -/
theorem mem_tables_of_loadTables :
    ∀ {s r : CatalogManager}, entries.foldlM loadTable s = some r →
      ∀ id, id ∈ s.tables ∨ id ∈ entries.map Prod.fst → id ∈ r.tables := by
  induction entries with
  | nil =>
    intro s r h id hid
    cases h
    exact hid.resolve_right List.not_mem_nil
  | cons entry entries ih =>
    intro s r h id hid
    rw [List.foldlM_cons, Option.bind_eq_bind, Option.bind_eq_some_iff] at h
    obtain ⟨s₁, hload, h⟩ := h
    rw [loadTable, Option.bind_eq_bind, Option.bind_eq_some_iff] at hload
    obtain ⟨t, -, hload⟩ := hload
    cases hload
    refine ih h id ?_
    show id ∈ s.tables.insert entry.1 t ∨ _
    rw [AList.mem_insert]
    rw [List.map_cons, List.mem_cons] at hid
    tauto

/-- Every index of the metadata comes into the maps, and the tables stay. -/
theorem mem_indexes_of_loadIndexes :
    ∀ {s r : CatalogManager}, entries.foldlM loadIndex s = some r →
      r.tables = s.tables ∧
        ∀ id, id ∈ s.indexes ∨ id ∈ entries.map Prod.fst → id ∈ r.indexes := by
  induction entries with
  | nil =>
    intro s r h
    cases h
    exact ⟨rfl, fun id hid => hid.resolve_right List.not_mem_nil⟩
  | cons entry entries ih =>
    intro s r h
    rw [List.foldlM_cons, Option.bind_eq_bind, Option.bind_eq_some_iff] at h
    obtain ⟨s₁, hload, h⟩ := h
    simp only [loadIndex, Option.bind_eq_bind, Option.bind_eq_some_iff] at hload
    obtain ⟨i, -, t, -, _, -, hload⟩ := hload
    cases hload
    obtain ⟨htables, hindexes⟩ := ih h
    refine ⟨htables, fun id hid => hindexes id ?_⟩
    show id ∈ s.indexes.insert entry.1 i ∨ _
    rw [AList.mem_insert]
    rw [List.map_cons, List.mem_cons] at hid
    tauto

/-- What the metadata name and the maps do not have comes back. -/
theorem Orphaned.not_reopens (h : s.Orphaned) (hs : s.Orderly)
    (hfits : s.catalogMeta.layout.length ≤ PAGE_SIZE) : ¬ s.Reopens := by
  rintro ⟨pages, r, hclose, hload, hsame⟩
  obtain ⟨pages', hclose', hmeta, -⟩ := close_spec hs hfits
  rw [hclose, Option.some.injEq] at hclose'
  subst hclose'
  simp only [load, hmeta, Option.bind_eq_bind, Option.bind_some] at hload
  obtain ⟨r₁, hloadTables, hloadIndexes⟩ := Option.bind_eq_some_iff.mp hload
  obtain ⟨htables, hindexes⟩ := mem_indexes_of_loadIndexes hloadIndexes
  rcases h with ⟨id, hhas, hgone⟩ | ⟨id, hhas, hgone⟩
  · have hmem : id ∈ r.tables := by
      rw [htables]
      exact mem_tables_of_loadTables hloadTables id (.inr hhas)
    rw [← AList.lookup_isSome, hsame.tables, AList.lookup_isSome] at hmem
    exact hgone hmem
  · have hmem : id ∈ r.indexes := hindexes id (.inr hhas)
    rw [← AList.lookup_isSome, hsame.indexes, AList.lookup_isSome] at hmem
    exact hgone hmem

end CatalogManager

/-! ## Runs -/

/-- The metadata that the call makes fit one page. -/
def CatalogCall.Fits : CatalogCall → Prop
  | .createTable tableName schema _ => CatalogManager.TableFits tableName schema
  | .createIndex _ indexName indexKeys _ _ => CatalogManager.IndexFits indexName indexKeys.length
  | .dropTable _ | .dropIndex _ _ => True

/-- The call drops nothing. -/
def CatalogCall.Creates : CatalogCall → Prop
  | .createTable _ _ _ | .createIndex _ _ _ _ _ => True
  | .dropTable _ | .dropIndex _ _ => False

namespace CatalogManager

/-- A successful call, where the metadata of the catalog, and those that the call makes, fit one
page. -/
def Step (s : CatalogManager) (c : CatalogCall) (s' : CatalogManager) : Prop :=
  c.Fits ∧ s.call c = some (.success, s') ∧ s'.catalogMeta.layout.length ≤ PAGE_SIZE

variable {s s' : CatalogManager} {c : CatalogCall}

/-- A call without a drop is a sequence of changes. -/
theorem Step.changes (h : Step s c s') (hroom : s.catalogMeta.layout.length ≤ PAGE_SIZE)
    (hc : c.Creates) : Changes s s' := by
  obtain ⟨hfits, hcall, -⟩ := h
  cases c with
  | createTable tableName schema taken => exact createTable_changes hfits hroom hcall
  | createIndex tableName indexName indexKeys indexType page =>
    refine (createIndex_changes hfits ?_ hcall).1
    have hpage : PAGE_SIZE = 4096 := rfl
    rw [CatalogMeta.length_layout] at hroom
    omega
  | dropTable tableName => exact hc.elim
  | dropIndex tableName indexName => exact hc.elim

/-- A drop takes a table or an index out of the maps, and that is all. -/
theorem Step.drops (h : Step s c s') (hc : ¬ c.Creates) :
    (∃ name id, s.tableNames.lookup name = some id ∧
      s' = { s with tableNames := s.tableNames.erase name, tables := s.tables.erase id }) ∨
    ∃ id names, id ∈ s.indexes ∧
      s' = { s with indexes := s.indexes.erase id, indexNames := names } := by
  obtain ⟨-, hcall, -⟩ := h
  cases c with
  | createTable tableName schema taken => exact absurd trivial hc
  | createIndex tableName indexName indexKeys indexType page => exact absurd trivial hc
  | dropTable tableName =>
    simp only [call, dropTable] at hcall
    cases hname : s.tableNames.lookup tableName with
    | none => simp [hname] at hcall
    | some tableId =>
      simp only [hname, Option.some.injEq, Prod.mk.injEq, true_and] at hcall
      exact .inl ⟨tableName, tableId, hname, hcall.symm⟩
  | dropIndex tableName indexName =>
    simp only [call, dropIndex] at hcall
    cases hname : s.tableNames.lookup tableName with
    | none => simp [hname] at hcall
    | some tableId =>
      simp only [hname, Option.bind_eq_bind, Option.bind_eq_some_iff] at hcall
      obtain ⟨indexMap, -, hcall⟩ := hcall
      split at hcall
      · simp at hcall
      · next indexId _ =>
        split at hcall
        · simp at hcall
        · next hfound =>
          simp only [Option.some.injEq, Prod.mk.injEq, true_and] at hcall
          have hmem : indexId ∈ s.indexes := by
            rw [← AList.lookup_isSome, hfound]
            rfl
          exact .inr ⟨indexId, _, hmem, hcall.symm⟩

/-- Every call of the run succeeds, and the metadata of the catalog fit one page throughout. -/
def succeed : CatalogManager → List CatalogCall → Bool
  | _, [] => true
  | s, c :: cs =>
    match s.call c with
    | some (.success, s') =>
      decide (s'.catalogMeta.layout.length ≤ PAGE_SIZE) && succeed s' cs
    | _ => false

variable {cs : List CatalogCall}

/-- Calls that succeed one after the other make a run of the step relation. -/
theorem exists_run (hfits : ∀ c ∈ cs, c.Fits) :
    ∀ {s : CatalogManager}, succeed s cs = true → ∃ t, Steps Step s cs t := by
  induction cs with
  | nil => exact fun {s} _ => ⟨s, .nil s⟩
  | cons c cs ih =>
    intro s h
    rw [List.forall_mem_cons] at hfits
    unfold succeed at h
    split at h
    · next s' hcall =>
      rw [Bool.and_eq_true, decide_eq_true_eq] at h
      obtain ⟨t, hrun⟩ := ih hfits.2 h.2
      exact ⟨t, .cons ⟨hfits.1, hcall, h.1⟩ hrun⟩
    · cases h

/-- The new catalog is orderly. -/
theorem orderly_new : new.Orderly where
  metaPage := rfl
  tableIds := rfl
  indexIds := rfl
  tableNames _ _ h := by cases h
  indexes _ h := absurd h (AList.notMem_empty _)

/-- And tracks no table and no index. -/
theorem tracks_new : new.Tracks ⟨[], []⟩ where
  tables := ⟨fun _ => rfl, fun _ => rfl⟩
  indexes := ⟨fun _ => rfl, fun _ => rfl⟩
  stored := ⟨.nil, .nil, List.nodup_nil, List.nodup_nil, fun _ h => absurd h List.not_mem_nil⟩

/-- A predicate that a change keeps in an orderly catalog holds after all changes of a call. -/
theorem Changes.invariant {P : CatalogManager → Prop}
    (hstep : ∀ s s', s.Orderly → P s → Change s s' → P s') (h : Changes s s') (hs : s.Orderly)
    (hp : P s) : s'.Orderly ∧ P s' := by
  induction h with
  | refl => exact ⟨hs, hp⟩
  | tail _ hchange ih => exact ⟨ih.1.change hchange, hstep _ _ ih.1 ih.2 hchange⟩

/-- Every call keeps the catalog orderly. -/
theorem Orderly.step (hs : s.Orderly) (hroom : s.catalogMeta.layout.length ≤ PAGE_SIZE)
    (h : Step s c s') : s'.Orderly := by
  by_cases hc : c.Creates
  · exact (Changes.invariant (fun _ _ _ _ _ => trivial) (h.changes hroom hc) hs trivial).1
  · rcases h.drops hc with ⟨name, id, -, rfl⟩ | ⟨id, names, -, rfl⟩
    · refine ⟨hs.metaPage, hs.tableIds, hs.indexIds, fun name' id' hlook => ?_, hs.indexes⟩
      by_cases heq : name' = name
      · subst heq
        simp [AList.lookup_erase] at hlook
      · exact hs.tableNames name' id' (by simpa [AList.lookup_erase_ne heq] using hlook)
    · exact ⟨hs.metaPage, hs.tableIds, hs.indexIds, hs.tableNames,
        fun id' hmem => hs.indexes id' (AList.mem_erase.mp hmem).2⟩

/-- What is dropped is still in the metadata. -/
theorem Orderly.drop (hs : s.Orderly) (h : Step s c s') (hc : ¬ c.Creates) : s'.Orphaned := by
  rcases h.drops hc with ⟨name, id, hname, rfl⟩ | ⟨id, names, hmem, rfl⟩
  · exact .inl ⟨id, hs.tableNames name id hname, fun hmem => (AList.mem_erase.mp hmem).1 rfl⟩
  · exact .inr ⟨id, hs.indexes id hmem, fun hmem => (AList.mem_erase.mp hmem).1 rfl⟩

/-- What is gone stays gone, whatever is called. -/
theorem Orphaned.step (h : s.Orphaned) (hs : s.Orderly)
    (hroom : s.catalogMeta.layout.length ≤ PAGE_SIZE) (hstep : Step s c s') : s'.Orphaned := by
  by_cases hc : c.Creates
  · exact (Changes.invariant (fun _ _ hs h hchange => h.change hs hchange)
      (hstep.changes hroom hc) hs h).2
  · exact hs.drop hstep hc

/-- The catalog after a run: orderly, with room on the page of its metadata. -/
theorem orderly_run (hrun : Steps Step s cs s')
    (h : s.Orderly ∧ s.catalogMeta.layout.length ≤ PAGE_SIZE) :
    s'.Orderly ∧ s'.catalogMeta.layout.length ≤ PAGE_SIZE := by
  refine hrun.invariant (I := fun s => s.Orderly ∧ s.catalogMeta.layout.length ≤ PAGE_SIZE) ?_ h
  intro s c s' h hstep
  exact ⟨h.1.step h.2 hstep, hstep.2.2⟩

/-- A run without drops: the maps have what the pages have. -/
theorem Tracks.run (hrun : Steps Step s cs s') :
    (∀ c ∈ cs, c.Creates) → s.Orderly → s.catalogMeta.layout.length ≤ PAGE_SIZE →
      (∃ c, s.Tracks c) → ∃ c, s'.Tracks c := by
  induction hrun with
  | nil s => exact fun _ _ _ h => h
  | @cons s s₁ s' call calls hstep _ ih =>
    intro hcs hs hroom h
    rw [List.forall_mem_cons] at hcs
    refine ih hcs.2 (hs.step hroom hstep) hstep.2.2 ?_
    refine (Changes.invariant (P := fun s => ∃ c, s.Tracks c) ?_ (hstep.changes hroom hcs.1)
      hs h).2
    rintro s s' hs ⟨content, htracks⟩ hchange
    exact htracks.change hs hchange

/-- A run with a drop: something is gone from the maps. -/
theorem Orphaned.run (hrun : Steps Step s cs s') :
    s.Orderly → s.catalogMeta.layout.length ≤ PAGE_SIZE →
      s.Orphaned ∨ ¬ (∀ c ∈ cs, c.Creates) → s'.Orphaned := by
  induction hrun with
  | nil s =>
    intro _ _ h
    exact h.resolve_right fun hall => hall fun c hc => absurd hc List.not_mem_nil
  | @cons s s₁ s' call calls hstep _ ih =>
    intro hs hroom h
    refine ih (hs.step hroom hstep) hstep.2.2 ?_
    rcases h with h | hdrop
    · exact .inl (h.step hs hroom hstep)
    · rw [List.forall_mem_cons, not_and_or] at hdrop
      exact hdrop.imp (hs.drop hstep) id

/-- After a run of successful calls the catalog comes back from its pages as it was exactly if
nothing was dropped. -/
theorem reopens_iff {cs : List CatalogCall} {s : CatalogManager} (hrun : Steps Step new cs s) :
    s.Reopens ↔ ∀ c ∈ cs, c.Creates := by
  have hroom : new.catalogMeta.layout.length ≤ PAGE_SIZE := by decide
  obtain ⟨hs, hfits⟩ := orderly_run hrun ⟨orderly_new, hroom⟩
  constructor
  · intro hreopens
    by_contra hdrop
    exact (Orphaned.run hrun orderly_new hroom (.inr hdrop)).not_reopens hs hfits hreopens
  · intro hcs
    obtain ⟨content, htracks⟩ := Tracks.run hrun hcs orderly_new hroom ⟨_, tracks_new⟩
    exact htracks.reopens hs hfits

/-- `create table t (id int unique)` in a new database: the heap of the table takes the pages 2 and
3, its metadata the page 4, and its index the page 5. -/
def createT : CatalogCall :=
  .createTable [116] ⟨[⟨[105, 100], .kTypeInt, 4, 0, false, true, admits_kTypeInt⟩]⟩
    ⟨2, 3, 4, [5]⟩

/-- The call of the failing input fits the codec's limits. -/
theorem fits_createT : createT.Fits := by
  intro t hname hschema
  rw [TableMetadata.length_layout, hname, hschema]
  decide

/-- The table comes back, with its index. -/
theorem reopens_iff_createT :
    ∃ s, Steps Step new [createT] s ∧ (s.Reopens ↔ ∀ c ∈ [createT], c.Creates) := by
  have hfits : ∀ c ∈ [createT], c.Fits := List.forall_mem_singleton.mpr fits_createT
  obtain ⟨s, hrun⟩ := exists_run hfits (show succeed new [createT] = true by decide +kernel)
  exact ⟨s, hrun, reopens_iff hrun⟩

/-- The table is dropped, and the catalog that is opened again is another one. -/
theorem dropped_table_returns :
    ∃ s, Steps Step new [createT, .dropTable [116]] s ∧ ¬ s.Reopens := by
  have hfits : ∀ c ∈ [createT, .dropTable [116]], c.Fits :=
    List.forall_mem_cons.mpr ⟨fits_createT, List.forall_mem_singleton.mpr trivial⟩
  obtain ⟨s, hrun⟩ := exists_run hfits
    (show succeed new [createT, .dropTable [116]] = true by decide +kernel)
  have hroom : new.catalogMeta.layout.length ≤ PAGE_SIZE := by decide
  obtain ⟨hs, hfitsMeta⟩ := orderly_run hrun ⟨orderly_new, hroom⟩
  refine ⟨s, hrun, (Orphaned.run hrun orderly_new hroom (.inr ?_)).not_reopens hs hfitsMeta⟩
  intro hall
  exact hall (.dropTable [116]) (by simp)

end CatalogManager

end DisMiniSql.MiniSql.Record
