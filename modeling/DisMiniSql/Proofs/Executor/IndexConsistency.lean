import DisMiniSql.Lib.Run
import DisMiniSql.Proofs.Executor.TableIndexes

/-!
# Indexes hold the rows of the table

Inserting and deleting rows keeps every index in step with the heap. Two statements do not.

`TableHeap::UpdateTuple` answers `false` where the row has changed and `true` where it did not
fit, so an update changes the first row that fits and no index, and it changes the indexes for the
rows before it, which are as they were. `CreateIndex` fills the index from a scan, which may miss
rows, and drops the rows whose key is there already.

`Safe` is the condition on a statement and the table before it. `consistent_iff` states that the
indexes hold the rows after every statement of a run exactly if all its statements are safe.
-/

set_option autoImplicit false

namespace DisMiniSql.MiniSql.Table

open DisMiniSql.Lib (Guarded)

variable {V : Type} {F : FieldOps V} {frames : Frames} {t : Table V}

/-! ## Rows that a scan has still to yield -/

/-- The rows are on the heap, each once. -/
structure Pending (h : TableHeap V) (rows : List (RowId × List V)) : Prop where
  nodup : (rows.map Prod.fst).Nodup
  live : ∀ r ∈ rows, h.getTuple r.1 = some r.2

variable {rows : List (RowId × List V)}

/-- Changing the first row leaves the others. -/
theorem Pending.tail {h h' : TableHeap V} {r : RowId × List V} (hp : Pending h (r :: rows))
    (hother : ∀ rid, rid ≠ r.1 → h'.getTuple rid = h.getTuple rid) :
    Pending h' rows := by
  have hnodup := List.nodup_cons.mp hp.nodup
  refine ⟨hnodup.2, fun r' hr' => ?_⟩
  have hne : r'.1 ≠ r.1 := fun heq => hnodup.1 (heq ▸ List.mem_map_of_mem hr')
  rw [hother _ hne]
  exact hp.live r' (List.mem_cons_of_mem _ hr')

/-- What a scan returns is still to be worked on: every row is live, none listed twice. -/
theorem pending_scan {h : TableHeap V} (hl : TableHeap.Linked h.pages)
    (p : RowId × List V → Bool) : Pending h (h.scan.filter p) where
  nodup := (TableHeap.nodup_scan hl).sublist (List.filter_sublist.map _)
  live _ hr := TableHeap.mem_scan (List.mem_filter.mp hr).1

/-! ## Insert -/

/-- An insert that no index refuses finds no index with the key of the row. -/
theorem Wf.sameKey_of_not_exists (h : t.Wf F) {row : List V}
    (hwidth : row.length = t.columns.length) (hnew : ¬ t.keyExists F row) :
    ∀ index ∈ t.indexes, ∀ e ∈ index.index, F.sameKey (t.key index row) e.1 = false := by
  intro index hindex e he
  by_contra hkey
  refine hnew (List.any_eq_true.mpr ⟨index, hindex, ?_⟩)
  have hne : t.key index row ≠ [] := (h.keys index hindex).key_ne_nil hwidth
  rw [Bool.and_eq_true]
  refine ⟨by simpa using hne, ?_⟩
  exact (IndexEntries.scanKey_isSome _).mpr ⟨e, he, by simpa using hkey⟩

/-- The table after one row of an insert. -/
def insertedRow (F : FieldOps V) (t : Table V) (row : List V) (rid : RowId) (heap : TableHeap V) :
    Table V :=
  Table.updateIndexes { t with heap := heap }
    (fun index => index.index.insertEntry F (t.key index row) rid)

variable {heap : TableHeap V}

/-- Storing a row of the right width keeps the table well formed. -/
theorem Wf.insertedRow (h : t.Wf F) {row : List V} (hwidth : row.length = t.columns.length)
    {rid : RowId} (hins : TableHeap.Inserted t.heap row rid heap) :
    (t.insertedRow F row rid heap).Wf F := by
  have hheap : Wf F { t with heap := heap } := by
    refine h.setHeap (hins.linked h.linked) hins.getTuple ?_
    rintro _ ⟨⟩
    exact hwidth
  exact hheap.updateIndexes (fun index hindex => (h.maps index hindex).insertEntry _ _)

/-- By induction over the rows: each is refused, or stored and entered into every index, so a
consistent table stays consistent. -/
theorem insertRows_spec (rows : List (List V)) :
    ∀ t : Table V, t.Wf F → (∀ row ∈ rows, row.length = t.columns.length) →
      (t.insertRows F frames rows).Wf F ∧
        (t.Consistent → (t.insertRows F frames rows).Consistent) := by
  induction rows with
  | nil => exact fun t h _ => ⟨h, id⟩
  | cons row rows ih =>
    intro t h hwidths
    rw [List.forall_mem_cons] at hwidths
    rw [insertRows]
    -- the uniqueness test of the statement
    split
    · exact ⟨h, id⟩
    · next hnew =>
      cases hins : t.heap.insertTuple F.size frames row with
      | none => exact ⟨h, id⟩
      | some r =>
        obtain ⟨rid, heap⟩ := r
        have hins := TableHeap.insertTuple_spec hins
        obtain ⟨hwf, hcons⟩ := ih _ (h.insertedRow hwidths.1 hins) hwidths.2
        refine ⟨hwf, fun hc => hcons ?_⟩
        refine (consistent_updateIndexes _).mpr fun index hindex => ?_
        exact (hc index hindex).insert hins (h.sameKey_of_not_exists hwidths.1 hnew index hindex)

/-! ## Delete -/

/-- The table after one row of a delete. -/
def deletedRow (F : FieldOps V) (t : Table V) (row : List V) (heap : TableHeap V) : Table V :=
  Table.updateIndexes { t with heap := heap }
    (fun index => index.index.removeEntry F (t.key index row))

/-- One row of a `delete`: marked and taken out of the indexes, or the statement stops. -/
theorem deleteRows_cons (t : Table V) (rid : RowId) (row : List V)
    (rows : List (RowId × List V)) :
    t.deleteRows F frames ((rid, row) :: rows) =
      if (t.heap.markDelete frames rid).1 then
        (t.deletedRow F row (t.heap.markDelete frames rid).2).deleteRows F frames rows
      else { t with heap := (t.heap.markDelete frames rid).2 } := rfl

/-- By induction over the rows still to be deleted: each is live when its turn comes, and its
entries go with it. -/
theorem deleteRows_spec (rows : List (RowId × List V)) :
    ∀ t : Table V, t.Wf F → Pending t.heap rows →
      (t.deleteRows F frames rows).Wf F ∧
        (t.Consistent → (t.deleteRows F frames rows).Consistent) := by
  induction rows with
  | nil => exact fun t h _ => ⟨h, id⟩
  | cons r rows ih =>
    intro t h hp
    obtain ⟨rid, row⟩ := r
    obtain ⟨hfalse, htrue, hlinked⟩ := TableHeap.markDelete_spec t.heap frames rid
    rw [deleteRows_cons]
    split
    · next hmarked =>
      have hrows := htrue hmarked
      have hrow : t.heap.getTuple rid = some row := hp.live _ List.mem_cons_self
      have hheap : Wf F { t with heap := (t.heap.markDelete frames rid).2 } :=
        h.setHeap (hlinked h.linked) hrows (fun _ hnone => by cases hnone)
      have hnext : (t.deletedRow F row (t.heap.markDelete frames rid).2).Wf F :=
        hheap.updateIndexes (fun index hindex => (h.maps index hindex).removeEntry _)
      obtain ⟨hwf, hcons⟩ := ih _ hnext (hp.tail (fun r hr => by
        show (t.heap.markDelete frames rid).2.getTuple r = _
        rw [hrows, if_neg hr]))
      refine ⟨hwf, fun hc => hcons ?_⟩
      refine (consistent_updateIndexes _).mpr fun index hindex => ?_
      exact (hc index hindex).delete (h.maps index hindex) hrow hrows
    · next hmarked =>
      rw [hfalse (by simpa using hmarked)]
      exact ⟨h, id⟩

/-! ## Update -/

/-- The rows that an update reaches: those up to the first that fits. It stops before a row whose
page cannot be fetched. -/
def reached (F : FieldOps V) (frames : Frames) (updateAttrs : Nat → Option V)
    (heap : TableHeap V) : List (RowId × List V) → List (RowId × List V)
  | [] => []
  | r :: rows =>
    if frames.fetch r.1.pageId then
      if heap.fits F.size (generateUpdatedTuple updateAttrs r.2) r.1 then [r]
      else r :: reached F frames updateAttrs heap rows
    else []

variable {updateAttrs : Nat → Option V}

/-- Which rows an update reaches depends on the pages only. -/
theorem reached_congr {heap' : TableHeap V} (hpages : heap'.pages = heap.pages)
    (rows : List (RowId × List V)) :
    reached F frames updateAttrs heap' rows = reached F frames updateAttrs heap rows := by
  induction rows with
  | nil => rfl
  | cons r rows ih => rw [reached, reached, TableHeap.fits_congr hpages, ih]

/-- The table after a row that the update takes for changed. -/
def updatedRow (F : FieldOps V) (t : Table V) (rid : RowId) (src dest : List V)
    (heap : TableHeap V) : Table V :=
  Table.updateIndexes { t with heap := heap }
    (fun index =>
      (index.index.removeEntry F (t.key index src)).insertEntry F (t.key index dest) rid)

/-- One row of an `update`: checked, written, and the indexes changed. -/
theorem updateRows_cons (updateAttrs : Nat → Option V) (t : Table V) (rid : RowId) (src : List V)
    (rows : List (RowId × List V)) :
    t.updateRows F frames updateAttrs ((rid, src) :: rows) =
      let dest := generateUpdatedTuple updateAttrs src
      let r := t.heap.updateTuple F.size frames dest rid
      if r.1 then (t.updatedRow F rid src dest r.2).updateRows F frames updateAttrs rows
      else { t with heap := r.2 } := rfl

/-- The updated row has the width of the old one. -/
theorem length_generateUpdatedTuple (updateAttrs : Nat → Option V) (src : List V) :
    (generateUpdatedTuple updateAttrs src).length = src.length := by
  simp [generateUpdatedTuple]

/-- Changing the indexes for an updated row keeps the table well formed. -/
theorem Wf.updatedRow (h : t.Wf F) (rid : RowId) (src dest : List V)
    (hpages : heap.pages = t.heap.pages) : (t.updatedRow F rid src dest heap).Wf F := by
  have hheap : Wf F { t with heap := heap } := by
    refine ⟨by rw [hpages]; exact h.linked, fun r row hrow => ?_, h.keys, h.maps⟩
    exact h.widths r row ((TableHeap.getTuple_congr hpages r).symm.trans hrow)
  exact hheap.updateIndexes
    (fun index hindex => ((h.maps index hindex).removeEntry _).insertEntry _ _)

/-- What the first row of an update comes to: the update stops with nothing changed, or with this
row changed, or it goes on with the rows as they were. -/
theorem updateRows_cases (F : FieldOps V) (frames : Frames) (updateAttrs : Nat → Option V)
    (rows : List (RowId × List V)) {rid : RowId} {src : List V}
    (hsrc : t.heap.getTuple rid = some src) :
    (reached F frames updateAttrs t.heap ((rid, src) :: rows) = [] ∧
      t.updateRows F frames updateAttrs ((rid, src) :: rows) = t) ∨
    (reached F frames updateAttrs t.heap ((rid, src) :: rows) = [(rid, src)] ∧
      ∃ heap, t.updateRows F frames updateAttrs ((rid, src) :: rows) = { t with heap := heap } ∧
        (∀ r, heap.getTuple r =
          if r = rid then some (generateUpdatedTuple updateAttrs src) else t.heap.getTuple r) ∧
        (TableHeap.Linked t.heap.pages → TableHeap.Linked heap.pages)) ∨
    (reached F frames updateAttrs t.heap ((rid, src) :: rows) =
        (rid, src) :: reached F frames updateAttrs t.heap rows ∧
      ∃ heap, heap.pages = t.heap.pages ∧
        t.updateRows F frames updateAttrs ((rid, src) :: rows) =
          (t.updatedRow F rid src (generateUpdatedTuple updateAttrs src) heap).updateRows F frames
            updateAttrs rows) := by
  rw [updateRows_cons, reached]
  dsimp only
  rcases TableHeap.updateTuple_cases F.size frames hsrc
      (generateUpdatedTuple updateAttrs src) with
    ⟨hfetch, heq⟩ | ⟨hfetch, hfit, hfalse, hrows, hlinked⟩ | ⟨hfetch, hfit, htrue, hpages⟩
  · left
    rw [if_neg (by simp [hfetch]), heq]
    exact ⟨rfl, rfl⟩
  · right; left
    rw [if_pos hfetch, if_pos hfit, if_neg (by simp [hfalse])]
    exact ⟨rfl, _, rfl, hrows, hlinked⟩
  · right; right
    rw [if_pos hfetch, if_neg (by simp [hfit]), if_pos htrue]
    exact ⟨rfl, _, hpages, rfl⟩

/-- An update keeps the form of the table. -/
theorem updateRows_wf (rows : List (RowId × List V)) :
    ∀ t : Table V, t.Wf F → Pending t.heap rows →
    (t.updateRows F frames updateAttrs rows).Wf F := by
  induction rows with
  | nil => exact fun t h _ => h
  | cons r rows ih =>
    intro t h hp
    obtain ⟨rid, src⟩ := r
    have hsrc : t.heap.getTuple rid = some src := hp.live _ List.mem_cons_self
    rcases updateRows_cases F frames updateAttrs rows hsrc with
      ⟨_, heq⟩ | ⟨_, heap, heq, hrows, hlinked⟩ | ⟨_, heap, hpages, heq⟩
    · rw [heq]
      exact h
    · rw [heq]
      refine h.setHeap (hlinked h.linked) hrows ?_
      rintro _ ⟨⟩
      rw [length_generateUpdatedTuple]
      exact h.widths rid src hsrc
    · rw [heq]
      exact ih _ (h.updatedRow rid src _ hpages)
        (hp.tail (fun r _ => TableHeap.getTuple_congr hpages r))

/-- The columns of a table stay, and so do the row of a row id that the update does not visit and
the absence of an entry for it. -/
theorem updateRows_kept (rows : List (RowId × List V)) :
    ∀ t : Table V, Pending t.heap rows →
      (t.updateRows F frames updateAttrs rows).columns = t.columns ∧
      ∀ rid, rid ∉ rows.map Prod.fst →
        (t.updateRows F frames updateAttrs rows).heap.getTuple rid = t.heap.getTuple rid ∧
        ∀ index ∈ t.indexes, ∃ index' ∈ (t.updateRows F frames updateAttrs rows).indexes,
          index'.keyMap = index.keyMap ∧
            ∀ key, (key, rid) ∈ index'.index → (key, rid) ∈ index.index := by
  induction rows with
  | nil =>
    exact fun t _ =>
      ⟨rfl, fun rid _ => ⟨rfl, fun index hindex => ⟨index, hindex, rfl, fun _ => id⟩⟩⟩
  | cons r rows ih =>
    intro t hp
    obtain ⟨rid₀, src⟩ := r
    have hsrc : t.heap.getTuple rid₀ = some src := hp.live _ List.mem_cons_self
    rcases updateRows_cases F frames updateAttrs rows hsrc with
      ⟨_, heq⟩ | ⟨_, heap, heq, hrows, _⟩ | ⟨_, heap, hpages, heq⟩
    · rw [heq]
      exact ⟨rfl, fun rid _ => ⟨rfl, fun index hindex => ⟨index, hindex, rfl, fun _ => id⟩⟩⟩
    · rw [heq]
      refine ⟨rfl, fun rid hrid => ⟨?_, fun index hindex => ⟨index, hindex, rfl, fun _ => id⟩⟩⟩
      have hne : rid ≠ rid₀ := fun h => hrid (h ▸ List.mem_cons_self)
      show heap.getTuple rid = _
      rw [hrows, if_neg hne]
    · rw [heq]
      obtain ⟨hcols, hkept⟩ := ih (t.updatedRow F rid₀ src _ heap)
        (hp.tail (fun r _ => TableHeap.getTuple_congr hpages r))
      refine ⟨hcols, fun rid hrid => ?_⟩
      rw [List.map_cons, List.mem_cons, not_or] at hrid
      obtain ⟨hrow, hentries⟩ := hkept rid hrid.2
      refine ⟨hrow.trans (TableHeap.getTuple_congr hpages rid), fun index hindex => ?_⟩
      obtain ⟨index', hindex', hkeys, hsub⟩ := hentries _ (List.mem_map_of_mem hindex)
      refine ⟨index', hindex', hkeys, fun key hmem => ?_⟩
      -- The entries that the first row adds carry its own row id.
      rcases IndexEntries.mem_of_mem_insertEntry (hsub key hmem) with hold | hnew
      · exact List.mem_of_mem_eraseP hold
      · exact absurd (congrArg Prod.snd hnew) hrid.1

/-- An entry that is taken out and put back under another key is not there any more. -/
theorem Wf.entry_gone (h : t.Wf F) {index : TableIndex V} (hindex : index ∈ t.indexes)
    (hholds : t.Holds index.keyMap index.index) {rid : RowId} {src : List V}
    (hsrc : t.heap.getTuple rid = some src) {dest : List V}
    (hkey : t.key index dest ≠ t.key index src) :
    (t.key index src, rid) ∉
      (index.index.removeEntry F (t.key index src)).insertEntry F (t.key index dest) rid := by
  have hremoved : (t.key index src, rid) ∉ index.index.removeEntry F (t.key index src) := by
    intro hmem
    exact (((h.maps index hindex).mem_removeEntry (hholds.mem hsrc) _).mp hmem).2 rfl
  intro hmem
  rcases IndexEntries.mem_of_mem_insertEntry hmem with hold | hnew
  · exact hremoved hold
  · exact hkey (congrArg Prod.fst hnew).symm

/-- Every row that the update reaches keeps its key in every index. -/
def KeepsKeys (t : Table V) (updateAttrs : Nat → Option V) (rows : List (RowId × List V)) : Prop :=
  ∀ r ∈ rows, ∀ index ∈ t.indexes,
    t.key index (generateUpdatedTuple updateAttrs r.2) = t.key index r.2

/-- Whether an update keeps the keys does not depend on the indexes. -/
theorem keepsKeys_updatedRow (updateAttrs : Nat → Option V) (rid : RowId) (src dest : List V)
    (heap : TableHeap V) (rows : List (RowId × List V)) :
    (t.updatedRow F rid src dest heap).KeepsKeys updateAttrs rows ↔
      t.KeepsKeys updateAttrs rows :=
  forall₂_congr fun _ _ => List.forall_mem_map

/-- The rows are as they were, and so are the entries if no key is another. -/
theorem Wf.updatedRow_consistent (h : t.Wf F) (hc : t.Consistent) {rid : RowId} {src dest : List V}
    (hpages : heap.pages = t.heap.pages) (hsrc : t.heap.getTuple rid = some src)
    (hkeys : ∀ index ∈ t.indexes, t.key index dest = t.key index src) :
    (t.updatedRow F rid src dest heap).Consistent := by
  refine (consistent_updateIndexes _).mpr fun index hindex => ?_
  have hholds : Holds t index.keyMap ((index.index.removeEntry F (t.key index src)).insertEntry F
      (t.key index dest) rid) := by
    rw [hkeys index hindex]
    exact (hc index hindex).reinsert (h.maps index hindex) hsrc
  intro key r
  rw [hholds key r]
  show _ ↔ ∃ row, heap.getTuple r = some row ∧ _
  rw [TableHeap.getTuple_congr hpages]

/-- Where the key of a row changes in the indexes and the row does not, the entry of the row is
gone, and no later row of the update puts it back. -/
theorem Wf.not_consistent_of_gone (h : t.Wf F) (hc : t.Consistent) {updateAttrs : Nat → Option V}
    {rid : RowId} {src dest : List V} {rows : List (RowId × List V)} {heap : TableHeap V}
    (hp : Pending t.heap ((rid, src) :: rows)) (hpages : heap.pages = t.heap.pages)
    {index : TableIndex V} (hindex : index ∈ t.indexes)
    (hkey : t.key index dest ≠ t.key index src) :
    ¬ ((t.updatedRow F rid src dest heap).updateRows F frames updateAttrs rows).Consistent := by
  intro hc'
  have hsrc : t.heap.getTuple rid = some src := hp.live _ List.mem_cons_self
  have hpend : Pending (t.updatedRow F rid src dest heap).heap rows :=
    hp.tail (fun r _ => TableHeap.getTuple_congr hpages r)
  obtain ⟨hcols, hkept⟩ := updateRows_kept (F := F) rows _ hpend
  obtain ⟨hrow, hentries⟩ := hkept rid (List.nodup_cons.mp hp.nodup).1
  obtain ⟨index', hindex', hkeyMap, hsub⟩ := hentries _ (List.mem_map_of_mem hindex)
  have hmem := (hc' index' hindex').mem
    (hrow.trans ((TableHeap.getTuple_congr hpages rid).trans hsrc))
  rw [hcols, hkeyMap] at hmem
  exact h.entry_gone hindex (hc index hindex) hsrc hkey (hsub _ hmem)

/-- After an update the indexes hold the rows exactly if the rows that it reaches keep their
keys. -/
theorem updateRows_consistent_iff (rows : List (RowId × List V)) :
    ∀ t : Table V, t.Wf F → t.Consistent → Pending t.heap rows →
      ((t.updateRows F frames updateAttrs rows).Consistent ↔
        t.KeepsKeys updateAttrs (reached F frames updateAttrs t.heap rows)) := by
  induction rows with
  | nil => exact fun t _ hc _ => ⟨fun _ r hr => absurd hr List.not_mem_nil, fun _ => hc⟩
  | cons r rows ih =>
    intro t h hc hp
    obtain ⟨rid, src⟩ := r
    have hsrc : t.heap.getTuple rid = some src := hp.live _ List.mem_cons_self
    rcases updateRows_cases F frames updateAttrs rows hsrc with
      ⟨hreached, heq⟩ | ⟨hreached, heap, heq, hrows, _⟩ | ⟨hreached, heap, hpages, heq⟩
    · rw [heq, hreached]
      exact ⟨fun _ r hr => absurd hr List.not_mem_nil, fun _ => hc⟩
    · -- The row has changed and the indexes have not.
      rw [heq, hreached]
      constructor
      · intro hc' r hr index hindex
        rw [List.mem_singleton.mp hr]
        exact ((hc index hindex).update_iff hsrc hrows).mp (hc' index hindex)
      · intro hkeys index hindex
        exact ((hc index hindex).update_iff hsrc hrows).mpr
          (hkeys _ (List.mem_singleton_self _) index hindex)
    · -- The row is as it was and the indexes have changed.
      rw [heq, hreached]
      rw [KeepsKeys, List.forall_mem_cons]
      by_cases hkeys : ∀ index ∈ t.indexes,
          t.key index (generateUpdatedTuple updateAttrs src) = t.key index src
      · have hwf := h.updatedRow rid src (generateUpdatedTuple updateAttrs src) hpages
        have hpend : Pending heap rows := hp.tail (fun r _ => TableHeap.getTuple_congr hpages r)
        have hrest := ih _ hwf (h.updatedRow_consistent hc hpages hsrc hkeys) hpend
        rw [keepsKeys_updatedRow] at hrest
        rw [hrest, show (t.updatedRow F rid src _ heap).heap = heap from rfl, reached_congr hpages]
        exact ⟨fun hrows => ⟨hkeys, hrows⟩, And.right⟩
      · refine ⟨fun hc' => ?_, fun hall => absurd hall.1 hkeys⟩
        obtain ⟨index, hne⟩ := not_forall.mp hkeys
        obtain ⟨hindex, hne⟩ := Classical.not_imp.mp hne
        exact absurd hc' (h.not_consistent_of_gone hc hp hpages hindex hne)

/-! ## Creating an index -/

/-- The entries of a new index: one for each key. -/
theorem isMap_backFill (keyMap : List Nat) (rows : List (RowId × List V)) :
    (backFill F keyMap rows).IsMap F := by
  have hfold : ∀ index : IndexEntries V, index.IsMap F → IndexEntries.IsMap F
      (rows.foldl (fun index r => index.insertEntry F (keyMap.filterMap (fun i => r.2[i]?)) r.1)
        index) := by
    induction rows with
    | nil => exact fun index h => h
    | cons r rows ih => exact fun index h => ih _ (h.insertEntry _ _)
  exact hfold [] .nil

/-- An entry of a filled index is that of a row. -/
theorem mem_of_mem_backFill {keyMap : List Nat} {e : List V × RowId}
    (he : e ∈ backFill F keyMap rows) :
    ∃ r ∈ rows, e = (keyMap.filterMap (fun i => r.2[i]?), r.1) := by
  have hfold : ∀ (l : List (RowId × List V)) (index : IndexEntries V),
      e ∈ l.foldl (fun index r =>
        index.insertEntry F (keyMap.filterMap (fun i => r.2[i]?)) r.1) index →
      e ∈ index ∨ ∃ r ∈ l, e = (keyMap.filterMap (fun i => r.2[i]?), r.1) := by
    intro l
    induction l with
    | nil => exact fun index h => .inl h
    | cons r l ih =>
      intro index h
      rcases ih _ h with hin | ⟨r', hr', heq⟩
      · rcases IndexEntries.mem_of_mem_insertEntry hin with hold | hnew
        · exact .inl hold
        · exact .inr ⟨r, List.mem_cons_self, hnew⟩
      · exact .inr ⟨r', List.mem_cons_of_mem _ hr', heq⟩
  rcases hfold rows [] he with hnil | hrow
  · cases hnil
  · exact hrow

/-- Rows with different keys all get their entries. -/
theorem backFill_of_distinct {keyMap : List Nat} {rows : List (RowId × List V)}
    (h : rows.Pairwise (fun r r' => F.sameKey (keyMap.filterMap (fun i => r.2[i]?))
      (keyMap.filterMap (fun i => r'.2[i]?)) = false)) :
    backFill F keyMap rows =
      rows.map (fun r => (keyMap.filterMap (fun i => r.2[i]?), r.1)) := by
  have hfold : ∀ (l : List (RowId × List V)) (index : IndexEntries V),
      l.Pairwise (fun r r' => F.sameKey (keyMap.filterMap (fun i => r.2[i]?))
        (keyMap.filterMap (fun i => r'.2[i]?)) = false) →
      (∀ r ∈ l, ∀ e ∈ index, F.sameKey (keyMap.filterMap (fun i => r.2[i]?)) e.1 = false) →
      l.foldl (fun index r =>
        index.insertEntry F (keyMap.filterMap (fun i => r.2[i]?)) r.1) index =
        index ++ l.map (fun r => (keyMap.filterMap (fun i => r.2[i]?), r.1)) := by
    intro l
    induction l with
    | nil => simp
    | cons r l ih =>
      intro index hl hnew
      rw [List.pairwise_cons] at hl
      rw [List.forall_mem_cons] at hnew
      rw [List.foldl_cons, IndexEntries.insertEntry_of_new hnew.1, ih _ hl.2, List.append_assoc]
      · rfl
      · intro r' hr' e he
        rcases List.mem_append.mp he with hold | hlast
        · exact hnew.2 r' hr' e hold
        · rw [List.mem_singleton.mp hlast, F.sameKey_symm]
          exact hl.1 r' hr'
  exact hfold rows [] h (fun _ _ _ he => absurd he List.not_mem_nil)

/-- A scan yields every row, and the rows have different keys. -/
def Indexable (F : FieldOps V) (t : Table V) (keyMap : List Nat) : Prop :=
  (∀ rid row, t.heap.getTuple rid = some row → (rid, row) ∈ t.heap.scan) ∧
  ∀ rid row rid' row', t.heap.getTuple rid = some row → t.heap.getTuple rid' = some row' →
    rid ≠ rid' →
      F.sameKey (getKeyFromRow t.columns keyMap row) (getKeyFromRow t.columns keyMap row') = false

/-- A new index holds the rows exactly if the table can be indexed. -/
theorem Wf.holds_backFill_iff (h : t.Wf F) {keyMap : List Nat}
    (hkeys : KeyColumns t.columns keyMap) :
    t.Holds keyMap (backFill F keyMap t.heap.scan) ↔ t.Indexable F keyMap := by
  constructor
  · intro hholds
    refine ⟨fun rid row hrow => ?_, fun rid row rid' row' hrow hrow' hne => ?_⟩
    · obtain ⟨r, hr, heq⟩ := mem_of_mem_backFill (hholds.mem hrow)
      obtain ⟨rid', row'⟩ := r
      obtain ⟨_, rfl⟩ := Prod.mk.inj heq
      have hrow' := TableHeap.mem_scan hr
      rw [hrow] at hrow'
      cases hrow'
      exact hr
    · by_contra hsame
      have heq := (isMap_backFill keyMap t.heap.scan).eq_of_sameKey (hholds.mem hrow)
        (hholds.mem hrow') (by simpa using hsame)
      exact hne (congrArg Prod.snd heq)
  · rintro ⟨hall, hdistinct⟩
    have hpairs : t.heap.scan.Pairwise (fun r r' =>
        F.sameKey (keyMap.filterMap (fun i => r.2[i]?))
          (keyMap.filterMap (fun i => r'.2[i]?)) = false) := by
      refine (List.pairwise_map.mp (TableHeap.nodup_scan h.linked)).imp_of_mem ?_
      intro r r' hr hr' hne
      rw [← hkeys.getKeyFromRow, ← hkeys.getKeyFromRow]
      exact hdistinct _ _ _ _ (TableHeap.mem_scan hr) (TableHeap.mem_scan hr') hne
    intro key rid
    rw [backFill_of_distinct hpairs, List.mem_map]
    constructor
    · rintro ⟨r, hr, heq⟩
      obtain ⟨rfl, rfl⟩ := Prod.mk.inj heq
      exact ⟨r.2, TableHeap.mem_scan hr, (hkeys.getKeyFromRow r.2).symm⟩
    · rintro ⟨row, hrow, rfl⟩
      exact ⟨(rid, row), hall rid row hrow, by rw [hkeys.getKeyFromRow]⟩

/-- The index name is taken, or a column of the key is missing, or there is a new index. -/
theorem createIndex_cases (F : FieldOps V) (t : Table V) (indexName : String)
    (indexKeys : List String) :
    ((t.indexes.any (fun index => index.indexName == indexName) ∨
        keyMap t.columns indexKeys = none) ∧ t.createIndex F indexName indexKeys = t) ∨
    ∃ keys, ¬ t.indexes.any (fun index => index.indexName == indexName) ∧
      keyMap t.columns indexKeys = some keys ∧
      t.createIndex F indexName indexKeys =
        { t with indexes := t.indexes ++ [⟨indexName, keys, backFill F keys t.heap.scan⟩] } := by
  unfold createIndex
  split
  · next htaken => exact .inl ⟨.inl htaken, rfl⟩
  · next hfree =>
    cases hkeys : keyMap t.columns indexKeys with
    | none => exact .inl ⟨.inr rfl, rfl⟩
    | some keys => exact .inr ⟨keys, hfree, rfl, rfl⟩

/-- Creating an index leaves the rows alone. -/
theorem heap_createIndex (t : Table V) (indexName : String) (indexKeys : List String) :
    (t.createIndex F indexName indexKeys).heap = t.heap := by
  rcases createIndex_cases F t indexName indexKeys with ⟨_, heq⟩ | ⟨_, _, _, heq⟩
  · rw [heq]
  · rw [heq]

/-- Creating an index keeps the table well formed. -/
theorem createIndex_wf (h : t.Wf F) (indexName indexKey : String) (indexKeys : List String) :
    (t.createIndex F indexName (indexKey :: indexKeys)).Wf F := by
  rcases createIndex_cases F t indexName (indexKey :: indexKeys) with
    ⟨_, heq⟩ | ⟨keys, _, hkeys, heq⟩
  · rw [heq]
    exact h
  · rw [heq]
    refine ⟨h.linked, h.widths, ?_, ?_⟩
    · refine List.forall_mem_append.mpr ⟨h.keys, ?_⟩
      rw [List.forall_mem_singleton]
      exact keyColumns_keyMap hkeys
    · refine List.forall_mem_append.mpr ⟨h.maps, ?_⟩
      rw [List.forall_mem_singleton]
      exact isMap_backFill keys _

/-- `CREATE INDEX` fails, or the table can be indexed by the columns. -/
def IndexSafe (F : FieldOps V) (t : Table V) (indexName : String) (indexKeys : List String) :
    Prop :=
  ∀ keys, ¬ t.indexes.any (fun index => index.indexName == indexName) →
    keyMap t.columns indexKeys = some keys → t.Indexable F keys

/-- A new index is consistent exactly when the rows of the table have different keys, or the
statement fails. -/
theorem createIndex_consistent_iff (h : t.Wf F) (hc : t.Consistent) (indexName indexKey : String)
    (indexKeys : List String) :
    (t.createIndex F indexName (indexKey :: indexKeys)).Consistent ↔
      t.IndexSafe F indexName (indexKey :: indexKeys) := by
  rcases createIndex_cases F t indexName (indexKey :: indexKeys) with
    ⟨hfail, heq⟩ | ⟨keys, hfree, hkeys, heq⟩
  · rw [heq]
    refine ⟨fun _ keys hfree hkeys => ?_, fun _ => hc⟩
    -- refused: the name is taken, or a column is unknown
    rcases hfail with htaken | hnone
    · exact absurd htaken hfree
    · rw [hnone] at hkeys
      cases hkeys
  · rw [heq]
    have hiff := h.holds_backFill_iff (keyColumns_keyMap hkeys)
    constructor
    · intro hc' keys' _ hkeys'
      rw [hkeys] at hkeys'
      cases hkeys'
      exact hiff.mp (hc' _ (List.mem_append_right _ (List.mem_singleton_self _)))
    · intro hsafe
      refine List.forall_mem_append.mpr ⟨hc, ?_⟩
      rw [List.forall_mem_singleton]
      exact hiff.mpr (hsafe keys hfree hkeys)

/-! ## Runs -/

/-- The statement keeps the indexes in step with the rows: an update reaches no row whose key it
changes, and a new index is made where a scan yields every row and the keys differ. -/
def Safe (F : FieldOps V) (t : Table V) (s : Frames × Statement V) : Prop :=
  match s.2 with
  | .createIndex indexName indexKey indexKeys => t.IndexSafe F indexName (indexKey :: indexKeys)
  | .dml (.insert _) => True
  | .dml (.delete _) => True
  | .dml (.update updateAttrs where_) =>
    t.KeepsKeys updateAttrs
      (reached F s.1 updateAttrs t.heap (t.heap.scan.filter (fun r => where_ r.2)))

/-- Every statement keeps the form of the table. -/
theorem Wf.execute (h : t.Wf F) (s : Frames × Statement V) : (t.execute F s).Wf F := by
  obtain ⟨frames, s⟩ := s
  cases s with
  | createIndex indexName indexKey indexKeys => exact createIndex_wf h indexName indexKey indexKeys
  | dml dml =>
    cases dml with
    | insert rawValues =>
      show Wf F (if _ then _ else _)
      split
      · next hwidths =>
        exact (insertRows_spec rawValues t h (by simpa using hwidths)).1
      · exact h
    | update updateAttrs where_ => exact updateRows_wf _ t h (pending_scan h.linked _)
    | delete where_ => exact (deleteRows_spec _ t h (pending_scan h.linked _)).1

/-- A statement keeps the indexes in step with the rows exactly if it is safe. -/
theorem Wf.execute_consistent_iff (h : t.Wf F) (hc : t.Consistent) (s : Frames × Statement V) :
    (t.execute F s).Consistent ↔ t.Safe F s := by
  obtain ⟨frames, s⟩ := s
  cases s with
  | createIndex indexName indexKey indexKeys =>
    exact createIndex_consistent_iff h hc indexName indexKey indexKeys
  | dml dml =>
    cases dml with
    | insert rawValues =>
      refine ⟨fun _ => trivial, fun _ => ?_⟩
      show Consistent (if _ then _ else _)
      split
      · next hwidths => exact (insertRows_spec rawValues t h (by simpa using hwidths)).2 hc
      · exact hc
    | update updateAttrs where_ =>
      exact updateRows_consistent_iff _ t h hc (pending_scan h.linked _)
    | delete where_ =>
      exact ⟨fun _ => trivial,
        fun _ => (deleteRows_spec _ t h (pending_scan h.linked _)).2 hc⟩

/-- A new table has no row. -/
theorem getTuple_create (rid : RowId) : (TableHeap.create (V := V)).getTuple rid = none := by
  unfold TableHeap.getTuple TableHeap.create
  cases rid.pageId with
  | zero => rfl
  | succ n => rfl

/-- A new table and the indexes on its unique columns. -/
theorem create_spec (F : FieldOps V) (columns : List (String × Bool)) :
    (create F columns).Wf F ∧ (create F columns).Consistent ∧
      (create F columns).heap = TableHeap.create := by
  have hfold : ∀ (l : List (String × Bool)) (t : Table V),
      t.Wf F ∧ t.Consistent ∧ t.heap = TableHeap.create →
      (l.foldl (fun t column => t.createIndex F (column.1 ++ "_unique_index") [column.1])
        t).Wf F ∧
      (l.foldl (fun t column => t.createIndex F (column.1 ++ "_unique_index") [column.1])
        t).Consistent ∧
      (l.foldl (fun t column => t.createIndex F (column.1 ++ "_unique_index") [column.1])
        t).heap = TableHeap.create := by
    intro l
    induction l with
    | nil => exact fun t ht => ht
    | cons column l ih =>
      rintro t ⟨h, hc, hheap⟩
      refine ih _ ⟨createIndex_wf h _ _ _, ?_, ?_⟩
      · -- An empty table can be indexed by any columns.
        refine (createIndex_consistent_iff h hc _ _ _).mpr fun keys _ _ => ?_
        have hnone : ∀ rid row, t.heap.getTuple rid ≠ some row := by
          intro rid row hrow
          rw [hheap, getTuple_create] at hrow
          cases hrow
        exact ⟨fun rid row hrow => absurd hrow (hnone rid row),
          fun rid row _ _ hrow _ _ => absurd hrow (hnone rid row)⟩
      · exact (heap_createIndex t (column.1 ++ "_unique_index") [column.1]).trans hheap
  refine hfold _ _ ⟨⟨TableHeap.linked_create, ?_, ?_, ?_⟩, ?_, rfl⟩
  · intro rid row hrow
    rw [getTuple_create] at hrow
    cases hrow
  · exact fun index hindex => absurd hindex List.not_mem_nil
  · exact fun index hindex => absurd hindex List.not_mem_nil
  · exact fun index hindex => absurd hindex List.not_mem_nil

/-- In every run of statements on a table, the indexes hold the rows after every statement exactly
if every statement is safe on the table that it meets. -/
theorem consistent_iff (F : FieldOps V) (columns : List (String × Bool))
    (statements : List (Frames × Statement V)) :
    (∀ n, ((statements.take n).foldl (Table.execute F) (create F columns)).Consistent) ↔
      Guarded (Safe F) (Table.execute F) (create F columns) statements :=
  Guarded.iff_forall_take (I := Wf F) (C := Consistent) (fun _ s h => h.execute s)
    (fun _ s h hc => h.execute_consistent_iff hc s) statements _
    (create_spec F columns).1 (create_spec F columns).2.1

/-- Rows of integers, none of them null. -/
def intFields : FieldOps Int where
  same a b := a == b
  size row := 12 + 4 * row.length
  same_refl a := by simp
  same_symm a b := BEq.comm

/-- `insert into t values(1); update t set id = 2;` on a table with a unique column `id`: the row
is `2`, and the index has the entry of `1`. -/
theorem update_leaves_entry :
    ¬ ∀ n, ((([({}, .dml (.insert [[1]])),
        ({}, .dml (.update (fun i => if i = 0 then some 2 else none) (fun _ => true)))] :
        List (Frames × Statement Int)).take n).foldl (Table.execute intFields)
          (create intFields [("id", true)])).Consistent := by
  intro h
  have hentry := (h 2 ⟨"id_unique_index", [0], [([1], ⟨0, 0⟩)]⟩ (by decide +kernel)
    [2] ⟨0, 0⟩).mpr ⟨[2], by decide +kernel, by decide +kernel⟩
  revert hentry
  decide +kernel

end DisMiniSql.MiniSql.Table
