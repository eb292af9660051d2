import DisMiniSql.Proofs.Storage.PagedHeap

/-!
# `DisMiniSql.Proofs.Storage.HeapChain`: the page list of a heap

`Chained` is what the page list of a heap should be: one list from the first page on, joined in both
directions, of exactly the pages with rows, each once in the free space map.

A new page is linked behind the last page that the map has proposed. `SkipsTail` says when that is
not the last page of the list. `heap_chained_iff` shows that a session keeps the list exactly if it
never inserts a row in such a state.
-/

set_option autoImplicit false

namespace DisMiniSql.MiniSql.Heap

open DisMiniSql.Lib (Guarded)
open DisMiniSql.MiniSql.Heap.FreeSpaceMap (Shape setRecord proposals enough SkipsLast)
open FreeSpaceMapPage (SIZE_MAX_PAIR)

namespace TableHeap

/-- The records of the free space map. -/
def records (h : TableHeap) : List (PageId × Nat) :=
  h.freespaceMap.mapPages.flatMap FreeSpaceMapPage.pairs

variable {h : TableHeap} {row : Row} {l before after : List PageId}
  {records : List (PageId × Nat)} {p t q new : PageId} {page page' pageT : TablePage}
  {m : FreeSpaceMap}

/-- The pages with rows are one list, joined in both directions, and each is once in the free space
map. -/
def Chained (h : TableHeap) : Prop :=
  ∃ l, l.head? = some h.firstPageId ∧ l.Nodup ∧ (∀ p, p ∈ l ↔ ∃ page, h.pages p = some page) ∧
    Linked h.pages INVALID_PAGE_ID l ∧ (h.records.map Prod.fst).Perm l

/-- The pages of the list `l` are those with rows. -/
structure Sound (h : TableHeap) (l : List PageId) : Prop where
  linked : Linked h.pages INVALID_PAGE_ID l
  first : l.head? = some h.firstPageId
  nodup : l.Nodup
  pages : ∀ p, p ∈ l ↔ ∃ page, h.pages p = some page
  valid : INVALID_PAGE_ID ∉ l
  layout : ∀ p page, h.pages p = some page → page.Layout
  live : ∀ p ∈ l, p ∈ h.live

/-- The map has these records, and its pages are allocated. -/
structure MapOk (h : TableHeap) (records : List (PageId × Nat)) : Prop where
  shape : h.freespaceMap.Shape records
  live : ∀ id ∈ h.freespaceMap.mapPages.map FreeSpaceMapPage.pageId, id ∈ h.live

/-! ### Writes -/

theorem pages_setPage_self : (h.setPage p page).pages p = some page := Function.update_self ..

/-- The other pages are left alone. -/
theorem pages_setPage_of_ne (hne : q ≠ p) : (h.setPage p page).pages q = h.pages q :=
  Function.update_of_ne hne ..

/-- Rewriting a page that keeps its ids keeps the chain. -/
theorem Sound.setPage (hs : h.Sound l) (hp : h.pages p = some page)
    (hids : TablePage.SameIds page page') (hlayout : page'.Layout) :
    (h.setPage p page').Sound l where
  linked := hs.linked.update hp hids
  first := hs.first
  nodup := hs.nodup
  pages q := by
    rw [hs.pages q]
    by_cases hqp : q = p
    · subst hqp
      exact ⟨fun _ => ⟨page', pages_setPage_self⟩, fun _ => ⟨page, hp⟩⟩
    · rw [pages_setPage_of_ne hqp]
  valid := hs.valid
  layout q other hq := by
    by_cases hqp : q = p
    · subst hqp
      rw [pages_setPage_self] at hq
      exact Option.some.inj hq ▸ hlayout
    · rw [pages_setPage_of_ne hqp] at hq
      exact hs.layout q other hq
  live := hs.live

/-- The chain is about the pages, the first one and the live ids only. -/
theorem Sound.of_pages {h' : TableHeap} (hs : h.Sound l) (hpages : h'.pages = h.pages)
    (hfirst : h'.firstPageId = h.firstPageId) (hlive : ∀ p ∈ h.live, p ∈ h'.live) :
    h'.Sound l where
  linked := hpages ▸ hs.linked
  first := hfirst ▸ hs.first
  nodup := hs.nodup
  pages := hpages ▸ hs.pages
  valid := hs.valid
  layout := hpages ▸ hs.layout
  live p hp := hlive p (hs.live p hp)

/-- What the map says is about its content only, not its cursor. -/
theorem MapOk.of_content {h' : TableHeap} (hm : h.MapOk records)
    (hsame : SameContent h.freespaceMap h'.freespaceMap) (hlive : ∀ p ∈ h.live, p ∈ h'.live) :
    h'.MapOk records where
  shape := hm.shape.of_content hsame
  live id hid := hlive id (hm.live id (hsame.1 ▸ hid))

/-- Setting the free space of a page sets its record. -/
theorem MapOk.setFreeSpace (hm : h.MapOk records) (p : PageId) (freeSpace : Nat) :
    (h.setFreeSpace p freeSpace).MapOk (setRecord records p freeSpace) where
  shape := hm.shape.setFreeSpace p freeSpace
  live id hid := hm.live id (FreeSpaceMap.setFreeSpace_ids hm.shape p freeSpace ▸ hid)

/-- A write to a page of the heap, and the record of its free space. -/
theorem Sound.writePage (hs : h.Sound l) (hp : h.pages p = some page)
    (hids : TablePage.SameIds page page') (hlayout : page'.Layout) :
    (h.writePage p page').Sound l :=
  (hs.setPage hp hids hlayout).of_pages rfl rfl (fun _ hlive => hlive)

/-- Writing a page back sets its record too. -/
theorem MapOk.writePage (hm : h.MapOk records) (p : PageId) (page : TablePage) :
    (h.writePage p page).MapOk (setRecord records p page.getFreeSpace) :=
  MapOk.setFreeSpace (h := h.setPage p page) (hm.of_content ⟨rfl, rfl⟩ (fun _ hlive => hlive)) p _

/-- A record for a new page is added at the end; where the map needs another page, the heap
allocates it. -/
theorem MapOk.setNewPair (hm : h.MapOk records) (freeSpace : Nat)
    (hp : p ∉ records.map Prod.fst) (hvalid : p ≠ INVALID_PAGE_ID) :
    (h.setNewPair p freeSpace).MapOk (records ++ [(p, freeSpace)]) where
  shape := hm.shape.setNewPair freeSpace
    (fun hin => h.allocator.pick_fresh h.live (hm.live _ hin)) hp hvalid
  live id hid := by
    show id ∈ if h.freespaceMap.needsPage then h.allocator.pick h.live :: h.live else h.live
    -- the new page of the map must be none it has
    cases hneeds : h.freespaceMap.needsPage with
    | true =>
      rw [if_pos rfl]
      refine ((FreeSpaceMap.addPair_ids _ _ _ ?_ hm.shape.ids).2 id hid).elim ?_ ?_
      · exact fun hin => h.allocator.pick_fresh h.live (hm.live _ hin)
      · exact fun heq => heq ▸ List.mem_cons_self
      · exact fun hin => List.mem_cons_of_mem _ (hm.live id hin)
    | false =>
      rw [if_neg Bool.false_ne_true]
      exact hm.live id (FreeSpaceMap.addPair_ids_of_room _ _ _ hneeds ▸ hid)

/-- A new page has an id of its own. -/
theorem Sound.fresh (hs : h.Sound l) : h.allocator.pick h.live ∉ l ∧
    h.allocator.pick h.live ≠ INVALID_PAGE_ID := by
  refine ⟨fun hin => h.allocator.pick_fresh h.live (hs.live _ hin), fun heq => ?_⟩
  have hnonneg := h.allocator.pick_nonneg h.live
  rw [heq] at hnonneg
  exact absurd hnonneg (by decide)

/-- A page added to the heap gets its record. -/
theorem MapOk.addPage (hm : h.MapOk records) (page : TablePage) (hp : p ∉ records.map Prod.fst)
    (hvalid : p ≠ INVALID_PAGE_ID) :
    (h.addPage p page).MapOk (records ++ [(p, page.getFreeSpace)]) := by
  have hm' : ({ h with live := p :: h.live }.setPage p page).MapOk records :=
    hm.of_content ⟨rfl, rfl⟩ (fun _ hlive => List.mem_cons_of_mem _ hlive)
  exact hm'.setNewPair _ hp hvalid

/-- The pages after a new page is linked. -/
theorem pages_link (h : TableHeap) (new t : PageId) (page pageT : TablePage) (q : PageId) :
    ((h.addPage new page).setPage t pageT).pages q =
      if q = t then some pageT else if q = new then some page else h.pages q := by
  by_cases hqt : q = t
  · subst hqt
    rw [if_pos rfl]
    exact pages_setPage_self
  · rw [if_neg hqt, pages_setPage_of_ne hqt]
    by_cases hqn : q = new
    · subst hqn
      rw [if_pos rfl]
      exact pages_setPage_self
    · rw [if_neg hqn]
      exact pages_setPage_of_ne hqn

/-- The new page stands in the list if it is linked behind the last one. -/
theorem Sound.link (hs : h.Sound (before ++ [t])) (hnew : h.allocator.pick h.live = new)
    (ht : h.pages t = some pageT) (hlayout : page.Layout)
    (hids : page.tablePageId = new ∧ page.prevPageId = t ∧ page.nextPageId = INVALID_PAGE_ID) :
    ((h.addPage new page).setPage t (pageT.setNextPageId new)).Sound (before ++ [t, new]) := by
  obtain ⟨hfresh, hne⟩ := hs.fresh
  rw [hnew] at hfresh hne
  have hpages := pages_link h new t page (pageT.setNextPageId new)
  have hlist : before ++ [t, new] = (before ++ [t]) ++ [new] := by simp
  refine ⟨hs.linked.relink ht hs.nodup hfresh hids, ?_, ?_, fun q => ?_, ?_, fun q other hq => ?_,
    fun q hq => ?_⟩
  · have hfirst := hs.first
    rw [hlist]
    cases before with
    | nil => exact hfirst
    | cons p before => exact hfirst
  · rw [hlist]
    exact List.nodup_append_comm.mp (List.nodup_cons.mpr ⟨hfresh, hs.nodup⟩)
  · rw [hpages, hlist, List.mem_append, List.mem_singleton, hs.pages q]
    by_cases hqt : q = t
    · rw [if_pos hqt]
      exact ⟨fun _ => ⟨_, rfl⟩, fun _ => .inl ⟨pageT, hqt ▸ ht⟩⟩
    · rw [if_neg hqt]
      by_cases hqn : q = new
      · rw [if_pos hqn]
        exact ⟨fun _ => ⟨_, rfl⟩, fun _ => .inr hqn⟩
      · rw [if_neg hqn]
        exact ⟨fun hor => hor.resolve_right hqn, .inl⟩
  · rw [hlist, List.mem_append, List.mem_singleton, not_or]
    exact ⟨hs.valid, fun heq => hne heq.symm⟩
  · rw [hpages] at hq
    split at hq
    · exact Option.some.inj hq ▸ (hs.layout t pageT ht).setNextPageId new
    · split at hq
      · exact Option.some.inj hq ▸ hlayout
      · exact hs.layout q other hq
  · have hlive : q ∈ new :: h.live := by
      rw [hlist] at hq
      rcases List.mem_append.mp hq with hold | hlast
      · exact List.mem_cons_of_mem _ (hs.live q hold)
      · exact List.mem_singleton.mp hlast ▸ List.mem_cons_self
    show q ∈ if h.freespaceMap.needsPage then _ :: new :: h.live else new :: h.live
    split
    · exact List.mem_cons_of_mem _ hlive
    · exact hlive

/-! ### Inserting -/

/-- The last page is skipped: as many pages as fill some pages of the map stand behind the last one
with enough space in the map, and all pages with enough space there are full. -/
def SkipsTail (h : TableHeap) (row : Row) : Prop :=
  row.getSerializedSize ≤ TablePage.SIZE_MAX_ROW ∧ SkipsLast h.records row.getSerializedSize ∧
    ∀ record ∈ h.records, enough row.getSerializedSize record = true →
      ∀ page, h.pages record.1 = some page → page.Full row

/-- A session is where the list is sound and the map lists its pages. -/
def Good (h : TableHeap) : Prop := ∃ records, h.MapOk records ∧ h.Sound (records.map Prod.fst)

/-- A good heap is one chain. -/
theorem Good.chained (hg : h.Good) : h.Chained := by
  obtain ⟨records, hm, hs⟩ := hg
  refine ⟨_, hs.first, hs.nodup, hs.pages, hs.linked, ?_⟩
  unfold TableHeap.records
  rw [hm.shape.pairs]

/-- A write to a page of the heap. -/
theorem Good.writePage (hg : h.Good) (hp : h.pages p = some page)
    (hkeeps : page'.Layout ∧ TablePage.SameIds page page') : (h.writePage p page').Good := by
  obtain ⟨records, hm, hs⟩ := hg
  refine ⟨_, hm.writePage p page', ?_⟩
  rw [FreeSpaceMap.setRecord_pages]
  exact hs.writePage hp hkeeps.2 hkeeps.1

/-- Moving the cursor of the map keeps a good heap good. -/
theorem Good.withMap (hg : h.Good) (hsame : SameContent h.freespaceMap m) : (h.withMap m).Good := by
  obtain ⟨records, hm, hs⟩ := hg
  exact ⟨records, hm.of_content hsame (fun _ hlive => hlive),
    hs.of_pages rfl rfl (fun _ hlive => hlive)⟩

/-- A row that fits no page is refused. -/
theorem insertTuple_of_large (hsize : ¬ row.getSerializedSize ≤ TablePage.SIZE_MAX_ROW) :
    h.insertTuple row = (none, h) := if_pos (Nat.lt_of_not_le hsize)

/-- The pages that reject a row with enough space in the map are full. -/
theorem skipsTail_of_rejects (hm : h.MapOk records) (hs : h.Sound (records.map Prod.fst))
    (hsize : row.getSerializedSize ≤ TablePage.SIZE_MAX_ROW)
    (hskip : SkipsLast records row.getSerializedSize)
    (hall : ∀ p ∈ proposals records row.getSerializedSize, h.Rejects row p) :
    h.SkipsTail row := by
  have hrecords : h.records = records := hm.shape.pairs
  refine ⟨hsize, hrecords ▸ hskip, fun record hrecord henough page hpage => ?_⟩
  have hmem : record.1 ∈ proposals records row.getSerializedSize :=
    List.mem_append_left _ (List.mem_map_of_mem (List.mem_filter.mpr ⟨hrecords ▸ hrecord, henough⟩))
  exact ((hs.layout _ _ hpage).full_iff).mp (hall _ hmem page hpage)

/-- If no page takes the row, a new page stands behind the last one. -/
theorem insertTuple_grows (hm : h.MapOk records) (hs : h.Sound (records.map Prod.fst))
    (hsize : row.getSerializedSize ≤ TablePage.SIZE_MAX_ROW)
    (hskip : ¬ SkipsLast records row.getSerializedSize)
    (hall : ∀ p ∈ proposals records row.getSerializedSize, h.Rejects row p) :
    ∃ m new page t pageT, SameContent h.freespaceMap m ∧ h.pages t = some pageT ∧
      h.insertTuple row = (some ⟨new, 0⟩,
        ((h.withMap m).addPage new page).setPage t (pageT.setNextPageId new)) ∧
      (TablePage.init new t (fun _ => 0)).insertTuple row = (some 0, page) ∧
      (h.insertTuple row).2.MapOk (records ++ [(new, page.getFreeSpace)]) ∧
        (h.insertTuple row).2.Sound (records.map Prod.fst ++ [new]) := by
  obtain ⟨m, hsame, hinserted | ⟨_, heq⟩⟩ :=
    insertTuple_cases hm.shape (fun p hp => (hs.pages p).mp hp) hsize
  · obtain ⟨p, page, slotNum, page', hp, hpage, hinsert, -⟩ := hinserted.exists_mem
    have hnone := hall p hp page hpage
    rw [hinsert] at hnone
    exact nomatch hnone
  have hne : records ≠ [] := by
    rintro rfl
    exact nomatch hs.first
  have hsplit := congrArg (List.map Prod.fst) (List.dropLast_append_getLast hne)
  rw [FreeSpaceMap.proposals_getLast hskip, List.getLast?_eq_some_getLast hne,
    Option.map_some] at heq
  generalize records.getLast hne = last at hsplit heq
  rw [List.map_append, List.map_cons, List.map_nil] at hsplit
  have hm' : (h.withMap m).MapOk records := hm.of_content hsame (fun _ hlive => hlive)
  have hs' : (h.withMap m).Sound (records.dropLast.map Prod.fst ++ [last.1]) :=
    hsplit ▸ hs.of_pages rfl rfl (fun _ hlive => hlive)
  obtain ⟨hfresh, hvalid⟩ := hs'.fresh
  obtain ⟨pageT, ht⟩ := (hs'.pages last.1).mp (by simp)
  generalize hnew : (h.withMap m).allocator.pick (h.withMap m).live = new at hfresh hvalid
  obtain ⟨page, hpage, hlayout, hid, hprev, hnext, _⟩ := newPage_insertTuple new last.1 hsize
  rw [insertNewPage_some hnew hpage ht (fun heq => hfresh (heq ▸ by simp))] at heq
  refine ⟨m, new, page, last.1, pageT, hsame, ht, heq, hpage, ?_, ?_⟩
  · rw [heq]
    exact (hm'.addPage page (hsplit ▸ hfresh) hvalid).of_content ⟨rfl, rfl⟩
      (fun _ hlive => hlive)
  · rw [heq, ← hsplit, List.append_assoc]
    exact hs'.link hnew ht hlayout ⟨hid, hprev, hnext⟩

/-- An insert that does not skip the last page keeps the heap good: the row goes to the first
proposed page that has room, or to a new page behind the last. -/
theorem Good.insertTuple (hg : h.Good) (hsafe : ¬ h.SkipsTail row) :
    (h.insertTuple row).2.Good := by
  by_cases hsize : row.getSerializedSize ≤ TablePage.SIZE_MAX_ROW
  swap
  · rw [insertTuple_of_large hsize]
    exact hg
  obtain ⟨records, hm, hs⟩ := hg
  obtain ⟨m, hsame, hinserted | ⟨hall, _⟩⟩ :=
    insertTuple_cases hm.shape (fun p hp => (hs.pages p).mp hp) hsize
  · obtain ⟨p, page, slotNum, page', _, hp, hinsert, heq⟩ := hinserted.exists_mem
    have hstep : page.step (.insertTuple row) = some (true, page') := by
      show some ((page.insertTuple row).1.isSome, (page.insertTuple row).2) = _
      rw [hinsert]
      rfl
    rw [heq]
    exact Good.writePage (Good.withMap ⟨records, hm, hs⟩ hsame) hp
      ((hs.layout p page hp).step_keeps hstep)
  · -- the last page is among those tried, so the new page is linked behind it
    have hskip : ¬ SkipsLast records row.getSerializedSize :=
      fun hskip => hsafe (skipsTail_of_rejects hm hs hsize hskip hall)
    obtain ⟨_, new, page, _, _, _, _, _, _, hm', hs'⟩ := insertTuple_grows hm hs hsize hskip hall
    refine ⟨_, hm', ?_⟩
    rw [List.map_append]
    exact hs'

/-- The call does not insert a row behind a page that is not the last one. -/
def Safe (h : TableHeap) : HeapCall → Prop
  | .insertTuple row => ¬ h.SkipsTail row
  | _ => True

/-- Each call of a session that skips no tail keeps the heap good. -/
theorem Good.next (hg : h.Good) {call : HeapCall} (hsafe : h.Safe call) : (h.next call).Good := by
  have hcalls := calls_next h call
  generalize h.next call = h' at hcalls
  cases hcalls with
  | inserts row => exact hg.insertTuple hsafe
  | keeps => exact hg
  | writes hp hstep =>
    obtain ⟨_, _, hs⟩ := id hg
    exact hg.writePage hp ((hs.layout _ _ hp).step_keeps hstep)

/-! ### Skipping the last page -/

/-- All proposed pages are full, and the last of them has a successor. -/
theorem SkipsTail.exists_split (hskip : h.SkipsTail row) (hm : h.MapOk records) :
    (∀ p ∈ proposals records row.getSerializedSize, h.Rejects row p) ∧
      ∃ t before q after, (proposals records row.getSerializedSize).getLast? = some t ∧
        records.map Prod.fst = before ++ t :: q :: after := by
  obtain ⟨_, hlast, hfull⟩ := hskip
  rw [show h.records = records from hm.shape.pairs] at hlast hfull
  rw [FreeSpaceMap.proposals_eq, if_pos hlast]
  refine ⟨fun p hp page hpage => ?_, ?_⟩
  · obtain ⟨record, hrecord, rfl⟩ := List.mem_map.mp hp
    obtain ⟨hrecord, henough⟩ := List.mem_filter.mp hrecord
    rw [TablePage.insertTuple_of_full (hfull record hrecord henough page hpage)]
  · obtain ⟨before, record, rest, heq, hrecord, hrest, hbehind⟩ :=
      FreeSpaceMap.exists_last_enough hlast.1
    have hpos : 0 < rest.length := hbehind ▸ hlast.2.1
    obtain ⟨q, after, rfl⟩ := List.exists_cons_of_length_pos hpos
    have hnone : (q :: after).filter (enough row.getSerializedSize) = [] :=
      List.filter_eq_nil_iff.mpr (fun other hother => Bool.eq_false_iff.mp (hrest other hother))
    refine ⟨record.1, before.map Prod.fst, q.1, after.map Prod.fst, ?_, ?_⟩
    · rw [heq, List.filter_append, List.filter_cons_of_pos hrecord, hnone, List.map_append,
        List.map_cons, List.map_nil, List.getLast?_concat]
    · rw [heq, List.map_append, List.map_cons, List.map_cons]

/-- A row that is inserted then is on a page behind the page `t`, and the old successor of `t` is
behind no page. -/
theorem SkipsTail.insertTuple_eq (hskip : h.SkipsTail row) (hm : h.MapOk records)
    (hs : h.Sound (records.map Prod.fst)) :
    ∃ before t q after new page pageT m, SameContent h.freespaceMap m ∧
      records.map Prod.fst = before ++ t :: q :: after ∧ h.allocator.pick h.live = new ∧
      h.pages t = some pageT ∧ page.tablePageId = new ∧ page.prevPageId = t ∧
        page.nextPageId = INVALID_PAGE_ID ∧
      h.insertTuple row = (some ⟨new, 0⟩,
        ((h.withMap m).addPage new page).setPage t (pageT.setNextPageId new)) := by
  obtain ⟨hall, t, before, q, after, hlast, hsplit⟩ := hskip.exists_split hm
  obtain ⟨m, hsame, hinserted | ⟨_, heq⟩⟩ :=
    insertTuple_cases hm.shape (fun p hp => (hs.pages p).mp hp) hskip.1
  · obtain ⟨p, page, slotNum, page', hp, hpage, hinsert, -⟩ := hinserted.exists_mem
    have hnone := hall p hp page hpage
    rw [hinsert] at hnone
    exact nomatch hnone
  · obtain ⟨pageT, ht⟩ := (hs.pages t).mp (by rw [hsplit]; simp)
    obtain ⟨hfresh, _⟩ := hs.fresh
    generalize hnew : h.allocator.pick h.live = new at hfresh
    obtain ⟨page, hpage, _, hid, hprev, hnext, _⟩ := newPage_insertTuple new t hskip.1
    refine ⟨before, t, q, after, new, page, pageT, m, hsame, hsplit, rfl, ht, hid, hprev, hnext, ?_⟩
    rw [heq, hlast]
    exact insertNewPage_some hnew hpage ht (fun heq => hfresh (heq ▸ by rw [hsplit]; simp))

/-- When the last page is skipped, the new page is linked to a page in the middle, and what came
behind it is cut off. -/
theorem SkipsTail.not_chained (hskip : h.SkipsTail row) (hg : h.Good) :
    ¬ (h.insertTuple row).2.Chained := by
  obtain ⟨records, hm, hs⟩ := hg
  obtain ⟨before, t, q, after, new, page, pageT, m, _, hsplit, hnew, ht, _, _, _, heq⟩ :=
    hskip.insertTuple_eq hm hs
  have hlinked := hs.linked
  have hnodup := hs.nodup
  have hfirst := hs.first
  obtain ⟨hfresh, _⟩ := hs.fresh
  rw [hnew] at hfresh
  rw [hsplit] at hlinked hnodup hfirst hfresh
  obtain ⟨pageQ, hq, hprevQ⟩ := hlinked.prev_eq
  have hqt : q ≠ t := by
    rintro rfl
    exact (List.nodup_cons.mp (List.Nodup.of_append_right hnodup)).1 List.mem_cons_self
  have hqn : q ≠ new := fun h => hfresh (h ▸ by simp)
  rw [heq]
  rintro ⟨l, hhead, _, hpages, hlinked', _⟩
  have hq' : (((h.withMap m).addPage new page).setPage t (pageT.setNextPageId new)).pages q =
      some pageQ := by
    rw [pages_setPage_of_ne hqt]
    exact (pages_setPage_of_ne hqn).trans hq
  have hnotFirst : l.head? ≠ some q := by
    intro hheadQ
    obtain rfl : q = h.firstPageId := Option.some.inj (hheadQ.symm.trans hhead)
    -- the page that was cut off is not the first of the chain
    cases before with
    | nil => exact hqt (Option.some.inj hfirst).symm
    | cons p before =>
      obtain rfl : p = h.firstPageId := Option.some.inj hfirst
      exact (List.nodup_cons.mp hnodup).1 (by simp)
  obtain ⟨p, pageP, pageQ', hp, hnextP, hpageQ', hprev⟩ :=
    hlinked'.exists_prev ((hpages q).mpr ⟨pageQ, hq'⟩) hnotFirst
  obtain rfl := Option.some.inj (hq'.symm.trans hpageQ')
  obtain rfl : t = p := hprevQ.symm.trans hprev
  rw [pages_setPage_self] at hp
  obtain rfl := Option.some.inj hp
  exact hqn hnextP.symm

/-! ### A session -/

/-- A new heap is one page and one record. -/
theorem good_create (allocator : Allocator) (live : List PageId) :
    (create allocator live).Good := by
  have hnonneg := allocator.pick_nonneg live
  generalize hfirst : allocator.pick live = first at hnonneg
  have hvalid : first ≠ INVALID_PAGE_ID := by
    rintro rfl
    exact absurd hnonneg (by decide)
  generalize htrue : TablePage.init first INVALID_PAGE_ID (fun _ => 0) = truePage
  have hlayout : truePage.Layout := htrue ▸ TablePage.Layout.init _ _ _
  -- the constructor writes one page; the rest of the table is empty
  have hpages : ∀ p, (create allocator live).pages p =
      if p = first then some truePage else none := by
    intro p
    rw [← htrue, ← hfirst]
    rfl
  refine ⟨[(first, truePage.getFreeSpace)], ?_, ?_⟩
  · unfold create
    dsimp only
    rw [hfirst, htrue]
    have hm : ∀ h : TableHeap, ∀ id ∈ h.live, h.freespaceMap = FreeSpaceMap.new id →
        h.MapOk [] := by
      intro h id hid hmap
      refine ⟨hmap ▸ (FreeSpaceMap.Built.new id).shape, fun id' hid' => ?_⟩
      rw [hmap] at hid'
      exact List.mem_singleton.mp hid' ▸ hid
    exact (hm _ _ List.mem_cons_self rfl).setNewPair _ List.not_mem_nil hvalid
  · refine ⟨⟨⟨truePage, (hpages first).trans (if_pos rfl), ?_⟩, trivial⟩, ?_,
      List.nodup_singleton _, fun p => ?_, fun hin => hvalid (List.mem_singleton.mp hin).symm,
      fun p page hp => ?_, fun p hp => ?_⟩
    · rw [← htrue]
      exact ⟨rfl, rfl, rfl⟩
    · show some first = some (allocator.pick live)
      rw [hfirst]
    · rw [hpages]
      by_cases hp : p = first
      · rw [if_pos hp]
        exact ⟨fun _ => ⟨_, rfl⟩, fun _ => List.mem_singleton.mpr hp⟩
      · rw [if_neg hp]
        exact ⟨fun hin => absurd (List.mem_singleton.mp hin) hp, fun ⟨_, hnone⟩ => nomatch hnone⟩
    · rw [hpages] at hp
      split at hp
      · exact Option.some.inj hp ▸ hlayout
      · exact nomatch hp
    · rw [List.mem_singleton.mp hp]
      show first ∈ allocator.pick (allocator.pick live :: live) :: allocator.pick live :: live
      rw [hfirst]
      simp

/-- A session keeps the page list in every state exactly if it inserts no row where the last page is
skipped. -/
theorem heap_chained_iff (allocator : Allocator) (live : List PageId) (calls : List HeapCall) :
    (∀ n, ((calls.take n).foldl next (create allocator live)).Chained) ↔
      Guarded Safe next (create allocator live) calls := by
  refine Guarded.iff_forall_take_of (fun _ hg => hg.chained) (fun _ _ hg hsafe => hg.next hsafe)
    (fun h call hg hchained => ?_) calls _ (good_create allocator live)
  cases call with
  | insertTuple row => exact fun hskip => hskip.not_chained hg hchained
  | markDelete rid => trivial
  | updateTuple row rid => trivial
  | applyDelete rid => trivial
  | rollbackDelete rid => trivial

/-! ### A session that loses pages -/

/-- A row that fills a page. -/
def bigRow : Row := ⟨List.replicate 4064 1, by rw [List.length_replicate]; omega,
  by rw [List.length_replicate]; omega⟩

/-- A row of which one page has one. -/
def wideRow : Row := ⟨List.replicate 4000 1, by rw [List.length_replicate]; omega,
  by rw [List.length_replicate]; omega⟩

/-- The size of the row of the failing input. -/
theorem getSerializedSize_wideRow : wideRow.getSerializedSize = 4000 := List.length_replicate

/-- All pages are full, but the first one has a record of much space, since its record is that of a
page with less than eight bytes left. -/
structure Fills (h : TableHeap) (n : Nat) : Prop where
  exists_records : ∃ first rest, h.MapOk (first :: rest) ∧
    h.Sound ((first :: rest).map Prod.fst) ∧ rest.length = n ∧ enough 4000 first = true ∧
      ∀ record ∈ rest, enough 4000 record = false
  full : ∀ p page, h.pages p = some page → page.Full wideRow

/-- After a first record with room, all the full ones lie behind. -/
theorem behind_of_first {first : PageId × Nat} {rest : List (PageId × Nat)}
    (hfirst : enough 4000 first = true) (hrest : ∀ record ∈ rest, enough 4000 record = false) :
    FreeSpaceMap.behind 4000 (first :: rest) = rest.length := by
  rw [← FreeSpaceMap.behind_of_none hrest, ← List.nil_append (first :: rest)]
  exact FreeSpaceMap.behind_append hfirst

/-- Each wide row fills a page of its own: it finds the first page too full to take it although its
record promises room, then a new page is linked. -/
theorem Fills.insertTuple {n : Nat} (hf : h.Fills n) (hn : n < SIZE_MAX_PAIR) :
    (h.insertTuple wideRow).2.Fills (n + 1) := by
  obtain ⟨⟨first, rest, hm, hs, hlength, hfirst, hrest⟩, hfull⟩ := hf
  have hsize : wideRow.getSerializedSize ≤ TablePage.SIZE_MAX_ROW := by
    rw [getSerializedSize_wideRow]
    decide
  have hskip : ¬ SkipsLast (first :: rest) wideRow.getSerializedSize := by
    rw [getSerializedSize_wideRow]
    rintro ⟨_, hpos, hzero⟩
    rw [behind_of_first hfirst hrest, hlength] at hpos hzero
    rw [Nat.mod_eq_of_lt hn] at hzero
    omega
  obtain ⟨m, new, page, t, pageT, _, ht, heq, hpage, hm', hs'⟩ :=
    insertTuple_grows hm hs hsize hskip
    (fun p _ other hother => by rw [TablePage.insertTuple_of_full (hfull p other hother)])
  obtain ⟨page', hpage', hlayout, _, _, _, _, hspace⟩ := newPage_insertTuple new t hsize
  obtain rfl := (Prod.mk.inj (hpage'.symm.trans hpage)).2
  rw [getSerializedSize_wideRow] at hspace
  have hspace' : page'.getFreeSpaceRemaining = 64 := by
    have : TablePage.SIZE_MAX_ROW = 4064 := rfl
    omega
  refine ⟨⟨first, rest ++ [(new, page'.getFreeSpace)], hm', ?_, ?_, hfirst, ?_⟩, ?_⟩
  · rw [← List.cons_append, List.map_append]
    exact hs'
  · rw [List.length_append, hlength, List.length_singleton]
  · intro record hrecord
    -- the records of before, or the one of the new page
    rcases List.mem_append.mp hrecord with hold | hnew
    · exact hrest record hold
    · rw [List.mem_singleton.mp hnew]
      unfold enough TablePage.getFreeSpace
      rw [hspace']
      exact decide_eq_false (by decide : ¬ 4000 ≤ (64 + 2 ^ 32 - TablePage.SIZE_TUPLE) % 2 ^ 32)
  · intro q other hother
    rw [heq] at hother
    have hq := hother.symm.trans (pages_link (h.withMap m) new t page' _ q)
    split at hq
    · exact Option.some.inj hq ▸ hfull t pageT ht
    · split at hq
      · rw [Option.some.inj hq]
        unfold TablePage.Full
        rw [hspace', getSerializedSize_wideRow]
        decide
      · exact hfull q other hq.symm

/-- With as many records as fit a page of the map the next row skips the tail. -/
theorem Fills.skipsTail (hf : h.Fills SIZE_MAX_PAIR) : h.SkipsTail wideRow := by
  obtain ⟨⟨first, rest, hm, _, hlength, hfirst, hrest⟩, hfull⟩ := hf
  have hrecords : h.records = first :: rest := hm.shape.pairs
  unfold SkipsTail
  rw [getSerializedSize_wideRow, hrecords]
  refine ⟨by decide, ⟨?_, ?_, ?_⟩, fun record _ _ page hpage => hfull _ page hpage⟩
  · rw [List.any_cons, hfirst, Bool.true_or]
  · rw [behind_of_first hfirst hrest, hlength]
    decide
  · rw [behind_of_first hfirst hrest, hlength]
    decide

/-- Any number of such inserts up to that bound, by induction. -/
theorem Fills.inserts {n : Nat} (k : Nat) (hf : h.Fills n) (hn : n + k ≤ SIZE_MAX_PAIR) :
    ((List.replicate k (HeapCall.insertTuple wideRow)).foldl next h).Fills (n + k) := by
  induction k generalizing h n with
  | zero => exact hf
  | succ k ih =>
    have hnext := ih (hf.insertTuple (by omega)) (by omega)
    rw [Nat.add_assoc, Nat.add_comm 1 k] at hnext
    rw [List.replicate_succ, List.foldl_cons, next_insertTuple]
    exact hnext

/-- The heap whose first page is filled. -/
def filledHeap : TableHeap := ((create Allocator.increasing []).insertTuple bigRow).2

/-- The first page of the failing input, full, with its record wrapped. -/
theorem filledHeap_records : filledHeap.records = [(0, 2 ^ 32 - 8)] := by decide +kernel

/-- From there the wide rows fill pages. -/
theorem filledHeap_fills : filledHeap.Fills 0 := by
  have hsafe : ¬ (create Allocator.increasing []).SkipsTail bigRow := by
    rintro ⟨_, hskip, _⟩
    exact absurd hskip (by decide +kernel)
  have hg : filledHeap.Good := (good_create Allocator.increasing []).insertTuple hsafe
  obtain ⟨records, hm, hs⟩ := hg
  have hrecords : filledHeap.records = records := hm.shape.pairs
  rw [filledHeap_records] at hrecords
  subst hrecords
  refine ⟨⟨_, [], hm, hs, rfl, by decide, fun _ hmem => nomatch hmem⟩, fun p page hpage => ?_⟩
  obtain rfl : p = 0 := List.mem_singleton.mp ((hs.pages p).mpr ⟨page, hpage⟩)
  have hall : (filledHeap.pages 0).all (fun page => decide (page.Full wideRow)) = true := by
    decide +kernel
  rw [hpage, Option.all_some, decide_eq_true_eq] at hall
  exact hall

/-- After one row that fills the first page, and 510 pages with a row each, the next page is linked
behind the first one. -/
theorem heap_loses_pages :
    ¬ ∀ (allocator : Allocator) (live : List PageId) (calls : List HeapCall) (n : Nat),
      ((calls.take n).foldl next (create allocator live)).Chained := by
  intro h
  have hchained := h Allocator.increasing []
    (.insertTuple bigRow :: (List.replicate SIZE_MAX_PAIR (.insertTuple wideRow) ++
      [.insertTuple wideRow])) (SIZE_MAX_PAIR + 2)
  have hlength : (HeapCall.insertTuple bigRow :: (List.replicate SIZE_MAX_PAIR
      (HeapCall.insertTuple wideRow) ++ [.insertTuple wideRow])).length ≤ SIZE_MAX_PAIR + 2 := by
    rw [List.length_cons, List.length_append, List.length_replicate, List.length_singleton]
  rw [List.take_of_length_le hlength, List.foldl_cons, List.foldl_append, next_insertTuple,
    List.foldl_cons, List.foldl_nil, next_insertTuple] at hchained
  have hfills := filledHeap_fills.inserts SIZE_MAX_PAIR (by rw [Nat.zero_add])
  rw [Nat.zero_add] at hfills
  obtain ⟨⟨first, rest, hm, hs, _⟩, _⟩ := id hfills
  exact hfills.skipsTail.not_chained ⟨first :: rest, hm, hs⟩ hchained

end TableHeap

end DisMiniSql.MiniSql.Heap
