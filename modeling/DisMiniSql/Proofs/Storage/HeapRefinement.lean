import DisMiniSql.Proofs.Storage.PageRefinement
import DisMiniSql.Proofs.Storage.TableHeap

/-!
# `DisMiniSql.Proofs.Storage.HeapRefinement`: the two models of a heap

The heap of bytes refines the heap of slots, on which the executors run:

* `TableHeap.OnPages` says that the pages of the one hold the pages of the other. The page `n` is
  the one that was allocated as the `n`-th, so a list of page ids goes with it.
* `OnPages.insertTuple`, `OnPages.markDelete`, `OnPages.updateTuple`, `OnPages.getTuple` and
  `OnPages.scan` are about one call.
* `heap_refines` is about a whole session: on a new heap both give the same row ids, the same
  answers and the same rows, call by call.

In the heap of bytes every page can be fetched, so the frames of the other are all there.
-/

set_option autoImplicit false

namespace DisMiniSql.MiniSql

variable {V : Type} {enc : List V → Heap.Row}

/-! ## Heaps -/

/-- The pages of `b` hold the heap `h`: the page `n` is the one with the `n`-th id. -/
structure TableHeap.OnPages (enc : List V → Heap.Row) (ids : List PageId) (h : TableHeap V)
    (b : Heap.TableHeap) : Prop where
  length : ids.length = h.pages.length
  nodup : ids.Nodup
  valid : INVALID_PAGE_ID ∉ ids
  live : ∀ id ∈ ids, id ∈ b.live
  page : ∀ n page, h.pages[n]? = some page → ∃ q, b.pages (pageIdOf ids n) = some q ∧
    page.OnBytes enc q ∧ q.tablePageId = pageIdOf ids n ∧ Named ids page.nextPageId q.nextPageId
  absent : ∀ id, id ∉ ids → b.pages id = none
  first : ids.head? = some b.firstPageId
  pairs : h.freespaceMap.pairs.map Prod.fst = List.range ids.length
  last : h.freespaceMap.lastPageId = h.freespaceMap.pairs.getLast?.map Prod.fst
  map : b.MapOk (h.freespaceMap.records (pageIdOf ids))

namespace TableHeap.OnPages

variable {ids : List PageId} {h : TableHeap V} {b : Heap.TableHeap} {page page' : TablePage V}
  {q q' : Heap.TablePage} {row : List V} {n t : Nat}

/-- Where the one heap has no page, the other has none. -/
theorem page_none (ho : h.OnPages enc ids b) (hn : h.pages[n]? = none) :
    b.pages (pageIdOf ids n) = none := by
  refine ho.absent _ ?_
  rw [pageIdOf_of_le (ho.length ▸ List.getElem?_eq_none_iff.mp hn)]
  exact ho.valid

/-- A place that holds a page has an id. -/
theorem lt_length (ho : h.OnPages enc ids b) (hn : h.pages[n]? = some page) : n < ids.length :=
  ho.length ▸ (List.getElem?_eq_some_iff.mp hn).1

/-- The ids stand in the free space map, in the order in which their pages were allocated. -/
theorem ids_eq (ho : h.OnPages enc ids b) :
    (h.freespaceMap.records (pageIdOf ids)).map Prod.fst = ids := by
  unfold FreeSpaceMap.records
  rw [List.map_map]
  show h.freespaceMap.pairs.map (pageIdOf ids ∘ Prod.fst) = ids
  rw [← List.map_map, ho.pairs]
  refine List.ext_getElem (by simp) fun n hn hn' => ?_
  rw [List.getElem_map, List.getElem_range, pageIdOf, List.getElem?_eq_getElem hn']
  rfl

/-- The pages of the map are different. -/
theorem nodup_pairs (ho : h.OnPages enc ids b) :
    (h.freespaceMap.pairs.map Prod.fst).Nodup := by
  rw [ho.pairs]
  exact List.nodup_range

/-- `GetTuple` finds the same row. -/
theorem getTuple (ho : h.OnPages enc ids b) (rid : RowId) :
    b.getTuple (rid.onPages ids) = (h.getTuple rid).map fun row => (enc row).bytes := by
  unfold Heap.TableHeap.getTuple TableHeap.getTuple
  show (b.pages (pageIdOf ids rid.pageId)).bind (fun page => page.getTuple rid.slotNum) = _
  cases hpage : h.pages[rid.pageId]? with
  | none =>
    rw [ho.page_none hpage]
    rfl
  | some page =>
    obtain ⟨q, hq, hbytes, -⟩ := ho.page _ page hpage
    rw [hq]
    exact hbytes.getTuple rid.slotNum

/-- The cursor of the map is no part of the heap. -/
theorem withMap (ho : h.OnPages enc ids b) {m : Heap.FreeSpaceMap}
    (hsame : Heap.TableHeap.SameContent b.freespaceMap m) : h.OnPages enc ids (b.withMap m) :=
  { ho with map := ho.map.of_content hsame (fun _ hlive => hlive) }

/-- A page is written on both sides, and its free space is recorded. -/
theorem writePage (ho : h.OnPages enc ids b) (hpage : h.pages[n]? = some page)
    (hq : b.pages (pageIdOf ids n) = some q) (hbytes : page'.OnBytes enc q')
    (hids : Heap.TablePage.SameIds q q') (hnext : page'.nextPageId = page.nextPageId) :
    (h.setPage n page').OnPages enc ids (b.writePage (pageIdOf ids n) q') := by
  have hn := ho.lt_length hpage
  have hpairs := FreeSpaceMap.setFreeSpace_fst ho.nodup_pairs n page'.getFreeSpace
  refine ⟨?_, ho.nodup, ho.valid, ho.live, fun k other hk => ?_, fun id hid => ?_, ho.first,
    hpairs.trans ho.pairs, ?_, ?_⟩
  · rw [ho.length]
    exact (List.length_set ..).symm
  · have hk : (h.pages.set n page')[k]? = some other := hk
    by_cases hkn : k = n
    · subst hkn
      rw [List.getElem?_set_self (ho.length ▸ hn)] at hk
      cases hk
      obtain ⟨old, hold, -, hid, hnamed⟩ := ho.page k page hpage
      obtain rfl := Option.some.inj (hq.symm.trans hold)
      refine ⟨q', Heap.TableHeap.pages_setPage_self, hbytes, hids.1.trans hid, ?_⟩
      rw [hnext, hids.2.2]
      exact hnamed
    · rw [List.getElem?_set_ne (Ne.symm hkn)] at hk
      obtain ⟨old, hold, hrest⟩ := ho.page k other hk
      refine ⟨old, (Heap.TableHeap.pages_setPage_of_ne fun heq => ?_).trans hold, hrest⟩
      exact hkn (pageIdOf_inj ho.nodup (ho.lt_length hk) hn heq)
  · refine (Heap.TableHeap.pages_setPage_of_ne fun heq => ?_).trans (ho.absent id hid)
    exact hid (heq ▸ pageIdOf_mem hn)
  · show h.freespaceMap.lastPageId =
      (h.freespaceMap.setFreeSpace n page'.getFreeSpace).pairs.getLast?.map Prod.fst
    rw [ho.last, ← List.getLast?_map, ← List.getLast?_map, hpairs]
  · have hinj : ∀ k ∈ h.freespaceMap.pairs.map Prod.fst,
        pageIdOf ids k = pageIdOf ids n → k = n := by
      intro k hk heq
      rw [ho.pairs, List.mem_range] at hk
      exact pageIdOf_inj ho.nodup hk hn heq
    have hmap := ho.map.writePage (pageIdOf ids n) q'
    rw [hbytes.getFreeSpace, ← FreeSpaceMap.records_setFreeSpace ho.nodup_pairs hinj] at hmap
    exact hmap

/-- A new page, with its pair at the end of the map. -/
theorem addPage (ho : h.OnPages enc ids b) (hbytes : page.OnBytes enc q)
    (hid : q.tablePageId = b.allocator.pick b.live) (hnext : page.nextPageId = none)
    (hqnext : q.nextPageId = INVALID_PAGE_ID) :
    (⟨h.pages ++ [page], h.freespaceMap.setNewPair h.pages.length page.getFreeSpace⟩ :
      TableHeap V).OnPages enc (ids ++ [b.allocator.pick b.live])
        (b.addPage (b.allocator.pick b.live) q) := by
  have hfresh : b.allocator.pick b.live ∉ ids := fun hin =>
    b.allocator.pick_fresh b.live (ho.live _ hin)
  have hvalid : b.allocator.pick b.live ≠ INVALID_PAGE_ID := by
    intro heq
    have hnonneg := b.allocator.pick_nonneg b.live
    rw [heq] at hnonneg
    exact absurd hnonneg (by decide)
  generalize b.allocator.pick b.live = new at hid hfresh hvalid ⊢
  have hpre : ids <+: ids ++ [new] := List.prefix_append ids [new]
  have hpages : ∀ id, (b.addPage new q).pages id = if id = new then some q else b.pages id := by
    intro id
    by_cases hid : id = new
    · subst hid
      rw [if_pos rfl]
      exact Heap.TableHeap.pages_setPage_self
    · rw [if_neg hid]
      exact Heap.TableHeap.pages_setPage_of_ne hid
  refine ⟨?_, ?_, ?_, fun id hid => ?_, fun n other hn => ?_, fun id hid => ?_, ?_, ?_, ?_, ?_⟩
  · rw [List.length_append, List.length_append, ho.length]
    rfl
  · exact List.nodup_append_comm.mp (List.nodup_cons.mpr ⟨hfresh, ho.nodup⟩)
  · intro hin
    rcases List.mem_append.mp hin with hold | hnew
    · exact ho.valid hold
    · exact hvalid (List.mem_singleton.mp hnew).symm
  · have hlive : id ∈ new :: b.live := by
      rcases List.mem_append.mp hid with hold | hnew
      · exact List.mem_cons_of_mem _ (ho.live id hold)
      · exact List.mem_singleton.mp hnew ▸ List.mem_cons_self
    show id ∈ if b.freespaceMap.needsPage then _ :: new :: b.live else new :: b.live
    split
    · exact List.mem_cons_of_mem _ hlive
    · exact hlive
  · -- an old page keeps its number, and the new one gets the next
    by_cases hlt : n < h.pages.length
    · rw [List.getElem?_append_left hlt] at hn
      obtain ⟨old, hold, holdBytes, holdId, hnamed⟩ := ho.page n other hn
      have hin := ho.lt_length hn
      rw [pageIdOf_extended hpre hin, hpages, if_neg]
      · exact ⟨old, hold, holdBytes, holdId, hnamed.mono hpre⟩
      · exact fun heq => hfresh (heq ▸ pageIdOf_mem hin)
    · rw [List.getElem?_append_right (Nat.le_of_not_lt hlt)] at hn
      obtain ⟨hzero, hother⟩ := List.getElem?_eq_some_iff.mp hn
      have hn' : n = ids.length := by
        rw [List.length_singleton] at hzero
        rw [ho.length]
        omega
      subst hn'
      obtain rfl : page = other := by simpa using hother
      rw [hnext, pageIdOf_length, hpages, if_pos rfl]
      exact ⟨q, rfl, hbytes, hid, hqnext⟩
  · rw [List.mem_append, List.mem_singleton, not_or] at hid
    rw [hpages, if_neg hid.2]
    exact ho.absent id hid.1
  · have hfirst := ho.first
    cases hids : ids with
    | nil =>
      rw [hids] at hfirst
      cases hfirst
    | cons id rest =>
      rw [hids] at hfirst
      exact hfirst
  · show (h.freespaceMap.pairs ++ [(h.pages.length, _)]).map Prod.fst = _
    rw [List.map_append, ho.pairs, List.length_append, List.length_singleton, List.range_succ,
      ho.length]
    rfl
  · show some h.pages.length = ((h.freespaceMap.pairs ++ [_]).getLast?).map Prod.fst
    rw [List.getLast?_concat]
    rfl
  · -- the map has one pair more
    have hrecords : (h.freespaceMap.setNewPair h.pages.length page.getFreeSpace).records
        (pageIdOf (ids ++ [new])) =
          h.freespaceMap.records (pageIdOf ids) ++ [(new, q.getFreeSpace)] := by
      unfold FreeSpaceMap.records
      show (h.freespaceMap.pairs ++ [_]).map _ = _
      rw [List.map_append, List.map_singleton, hbytes.getFreeSpace, ← ho.length]
      refine congrArg₂ List.append (List.map_congr_left fun pair hpair => ?_) ?_
      · have hlt : pair.1 ∈ h.freespaceMap.pairs.map Prod.fst := List.mem_map_of_mem hpair
        rw [ho.pairs, List.mem_range] at hlt
        exact Prod.ext (pageIdOf_extended hpre hlt) rfl
      · rw [Prod.map_apply, pageIdOf_length, id_eq]
    rw [hrecords]
    exact ho.map.addPage q (by rw [ho.ids_eq]; exact hfresh) hvalid

/-- The page `n` becomes the successor of the page `t`. -/
theorem link (ho : h.OnPages enc ids b) (ht : b.pages (pageIdOf ids t) = some q)
    (htl : t < ids.length) (hn : n < ids.length) :
    ({ h with pages := h.pages.modify t (fun p => { p with nextPageId := some n }) } :
      TableHeap V).OnPages enc ids
        (b.setPage (pageIdOf ids t) (q.setNextPageId (pageIdOf ids n))) := by
  refine
    { ho with
      length := ?_
      page := fun k other hk => ?_
      absent := fun id hid => ?_
      map := ?_ }
  · rw [ho.length, List.length_modify]
  · have hk : (h.pages.modify t _)[k]? = some other := hk
    rw [List.getElem?_modify] at hk
    obtain ⟨old, hold, heq⟩ := Option.map_eq_some_iff.mp hk
    obtain ⟨q', hq', hbytes, hid, hnamed⟩ := ho.page k old hold
    by_cases hkt : t = k
    · subst hkt
      rw [if_pos rfl] at heq
      subst heq
      obtain rfl := Option.some.inj (ht.symm.trans hq')
      exact ⟨_, Heap.TableHeap.pages_setPage_self, hbytes.setNextPageId _ _, hid, hn, rfl⟩
    · rw [if_neg hkt] at heq
      subst heq
      refine ⟨q', (Heap.TableHeap.pages_setPage_of_ne fun heq => ?_).trans hq', hbytes, hid,
        hnamed⟩
      exact hkt (pageIdOf_inj ho.nodup (ho.lt_length hold) htl heq).symm
  · refine (Heap.TableHeap.pages_setPage_of_ne fun heq => ?_).trans (ho.absent id hid)
    exact hid (heq ▸ pageIdOf_mem htl)
  · exact ho.map.of_content ⟨rfl, rfl⟩ (fun _ hlive => hlive)

end TableHeap.OnPages

/-! ## Inserting -/

namespace TableHeap

variable {size : List V → Nat} {h : TableHeap V} {row : List V} {truePage : Option Nat}

/-- The pages that are tried have no room, so there is a new one. -/
theorem insertLoop_of_full {L : List Nat} (hfull : ∀ n ∈ L, ∃ page, h.pages[n]? = some page ∧
      page.insertTuple size row = none) :
    h.insertLoop size {} row L truePage =
      h.insertNewPage size row (L.getLast?.or truePage) := by
  induction L generalizing truePage with
  | nil => rfl
  | cons n L ih =>
    obtain ⟨⟨page, hpage, hnone⟩, hrest⟩ := List.forall_mem_cons.mp hfull
    have hlast : (n :: L).getLast?.or truePage = L.getLast?.or (some n) := by
      cases L with
      | nil => rfl
      | cons k L =>
        rw [List.getLast?_cons_cons, List.getLast?_eq_some_getLast (List.cons_ne_nil k L)]
        rfl
    rw [hlast, ← ih hrest]
    simp only [insertLoop, hpage, hnone, if_true, Option.bind_eq_bind, Option.bind_some]

/-- The row goes to the first page with room. -/
theorem insertLoop_of_room {before after : List Nat} {n slotNum : Nat} {page page' : TablePage V}
    (hbefore : ∀ k ∈ before, ∃ page, h.pages[k]? = some page ∧ page.insertTuple size row = none)
    (hpage : h.pages[n]? = some page) (hins : page.insertTuple size row = some (slotNum, page')) :
    h.insertLoop size {} row (before ++ n :: after) truePage =
      some (⟨n, slotNum⟩, h.setPage n page') := by
  induction before generalizing truePage with
  | nil =>
    rw [List.nil_append]
    simp only [insertLoop, hpage, hins, if_true, Option.bind_eq_bind, Option.bind_some]
  | cons k before ih =>
    obtain ⟨⟨other, hother, hnone⟩, hrest⟩ := List.forall_mem_cons.mp hbefore
    have hlater : h.insertLoop size {} row (before ++ n :: after) (some k) = _ := ih hrest
    rw [List.cons_append, ← hlater]
    simp only [insertLoop, hother, hnone, if_true, Option.bind_eq_bind, Option.bind_some]

/-- The new page with its row, and the link to it. -/
theorem insertNewPage_eq {page : TablePage V}
    (hins : TablePage.init.insertTuple size row = some (0, page)) :
    h.insertNewPage size row truePage = some (⟨h.pages.length, 0⟩,
      ⟨h.pages.modify (truePage.getD h.pages.length)
          (fun p => { p with nextPageId := some h.pages.length }) ++ [page],
        h.freespaceMap.setNewPair h.pages.length page.getFreeSpace⟩) := by
  unfold insertNewPage
  rw [hins]
  rfl

end TableHeap

/-- A page that is not the last one is changed. -/
theorem modify_concat {α : Type} {l : List α} {t : Nat} (ht : t < l.length) (f : α → α) (last : α) :
    (l ++ [last]).modify t f = l.modify t f ++ [last] := by
  induction l generalizing t with
  | nil => exact absurd ht (Nat.not_lt_zero t)
  | cons a l ih =>
    cases t with
    | zero => rfl
    | succ t =>
      rw [List.cons_append, List.modify_succ_cons, List.modify_succ_cons, List.cons_append,
        ih (Nat.lt_of_succ_lt_succ ht)]

namespace TableHeap.OnPages

variable {ids : List PageId} {h : TableHeap V} {b : Heap.TableHeap} {row : List V} {n : Nat}

/-- A place whose id is one of the list is a place of the heap. -/
theorem lt_of_mem (ho : h.OnPages enc ids b) (hmem : pageIdOf ids n ∈ ids) : n < ids.length := by
  by_contra hge
  rw [pageIdOf_of_le (Nat.le_of_not_lt hge)] at hmem
  exact ho.valid hmem

/-- And a place with an id holds a page. -/
theorem exists_page (ho : h.OnPages enc ids b) (hn : n < ids.length) :
    ∃ page, h.pages[n]? = some page :=
  ⟨_, List.getElem?_eq_getElem (ho.length ▸ hn)⟩

/-- A page without room has none on the other side. -/
theorem full_of_rejects (ho : h.OnPages enc ids b) (hn : n < ids.length)
    (hrejects : b.Rejects (enc row) (pageIdOf ids n)) :
    ∃ page, h.pages[n]? = some page ∧ page.insertTuple (encodedSize enc) row = none := by
  obtain ⟨page, hpage⟩ := ho.exists_page hn
  obtain ⟨q, hq, hbytes, -⟩ := ho.page n page hpage
  refine ⟨page, hpage, ?_⟩
  obtain ⟨hnone, -⟩ | ⟨slotNum, page', q', -, hins, -⟩ := hbytes.insertTuple row
  · exact hnone
  · have hnone := hrejects q hq
    rw [hins] at hnone
    cases hnone

/-- A new page behind the page that was tried last. -/
theorem insertNewPage (ho : h.OnPages enc ids b)
    (hsize : encodedSize enc row ≤ TablePage.SIZE_MAX_ROW) (truePage : Option Nat)
    (htrue : ∀ t, truePage = some t → t < ids.length) :
    ∃ h' b' ids', h.insertNewPage (encodedSize enc) row truePage = some (⟨ids.length, 0⟩, h') ∧
      b.insertNewPage (enc row) (truePage.map (pageIdOf ids)) =
        (some (RowId.onPages ids' ⟨ids.length, 0⟩), b') ∧
      ids <+: ids' ∧ ids.length < ids'.length ∧ h'.OnPages enc ids' b' := by
  generalize hnew : b.allocator.pick b.live = new
  have hsize : (enc row).getSerializedSize ≤ Heap.TablePage.SIZE_MAX_ROW := hsize
  generalize hprev : (truePage.map (pageIdOf ids)).getD INVALID_PAGE_ID = prev
  obtain ⟨q, hq, -, hid, -, hqnext, -⟩ := Heap.TableHeap.newPage_insertTuple new prev hsize
  -- the new page of the slots takes the row too
  have hinit : (TablePage.init : TablePage V).OnBytes enc
      (Heap.TablePage.init new prev (fun _ => 0)) := .init ..
  obtain ⟨-, hnone⟩ | ⟨slotNum, page, q', hins, hins', hbytes, -, hnext⟩ := hinit.insertTuple row
  · rw [hnone] at hq
    cases hq
  rw [hq] at hins'
  cases hins'
  have hadd := ho.addPage hbytes (hid.trans hnew.symm) hnext hqnext
  rw [hnew] at hadd
  have hrid : RowId.onPages (ids ++ [new]) ⟨ids.length, 0⟩ = ⟨new, 0⟩ := by
    unfold RowId.onPages
    rw [pageIdOf_length]
  have hlength : ids.length < (ids ++ [new]).length := by
    rw [List.length_append, List.length_singleton]
    exact Nat.lt_succ_self _
  rw [TableHeap.insertNewPage_eq hins]
  cases truePage with
  | none =>
    obtain rfl : INVALID_PAGE_ID = prev := hprev
    rw [Option.getD_none, List.modify_eq_self (Nat.le_refl _), ← ho.length]
    rw [← ho.length] at hadd
    refine ⟨_, b.addPage new q, ids ++ [new], rfl, ?_, List.prefix_append .., hlength, hadd⟩
    rw [hrid]
    exact Heap.TableHeap.insertNewPage_none hnew hq
  | some t =>
    obtain rfl : pageIdOf ids t = prev := hprev
    have ht := htrue t rfl
    obtain ⟨pageT, hpageT⟩ := ho.exists_page ht
    obtain ⟨qT, hqT, -⟩ := ho.page t pageT hpageT
    have hne : pageIdOf ids t ≠ new := by
      intro heq
      refine b.allocator.pick_fresh b.live ?_
      rw [hnew, ← heq]
      exact ho.live _ (pageIdOf_mem ht)
    have hpre : ids <+: ids ++ [new] := List.prefix_append ids [new]
    have hqT' : (b.addPage new q).pages (pageIdOf (ids ++ [new]) t) = some qT := by
      rw [pageIdOf_extended hpre ht]
      exact (Heap.TableHeap.pages_setPage_of_ne hne).trans hqT
    have hlink := hadd.link (n := ids.length) hqT' (Nat.lt_trans ht hlength) hlength
    rw [pageIdOf_length, pageIdOf_extended hpre ht] at hlink
    rw [Option.getD_some, ← modify_concat (ho.length ▸ ht), ← ho.length]
    rw [← ho.length] at hlink
    refine ⟨_, _, ids ++ [new], rfl, ?_, hpre, hlength, hlink⟩
    rw [hrid]
    exact Heap.TableHeap.insertNewPage_some hnew hq hqT hne

/-- `InsertTuple` on both heaps: both refuse the row, or both put it into one slot. -/
theorem insertTuple (ho : h.OnPages enc ids b) (row : List V) :
    (h.insertTuple (encodedSize enc) {} row = none ∧ b.insertTuple (enc row) = (none, b)) ∨
      ∃ rid h' b' ids', h.insertTuple (encodedSize enc) {} row = some (rid, h') ∧
        b.insertTuple (enc row) = (some (rid.onPages ids'), b') ∧ ids <+: ids' ∧
          rid.pageId < ids'.length ∧ h'.OnPages enc ids' b' := by
  unfold TableHeap.insertTuple
  by_cases hsize : encodedSize enc row ≤ TablePage.SIZE_MAX_ROW
  swap
  · exact .inl ⟨if_pos (Nat.lt_of_not_le hsize), Heap.TableHeap.insertTuple_of_large hsize⟩
  right
  rw [if_neg (Nat.not_lt_of_le hsize)]
  have hcandidates := FreeSpaceMap.map_candidates (pageIdOf ids) (encodedSize enc row) ho.last
  generalize h.freespaceMap.candidates (encodedSize enc row) = L at hcandidates ⊢
  have hlt : ∀ n ∈ L, n < ids.length := by
    intro n hn
    have hmem : pageIdOf ids n ∈ L.map (pageIdOf ids) := List.mem_map_of_mem hn
    rw [hcandidates] at hmem
    have hmem := Heap.TableHeap.mem_proposals hmem
    rw [ho.ids_eq] at hmem
    exact ho.lt_of_mem hmem
  have hpages : ∀ id ∈ (h.freespaceMap.records (pageIdOf ids)).map Prod.fst,
      ∃ q, b.pages id = some q := by
    intro id hid
    rw [ho.ids_eq] at hid
    obtain ⟨n, hn, rfl⟩ := List.mem_iff_getElem.mp hid
    obtain ⟨page, hpage⟩ := ho.exists_page hn
    obtain ⟨q, hq, -⟩ := ho.page n page hpage
    unfold pageIdOf at hq
    rw [List.getElem?_eq_getElem hn] at hq
    exact ⟨q, hq⟩
  have hfits : (enc row).getSerializedSize ≤ Heap.TablePage.SIZE_MAX_ROW := hsize
  obtain ⟨m, hsame, hinserted | ⟨hall, heq⟩⟩ :=
    Heap.TableHeap.insertTuple_cases ho.map.shape hpages hfits
  · obtain ⟨before, id, after, q, slotNum, q', hsplit, hrejects, hq, hins, heq⟩ := hinserted
    obtain ⟨before', tail, rfl, rfl, htail⟩ := List.map_eq_append_iff.mp (hcandidates.trans hsplit)
    obtain ⟨n, after', rfl, rfl, -⟩ := List.map_eq_cons_iff.mp htail
    have hn : n < ids.length := hlt n (by simp)
    obtain ⟨page, hpage⟩ := ho.exists_page hn
    obtain ⟨q₁, hq₁, hbytes, -⟩ := ho.page n page hpage
    obtain rfl := Option.some.inj (hq.symm.trans hq₁)
    obtain ⟨-, hnone⟩ | ⟨slotNum', page', q'', hins', hins'', hbytes', hids, hnext⟩ :=
      hbytes.insertTuple row
    · rw [hnone] at hins
      cases hins
    rw [hins''] at hins
    cases hins
    refine ⟨_, _, _, ids, insertLoop_of_room (fun k hk => ?_) hpage hins', heq,
      List.prefix_refl ids, hn, (ho.withMap hsame).writePage hpage hq hbytes' hids hnext⟩
    exact ho.full_of_rejects (hlt k (List.mem_append_left _ hk))
      (hrejects _ (List.mem_map_of_mem hk))
  · have hfull : ∀ n ∈ L, ∃ page, h.pages[n]? = some page ∧
        page.insertTuple (encodedSize enc) row = none := by
      intro n hn
      exact ho.full_of_rejects (hlt n hn) (hall _ (hcandidates ▸ List.mem_map_of_mem hn))
    obtain ⟨h', b', ids', heq', hb', hpre, hlength, ho'⟩ := (ho.withMap hsame).insertNewPage
      hsize L.getLast? (fun t ht => hlt t (List.mem_of_getLast? ht))
    refine ⟨⟨ids.length, 0⟩, h', b', ids', ?_, ?_, hpre, hlength, ho'⟩
    · rw [insertLoop_of_full hfull, Option.or_none]
      exact heq'
    · rw [heq, ← hb', ← List.getLast?_map, hcandidates]
      rfl

/-! ## Deleting and updating -/

/-- `MarkDelete` on both heaps. -/
theorem markDelete (ho : h.OnPages enc ids b) (rid : RowId) :
    ∃ b', b.markDelete (rid.onPages ids) = ((h.markDelete {} rid).1, b') ∧
      (h.markDelete {} rid).2.OnPages enc ids b' := by
  unfold TableHeap.markDelete Heap.TableHeap.markDelete
  cases hpage : h.pages[rid.pageId]? with
  | none =>
    have hnone : b.pages (rid.onPages ids).pageId = none := ho.page_none hpage
    rw [hnone]
    exact ⟨b, rfl, ho⟩
  | some page =>
    obtain ⟨q, hq, hbytes, -⟩ := ho.page _ page hpage
    obtain ⟨q', heq, hbytes', hids, hnext⟩ := hbytes.markDelete rid.slotNum
    have hq' : b.pages (rid.onPages ids).pageId = some q := hq
    have heq : q.markDelete (rid.onPages ids).slotNum = _ := heq
    rw [hq']
    dsimp only
    rw [heq, if_pos rfl]
    exact ⟨_, rfl, ho.writePage hpage hq hbytes' hids hnext⟩

/-- `UpdateTuple` on both heaps. No `ASSERT` fails. -/
theorem updateTuple (ho : h.OnPages enc ids b) (row : List V) (rid : RowId) :
    ∃ unpinned b', b.updateTuple (enc row) (rid.onPages ids) =
        some ⟨(h.updateTuple (encodedSize enc) {} row rid).1, unpinned, b'⟩ ∧
      (h.updateTuple (encodedSize enc) {} row rid).2.OnPages enc ids b' := by
  have hrow := ho.getTuple rid
  unfold TableHeap.updateTuple Heap.TableHeap.updateTuple
  cases hpage : h.pages[rid.pageId]? with
  | none =>
    have hnone : b.pages (rid.onPages ids).pageId = none := ho.page_none hpage
    rw [hnone]
    split
    · exact ⟨none, b, rfl, ho⟩
    · exact ⟨none, b, rfl, ho⟩
  | some page =>
    obtain ⟨q, hq, hbytes, -⟩ := ho.page _ page hpage
    have hq' : b.pages (rid.onPages ids).pageId = some q := hq
    have hne : rid.onPages ids ≠ Heap.INVALID_ROWID := by
      intro heq
      have hinvalid : pageIdOf ids rid.pageId = INVALID_PAGE_ID := congrArg Heap.RowId.pageId heq
      exact ho.valid (hinvalid ▸ pageIdOf_mem (ho.lt_length hpage))
    rw [if_neg hne, hq', hrow]
    unfold TableHeap.getTuple
    rw [hpage, Option.bind_some]
    cases hold : page.getTuple rid.slotNum with
    | none =>
      dsimp only
      rw [hold]
      exact ⟨some false, b, rfl, ho⟩
    | some old =>
      obtain ⟨q', heq, hbytes', hids, hnext⟩ := hbytes.updateTuple row rid.slotNum
      have heq : q.updateTuple (enc row) (rid.onPages ids).slotNum = _ := heq
      dsimp only [Option.map_some]
      rw [if_neg (Option.some_ne_none _), heq, hold]
      simp only [Bool.not_true, Bool.false_eq_true, if_false, Option.map_some]
      -- `update_tuple_result` is an `int` on one side
      have hresult : ∀ updated : Bool, ((if updated = true then (1 : Int) else 0) == 0) =
          ((if updated = true then (1 : Nat) else 0) == 0) := by decide
      rw [hresult]
      exact ⟨_, _, rfl, ho.writePage hpage hq hbytes' hids hnext⟩

end TableHeap.OnPages

/-! ## Scans -/

namespace TableHeap

/-- A walk begins at its page. -/
theorem head?_chain {pages : List (TablePage V)} {fuel n : Nat} (hfuel : 0 < fuel)
    (hn : n < pages.length) : (chain pages fuel n).head? = some n := by
  obtain ⟨fuel, rfl⟩ := Nat.exists_eq_add_one_of_ne_zero (Nat.ne_of_gt hfuel)
  rw [chain, List.getElem?_eq_getElem hn]
  rfl

namespace OnPages

variable {ids : List PageId} {h : TableHeap V} {b : Heap.TableHeap} {n : Nat}

/-- The walk over the pages is the same one. -/
theorem follows (ho : h.OnPages enc ids b) (hl : Linked h.pages) {fuel : Nat}
    (hfuel : h.pages.length - n ≤ fuel) (hn : n < h.pages.length) :
    Heap.TableHeap.Follows b.pages ((chain h.pages fuel n).map (pageIdOf ids)) := by
  induction fuel generalizing n with
  | zero => exact trivial
  | succ fuel ih =>
    obtain ⟨page, hpage⟩ : ∃ page, h.pages[n]? = some page := ⟨_, List.getElem?_eq_getElem hn⟩
    obtain ⟨q, hq, -, hid, hnamed⟩ := ho.page n page hpage
    have hvalid : pageIdOf ids n ≠ INVALID_PAGE_ID := fun heq =>
      ho.valid (heq ▸ pageIdOf_mem (ho.length ▸ hn))
    rw [chain, hpage]
    dsimp only
    cases hnext : page.nextPageId with
    | none =>
      rw [hnext] at hnamed
      exact ⟨⟨hvalid, q, hq, hid, hnamed⟩, trivial⟩
    | some k =>
      rw [hnext] at hnamed
      have hlt := hl n page k hpage hnext
      have hhead : (chain h.pages fuel k).head? = some k := head?_chain (by omega) hlt.2
      have hrest := ih (n := k) (by omega) hlt.2
      rw [Option.map_some, Option.getD_some, List.map_cons]
      refine ⟨⟨hvalid, q, hq, hid, ?_⟩, hrest⟩
      obtain ⟨rest, hrest⟩ := List.head?_eq_some_iff.mp hhead
      rw [hnamed.2, hrest]
      rfl

/-- The rows of one page. -/
theorem tuplesFrom (ho : h.OnPages enc ids b) (n : Nat) :
    b.tuplesFrom (pageIdOf ids n) 0 =
      (pageRows h.pages n).map (fun r => (r.1.onPages ids, some (enc r.2).bytes)) := by
  unfold Heap.TableHeap.tuplesFrom pageRows
  cases hpage : h.pages[n]? with
  | none =>
    rw [ho.page_none hpage]
    rfl
  | some page =>
    obtain ⟨q, hq, hbytes, -⟩ := ho.page n page hpage
    rw [hq]
    exact hbytes.rows n ids

/-- A scan finds the same rows in the same order. -/
theorem scan (ho : h.OnPages enc ids b) (hl : Linked h.pages) :
    ∃ n, ∀ fuel ≥ n, b.scan fuel =
      some (h.scan.map fun r => (r.1.onPages ids, some (enc r.2).bytes)) := by
  have hpos : 0 < h.pages.length := by
    rw [← ho.length]
    refine List.length_pos_iff.mpr fun hnil => ?_
    have hfirst := ho.first
    rw [hnil] at hfirst
    cases hfirst
  have hfirst : b.firstPageId = pageIdOf ids 0 := by
    have hfirst := ho.first
    rw [List.head?_eq_getElem?] at hfirst
    unfold pageIdOf
    rw [hfirst]
    rfl
  have hhead : ((chain h.pages h.pages.length 0).map (pageIdOf ids)).head? =
      some b.firstPageId := by
    rw [List.head?_map, head?_chain hpos hpos, hfirst]
    rfl
  obtain ⟨n, hscan⟩ := Heap.TableHeap.scan_eq hhead (ho.follows hl (Nat.sub_le _ _) hpos)
  refine ⟨n, fun fuel hfuel => (hscan fuel hfuel).trans (congrArg some ?_)⟩
  obtain ⟨first, hpage⟩ : ∃ first, h.pages[0]? = some first := ⟨_, List.getElem?_eq_getElem hpos⟩
  have hrows : pageRows h.pages 0 = first.rows 0 := by
    unfold pageRows
    rw [hpage]
    rfl
  unfold Heap.TableHeap.liveTuples TableHeap.scan
  rw [List.flatMap_singleton, hfirst, ho.tuplesFrom, hrows, hpage]
  dsimp only
  cases hnil : first.rows 0 with
  | nil => rfl
  | cons r rows =>
    rw [List.map_cons, if_neg (List.cons_ne_nil _ _), List.isEmpty_cons,
      if_neg Bool.false_ne_true, List.flatMap_map, List.map_flatMap]
    exact List.flatMap_congr fun k _ => ho.tuplesFrom k

end OnPages

/-! ## Sessions -/

/-- A call that changes a heap. -/
inductive Call (V : Type)
  | insertTuple (row : List V)
  | markDelete (rid : RowId)
  | updateTuple (row : List V) (rid : RowId)

/-- What a call answers: the row id of an insert or `false`, or the answer of another call. -/
inductive Answer (R : Type)
  | inserted (rid : Option R)
  | done (succeeded : Bool)
  deriving DecidableEq

/-- The answer with the ids of the pages. -/
def Answer.onPages (ids : List PageId) : Answer RowId → Answer Heap.RowId
  | .inserted rid => .inserted (rid.map (RowId.onPages ids))
  | .done succeeded => .done succeeded

/-- A call on the heap of slots. -/
def call (enc : List V → Heap.Row) (h : TableHeap V) : Call V → Answer RowId × TableHeap V
  | .insertTuple row =>
    match h.insertTuple (encodedSize enc) {} row with
    | none => (.inserted none, h)
    | some (rid, h) => (.inserted (some rid), h)
  | .markDelete rid => (.done (h.markDelete {} rid).1, (h.markDelete {} rid).2)
  | .updateTuple row rid =>
    let updated := h.updateTuple (encodedSize enc) {} row rid
    (.done updated.1, updated.2)

/-- The call on the heap of bytes, with the page ids in the order of its free space map. `none` is
an `ASSERT` that fails. -/
def callOnPages (enc : List V → Heap.Row) (b : Heap.TableHeap) :
    Call V → Option (Answer Heap.RowId × Heap.TableHeap)
  | .insertTuple row =>
    let inserted := b.insertTuple (enc row)
    some (.inserted inserted.1, inserted.2)
  | .markDelete rid =>
    let marked := b.markDelete (rid.onPages (b.records.map Prod.fst))
    some (.done marked.1, marked.2)
  | .updateTuple row rid =>
    (b.updateTuple (enc row) (rid.onPages (b.records.map Prod.fst))).map
      fun updated => (.done updated.answer, updated.heap)

/-- The answers of a session, and the heap behind it. -/
def run (enc : List V → Heap.Row) : List (Call V) → TableHeap V → List (Answer RowId) × TableHeap V
  | [], h => ([], h)
  | c :: calls, h =>
    let called := h.call enc c
    let rest := run enc calls called.2
    (called.1 :: rest.1, rest.2)

/-- The same session on the bytes. -/
def runOnPages (enc : List V → Heap.Row) :
    List (Call V) → Heap.TableHeap → Option (List (Answer Heap.RowId) × Heap.TableHeap)
  | [], b => some ([], b)
  | c :: calls, b => do
    let called ← callOnPages enc b c
    let rest ← runOnPages enc calls called.2
    some (called.1 :: rest.1, rest.2)

variable {ids ids' : List PageId} {h : TableHeap V} {b : Heap.TableHeap}

/-- The row id of an answer is on a page that is there. -/
def Answer.Inside (ids : List PageId) : Answer RowId → Prop
  | .inserted rid => ∀ r, rid = some r → r.pageId < ids.length
  | .done _ => True

/-- Later pages change no row id. -/
theorem Answer.Inside.onPages_eq {answer : Answer RowId} (hin : answer.Inside ids)
    (hpre : ids <+: ids') : answer.onPages ids' = answer.onPages ids := by
  cases answer with
  | done succeeded => rfl
  | inserted rid =>
    cases rid with
    | none => rfl
    | some r =>
      show Answer.inserted (some (⟨pageIdOf ids' r.pageId, r.slotNum⟩ : Heap.RowId)) = _
      rw [pageIdOf_extended hpre (hin r rfl)]
      rfl

/-- An update of a row that is not there does nothing. -/
theorem updateTuple_of_none {size : List V → Nat} {rid : RowId} {row : List V}
    (hrow : h.getTuple rid = none) : h.updateTuple size {} row rid = (false, h) := by
  unfold getTuple at hrow
  unfold updateTuple
  cases hpage : h.pages[rid.pageId]? with
  | none => rfl
  | some page =>
    rw [hpage, Option.bind_some] at hrow
    dsimp only
    rw [hrow]
    rfl

/-- Every call of the list model keeps its pages linked in order. -/
theorem linked_call (hl : Linked h.pages) (c : Call V) : Linked (h.call enc c).2.pages := by
  cases c with
  | insertTuple row =>
    unfold call
    dsimp only
    split
    · exact hl
    · next rid h' heq => exact (insertTuple_spec heq).linked hl
  | markDelete rid => exact (markDelete_spec h {} rid).2.2 hl
  | updateTuple row rid =>
    show Linked (h.updateTuple (encodedSize enc) {} row rid).2.pages
    cases hrow : h.getTuple rid with
    | none => rw [updateTuple_of_none hrow]; exact hl
    | some old =>
      obtain ⟨hfetch, -⟩ | ⟨-, -, -, -, hlinked⟩ | ⟨-, -, -, hpages⟩ :=
        updateTuple_cases (encodedSize enc) {} hrow row
      · cases hfetch
      · exact hlinked hl
      · rw [hpages]
        exact hl

namespace OnPages

/-- The records of the map on the pages are those of the heap's pages, in order. -/
theorem records_eq (ho : h.OnPages enc ids b) : b.records.map Prod.fst = ids := by
  rw [show b.records = _ from ho.map.shape.pairs]
  exact ho.ids_eq

/-- One call on both heaps: the same answer, and the bytes hold the slots again. -/
theorem call (ho : h.OnPages enc ids b) (c : Call V) :
    ∃ b' ids', callOnPages enc b c = some ((h.call enc c).1.onPages ids', b') ∧ ids <+: ids' ∧
      (h.call enc c).1.Inside ids' ∧ (h.call enc c).2.OnPages enc ids' b' := by
  unfold TableHeap.call callOnPages
  rw [ho.records_eq]
  cases c with
  | insertTuple row =>
    dsimp only
    obtain ⟨hnone, hb⟩ | ⟨rid, h', b', ids', hsome, hb, hpre, hlt, ho'⟩ := ho.insertTuple row
    · have hin : (Answer.inserted none).Inside ids := fun _ hr => nomatch hr
      rw [hnone, hb]
      exact ⟨b, ids, rfl, List.prefix_refl ids, hin, ho⟩
    · have hin : (Answer.inserted (some rid)).Inside ids' := fun r hr => Option.some.inj hr ▸ hlt
      rw [hsome, hb]
      exact ⟨b', ids', rfl, hpre, hin, ho'⟩
  | markDelete rid =>
    obtain ⟨b', hb, ho'⟩ := ho.markDelete rid
    dsimp only
    rw [hb]
    exact ⟨b', ids, rfl, List.prefix_refl ids, trivial, ho'⟩
  | updateTuple row rid =>
    obtain ⟨unpinned, b', hb, ho'⟩ := ho.updateTuple row rid
    dsimp only
    rw [hb]
    exact ⟨b', ids, rfl, List.prefix_refl ids, trivial, ho'⟩

/-- A whole session, call by call. -/
theorem run (calls : List (Call V)) (ho : h.OnPages enc ids b) :
    ∃ b' ids', runOnPages enc calls b =
        some ((h.run enc calls).1.map (Answer.onPages ids'), b') ∧ ids <+: ids' ∧
      (h.run enc calls).2.OnPages enc ids' b' := by
  induction calls generalizing ids h b with
  | nil => exact ⟨b, ids, rfl, List.prefix_refl ids, ho⟩
  | cons c calls ih =>
    obtain ⟨b₁, ids₁, hcall, hpre₁, hin, ho₁⟩ := ho.call c
    obtain ⟨b₂, ids₂, hrun, hpre₂, ho₂⟩ := ih ho₁
    refine ⟨b₂, ids₂, ?_, hpre₁.trans hpre₂, ho₂⟩
    -- the first answer is on a page that was there before the later calls
    show (callOnPages enc b c).bind _ = _
    rw [hcall, Option.bind_some]
    show (runOnPages enc calls b₁).bind _ = _
    rw [hrun, Option.bind_some, ← hin.onPages_eq hpre₂]
    rfl

end OnPages

/-- So does every run of calls. -/
theorem linked_run (calls : List (Call V)) (hl : Linked h.pages) :
    Linked (h.run enc calls).2.pages := by
  induction calls generalizing h with
  | nil => exact hl
  | cons c calls ih => exact ih (linked_call hl c)

/-- The first record of a map. -/
theorem records_setNewPair_new (mapPageId newPageId pageId : PageId) (freeSpace : Nat) :
    ((Heap.FreeSpaceMap.new mapPageId).setNewPair newPageId pageId freeSpace).mapPages.flatMap
      Heap.FreeSpaceMapPage.pairs = [(pageId, freeSpace)] := rfl

/-- A new heap has one page on either side. -/
theorem OnPages.create (enc : List V → Heap.Row) (allocator : Allocator) (live : List PageId) :
    (create : TableHeap V).OnPages enc [allocator.pick live]
      (Heap.TableHeap.create allocator live) := by
  obtain ⟨records, hm, hs⟩ := Heap.TableHeap.good_create allocator live
  have hrecords : (Heap.TableHeap.create allocator live).records = records := hm.shape.pairs
  have hbytes : (TablePage.init : TablePage V).OnBytes enc
      (Heap.TablePage.init (allocator.pick live) INVALID_PAGE_ID (fun _ => 0)) := .init ..
  subst hrecords
  have hlist : (Heap.TableHeap.create allocator live).records =
      [(allocator.pick live, (TablePage.init : TablePage V).getFreeSpace)] := by
    rw [← hbytes.getFreeSpace]
    exact records_setNewPair_new _ _ _ _
  have hpairs : (TableHeap.create : TableHeap V).freespaceMap.records
      (pageIdOf [allocator.pick live]) =
        [(allocator.pick live, (TablePage.init : TablePage V).getFreeSpace)] := by
    unfold FreeSpaceMap.records
    show [Prod.map _ id (0, _)] = _
    rw [Prod.map_apply, id_eq]
    rfl
  rw [hlist] at hm hs
  rw [← hpairs] at hm
  refine ⟨rfl, hs.nodup, hs.valid, hs.live, fun n page hpage => ?_, fun id hid => ?_, hs.first,
    rfl, rfl, hm⟩
  · have hn : n = 0 := by
      have hlt := (List.getElem?_eq_some_iff.mp hpage).1
      exact Nat.lt_one_iff.mp hlt
    subst hn
    cases hpage
    exact ⟨_, if_pos rfl, hbytes, rfl, rfl⟩
  · exact if_neg fun heq => hid (List.mem_singleton.mpr heq)

/-- A session on a new heap gives the same answers on the slots and on the bytes, and behind it each
row id has the same row, and a scan finds the same rows. -/
theorem heap_refines (enc : List V → Heap.Row) (allocator : Allocator) (live : List PageId)
    (calls : List (Call V)) :
    ∃ b ids, runOnPages enc calls (Heap.TableHeap.create allocator live) =
        some ((create.run enc calls).1.map (Answer.onPages ids), b) ∧
      (∀ rid, b.getTuple (rid.onPages ids) =
        ((create.run enc calls).2.getTuple rid).map fun row => (enc row).bytes) ∧
      ∃ n, ∀ fuel ≥ n, b.scan fuel =
        some ((create.run enc calls).2.scan.map fun r =>
          (r.1.onPages ids, some (enc r.2).bytes)) := by
  obtain ⟨b, ids, hrun, -, ho⟩ := (OnPages.create enc allocator live).run calls
  exact ⟨b, ids, hrun, ho.getTuple, ho.scan (linked_run calls linked_create)⟩

end TableHeap

end DisMiniSql.MiniSql
