import DisMiniSql.MiniSql.Page.PageStore
import DisMiniSql.MiniSql.Page.TablePage
import DisMiniSql.MiniSql.Storage.FreeSpaceMap

/-!
# `DisMiniSql.MiniSql.Storage.PagedHeap`: `TableHeap` on its pages

`storage/table_heap.cpp` on the pages of `page/table_page.cpp`, byte by byte, and on the pages of
the free space map. The pages are a store without eviction: `FetchPage` finds every page of the
heap, `NewPage` finds a frame, and a write through a pointer is a write to the page. A row id names
a page of the heap; for any other id the answer of `FetchPage` is null here.

`none` is an `ASSERT` that fails. `next` is one call of a session, and a session that was stopped
stays as it was. The executors run on the heap of the module `TableHeap`, whose pages have slots.
`heap_refines` shows that a session gives the same answers and rows on both.
-/

set_option autoImplicit false

namespace DisMiniSql.MiniSql.Heap

/-- `RowId`. -/
structure RowId where
  pageId : PageId
  slotNum : Nat
  deriving DecidableEq

/-- `INVALID_ROWID`. -/
def INVALID_ROWID : RowId := ⟨INVALID_PAGE_ID, 0⟩

/-- `TableHeap`, with the pages that it has written rows to. -/
structure TableHeap where
  allocator : Allocator
  /-- The ids that are allocated, for the heap or for something else. -/
  live : List PageId
  pages : PageId → Option TablePage
  firstPageId : PageId
  freespaceMap : FreeSpaceMap

namespace TableHeap

/-- A page is written. -/
def setPage (h : TableHeap) (pageId : PageId) (page : TablePage) : TableHeap :=
  { h with pages := Function.update h.pages pageId (some page) }

/-- `FreeSpaceMap::SetNewPair`, with the page that the map may need. -/
def setNewPair (h : TableHeap) (pageId : PageId) (freeSpace : Nat) : TableHeap :=
  let newPageId := h.allocator.pick h.live
  { h with
    live := if h.freespaceMap.needsPage then newPageId :: h.live else h.live
    freespaceMap := h.freespaceMap.setNewPair newPageId pageId freeSpace }

/-- `FreeSpaceMap::SetFreeSpace`. -/
def setFreeSpace (h : TableHeap) (pageId : PageId) (freeSpace : Nat) : TableHeap :=
  { h with freespaceMap := (h.freespaceMap.setFreeSpace pageId freeSpace).2 }

/-- A page is written, and its free space is recorded. -/
def writePage (h : TableHeap) (pageId : PageId) (page : TablePage) : TableHeap :=
  (h.setPage pageId page).setFreeSpace pageId page.getFreeSpace

/-- The constructor of a new heap, in a store whose pages `live` are taken. -/
def create (allocator : Allocator) (live : List PageId) : TableHeap :=
  let firstPageId := allocator.pick live
  let truePage := TablePage.init firstPageId INVALID_PAGE_ID (fun _ => 0)
  let freespaceMapPageId := allocator.pick (firstPageId :: live)
  setNewPair
    { allocator := allocator
      live := freespaceMapPageId :: firstPageId :: live
      pages := fun pageId => if pageId = firstPageId then some truePage else none
      firstPageId := firstPageId
      freespaceMap := FreeSpaceMap.new freespaceMapPageId }
    firstPageId truePage.getFreeSpace

/-- The constructor of a heap that is there, by its first page and the first page of its map. -/
def reopen (h : TableHeap) : TableHeap :=
  { h with freespaceMap := FreeSpaceMap.new h.freespaceMap.getFirstPageId }

/-- `TableHeap::GetTuple`. -/
def getTuple (h : TableHeap) (rid : RowId) : Option (List UInt8) :=
  (h.pages rid.pageId).bind (fun page => page.getTuple rid.slotNum)

/-- The end of `TableHeap::InsertTuple`: no page has room. The new page becomes the successor of
`truePage`, the last page that was tried. -/
def insertNewPage (h : TableHeap) (row : Row) (truePage : Option PageId) :
    Option RowId × TableHeap :=
  let newPageId := h.allocator.pick h.live
  let newPage := TablePage.init newPageId (truePage.getD INVALID_PAGE_ID) (fun _ => 0)
  let inserted := newPage.insertTuple row
  let h := { h with live := newPageId :: h.live }
  let h := (h.setPage newPageId inserted.2).setNewPair newPageId inserted.2.getFreeSpace
  let linked := (truePage.bind (fun pageId => (h.pages pageId).map
    (fun page => h.setPage pageId (page.setNextPageId newPageId)))).getD h
  -- the answer of the new page is not read
  (some ⟨newPageId, inserted.1.getD 0⟩, linked)

/-- The body of the loop of `TableHeap::InsertTuple` behind `true_page->InsertTuple`: the result of
the call, or the next answer of the map. -/
def triedPage (h : TableHeap) (row : Row) (nextPageId : PageId) :
    Option Nat × TablePage → (Option RowId × TableHeap) ⊕ (PageId × TableHeap)
  | (some slotNum, page) => .inl (some ⟨nextPageId, slotNum⟩, h.writePage nextPageId page)
  | (none, _) =>
    let found := h.freespaceMap.getNext row.getSerializedSize
    .inr (found.1, { h with freespaceMap := found.2 })

/-- The body of the loop of `TableHeap::InsertTuple`, at the page that the map has answered. -/
def insertStep (h : TableHeap) (row : Row) (nextPageId : PageId) (truePage : Option PageId) :
    (Option RowId × TableHeap) ⊕ (PageId × TableHeap) :=
  if nextPageId = INVALID_PAGE_ID then .inl (h.insertNewPage row truePage)
  else
    match h.pages nextPageId with
    | none => .inl (none, h)
    | some page => h.triedPage row nextPageId (page.insertTuple row)

/-- The loop of `TableHeap::InsertTuple`. -/
def insertLoop (row : Row) : Nat → TableHeap → PageId → Option PageId → Option RowId × TableHeap
  | 0, h, _, _ => (none, h)
  | fuel + 1, h, nextPageId, truePage =>
    (h.insertStep row nextPageId truePage).elim id
      (fun found => insertLoop row fuel found.2 found.1 (some nextPageId))

/-- `TableHeap::InsertTuple`: the row id, or `none` for `false`. The loop ends, since the map has
no more answers than pages, and one. -/
def insertTuple (h : TableHeap) (row : Row) : Option RowId × TableHeap :=
  if TablePage.SIZE_MAX_ROW < row.getSerializedSize then (none, h)
  else
    let found := h.freespaceMap.getBegin row.getSerializedSize
    let fuel := (h.freespaceMap.mapPages.flatMap FreeSpaceMapPage.pairs).length + 2
    insertLoop row fuel { h with freespaceMap := found.2 } found.1 none

/-- `TableHeap::MarkDelete`. The answer of the page is not read. -/
def markDelete (h : TableHeap) (rid : RowId) : Bool × TableHeap :=
  match h.pages rid.pageId with
  | none => (false, h)
  | some page => (true, h.writePage rid.pageId (page.markDelete rid.slotNum).2)

/-- What `TableHeap::UpdateTuple` leaves: its answer, the dirty flag of its `UnpinPage`, if it has
fetched a page, and the heap. -/
structure UpdateResult where
  answer : Bool
  unpinned : Option Bool
  heap : TableHeap

/-- `TableHeap::UpdateTuple`. The page answers `true` for success, and `int update_tuple_result`
holds it as 1. The `switch` takes 0 for success and 1 for an error. -/
def updateTuple (h : TableHeap) (row : Row) (rid : RowId) : Option UpdateResult :=
  if rid = INVALID_ROWID then some ⟨false, none, h⟩
  else
    match h.pages rid.pageId with
    | none => some ⟨false, none, h⟩
    | some truePage =>
      if h.getTuple rid = none then some ⟨false, some false, h⟩
      else
        (truePage.updateTuple row rid.slotNum).map (fun updated =>
          let updateTupleResult : Int := if updated.1 then 1 else 0
          ⟨updateTupleResult == 0, some (updateTupleResult == 0), h.writePage rid.pageId updated.2⟩)

/-- `TableHeap::ApplyDelete`. -/
def applyDelete (h : TableHeap) (rid : RowId) : Option TableHeap :=
  match h.pages rid.pageId with
  | none => some h
  | some page => (page.applyDelete rid.slotNum).map (h.writePage rid.pageId)

/-- `TableHeap::RollbackDelete`. -/
def rollbackDelete (h : TableHeap) (rid : RowId) : Option TableHeap :=
  match h.pages rid.pageId with
  | none => none
  | some page => (page.rollbackDelete rid.slotNum).map (h.writePage rid.pageId)

end TableHeap

/-- A call that changes a heap. -/
inductive HeapCall
  | insertTuple (row : Row)
  | markDelete (rid : RowId)
  | updateTuple (row : Row) (rid : RowId)
  | applyDelete (rid : RowId)
  | rollbackDelete (rid : RowId)

/-- The heap after a call, if the call does not stop the program. -/
def TableHeap.call (h : TableHeap) : HeapCall → Option TableHeap
  | .insertTuple row => some (h.insertTuple row).2
  | .markDelete rid => some (h.markDelete rid).2
  | .updateTuple row rid => (h.updateTuple row rid).map TableHeap.UpdateResult.heap
  | .applyDelete rid => h.applyDelete rid
  | .rollbackDelete rid => h.rollbackDelete rid

/-- One call of a session. -/
def TableHeap.next (h : TableHeap) (call : HeapCall) : TableHeap := (h.call call).getD h

end DisMiniSql.MiniSql.Heap
