import DisMiniSql.MiniSql.Config
import Mathlib.Algebra.Group.Nat.Defs

/-!
# `DisMiniSql.MiniSql.Storage.TableHeap`: `TableHeap`, `TablePage`, `FreeSpaceMap`

A table's rows stand in the slots of its pages (`page/table_page.cpp`). The pages form a list by
`next_page_id`, which a scan follows (`storage/table_iterator.cpp`). An insert asks the free space
map (`storage/freespace_map.cpp`) for a page.

The model keeps the space accounts of the source: they decide where a row goes and whether an
update fits. The bytes of a page are left out, and a slot holds its row. The module `PagedHeap` has
the bytes, and `heap_refines` joins the two. The pages of one heap are numbered as it allocates
them. `size` is `Row::GetSerializedSize`. No slot has size zero, since only `ApplyDelete` makes one
and no executor calls it, so an insert takes the slot behind the last.

`Frames` says which pages the buffer pool can bring in while a statement runs.
-/

set_option autoImplicit false

namespace DisMiniSql.MiniSql

/-- `RowId`: a page and a slot of it. -/
structure RowId where
  pageId : Nat
  slotNum : Nat
  deriving DecidableEq, Repr

/-- What the buffer pool answers during a statement. -/
structure Frames where
  /-- `FetchPage(page_id)` is not null. -/
  fetch : Nat → Bool := fun _ => true
  /-- `NewPage` is not null. -/
  newPage : Bool := true

/-- A slot: its row, and whether its size carries the delete flag. -/
structure Slot (V : Type) where
  row : List V
  deleted : Bool
  deriving DecidableEq, Repr

/-- `TablePage`. -/
structure TablePage (V : Type) where
  slots : List (Slot V)
  freeSpacePointer : Nat
  nextPageId : Option Nat
  deriving DecidableEq, Repr

namespace TablePage

variable {V : Type} (size : List V → Nat)

/-- `SIZE_TABLE_PAGE_HEADER`. -/
def SIZE_TABLE_PAGE_HEADER : Nat := 24

/-- `SIZE_TUPLE`. -/
def SIZE_TUPLE : Nat := 8

/-- `SIZE_MAX_ROW`. -/
def SIZE_MAX_ROW : Nat := PAGE_SIZE - SIZE_TABLE_PAGE_HEADER - SIZE_TUPLE

/-- `TablePage::Init`. -/
def init : TablePage V := ⟨[], PAGE_SIZE, none⟩

/-- `TablePage::GetFreeSpaceRemaining`. -/
def getFreeSpaceRemaining (p : TablePage V) : Nat :=
  p.freeSpacePointer - SIZE_TABLE_PAGE_HEADER - SIZE_TUPLE * p.slots.length

/-- `TablePage::GetFreeSpace`, in 32 bits: a page with less than `SIZE_TUPLE` bytes left answers a
number close to `2 ^ 32`. -/
def getFreeSpace (p : TablePage V) : Nat :=
  (p.freeSpacePointer + 2 ^ 32 - SIZE_TABLE_PAGE_HEADER - SIZE_TUPLE * p.slots.length -
    SIZE_TUPLE) % 2 ^ 32

/-- `TablePage::InsertTuple`: the slot of the new row and the page. -/
def insertTuple (p : TablePage V) (row : List V) : Option (Nat × TablePage V) :=
  if p.getFreeSpaceRemaining < size row + SIZE_TUPLE then none
  else
    some (p.slots.length,
      { p with
        slots := p.slots ++ [⟨row, false⟩]
        freeSpacePointer := p.freeSpacePointer - size row })

/-- `TablePage::GetTuple`. -/
def getTuple (p : TablePage V) (slotNum : Nat) : Option (List V) :=
  match p.slots[slotNum]? with
  | none => none
  | some slot => if slot.deleted then none else some slot.row

/-- `TablePage::MarkDelete`. -/
def markDelete (p : TablePage V) (slotNum : Nat) : Bool × TablePage V :=
  match p.getTuple slotNum with
  | none => (false, p)
  | some row => (true, { p with slots := p.slots.set slotNum ⟨row, true⟩ })

/-- `TablePage::UpdateTuple`: `true` if the row is now `row`. -/
def updateTuple (p : TablePage V) (row : List V) (slotNum : Nat) : Bool × TablePage V :=
  match p.getTuple slotNum with
  | none => (false, p)
  | some oldRow =>
    if p.getFreeSpaceRemaining + size oldRow < size row then (false, p)
    else
      (true,
        { p with
          slots := p.slots.set slotNum ⟨row, false⟩
          freeSpacePointer := p.freeSpacePointer + size oldRow - size row })

/-- The rows of a page that are not deleted, with their row ids. -/
def rows (p : TablePage V) (pageId : Nat) : List (RowId × List V) :=
  p.slots.zipIdx.filterMap (fun s => if s.1.deleted then none else some (⟨pageId, s.2⟩, s.1.row))

end TablePage

/-- `FreeSpaceMap`: the pairs of page and free space, in the order in which they were added. Each
page of the map holds `SIZE_MAX_PAIR` of them, so the pair `i` has the `internal_index`
`i % SIZE_MAX_PAIR`. -/
structure FreeSpaceMap where
  pairs : List (Nat × Nat)
  lastPageId : Option Nat
  deriving DecidableEq, Repr

namespace FreeSpaceMap

/-- `FreeSpaceMapPage::SIZE_MAX_PAIR`. -/
def SIZE_MAX_PAIR : Nat := (PAGE_SIZE - 16) / 8

/-- `FreeSpaceMap::SetNewPair`. -/
def setNewPair (m : FreeSpaceMap) (pageId freeSpace : Nat) : FreeSpaceMap :=
  ⟨m.pairs ++ [(pageId, freeSpace)], some pageId⟩

/-- `FreeSpaceMap::SetFreeSpace`. -/
def setFreeSpace (m : FreeSpaceMap) (pageId freeSpace : Nat) : FreeSpaceMap :=
  { m with
    pairs := m.pairs.modify (m.pairs.findIdx (fun pair => pair.1 == pageId))
      (fun pair => (pair.1, freeSpace)) }

/-- The answers of `GetBegin` and then `GetNext` until `INVALID_PAGE_ID`: the pages with enough
space in the order of the map, and at the end `last_page_id`, unless the `internal_index` of the
last answer is that of the map's last pair. The two may stand on different pages of the map. -/
def candidates (m : FreeSpaceMap) (needSpace : Nat) : List Nat :=
  let found := m.pairs.zipIdx.filter (fun pair => decide (needSpace ≤ pair.1.2))
  let atLast := found.getLast?.map (fun pair => pair.2 % SIZE_MAX_PAIR) =
    some ((m.pairs.length - 1) % SIZE_MAX_PAIR)
  found.map (fun pair => pair.1.1) ++ (if atLast then [] else m.lastPageId.toList)

end FreeSpaceMap

/-- `TableHeap`. Its first page is the page `0`. -/
structure TableHeap (V : Type) where
  pages : List (TablePage V)
  freespaceMap : FreeSpaceMap

namespace TableHeap

variable {V : Type} (size : List V → Nat)

/-- The heap of a new table: one page. -/
def create : TableHeap V :=
  ⟨[TablePage.init], FreeSpaceMap.setNewPair ⟨[], none⟩ 0 (TablePage.init (V := V)).getFreeSpace⟩

/-- A page with its new contents, and its new free space in the map. -/
def setPage (h : TableHeap V) (pageId : Nat) (page : TablePage V) : TableHeap V :=
  ⟨h.pages.set pageId page, h.freespaceMap.setFreeSpace pageId page.getFreeSpace⟩

/-- `TableHeap::GetTuple`. -/
def getTuple (h : TableHeap V) (rid : RowId) : Option (List V) :=
  (h.pages[rid.pageId]?).bind (fun page => page.getTuple rid.slotNum)

/-- The end of `TableHeap::InsertTuple`: no page has room. The new page becomes the successor of
`truePage`, the last page that was tried. -/
def insertNewPage (h : TableHeap V) (row : List V) (truePage : Option Nat) :
    Option (RowId × TableHeap V) := do
  let (slotNum, page) ← TablePage.init.insertTuple size row
  let newPageId := h.pages.length
  let linked := h.pages.modify (truePage.getD newPageId)
    (fun p => { p with nextPageId := some newPageId })
  some (⟨newPageId, slotNum⟩,
    ⟨linked ++ [page], h.freespaceMap.setNewPair newPageId page.getFreeSpace⟩)

/-- The loop of `TableHeap::InsertTuple` over the pages that the map proposes. -/
def insertLoop (frames : Frames) (h : TableHeap V) (row : List V) :
    List Nat → Option Nat → Option (RowId × TableHeap V)
  | [], truePage => if frames.newPage then h.insertNewPage size row truePage else none
  | pageId :: pageIds, _ =>
    if frames.fetch pageId then do
      let page ← h.pages[pageId]?
      match page.insertTuple size row with
      | some (slotNum, page) => some (⟨pageId, slotNum⟩, h.setPage pageId page)
      | none => insertLoop frames h row pageIds (some pageId)
    else none

/-- `TableHeap::InsertTuple`; `none` is the answer `false`, on which the heap is as before. -/
def insertTuple (frames : Frames) (h : TableHeap V) (row : List V) :
    Option (RowId × TableHeap V) :=
  if TablePage.SIZE_MAX_ROW < size row then none
  else h.insertLoop size frames row (h.freespaceMap.candidates (size row)) none

/-- `TableHeap::MarkDelete`. The answer of the page is not read. -/
def markDelete (frames : Frames) (h : TableHeap V) (rid : RowId) : Bool × TableHeap V :=
  match h.pages[rid.pageId]? with
  | none => (false, h)
  | some page =>
    if frames.fetch rid.pageId then (true, h.setPage rid.pageId (page.markDelete rid.slotNum).2)
    else (false, h)

/-- `TableHeap::UpdateTuple`. The page answers `true` for success, and `int update_tuple_result`
holds it as 1. The `switch` takes 0 for success and 1 for an error. -/
def updateTuple (frames : Frames) (h : TableHeap V) (row : List V) (rid : RowId) :
    Bool × TableHeap V :=
  match h.pages[rid.pageId]? with
  | none => (false, h)
  | some page =>
    if !frames.fetch rid.pageId then (false, h)
    else
      match page.getTuple rid.slotNum with
      | none => (false, h)
      | some _ =>
        let (updated, page) := page.updateTuple size row rid.slotNum
        let updateTupleResult : Nat := if updated then 1 else 0
        (updateTupleResult == 0, h.setPage rid.pageId page)

/-- The pages from `pageId` on by `next_page_id`, at most `fuel` of them. -/
def chain (pages : List (TablePage V)) : Nat → Nat → List Nat
  | 0, _ => []
  | fuel + 1, pageId =>
    match pages[pageId]? with
    | none => []
    | some page => pageId :: ((page.nextPageId.map (chain pages fuel)).getD [])

/-- The rows from `TableHeap::Begin` to `TableHeap::End`. `Begin` looks for a row on the first
page only, and is `End` if that page has none. -/
def scan (h : TableHeap V) : List (RowId × List V) :=
  match h.pages[0]? with
  | none => []
  | some first =>
    if (first.rows 0).isEmpty then []
    else
      (chain h.pages h.pages.length 0).flatMap
        (fun pageId => ((h.pages[pageId]?).map (fun page => page.rows pageId)).getD [])

end TableHeap

end DisMiniSql.MiniSql
