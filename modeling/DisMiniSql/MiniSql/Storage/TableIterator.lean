import DisMiniSql.MiniSql.Storage.PagedHeap

/-!
# `DisMiniSql.MiniSql.Storage.TableIterator`: `TableIterator`

`TableHeap::Begin`, `TableHeap::End` and `storage/table_iterator.cpp`. The loop of `MoveToNextTuple`
has an amount of fuel, and so has the loop of the caller from `Begin` to `End`. `none` is the fuel
at its end, or a page pointer that is null.
-/

set_option autoImplicit false

namespace DisMiniSql.MiniSql.Heap

/-- `TableIterator`: the page that it points to, its row id, and the row with its own row id and the
bytes that `GetTuple` has read. -/
structure TableIterator where
  page : Option PageId
  rid : RowId
  rowId : RowId
  row : Option (List UInt8)
  deriving DecidableEq

namespace TableHeap

/-- `TableHeap::End`. -/
def endIterator : TableIterator := ⟨none, INVALID_ROWID, INVALID_ROWID, none⟩

/-- `TableHeap::Begin`, which looks for a tuple on the first page only. -/
def begin (h : TableHeap) : TableIterator :=
  match h.pages h.firstPageId with
  | none => endIterator
  | some page =>
    match page.getFirstTupleRid with
    | some slotNum =>
      let rid : RowId := ⟨page.tablePageId, slotNum⟩
      ⟨(h.pages rid.pageId).map (fun _ => rid.pageId), rid, rid, h.getTuple rid⟩
    | none => endIterator

/-- The loop of `TableIterator::MoveToNextTuple` for the iterator `it`, on the page `pageId`. -/
def moveLoop (h : TableHeap) (it : TableIterator) :
    Nat → Bool → PageId → RowId → Option TableIterator
  | 0, _, _, _ => none
  | fuel + 1, firstSlot, pageId, rid =>
    (h.pages pageId).bind (fun page =>
      let rid : RowId := if firstSlot then rid else ⟨rid.pageId, rid.slotNum + 1⟩
      if rid.slotNum < page.getTupleCount then
        if TablePage.isDeleted (page.getTupleSize rid.slotNum) then
          moveLoop h it fuel false pageId rid
        else some ⟨some pageId, rid, rid, (h.getTuple rid).or it.row⟩
      else if page.nextPageId = INVALID_PAGE_ID then
        some ⟨none, INVALID_ROWID, INVALID_ROWID, it.row⟩
      else moveLoop h it fuel true page.nextPageId ⟨page.nextPageId, 0⟩)

/-- `TableIterator::MoveToNextTuple`. -/
def moveToNextTuple (h : TableHeap) (fuel : Nat) (it : TableIterator) : Option TableIterator :=
  match it.page with
  | none => some it
  | some pageId => h.moveLoop it fuel false pageId it.rid

/-- The rows of a loop with `++` until the iterator equals `End`: `operator==` compares the row ids
of the two rows. -/
def scanFrom (h : TableHeap) (fuel : Nat) :
    Nat → TableIterator → Option (List (RowId × Option (List UInt8)))
  | 0, _ => none
  | steps + 1, it =>
    if it.rowId = endIterator.rowId then some []
    else
      (h.moveToNextTuple fuel it).bind (fun next =>
        (scanFrom h fuel steps next).map (fun rows => (it.rowId, it.row) :: rows))

/-- The rows from `Begin` to `End`. -/
def scan (h : TableHeap) (fuel : Nat) : Option (List (RowId × Option (List UInt8))) :=
  h.scanFrom fuel fuel h.begin

end TableHeap

end DisMiniSql.MiniSql.Heap
