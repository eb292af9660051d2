import DisMiniSql.MiniSql.Buffer.BufferPoolManager
import DisMiniSql.MiniSql.Storage.PagedHeap

/-!
# `DisMiniSql.MiniSql.Storage.IteratorPins`: `TableIterator` over the buffer pool

`storage/table_iterator.cpp` with the pins that its calls take and give back. `page_` is a frame of
the pool, and `page_->GetPageId()` is the id that the frame has at that time. Nothing writes to the
heap while its iterators live, so the bytes of a page are those of the heap.

`step` is one statement of a program with iterators. An object is known by its place in the list of
all objects that were made, and a place is empty once its object is destroyed. `none` is a statement
without a meaning: an object that is not there, a null pointer, a page of another kind, or the end
of the fuel of the loop.
-/

set_option autoImplicit false

namespace DisMiniSql.MiniSql.Heap.Pooled

/-- `TableIterator`: `page_`, `rid_`, and the row id and the bytes of `row_`. -/
structure TableIterator where
  page : Option FrameId
  rid : RowId
  rowId : RowId
  row : Option (List UInt8)
  deriving DecidableEq

/-- `TableHeap::End`. -/
def endIterator : TableIterator := ⟨none, INVALID_ROWID, INVALID_ROWID, none⟩

/-- `UnpinPage(page_->GetPageId(), false)`. -/
def unpin (b : BufferPoolManager) (frame : FrameId) : BufferPoolManager :=
  (b.unpinPage (b.pages frame).pageId false).2

/-- `TableHeap::GetTuple`. The page is unpinned by the id in its header. -/
def getTuple (h : TableHeap) (b : BufferPoolManager) (rid : RowId) :
    Option (Option (List UInt8) × BufferPoolManager) :=
  match b.fetchPage rid.pageId with
  | (none, b) => some (none, b)
  | (some frame, b) =>
    (h.pages (b.pages frame).pageId).map (fun page =>
      (page.getTuple rid.slotNum, (b.unpinPage page.tablePageId false).2))

/-- `TableIterator::TableIterator(table_heap, rid, txn)`. -/
def construct (h : TableHeap) (b : BufferPoolManager) (rid : RowId) :
    Option (TableIterator × BufferPoolManager) :=
  if rid.pageId = INVALID_PAGE_ID then some (⟨none, rid, rid, none⟩, b)
  else
    (getTuple h b rid).map (fun read =>
      let fetched := read.2.fetchPage rid.pageId
      (⟨fetched.1, rid, rid, read.1⟩, fetched.2))

/-- `TableHeap::Begin`. -/
def begin (h : TableHeap) (b : BufferPoolManager) : Option (TableIterator × BufferPoolManager) :=
  match b.fetchPage h.firstPageId with
  | (none, b) => some (endIterator, b)
  | (some frame, b) =>
    (h.pages (b.pages frame).pageId).bind (fun page =>
      match page.getFirstTupleRid with
      | some slotNum => construct h (unpin b frame) ⟨page.tablePageId, slotNum⟩
      | none => some (endIterator, unpin b frame))

/-- `TableIterator::~TableIterator`. -/
def destroy (b : BufferPoolManager) (it : TableIterator) : BufferPoolManager :=
  match it.page with
  | none => b
  | some frame => unpin b frame

/-- The loop of `TableIterator::MoveToNextTuple` for the iterator `it`, with `page_ = frame`. -/
def moveLoop (h : TableHeap) (it : TableIterator) :
    Nat → BufferPoolManager → Bool → FrameId → RowId → Option (TableIterator × BufferPoolManager)
  | 0, _, _, _, _ => none
  | fuel + 1, b, firstSlot, frame, rid =>
    (h.pages (b.pages frame).pageId).bind (fun page =>
      let rid : RowId := if firstSlot then rid else ⟨rid.pageId, rid.slotNum + 1⟩
      if rid.slotNum < page.getTupleCount then
        if TablePage.isDeleted (page.getTupleSize rid.slotNum) then
          moveLoop h it fuel b false frame rid
        else
          -- the pin is given back, and `page_` stays
          (getTuple h b rid).map (fun read =>
            (⟨some frame, rid, rid, read.1.or it.row⟩, unpin read.2 frame))
      else if page.nextPageId = INVALID_PAGE_ID then
        some (⟨none, INVALID_ROWID, INVALID_ROWID, it.row⟩, unpin b frame)
      else
        match (unpin b frame).fetchPage page.nextPageId with
        | (none, _) => none
        | (some frame, b) => moveLoop h it fuel b true frame ⟨page.nextPageId, 0⟩)

/-- `TableIterator::MoveToNextTuple`. -/
def moveToNextTuple (h : TableHeap) (fuel : Nat) (b : BufferPoolManager) (it : TableIterator) :
    Option (TableIterator × BufferPoolManager) :=
  match it.page with
  | none => some (it, b)
  | some frame => moveLoop h it fuel b false frame it.rid

/-- A statement of a program with iterators. `assign i j` is `i = j`, and the result of
`postIncrement i` is an object of its own. -/
inductive IteratorOp
  | begin
  | endIterator
  | construct (rid : RowId)
  | copy (i : Nat)
  | assign (i j : Nat)
  | increment (i : Nat)
  | postIncrement (i : Nat)
  | destroy (i : Nat)

/-- The pool, and the objects of the program. -/
structure Session where
  bpm : BufferPoolManager
  objects : List (Option TableIterator)

namespace Session

/-- The object with the number `i`, if it lives. -/
def live (s : Session) (i : Nat) : Option TableIterator := (s.objects[i]?).join

/-- A new object. -/
def add (s : Session) (made : TableIterator × BufferPoolManager) : Session :=
  ⟨made.2, s.objects ++ [some made.1]⟩

/-- The object with the number `i` is replaced. -/
def set (s : Session) (i : Nat) (object : Option TableIterator) (b : BufferPoolManager) : Session :=
  ⟨b, s.objects.set i object⟩

/-- One statement. -/
def step (h : TableHeap) (fuel : Nat) (s : Session) : IteratorOp → Option Session
  | .begin => (begin h s.bpm).map s.add
  | .endIterator => some (s.add (endIterator, s.bpm))
  | .construct rid => (construct h s.bpm rid).map s.add
  | .copy i => (s.live i).map (fun it => s.add (it, s.bpm))
  | .assign i j =>
    (s.live i).bind (fun _ => (s.live j).map (fun it => s.set i (some it) s.bpm))
  | .increment i =>
    (s.live i).bind (fun it =>
      (moveToNextTuple h fuel s.bpm it).map (fun moved => s.set i (some moved.1) moved.2))
  | .postIncrement i =>
    (s.live i).bind (fun it =>
      (moveToNextTuple h fuel s.bpm it).map (fun moved =>
        (s.set i (some moved.1) moved.2).add (it, moved.2)))
  | .destroy i => (s.live i).map (fun it => s.set i none (destroy s.bpm it))

end Session

end DisMiniSql.MiniSql.Heap.Pooled
