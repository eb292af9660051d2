import DisMiniSql.Lib.Bytes
import DisMiniSql.MiniSql.Config

/-!
# `DisMiniSql.MiniSql.Page.TablePage`: `TablePage`, byte by byte

`page/table_page.cpp`. Behind the header stands the directory, eight bytes for each slot: the offset
of the tuple and its size. The tuples stand at the end of the page, from the free space pointer on.
The top bit of a size is the delete flag, and the size zero is an empty slot.

The three page ids of the header are fields of their own, and `data` is read and written from
`OFFSET_FREE_SPACE` on. A row is the bytes that `Row::SerializeTo` writes. `none` is an `ASSERT`
that fails.
-/

set_option autoImplicit false

namespace DisMiniSql.MiniSql.Heap

open DisMiniSql.Lib (Bytes)

/-- A row, serialized: the three numbers of its header and its fields. Its size is an
`uint32_t`. -/
structure Row where
  bytes : List UInt8
  header : 12 ≤ bytes.length
  size_lt : bytes.length < 2 ^ 32
  deriving DecidableEq

/-- `Row::GetSerializedSize`. -/
def Row.getSerializedSize (row : Row) : Nat := row.bytes.length

/-- `TablePage`. -/
structure TablePage where
  tablePageId : PageId
  prevPageId : PageId
  nextPageId : PageId
  data : Bytes

namespace TablePage

/-- `DELETE_MASK`. -/
def DELETE_MASK : Nat := 2 ^ 31

/-- `SIZE_TABLE_PAGE_HEADER`. -/
def SIZE_TABLE_PAGE_HEADER : Nat := 24

/-- `SIZE_TUPLE`. -/
def SIZE_TUPLE : Nat := 8

/-- `SIZE_MAX_ROW`. -/
def SIZE_MAX_ROW : Nat := PAGE_SIZE - SIZE_TABLE_PAGE_HEADER - SIZE_TUPLE

/-- `OFFSET_FREE_SPACE`. -/
def OFFSET_FREE_SPACE : Nat := 16

/-- `OFFSET_TUPLE_COUNT`. -/
def OFFSET_TUPLE_COUNT : Nat := 20

/-- `OFFSET_TUPLE_OFFSET`. -/
def OFFSET_TUPLE_OFFSET : Nat := 24

/-- `OFFSET_TUPLE_SIZE`. -/
def OFFSET_TUPLE_SIZE : Nat := 28

/-- `TablePage::IsDeleted`. -/
def isDeleted (tupleSize : Nat) : Bool := tupleSize &&& DELETE_MASK != 0 || tupleSize == 0

/-- `TablePage::SetDeletedFlag`. -/
def setDeletedFlag (tupleSize : Nat) : Nat := tupleSize ||| DELETE_MASK

/-- `TablePage::UnsetDeletedFlag`: all bits of an `uint32_t` but the mask. -/
def unsetDeletedFlag (tupleSize : Nat) : Nat := tupleSize &&& (DELETE_MASK - 1)

/-- `TablePage::GetTupleCount`. -/
def getTupleCount (p : TablePage) : Nat := p.data.get32 OFFSET_TUPLE_COUNT

/-- `TablePage::SetTupleCount`. -/
def setTupleCount (p : TablePage) (tupleCount : Nat) : TablePage :=
  { p with data := p.data.set32 OFFSET_TUPLE_COUNT tupleCount }

/-- `TablePage::GetFreeSpacePointer`. -/
def getFreeSpacePointer (p : TablePage) : Nat := p.data.get32 OFFSET_FREE_SPACE

/-- `TablePage::SetFreeSpacePointer`. -/
def setFreeSpacePointer (p : TablePage) (freeSpacePointer : Nat) : TablePage :=
  { p with data := p.data.set32 OFFSET_FREE_SPACE freeSpacePointer }

/-- `TablePage::GetTupleOffsetAtSlot`. -/
def getTupleOffsetAtSlot (p : TablePage) (slotNum : Nat) : Nat :=
  p.data.get32 (OFFSET_TUPLE_OFFSET + SIZE_TUPLE * slotNum)

/-- `TablePage::SetTupleOffsetAtSlot`. -/
def setTupleOffsetAtSlot (p : TablePage) (slotNum offset : Nat) : TablePage :=
  { p with data := p.data.set32 (OFFSET_TUPLE_OFFSET + SIZE_TUPLE * slotNum) offset }

/-- `TablePage::GetTupleSize`. -/
def getTupleSize (p : TablePage) (slotNum : Nat) : Nat :=
  p.data.get32 (OFFSET_TUPLE_SIZE + SIZE_TUPLE * slotNum)

/-- `TablePage::SetTupleSize`. -/
def setTupleSize (p : TablePage) (slotNum size : Nat) : TablePage :=
  { p with data := p.data.set32 (OFFSET_TUPLE_SIZE + SIZE_TUPLE * slotNum) size }

/-- `TablePage::GetFreeSpaceRemaining`, in 32 bits. -/
def getFreeSpaceRemaining (p : TablePage) : Nat :=
  (p.getFreeSpacePointer + 2 ^ 32 - (SIZE_TABLE_PAGE_HEADER + SIZE_TUPLE * p.getTupleCount) %
    2 ^ 32) % 2 ^ 32

/-- `TablePage::GetFreeSpace`, in 32 bits: a page with less than `SIZE_TUPLE` bytes left answers a
number close to `2 ^ 32`. -/
def getFreeSpace (p : TablePage) : Nat :=
  (p.getFreeSpaceRemaining + 2 ^ 32 - SIZE_TUPLE) % 2 ^ 32

/-- `TablePage::Init`, on a page with the bytes `data`. -/
def init (pageId prevId : PageId) (data : Bytes) : TablePage :=
  setTupleCount (setFreeSpacePointer ⟨pageId, prevId, INVALID_PAGE_ID, data⟩ PAGE_SIZE) 0

/-- `TablePage::SetNextPageId`. -/
def setNextPageId (p : TablePage) (nextPageId : PageId) : TablePage :=
  { p with nextPageId := nextPageId }

/-- The loop of `InsertTuple` over the slots: the first one whose size is zero, or the number of
slots. -/
def freeSlot (p : TablePage) : Nat :=
  ((List.range p.getTupleCount).find? (fun i => p.getTupleSize i == 0)).getD p.getTupleCount

/-- `TablePage::InsertTuple`: the slot of the new row, or `none` for `false`, and the page. -/
def insertTuple (p : TablePage) (row : Row) : Option Nat × TablePage :=
  let serializedSize := row.getSerializedSize
  if p.getFreeSpaceRemaining < serializedSize + SIZE_TUPLE then (none, p)
  else
    let i := p.freeSlot
    if i = p.getTupleCount ∧ p.getFreeSpaceRemaining < serializedSize + SIZE_TUPLE then (none, p)
    else
      let count := p.getTupleCount
      let p := p.setFreeSpacePointer (p.getFreeSpacePointer - serializedSize)
      let p := { p with data := p.data.blit p.getFreeSpacePointer row.bytes }
      let p := p.setTupleOffsetAtSlot i p.getFreeSpacePointer
      let p := p.setTupleSize i serializedSize
      (some i, if i = count then p.setTupleCount (count + 1) else p)

/-- `TablePage::MarkDelete`. -/
def markDelete (p : TablePage) (slotNum : Nat) : Bool × TablePage :=
  if p.getTupleCount ≤ slotNum then (false, p)
  else
    let tupleSize := p.getTupleSize slotNum
    if isDeleted tupleSize then (false, p)
    else (true, if 0 < tupleSize then p.setTupleSize slotNum (setDeletedFlag tupleSize) else p)

/-- The loop of `UpdateTuple` and of `ApplyDelete` over the offsets, up to the slot `count`: the
tuples below `bound` have moved from `low` to `high`. -/
def moveOffsets (p : TablePage) (bound low high : Nat) : Nat → TablePage
  | 0 => p
  | count + 1 =>
    let p := p.moveOffsets bound low high count
    let tupleOffset := p.getTupleOffsetAtSlot count
    if p.getTupleSize count ≠ 0 ∧ tupleOffset < bound then
      p.setTupleOffsetAtSlot count (tupleOffset + high - low)
    else p

/-- `TablePage::UpdateTuple`. -/
def updateTuple (p : TablePage) (newRow : Row) (slotNum : Nat) : Option (Bool × TablePage) :=
  let serializedSize := newRow.getSerializedSize
  if p.getTupleCount ≤ slotNum then some (false, p)
  else
    let tupleSize := p.getTupleSize slotNum
    if isDeleted tupleSize then some (false, p)
    else if p.getFreeSpaceRemaining + tupleSize < serializedSize then some (false, p)
    else
      let tupleOffset := p.getTupleOffsetAtSlot slotNum
      let freeSpacePointer := p.getFreeSpacePointer
      if tupleOffset < freeSpacePointer then none
      else
        let moved := p.data.move (freeSpacePointer + tupleSize - serializedSize) freeSpacePointer
          (tupleOffset - freeSpacePointer)
        let p := { p with data := moved }
        let p := p.setFreeSpacePointer (freeSpacePointer + tupleSize - serializedSize)
        let written := p.data.blit (tupleOffset + tupleSize - serializedSize) newRow.bytes
        let p := { p with data := written }
        let p := p.setTupleSize slotNum serializedSize
        some (true,
          p.moveOffsets (tupleOffset + tupleSize) serializedSize tupleSize p.getTupleCount)

/-- `TablePage::ApplyDelete`. -/
def applyDelete (p : TablePage) (slotNum : Nat) : Option TablePage :=
  if p.getTupleCount ≤ slotNum then none
  else
    let tupleOffset := p.getTupleOffsetAtSlot slotNum
    let tupleSize := p.getTupleSize slotNum
    let tupleSize := if isDeleted tupleSize then unsetDeletedFlag tupleSize else tupleSize
    let freeSpacePointer := p.getFreeSpacePointer
    if tupleOffset < freeSpacePointer then none
    else
      let moved := p.data.move (freeSpacePointer + tupleSize) freeSpacePointer
        (tupleOffset - freeSpacePointer)
      let p := { p with data := moved }
      let p := p.setFreeSpacePointer (freeSpacePointer + tupleSize)
      let p := p.setTupleSize slotNum 0
      let p := p.setTupleOffsetAtSlot slotNum 0
      some (p.moveOffsets tupleOffset 0 tupleSize p.getTupleCount)

/-- `TablePage::RollbackDelete`. -/
def rollbackDelete (p : TablePage) (slotNum : Nat) : Option TablePage :=
  if p.getTupleCount ≤ slotNum then none
  else
    let tupleSize := p.getTupleSize slotNum
    some (if isDeleted tupleSize then p.setTupleSize slotNum (unsetDeletedFlag tupleSize) else p)

/-- `TablePage::GetTuple`. -/
def getTuple (p : TablePage) (slotNum : Nat) : Option (List UInt8) :=
  if p.getTupleCount ≤ slotNum then none
  else
    let tupleSize := p.getTupleSize slotNum
    if isDeleted tupleSize then none
    else some (p.data.slice (p.getTupleOffsetAtSlot slotNum) tupleSize)

/-- `TablePage::GetFirstTupleRid`: the slot. -/
def getFirstTupleRid (p : TablePage) : Option Nat :=
  (List.range p.getTupleCount).find? (fun i => !isDeleted (p.getTupleSize i))

end TablePage

/-- An operation on a table page, and `getTuple` between them changes nothing. -/
inductive PageOp
  | insertTuple (row : Row)
  | markDelete (slotNum : Nat)
  | updateTuple (row : Row) (slotNum : Nat)
  | applyDelete (slotNum : Nat)
  | rollbackDelete (slotNum : Nat)

/-- The answer of an operation, `true` for one without an answer, and the page. -/
def TablePage.step (p : TablePage) : PageOp → Option (Bool × TablePage)
  | .insertTuple row => some ((p.insertTuple row).1.isSome, (p.insertTuple row).2)
  | .markDelete slotNum => some (p.markDelete slotNum)
  | .updateTuple row slotNum => p.updateTuple row slotNum
  | .applyDelete slotNum => (p.applyDelete slotNum).map (fun p => (true, p))
  | .rollbackDelete slotNum => (p.rollbackDelete slotNum).map (fun p => (true, p))

end DisMiniSql.MiniSql.Heap
