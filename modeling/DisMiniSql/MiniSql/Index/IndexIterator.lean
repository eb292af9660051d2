import DisMiniSql.MiniSql.Index.BPlusTree
import DisMiniSql.MiniSql.Index.BPlusTreeIndex

/-!
# `DisMiniSql.MiniSql.Index.IndexIterator`: `IndexIterator`, over the pages

`index/index_iterator.cpp`, `BPlusTree::Begin` and `BPlusTree::End`, and `BPlusTreeIndex::ScanKey`
as the loops over these iterators that it is made of. A loop has an amount of fuel. `none` is the
fuel at its end, or an iterator whose page is not a leaf.
-/

set_option autoImplicit false

namespace DisMiniSql.MiniSql

variable {κ ν : Type}

/-- `IndexIterator`. The page is fetched again where the source goes through `page`. -/
structure IndexIterator where
  currentPageId : PageId
  itemIndex : Nat
  deriving DecidableEq

namespace IndexIterator

/-- `IndexIterator::operator*`. -/
def item (bpm : PageStore κ ν) (iter : IndexIterator) : Option (κ × ν) :=
  (bpm.fetchLeaf iter.currentPageId).map fun page => page.data iter.itemIndex

/-- `IndexIterator::operator++`. -/
def next (bpm : PageStore κ ν) (iter : IndexIterator) : Option IndexIterator :=
  (bpm.fetchLeaf iter.currentPageId).map fun page =>
    if page.size ≤ iter.itemIndex + 1 then ⟨page.nextPageId, 0⟩
    else { iter with itemIndex := iter.itemIndex + 1 }

/-- `for (; iter != stop; ++iter)`: the entries on the way. -/
def collect (bpm : PageStore κ ν) : Nat → IndexIterator → IndexIterator → Option (List (κ × ν))
  | 0, _, _ => none
  | fuel + 1, iter, stop =>
    if iter = stop then some []
    else do
      let e ← iter.item bpm
      let iter ← iter.next bpm
      let rest ← collect bpm fuel iter stop
      return e :: rest

end IndexIterator

namespace BPlusTree

/-- `BPlusTree::End`. -/
def endIterator : IndexIterator := ⟨INVALID_PAGE_ID, 0⟩

/-- `BPlusTree::Begin`. -/
def begin (t : BPlusTree κ ν) : Option IndexIterator := do
  match ← t.findLeftMostLeafPage with
  | none => return endIterator
  | some (pageId, _) => return ⟨pageId, 0⟩

section ScanKey

variable [LinearOrder κ]

/-- `BPlusTree::Begin(key)`. -/
def beginAt (t : BPlusTree κ ν) (key : κ) : Option IndexIterator := do
  match ← t.findLeafPage key with
  | none => return endIterator
  | some (pageId, leafPage) =>
    let index := leafPage.keyIndex key
    if index = leafPage.size then return endIterator else return ⟨pageId, index⟩

/-- The row ids from one iterator to another. -/
def rowIds (t : BPlusTree κ ν) (fuel : Nat) (iter stop : IndexIterator) : Option (List ν) :=
  (iter.collect t.bpm fuel stop).map fun entries => entries.map Prod.snd

/-- `BPlusTreeIndex::ScanKey` of the tree `container_`. -/
def scanKey [DecidableEq ν] (t : BPlusTree κ ν) (fuel : Nat) (key : κ)
    (compareOperator : ComparisonType) : Option (List ν) :=
  match compareOperator with
  | .eq => (t.getValue key).map Option.toList
  | .gt => do
    let iter ← t.beginAt key
    let found ← t.getValue key
    let iter ← if found.isSome then iter.next t.bpm else some iter
    t.rowIds fuel iter endIterator
  | .ge => do
    let iter ← t.beginAt key
    t.rowIds fuel iter endIterator
  | .lt => do
    let stopIter ← t.beginAt key
    let iter ← t.begin
    t.rowIds fuel iter stopIter
  | .le => do
    let stopIter ← t.beginAt key
    let iter ← t.begin
    let result ← t.rowIds fuel iter stopIter
    let found ← t.getValue key
    return result ++ found.toList
  | .ne => do
    let iter ← t.begin
    let result ← t.rowIds fuel iter endIterator
    match ← t.getValue key with
    | none => return result
    | some temp => return result.erase temp
  | .is => some []
  | .not => some []

end ScanKey

end BPlusTree

end DisMiniSql.MiniSql
