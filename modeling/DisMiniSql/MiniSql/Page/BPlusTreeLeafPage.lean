import Mathlib.Order.Lattice
import DisMiniSql.MiniSql.Page.BPlusTreePage

/-!
# `DisMiniSql.MiniSql.Page.BPlusTreeLeafPage`: `BPlusTreeLeafPage`

The methods of `page/b_plus_tree_leaf_page.cpp`. `KeyManager::CompareKeys` is the order of the
key type: a negative result is `<`, zero is `=`.

The `while` loops of the two binary searches carry a bound on their iterations. The bound is
the size of the page, which no search exceeds.
-/

set_option autoImplicit false

namespace DisMiniSql.MiniSql.LeafPage

open DisMiniSql.Lib

variable {κ ν : Type}

/-- `LeafPage::Init`, of a page of zeros. -/
def init [Inhabited κ] [Inhabited ν] (pageId parentPageId : PageId) (maxSize : Nat) :
    LeafPage κ ν where
  pageId := pageId
  parentPageId := parentPageId
  nextPageId := INVALID_PAGE_ID
  size := 0
  maxSize := maxSize
  data := fun _ => default

/-- `LeafPage::KeyAt`. -/
def keyAt (p : LeafPage κ ν) (index : Nat) : κ :=
  (p.data index).1

/-- `LeafPage::ValueAt`. -/
def valueAt (p : LeafPage κ ν) (index : Nat) : ν :=
  (p.data index).2

/-- The loop of `LeafPage::KeyIndex`. -/
def keyIndexLoop [LinearOrder κ] (p : LeafPage κ ν) (key : κ) : Nat → Nat → Nat → Nat
  | 0, _, right => right
  | fuel + 1, left, right =>
    if left < right then
      let mid := (left + right) / 2
      if p.keyAt mid < key then keyIndexLoop p key fuel (mid + 1) right
      else keyIndexLoop p key fuel left mid
    else right

/-- `LeafPage::KeyIndex`. -/
def keyIndex [LinearOrder κ] (p : LeafPage κ ν) (key : κ) : Nat :=
  p.keyIndexLoop key p.size 0 p.size

/-- `LeafPage::Insert`. -/
def insert [LinearOrder κ] (p : LeafPage κ ν) (key : κ) (value : ν) : LeafPage κ ν :=
  let index := p.keyIndex key
  { p with
      data := setSlot (shiftUp p.data index p.size) index (key, value)
      size := p.size + 1 }

/-- `LeafPage::CopyNFrom`, where `src` points at the slot `start` of another page. -/
def copyNFrom (p : LeafPage κ ν) (src : Nat → κ × ν) (start size : Nat) : LeafPage κ ν :=
  { p with data := copyN p.data p.size src start size, size := p.size + size }

/-- `LeafPage::MoveHalfTo`: this page and the recipient afterwards. -/
def moveHalfTo (p recipient : LeafPage κ ν) : LeafPage κ ν × LeafPage κ ν :=
  let moveSize := p.size / 2
  ({ p with size := p.size - moveSize },
    recipient.copyNFrom p.data (p.size - moveSize) moveSize)

/-- The loop of `LeafPage::Lookup`. -/
def lookupLoop [LinearOrder κ] (p : LeafPage κ ν) (key : κ) : Nat → Int → Int → Option ν
  | 0, _, _ => none
  | fuel + 1, left, right =>
    if left ≤ right then
      let index := ((left + right) / 2).toNat
      if p.keyAt index = key then some (p.valueAt index)
      else if p.keyAt index < key then lookupLoop p key fuel (index + 1) right
      else lookupLoop p key fuel left (index - 1)
    else none

/-- `LeafPage::Lookup`: the value, when the key is there. -/
def lookup [LinearOrder κ] (p : LeafPage κ ν) (key : κ) : Option ν :=
  p.lookupLoop key p.size 0 (p.size - 1)

/-- `LeafPage::RemoveAndDeleteRecord`: the page afterwards. -/
def removeAndDeleteRecord [LinearOrder κ] (p : LeafPage κ ν) (key : κ) : LeafPage κ ν :=
  let index := p.keyIndex key
  if index < p.size ∧ p.keyAt index = key then
    { p with data := shiftDown p.data index (p.size - 1 - index), size := p.size - 1 }
  else p

/-- `LeafPage::MoveAllTo`: this page and the recipient afterwards. -/
def moveAllTo (p recipient : LeafPage κ ν) : LeafPage κ ν × LeafPage κ ν :=
  let r := recipient.copyNFrom p.data 0 p.size
  let p' := { p with size := 0 }
  (p', { r with nextPageId := p'.nextPageId, size := r.size + p'.size })

/-- `LeafPage::CopyLastFrom`. -/
def copyLastFrom (p : LeafPage κ ν) (key : κ) (value : ν) : LeafPage κ ν :=
  { p with data := setSlot p.data p.size (key, value), size := p.size + 1 }

/-- `LeafPage::MoveFirstToEndOf`: this page and the recipient afterwards. -/
def moveFirstToEndOf (p recipient : LeafPage κ ν) : LeafPage κ ν × LeafPage κ ν :=
  ({ p with data := shiftDown p.data 0 (p.size - 1), size := p.size - 1 },
    recipient.copyLastFrom (p.keyAt 0) (p.valueAt 0))

/-- `LeafPage::CopyFirstFrom`. -/
def copyFirstFrom (p : LeafPage κ ν) (key : κ) (value : ν) : LeafPage κ ν :=
  { p with data := setSlot (shiftUp p.data 0 p.size) 0 (key, value), size := p.size + 1 }

/-- `LeafPage::MoveLastToFrontOf`: this page and the recipient afterwards. -/
def moveLastToFrontOf (p recipient : LeafPage κ ν) : LeafPage κ ν × LeafPage κ ν :=
  ({ p with size := p.size - 1 },
    recipient.copyFirstFrom (p.keyAt (p.size - 1)) (p.valueAt (p.size - 1)))

end DisMiniSql.MiniSql.LeafPage
