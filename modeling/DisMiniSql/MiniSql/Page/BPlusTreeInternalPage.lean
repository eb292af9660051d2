import Mathlib.Order.Lattice
import DisMiniSql.MiniSql.Page.PageStore

/-!
# `DisMiniSql.MiniSql.Page.BPlusTreeInternalPage`: `BPlusTreeInternalPage`

The methods of `page/b_plus_tree_internal_page.cpp`. A method that moves children to another
page also gives them a new parent, so it takes and returns the page store.

`MoveAllTo` and `MoveLastToFrontOf` take the separation key of the parent and do not use it:
the key that comes to stand between the two groups of children is the key in slot 0 of the
right page. The parameter is kept.
-/

set_option autoImplicit false

namespace DisMiniSql.MiniSql.InternalPage

open DisMiniSql.Lib

variable {κ ν : Type}

/-- `InternalPage::Init`, of a page of zeros. -/
def init [Inhabited κ] (pageId parentPageId : PageId) (maxSize : Nat) : InternalPage κ where
  pageId := pageId
  parentPageId := parentPageId
  size := 0
  maxSize := maxSize
  data := fun _ => (default, 0)

/-- `InternalPage::KeyAt`. -/
def keyAt (p : InternalPage κ) (index : Nat) : κ :=
  (p.data index).1

/-- `InternalPage::SetKeyAt`. -/
def setKeyAt (p : InternalPage κ) (index : Nat) (key : κ) : InternalPage κ :=
  { p with data := setSlot p.data index (key, (p.data index).2) }

/-- `InternalPage::ValueAt`. -/
def valueAt (p : InternalPage κ) (index : Nat) : PageId :=
  (p.data index).2

/-- `InternalPage::SetValueAt`. -/
def setValueAt (p : InternalPage κ) (index : Nat) (value : PageId) : InternalPage κ :=
  { p with data := setSlot p.data index ((p.data index).1, value) }

/-- The first slot in use that holds `value`: the loop of `InternalPage::ValueIndex`, and the
loops of `BPlusTree::Remove` that look for a child. -/
def findValue (p : InternalPage κ) (value : PageId) : Option Nat :=
  (List.range p.size).find? (fun i => p.valueAt i = value)

/-- `InternalPage::ValueIndex`. -/
def valueIndex (p : InternalPage κ) (value : PageId) : Int :=
  match p.findValue value with
  | some i => i
  | none => -1

/-- The loop of `InternalPage::Lookup`. -/
def lookupLoop [LinearOrder κ] (p : InternalPage κ) (key : κ) : Nat → Int → Int → PageId
  | 0, left, _ => p.valueAt left.toNat
  | fuel + 1, left, right =>
    if left ≤ right then
      let mid := ((left + right) / 2).toNat
      if p.keyAt mid ≤ key ∧ key < p.keyAt (mid + 1) then p.valueAt mid
      else if key < p.keyAt mid then lookupLoop p key fuel left (mid - 1)
      else lookupLoop p key fuel (mid + 1) right
    else p.valueAt left.toNat

/-- `InternalPage::Lookup`. -/
def lookup [LinearOrder κ] (p : InternalPage κ) (key : κ) : PageId :=
  if key < p.keyAt 1 then p.valueAt 0
  else if p.keyAt (p.size - 1) ≤ key then p.valueAt (p.size - 1)
  else p.lookupLoop key p.size 1 (p.size - 2)

/-- `InternalPage::InsertNodeAfter`. -/
def insertNodeAfter (p : InternalPage κ) (oldValue : PageId) (newKey : κ) (newValue : PageId) :
    InternalPage κ :=
  let index := (p.valueIndex oldValue + 1).toNat
  { p with
      data := setSlot (shiftUp p.data index p.size) index (newKey, newValue)
      size := p.size + 1 }

/-- `InternalPage::CopyNFrom`, where `src` points at the slot `start` of another page. -/
def copyNFrom (p : InternalPage κ) (src : Nat → κ × PageId) (start size : Nat)
    (bpm : PageStore κ ν) : InternalPage κ × PageStore κ ν :=
  ({ p with data := copyN p.data p.size src start size, size := p.size + size },
    bpm.adopt p.pageId ((slots (fun i => src (start + i)) size).map Prod.snd))

/-- `InternalPage::MoveHalfTo`: this page, the recipient and the store afterwards. -/
def moveHalfTo (p recipient : InternalPage κ) (bpm : PageStore κ ν) :
    InternalPage κ × InternalPage κ × PageStore κ ν :=
  let moveSize := p.size / 2
  let (r, bpm) := recipient.copyNFrom p.data (p.size - moveSize) moveSize bpm
  ({ p with size := p.size - moveSize }, r, bpm)

/-- `InternalPage::Remove`: the slot after `index` goes. -/
def remove (p : InternalPage κ) (index : Int) : InternalPage κ :=
  let start := (index + 1).toNat
  { p with data := shiftDown p.data start (p.size - 1 - start), size := p.size - 1 }

/-- `InternalPage::MoveAllTo`: this page, the recipient and the store afterwards. -/
def moveAllTo (p recipient : InternalPage κ) (_middleKey : κ) (bpm : PageStore κ ν) :
    InternalPage κ × InternalPage κ × PageStore κ ν :=
  let (r, bpm) := recipient.copyNFrom p.data 0 p.size bpm
  ({ p with size := 0 }, r, bpm)

/-- `InternalPage::CopyLastFrom`. -/
def copyLastFrom (p : InternalPage κ) (key : κ) (value : PageId) (bpm : PageStore κ ν) :
    InternalPage κ × PageStore κ ν :=
  ({ p with data := setSlot p.data p.size (key, value), size := p.size + 1 },
    bpm.setParent p.pageId value)

/-- `InternalPage::MoveFirstToEndOf`: this page, the recipient and the store afterwards. -/
def moveFirstToEndOf (p recipient : InternalPage κ) (middleKey : κ) (bpm : PageStore κ ν) :
    InternalPage κ × InternalPage κ × PageStore κ ν :=
  let (r, bpm) := recipient.copyLastFrom middleKey (p.valueAt 0) bpm
  (p.remove (-1), r, bpm)

/-- `InternalPage::CopyFirstFrom`. The key in slot 0 stays. -/
def copyFirstFrom (p : InternalPage κ) (value : PageId) (bpm : PageStore κ ν) :
    InternalPage κ × PageStore κ ν :=
  ({ p with data := shiftUp p.data 0 p.size, size := p.size + 1 }.setValueAt 0 value,
    bpm.setParent p.pageId value)

/-- `InternalPage::MoveLastToFrontOf`: this page, the recipient and the store afterwards. -/
def moveLastToFrontOf (p recipient : InternalPage κ) (_middleKey : κ) (bpm : PageStore κ ν) :
    InternalPage κ × InternalPage κ × PageStore κ ν :=
  let (r, bpm) := recipient.copyFirstFrom (p.valueAt (p.size - 1)) bpm
  (p.remove (p.size - 2), r.setKeyAt 0 (p.keyAt (p.size - 1)), bpm)

end DisMiniSql.MiniSql.InternalPage
