import Mathlib.Order.Bounds.Defs
import DisMiniSql.MiniSql.Page.BPlusTreeInternalPage
import DisMiniSql.MiniSql.Page.BPlusTreeLeafPage

/-!
# `DisMiniSql.MiniSql.Page.CheckedSearch`: the searches in a page, with their reads

The searches of `page/b_plus_tree_leaf_page.cpp` and `page/b_plus_tree_internal_page.cpp` once more,
with every read written out. A read of a slot that is not in use has no result, and neither has a
loop that does not end: a loop may begin one round more than there are slots. The key in slot 0 of
an internal page is not one of its keys, so it counts as a slot that is not in use.
-/

set_option autoImplicit false

namespace DisMiniSql.MiniSql

variable {κ ν : Type}

namespace LeafPage

/-- `KeyAt` of a slot in use. -/
def readKey (p : LeafPage κ ν) (index : Int) : Option κ :=
  if 0 ≤ index ∧ index < p.size then some (p.keyAt index.toNat) else none

/-- `ValueAt` of a slot in use. -/
def readValue (p : LeafPage κ ν) (index : Int) : Option ν :=
  if 0 ≤ index ∧ index < p.size then some (p.valueAt index.toNat) else none

variable [LinearOrder κ]

/-- The loop of `LeafPage::KeyIndex`. -/
def checkedKeyIndexLoop (p : LeafPage κ ν) (key : κ) : Nat → Nat → Nat → Option Nat
  | 0, _, _ => none
  | fuel + 1, left, right =>
    if left < right then do
      let mid := (left + right) / 2
      if (← p.readKey mid) < key then checkedKeyIndexLoop p key fuel (mid + 1) right
      else checkedKeyIndexLoop p key fuel left mid
    else some right

/-- `LeafPage::KeyIndex`. -/
def checkedKeyIndex (p : LeafPage κ ν) (key : κ) : Option Nat :=
  p.checkedKeyIndexLoop key (p.size + 1) 0 p.size

/-- `LeafPage::Insert`: the size that it returns, and the page. -/
def checkedInsert (p : LeafPage κ ν) (key : κ) (value : ν) : Option (Nat × LeafPage κ ν) := do
  let index ← p.checkedKeyIndex key
  let p := { p with
    data := Lib.setSlot (Lib.shiftUp p.data index p.size) index (key, value)
    size := p.size + 1 }
  some (p.size, p)

/-- The loop of `LeafPage::Lookup`. -/
def checkedLookupLoop (p : LeafPage κ ν) (key : κ) : Nat → Int → Int → Option (Option ν)
  | 0, _, _ => none
  | fuel + 1, left, right =>
    if left ≤ right then do
      let index := (left + right) / 2
      if (← p.readKey index) = key then some (some (← p.readValue index))
      else if (← p.readKey index) < key then checkedLookupLoop p key fuel (index + 1) right
      else checkedLookupLoop p key fuel left (index - 1)
    else some none

/-- `LeafPage::Lookup`: `value`, when the call returns `true`. -/
def checkedLookup (p : LeafPage κ ν) (key : κ) : Option (Option ν) :=
  p.checkedLookupLoop key (p.size + 1) 0 (p.size - 1)

/-- `LeafPage::RemoveAndDeleteRecord`: what it returns, and the page. -/
def checkedRemove (p : LeafPage κ ν) (key : κ) : Option (Int × LeafPage κ ν) := do
  let index ← p.checkedKeyIndex key
  -- the key is not read behind the last slot
  if index < p.size then
    if (← p.readKey index) = key then
      let p := { p with
        data := Lib.shiftDown p.data index (p.size - 1 - index), size := p.size - 1 }
      return (p.size, p)
  return (-1, p)

/-- What the searches are for: `below` is the number of keys below the given one. -/
structure SearchesAs (p : LeafPage κ ν) (key : κ) (value : ν) : Prop where
  keyIndex : p.checkedKeyIndex key = some (p.pairs.countP (·.1 < key))
  lookup : p.checkedLookup key = some (p.pairs.lookup key)
  /-- `Insert` of an absent key adds its pair, and the keys increase. -/
  insert : key ∉ p.pairs.map Prod.fst →
    ∃ p', p.checkedInsert key value = some (p.size + 1, p') ∧
      p'.pairs.Perm ((key, value) :: p.pairs) ∧ (p'.pairs.map Prod.fst).Pairwise (· < ·)
  /-- `RemoveAndDeleteRecord` of an absent key leaves the page as it is. -/
  removeAbsent : key ∉ p.pairs.map Prod.fst → p.checkedRemove key = some (-1, p)
  /-- Else it leaves the pairs with other keys. -/
  remove : key ∈ p.pairs.map Prod.fst →
    ∃ p', p.checkedRemove key = some ((p.size : Int) - 1, p') ∧
      p'.pairs = p.pairs.filter (·.1 ≠ key)

end LeafPage

namespace InternalPage

/-- `KeyAt` of a slot that has a key. -/
def readKey (p : InternalPage κ) (index : Int) : Option κ :=
  if 1 ≤ index ∧ index < p.size then some (p.keyAt index.toNat) else none

/-- `ValueAt` of a slot in use. -/
def readValue (p : InternalPage κ) (index : Int) : Option PageId :=
  if 0 ≤ index ∧ index < p.size then some (p.valueAt index.toNat) else none

variable [LinearOrder κ]

/-- The loop of `InternalPage::Lookup`. -/
def checkedLookupLoop (p : InternalPage κ) (key : κ) : Nat → Int → Int → Option PageId
  | 0, _, _ => none
  | fuel + 1, left, right =>
    if left ≤ right then do
      let mid := (left + right) / 2
      -- the second comparison is not made when the first one fails
      if (← if (← p.readKey mid) ≤ key then (p.readKey (mid + 1)).map fun k => decide (key < k)
          else some false) then p.readValue mid
      else if key < (← p.readKey mid) then checkedLookupLoop p key fuel left (mid - 1)
      else checkedLookupLoop p key fuel (mid + 1) right
    else p.readValue left

/-- `InternalPage::Lookup`. -/
def checkedLookup (p : InternalPage κ) (key : κ) : Option PageId := do
  if key < (← p.readKey 1) then p.readValue 0
  else if (← p.readKey (p.size - 1)) ≤ key then p.readValue (p.size - 1)
  else p.checkedLookupLoop key (p.size + 1) 1 (p.size - 2)

/-- The keys of the page increase: those from slot 1 on. -/
def Increasing (p : InternalPage κ) : Prop :=
  ∀ i j, 1 ≤ i → i < j → j < p.size → p.keyAt i < p.keyAt j

/-- What the search is for: child 0 below the first key, and else the child behind the largest key
that is not above the given one. -/
def SearchesAs (p : InternalPage κ) (key : κ) : Prop :=
  (key < p.keyAt 1 → p.checkedLookup key = some (p.valueAt 0)) ∧
    (p.keyAt 1 ≤ key → ∃ i, IsGreatest {i | 1 ≤ i ∧ i < p.size ∧ p.keyAt i ≤ key} i ∧
      p.checkedLookup key = some (p.valueAt i))

end InternalPage

end DisMiniSql.MiniSql
