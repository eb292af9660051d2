import DisMiniSql.MiniSql.Storage.TableHeap
import Mathlib.Order.Lattice

/-!
# `DisMiniSql.MiniSql.Index.BPlusTreeIndex`: `BPlusTreeIndex::ScanKey`

The lookups of `index/b_plus_tree_index.cpp` in an index on one column. A field is `none` when it
is null. The comparisons of `record/types.cpp` answer `kNull` if a side is null, and to
`KeyManager::CompareKeys` a null is equal to everything.

An index is the list of its leaves in the order of `next_page_id`, and for each key the leaf to
which `FindLeafPage` leads. An `IndexIterator` is the number of an entry along the leaves, and
`none` is `End()`.
-/

set_option autoImplicit false

namespace DisMiniSql.MiniSql

variable {α : Type} [LinearOrder α]

/-- `CmpBool`. -/
inductive CmpBool
  | kFalse
  | kTrue
  | kNull
  deriving DecidableEq, Repr

/-- A comparison of two fields. -/
def compareFields (r : α → α → Bool) : Option α → Option α → CmpBool
  | some a, some b => if r a b then .kTrue else .kFalse
  | _, _ => .kNull

/-- `ComparisonExpression::comp_type_`. -/
inductive ComparisonType
  | eq
  | ne
  | lt
  | le
  | gt
  | ge
  | is
  | not
  deriving DecidableEq, Repr

/-- `ComparisonExpression::PerformComparison`. -/
def ComparisonType.performComparison (compType : ComparisonType) (lhs rhs : Option α) : CmpBool :=
  match compType with
  | .eq => compareFields (fun a b => decide (a = b)) lhs rhs
  | .ne => compareFields (fun a b => decide (a ≠ b)) lhs rhs
  | .lt => compareFields (fun a b => decide (a < b)) lhs rhs
  | .le => compareFields (fun a b => decide (a ≤ b)) lhs rhs
  | .gt => compareFields (fun a b => decide (b < a)) lhs rhs
  | .ge => compareFields (fun a b => decide (b ≤ a)) lhs rhs
  | .is => if lhs.isNone then .kTrue else .kFalse
  | .not => if lhs.isNone then .kFalse else .kTrue

/-- `KeyManager::CompareKeys`, for a key of one field. -/
def compareKeys (lhs rhs : Option α) : Int :=
  if compareFields (fun a b => decide (a < b)) lhs rhs = .kTrue then -1
  else if compareFields (fun a b => decide (b < a)) lhs rhs = .kTrue then 1
  else 0

/-- The entries of a leaf page. -/
abbrev LeafEntries (α : Type) := List (Option α × RowId)

namespace LeafEntries

/-- `LeafPage::KeyAt`. -/
def keyAt (leaf : LeafEntries α) (index : Nat) : Option α := (leaf[index]?).bind Prod.fst

/-- The loop of `LeafPage::KeyIndex`. -/
def keyIndexLoop (leaf : LeafEntries α) (key : Option α) : Nat → Nat → Nat → Nat
  | 0, _, right => right
  | fuel + 1, left, right =>
    if left < right then
      let mid := (left + right) / 2
      if compareKeys (keyAt leaf mid) key < 0 then keyIndexLoop leaf key fuel (mid + 1) right
      else keyIndexLoop leaf key fuel left mid
    else right

/-- `LeafPage::KeyIndex`. -/
def keyIndex (leaf : LeafEntries α) (key : Option α) : Nat :=
  keyIndexLoop leaf key leaf.length 0 leaf.length

/-- The loop of `LeafPage::Lookup`, between `left` and before `right`. -/
def lookupLoop (leaf : LeafEntries α) (key : Option α) : Nat → Nat → Nat → Option RowId
  | 0, _, _ => none
  | fuel + 1, left, right =>
    if left < right then
      let index := (left + (right - 1)) / 2
      if compareKeys (keyAt leaf index) key = 0 then (leaf[index]?).map Prod.snd
      else if compareKeys (keyAt leaf index) key < 0 then lookupLoop leaf key fuel (index + 1) right
      else lookupLoop leaf key fuel left index
    else none

/-- `LeafPage::Lookup`. -/
def lookup (leaf : LeafEntries α) (key : Option α) : Option RowId :=
  lookupLoop leaf key leaf.length 0 leaf.length

end LeafEntries

/-- `BPlusTreeIndex` on one column. -/
structure BPlusTreeIndex (α : Type) where
  /-- the leaves along `next_page_id` -/
  leaves : List (LeafEntries α)
  /-- the leaf to which `FindLeafPage` leads -/
  leafOf : Option α → Nat

namespace BPlusTreeIndex

/-- The entries along the leaves. -/
def items (i : BPlusTreeIndex α) : LeafEntries α := i.leaves.flatten

/-- `BPlusTree::FindLeafPage`; `none` for an empty tree. -/
def findLeafPage (i : BPlusTreeIndex α) (key : Option α) : Option (LeafEntries α) :=
  i.leaves[i.leafOf key]?

/-- `BPlusTree::GetValue`. -/
def getValue (i : BPlusTreeIndex α) (key : Option α) : Option RowId :=
  (i.findLeafPage key).bind (fun leaf => leaf.lookup key)

/-- `BPlusTree::Begin(key)`. A key behind the last entry of its leaf gives `End()`, also where
another leaf follows. -/
def beginAt (i : BPlusTreeIndex α) (key : Option α) : Option Nat :=
  match i.findLeafPage key with
  | none => none
  | some leaf =>
    if leaf.keyIndex key = leaf.length then none
    else some ((i.leaves.take (i.leafOf key)).flatten.length + leaf.keyIndex key)

/-- The entries from an iterator to `End()`. -/
def itemsFrom (i : BPlusTreeIndex α) (iter : Option Nat) : LeafEntries α :=
  (iter.map (fun n => i.items.drop n)).getD []

/-- The entries from `Begin()` to an iterator. -/
def itemsTo (i : BPlusTreeIndex α) (stop : Option Nat) : LeafEntries α :=
  (stop.map (fun n => i.items.take n)).getD i.items

/-- `BPlusTreeIndex::ScanKey`. -/
def scanKey (i : BPlusTreeIndex α) (key : Option α) (compareOperator : ComparisonType) :
    List RowId :=
  match compareOperator with
  | .eq => (i.getValue key).toList
  | .gt =>
    let iter := i.beginAt key
    let iter := if (i.getValue key).isSome then iter.map (fun n => n + 1) else iter
    (i.itemsFrom iter).map Prod.snd
  | .ge => (i.itemsFrom (i.beginAt key)).map Prod.snd
  | .lt => (i.itemsTo (i.beginAt key)).map Prod.snd
  | .le => (i.itemsTo (i.beginAt key)).map Prod.snd ++ (i.getValue key).toList
  | .ne =>
    match i.getValue key with
    | none => i.items.map Prod.snd
    | some rid => (i.items.map Prod.snd).erase rid
  | .is => []
  | .not => []

end BPlusTreeIndex

end DisMiniSql.MiniSql
