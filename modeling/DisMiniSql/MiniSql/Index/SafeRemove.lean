import DisMiniSql.MiniSql.Index.TreeStructure

/-!
# `DisMiniSql.MiniSql.Index.SafeRemove`: when `BPlusTree::Remove` does no damage

`Remove` goes wrong in three places.

* `AdjustRoot` drops a root leaf that still has one record, when the minimum size of a leaf is
  two or more.
* `InternalPage::MoveAllTo` and `InternalPage::MoveLastToFrontOf` do not use the separator of
  the parent. They take the key in slot 0 of the right page, and `Remove` and `Insert` keep this
  key up to date only partly.
* An internal page with a maximum size of three has the minimum size one, so it can be left with
  one child.

`BPlusTree.safeRemove` is the condition on the state before the call that it does none of this.
It follows the pages that the call will merge, from the leaf of the key up.
-/

set_option autoImplicit false

namespace DisMiniSql.MiniSql

variable {κ ν : Type}

namespace PageStore

/-- The key in slot 0 of the page `right` separates the keys below its left sibling from its
own, the key `x` left out. -/
def slotSeparates [LinearOrder κ] (s : PageStore κ ν) (x : κ) (h : Nat) (left right : PageId) :
    Bool :=
  match s.fetchInternal right with
  | some n => (s.keysUnder h left).all (fun k => k = x || k < n.keyAt 0) &&
      (s.keysUnder h right).all (fun k => k = x || n.keyAt 0 ≤ k)
  | none => true

/-- The internal page `p`, `h` levels above the leaf, may lose one child. When it gets too small,
the key in slot 0 of the right one of the two pages that are merged separates them, and so does
that of the page that gets a child from its left sibling. Otherwise it has two children left.

`fresh` says that `Remove` has just written slot 0 of `p`: it writes the first key of the leaf
into its parent, and into its grandparent when the leaf is the first child. -/
def safeShrink [LinearOrder κ] (s : PageStore κ ν) (x : κ) :
    Nat → Nat → Bool → PageId → Bool
  | 0, _, _, _ => true
  | fuel + 1, h, fresh, p =>
    match s.fetchInternal p with
    | none => true
    | some node =>
      if node.size - 1 < node.minSize then
        if node.isRootPage then true
        else
          match s.fetchInternal node.parentPageId with
          | none => true
          | some parent =>
            match parent.findValue p with
            | none => true
            | some index =>
              let siblingId := parent.valueAt (if index = 0 then 1 else index - 1)
              match s.fetchInternal siblingId with
              | none => true
              | some sibling =>
                let merges := node.size - 1 + sibling.size < node.maxSize
                (if index = 0 then !decide merges || s.slotSeparates x h p siblingId
                  else fresh || s.slotSeparates x h siblingId p) &&
                  (!decide merges || safeShrink s x fuel (h + 1) (h = 1 && fresh && index = 0)
                    node.parentPageId)
      else 2 ≤ node.size - 1

end PageStore

/-- `Remove(x)` keeps the index in order. -/
def BPlusTree.safeRemove [LinearOrder κ] (t : BPlusTree κ ν) (x : κ) : Bool :=
  match t.findLeafPage x with
  | some (some (leafId, leaf)) =>
    let size := if (leaf.lookup x).isSome then leaf.size - 1 else leaf.size
    if size < leaf.minSize then
      if leaf.isRootPage then size ≠ 1
      else
        match t.bpm.fetchInternal leaf.parentPageId with
        | none => true
        | some parent =>
          match parent.findValue leafId with
          | none => true
          | some index =>
            match t.bpm.fetchLeaf (parent.valueAt (if index = 0 then 1 else index - 1)) with
            | none => true
            | some sibling =>
              !decide (size + sibling.size < leaf.maxSize) ||
                t.bpm.safeShrink x t.fuel 1 (index = 0) leaf.parentPageId
    else true
  | _ => true

end DisMiniSql.MiniSql
