import DisMiniSql.MiniSql.Index.BPlusTree

/-!
# `DisMiniSql.MiniSql.Index.RootPage`: the root page id of an index, in memory and on its page

`BPlusTree::BPlusTree` takes the root page id of an index from the page `INDEX_ROOTS_PAGE_ID`, and
`UpdateRootPageId` writes it there. `AdjustRoot` replaces `root_page_id_` and does not call it.

`dropsRoot` says on the state before a `Remove` that it comes to the part of `AdjustRoot` that
replaces the id.
-/

set_option autoImplicit false

namespace DisMiniSql.MiniSql.BPlusTree

variable {κ ν : Type}

/-- `BPlusTree::BPlusTree`, over the pages of an index that was open before. -/
def reopen (t : BPlusTree κ ν) : BPlusTree κ ν :=
  { t with rootPageId := (t.indexRoots.getRootId t.indexId).getD INVALID_PAGE_ID }

/-- `CoalesceOrRedistribute` below the root, up to the call for the parent: the page that this call
is for, if there is one. -/
def shrink (t : BPlusTree κ ν) (nodeId : PageId) (node : BPlusTreePage κ ν) :
    Option (Option PageId × BPlusTree κ ν) := do
  let parentId := node.parentPageId
  let parent ← t.bpm.fetchInternal parentId
  let index ← parent.findValue node.pageId
  let siblingIndex := if index = 0 then 1 else index - 1
  let siblingId := parent.valueAt siblingIndex
  let sibling ← t.bpm.fetchPage siblingId
  if node.size + sibling.size < maxSizeOf node then
    let (parent, t) ←
      if index = 0 then t.coalesce nodeId node siblingId sibling parentId parent index
      else t.coalesce siblingId sibling nodeId node parentId parent siblingIndex
    if parent.size < parent.minSize then return (some parentId, t)
    else return (none, t)
  else (t.redistribute siblingId sibling nodeId node index).map fun t => (none, t)

/-- The merges that begin at a page come to a root that has one entry at most. -/
def climbDropsRoot : Nat → BPlusTree κ ν → PageId → Bool
  | 0, _, _ => false
  | fuel + 1, t, nodeId =>
    match t.bpm.fetchPage nodeId with
    | none => false
    | some node =>
      if node.isRootPage then node.size ≤ 1
      else
        match t.shrink nodeId node with
        | some (some parentId, t) => climbDropsRoot fuel t parentId
        | _ => false

/-- `Remove` comes to a root that is too small and has one entry at most. -/
def dropsRoot [LinearOrder κ] (t : BPlusTree κ ν) (key : κ) : Bool :=
  match t.findLeafPage key with
  | some (some (leafId, leaf)) =>
    let leaf := leaf.removeAndDeleteRecord key
    let t := t.setPage leafId (.leaf leaf)
    match (if leaf.isRootPage then some t else t.updateParentKeys leaf.pageId leaf) with
    | some t => leaf.size < leaf.minSize && climbDropsRoot t.fuel t leafId
    | none => false
  | _ => false

end DisMiniSql.MiniSql.BPlusTree
