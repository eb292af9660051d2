import DisMiniSql.MiniSql.Page.BPlusTreeLeafPage
import DisMiniSql.MiniSql.Page.BPlusTreeInternalPage
import DisMiniSql.MiniSql.Page.IndexRootsPage

/-!
# `DisMiniSql.MiniSql.Index.BPlusTree`: `BPlusTree`

The methods of `index/b_plus_tree.cpp` over a page store. A pointer to a page is the id of the
page, and the page is fetched where the source goes through the pointer.

A method is `none` when it follows a pointer to no page, casts a page to the wrong kind, or
runs out of fuel. The fuel bounds the loop that walks down the tree and the recursions that
walk up. It starts at the number of live pages, and a tree is never higher than that.

Pins are left out: without eviction they change nothing.
-/

set_option autoImplicit false

namespace DisMiniSql.MiniSql

/-- `BPlusTree`, with the page store it works on. -/
structure BPlusTree (κ ν : Type) where
  indexId : IndexId
  rootPageId : PageId
  leafMaxSize : Nat
  internalMaxSize : Nat
  bpm : PageStore κ ν
  /-- The page `INDEX_ROOTS_PAGE_ID`. -/
  indexRoots : IndexRootsPage

namespace BPlusTree
variable {κ ν : Type}

/-- `BPlusTree::BPlusTree`, for an index that has no root yet, over a store without pages. -/
def new (leafMaxSize internalMaxSize : Nat) : BPlusTree κ ν where
  indexId := 0
  rootPageId := INVALID_PAGE_ID
  leafMaxSize := leafMaxSize
  internalMaxSize := internalMaxSize
  bpm := { allocator := .increasing, live := [], pages := fun _ => none }
  indexRoots := { roots := [] }

/-- A write through the pointer to a page. -/
def setPage (t : BPlusTree κ ν) (p : PageId) (page : BPlusTreePage κ ν) : BPlusTree κ ν :=
  { t with bpm := t.bpm.setPage p page }

/-- The fuel of a call. -/
def fuel (t : BPlusTree κ ν) : Nat :=
  t.bpm.live.length

/-- `BPlusTree::IsEmpty`. -/
def isEmpty (t : BPlusTree κ ν) : Bool :=
  t.rootPageId = INVALID_PAGE_ID

/-! ### Search -/

/-- The loop of `BPlusTree::FindLeafPage`. `child` picks the child to go to. The result is the
page and its id. -/
def findLeafLoop (bpm : PageStore κ ν) (child : InternalPage κ → PageId) :
    Nat → PageId → Option (PageId × LeafPage κ ν)
  | 0, _ => none
  | fuel + 1, pageId =>
    match bpm.fetchPage pageId with
    | none => none
    | some (.leaf leaf) => some (pageId, leaf)
    | some (.internal node) => findLeafLoop bpm child fuel (child node)

/-- `BPlusTree::FindLeafPage(key)`. The inner `none` is the null pointer. -/
def findLeafPage [LinearOrder κ] (t : BPlusTree κ ν) (key : κ) :
    Option (Option (PageId × LeafPage κ ν)) :=
  if t.isEmpty then some none
  else (findLeafLoop t.bpm (fun node => node.lookup key) t.fuel t.rootPageId).map some

/-- `BPlusTree::FindLeafPage(nullptr, root_page_id_, true)`. -/
def findLeftMostLeafPage (t : BPlusTree κ ν) : Option (Option (PageId × LeafPage κ ν)) :=
  if t.isEmpty then some none
  else (findLeafLoop t.bpm (fun node => node.valueAt 0) t.fuel t.rootPageId).map some

/-- `BPlusTree::GetValue`: the value, when the key is there. -/
def getValue [LinearOrder κ] (t : BPlusTree κ ν) (key : κ) : Option (Option ν) := do
  if t.isEmpty then return none
  match ← t.findLeafPage key with
  | none => return none
  | some (_, leaf) => return leaf.lookup key

/-! ### Insertion -/

/-- `BPlusTree::UpdateRootPageId`. -/
def updateRootPageId (t : BPlusTree κ ν) (insertRecord : Bool) : BPlusTree κ ν :=
  if insertRecord then
    { t with indexRoots := (t.indexRoots.insert t.indexId t.rootPageId).2 }
  else { t with indexRoots := (t.indexRoots.update t.indexId t.rootPageId).2 }

/-- `BPlusTree::StartNewTree`. -/
def startNewTree [LinearOrder κ] [Inhabited κ] [Inhabited ν] (t : BPlusTree κ ν) (key : κ)
    (value : ν) : BPlusTree κ ν :=
  let (pageId, bpm) := t.bpm.newPage
  let t := updateRootPageId { t with bpm := bpm, rootPageId := pageId } true
  let root := LeafPage.init pageId INVALID_PAGE_ID t.leafMaxSize
  t.setPage pageId (.leaf (root.insert key value))

/-- `BPlusTree::Split(LeafPage *)`: the new page, which is on the right, and its id. -/
def splitLeaf [Inhabited κ] [Inhabited ν] (t : BPlusTree κ ν) (nodeId : PageId)
    (node : LeafPage κ ν) : (PageId × LeafPage κ ν) × BPlusTree κ ν :=
  let (pageId, bpm) := t.bpm.newPage
  let newNode := LeafPage.init pageId node.parentPageId node.maxSize
  let (node, newNode) := node.moveHalfTo newNode
  let newNode := { newNode with nextPageId := node.nextPageId }
  let node := { node with nextPageId := newNode.pageId }
  ((pageId, newNode),
    ({ t with bpm := bpm }.setPage nodeId (.leaf node)).setPage pageId (.leaf newNode))

/-- `BPlusTree::Split(InternalPage *)`: the new page, which is on the right, and its id. -/
def splitInternal [Inhabited κ] (t : BPlusTree κ ν) (nodeId : PageId) (node : InternalPage κ) :
    (PageId × InternalPage κ) × BPlusTree κ ν :=
  let (pageId, bpm) := t.bpm.newPage
  let newNode := InternalPage.init pageId node.parentPageId node.maxSize
  let (node, newNode, bpm) := node.moveHalfTo newNode bpm
  ((pageId, newNode),
    ({ t with bpm := bpm }.setPage nodeId (.internal node)).setPage pageId (.internal newNode))

/-- The root branch of `BPlusTree::InsertIntoParent`: a new root over the two pages. -/
def insertIntoNewRoot [Inhabited κ] (t : BPlusTree κ ν) (oldId : PageId)
    (oldNode : BPlusTreePage κ ν) (key : κ) (newId : PageId) (newNode : BPlusTreePage κ ν) :
    BPlusTree κ ν :=
  let (pageId, bpm) := t.bpm.newPage
  let root := InternalPage.init pageId INVALID_PAGE_ID t.internalMaxSize
  let root := (root.setKeyAt 0 oldNode.firstKey).setValueAt 0 oldNode.pageId
  let root := (root.setKeyAt 1 key).setValueAt 1 newNode.pageId
  let root := { root with size := 2 }
  let t := { t with bpm := bpm }.setPage pageId (.internal root)
  let t := t.setPage oldId (oldNode.setParentPageId pageId)
  let t := t.setPage newId (newNode.setParentPageId pageId)
  updateRootPageId { t with rootPageId := pageId } false

/-- `BPlusTree::InsertIntoParent`. -/
def insertIntoParent [Inhabited κ] :
    Nat → BPlusTree κ ν → PageId → κ → PageId → Option (BPlusTree κ ν)
  | 0, _, _, _, _ => none
  | fuel + 1, t, oldId, key, newId => do
    let oldNode ← t.bpm.fetchPage oldId
    let newNode ← t.bpm.fetchPage newId
    if oldNode.isRootPage then
      return t.insertIntoNewRoot oldId oldNode key newId newNode
    else
      let parentId := oldNode.parentPageId
      let parent ← t.bpm.fetchInternal parentId
      let parent := parent.insertNodeAfter oldNode.pageId key newNode.pageId
      let t := t.setPage parentId (.internal parent)
      if parent.size > parent.maxSize then
        let ((newParentId, newParent), t) := t.splitInternal parentId parent
        insertIntoParent fuel t parentId (newParent.keyAt 0) newParentId
      else return t

/-- `BPlusTree::InsertIntoLeaf`. -/
def insertIntoLeaf [LinearOrder κ] [Inhabited κ] [Inhabited ν] (t : BPlusTree κ ν) (key : κ)
    (value : ν) : Option (Bool × BPlusTree κ ν) := do
  match ← t.findLeafPage key with
  | none => return (false, t)
  | some (leafId, leaf) =>
    if (leaf.lookup key).isSome then return (false, t)
    else
      let leaf := leaf.insert key value
      let t := t.setPage leafId (.leaf leaf)
      if leaf.size > t.leafMaxSize then
        let ((newId, newLeaf), t) := t.splitLeaf leafId leaf
        let t ← insertIntoParent t.fuel t leafId (newLeaf.keyAt 0) newId
        return (true, t)
      else return (true, t)

/-- `BPlusTree::Insert`: whether the key was new, and the tree afterwards. -/
def insert [LinearOrder κ] [Inhabited κ] [Inhabited ν] (t : BPlusTree κ ν) (key : κ) (value : ν) :
    Option (Bool × BPlusTree κ ν) :=
  if t.isEmpty then some (true, t.startNewTree key value)
  else t.insertIntoLeaf key value

/-! ### Removal -/

/-- `BPlusTree::AdjustRoot`. -/
def adjustRoot (t : BPlusTree κ ν) (rootId : PageId) (oldRootNode : BPlusTreePage κ ν) :
    Option (BPlusTree κ ν) :=
  if oldRootNode.size > 1 then some t
  else
    match oldRootNode with
    | .leaf _ =>
      some { t with rootPageId := INVALID_PAGE_ID, bpm := t.bpm.deletePage rootId }
    | .internal root => do
      let child ← t.bpm.fetchPage (root.valueAt 0)
      let newRootId := if child.size = 0 then root.valueAt 1 else root.valueAt 0
      let bpm := t.bpm.setParent INVALID_PAGE_ID newRootId
      return { t with rootPageId := newRootId, bpm := bpm.deletePage rootId }

/-- `BPlusTree::Redistribute(LeafPage *, LeafPage *, int)`. -/
def redistributeLeaf (t : BPlusTree κ ν) (neighborId : PageId) (neighbor : LeafPage κ ν)
    (nodeId : PageId) (node : LeafPage κ ν) (index : Nat) : Option (BPlusTree κ ν) := do
  let parentId := node.parentPageId
  let parent ← t.bpm.fetchInternal parentId
  if index = 0 then
    let (neighbor, node) := neighbor.moveFirstToEndOf node
    let t := (t.setPage neighborId (.leaf neighbor)).setPage nodeId (.leaf node)
    return t.setPage parentId (.internal (parent.setKeyAt 1 (neighbor.keyAt 0)))
  else
    let (neighbor, node) := neighbor.moveLastToFrontOf node
    let t := (t.setPage neighborId (.leaf neighbor)).setPage nodeId (.leaf node)
    return t.setPage parentId (.internal (parent.setKeyAt index (node.keyAt 0)))

/-- `BPlusTree::Redistribute(InternalPage *, InternalPage *, int)`. -/
def redistributeInternal (t : BPlusTree κ ν) (neighborId : PageId) (neighbor : InternalPage κ)
    (nodeId : PageId) (node : InternalPage κ) (index : Nat) : Option (BPlusTree κ ν) := do
  let parentId := node.parentPageId
  let parent ← t.bpm.fetchInternal parentId
  if index = 0 then
    let (neighbor, node, bpm) := neighbor.moveFirstToEndOf node (parent.keyAt 1) t.bpm
    let t := { t with bpm := bpm }.setPage neighborId (.internal neighbor)
    let t := t.setPage nodeId (.internal node)
    return t.setPage parentId (.internal (parent.setKeyAt 1 (neighbor.keyAt 0)))
  else
    let (neighbor, node, bpm) := neighbor.moveLastToFrontOf node (parent.keyAt index) t.bpm
    let t := { t with bpm := bpm }.setPage neighborId (.internal neighbor)
    let t := t.setPage nodeId (.internal node)
    return t.setPage parentId (.internal (parent.setKeyAt index (node.keyAt 0)))

/-- `BPlusTree::Redistribute`, of the kind of page it is. -/
def redistribute (t : BPlusTree κ ν) (neighborId : PageId) (neighbor : BPlusTreePage κ ν)
    (nodeId : PageId) (node : BPlusTreePage κ ν) (index : Nat) : Option (BPlusTree κ ν) :=
  match neighbor, node with
  | .leaf neighbor, .leaf node => t.redistributeLeaf neighborId neighbor nodeId node index
  | .internal neighbor, .internal node =>
    t.redistributeInternal neighborId neighbor nodeId node index
  | _, _ => none

/-- The part of `BPlusTree::Coalesce` before the recursion. The records of `node` go to
`neighbor`, which is on its left at the slot `index` of the parent, and `node` is deleted. The
result has the parent as it is then. -/
def coalesce (t : BPlusTree κ ν) (neighborId : PageId) (neighbor : BPlusTreePage κ ν)
    (nodeId : PageId) (node : BPlusTreePage κ ν) (parentId : PageId) (parent : InternalPage κ)
    (index : Nat) : Option (InternalPage κ × BPlusTree κ ν) :=
  match neighbor, node with
  | .leaf neighbor, .leaf node =>
    let (node, neighbor) := node.moveAllTo neighbor
    let t := (t.setPage neighborId (.leaf neighbor)).setPage nodeId (.leaf node)
    let t := { t with bpm := t.bpm.deletePage node.pageId }
    let parent := parent.remove index
    some (parent, t.setPage parentId (.internal parent))
  | .internal neighbor, .internal node =>
    let (node, neighbor, bpm) := node.moveAllTo neighbor (parent.keyAt (index + 1)) t.bpm
    let t := { t with bpm := bpm }.setPage neighborId (.internal neighbor)
    let t := t.setPage nodeId (.internal node)
    let t := { t with bpm := t.bpm.deletePage node.pageId }
    let parent := parent.remove index
    some (parent, t.setPage parentId (.internal parent))
  | _, _ => none

/-- `GetMaxSize`, of the kind of page it is. -/
def maxSizeOf : BPlusTreePage κ ν → Nat
  | .leaf p => p.maxSize
  | .internal p => p.maxSize

/-- `BPlusTree::CoalesceOrRedistribute`, for both kinds of pages, with the end of
`BPlusTree::Coalesce` that calls it for the parent. -/
def coalesceOrRedistribute : Nat → BPlusTree κ ν → PageId → Option (BPlusTree κ ν)
  | 0, _, _ => none
  | fuel + 1, t, nodeId => do
    let node ← t.bpm.fetchPage nodeId
    if node.isRootPage then t.adjustRoot nodeId node
    else
      let parentId := node.parentPageId
      let parent ← t.bpm.fetchInternal parentId
      let index ← parent.findValue node.pageId
      let siblingIndex := if index = 0 then 1 else index - 1
      let siblingId := parent.valueAt siblingIndex
      let sibling ← t.bpm.fetchPage siblingId
      if node.size + sibling.size < maxSizeOf node then
        let (parent, t) ←
          if index = 0 then t.coalesce nodeId node siblingId sibling parentId parent index
          else t.coalesce siblingId sibling nodeId node parentId parent siblingIndex
        if parent.size < parent.minSize then coalesceOrRedistribute fuel t parentId
        else return t
      else t.redistribute siblingId sibling nodeId node index

/-- The part of `BPlusTree::Remove` that writes the first key of the leaf into its parent, and
into its grandparent when the leaf is the first child. -/
def updateParentKeys (t : BPlusTree κ ν) (leafId : PageId) (leaf : LeafPage κ ν) :
    Option (BPlusTree κ ν) := do
  let parentId := leaf.parentPageId
  let parent ← t.bpm.fetchInternal parentId
  match parent.findValue leafId with
  | none => return t
  | some i =>
    let parent := parent.setKeyAt i (leaf.keyAt 0)
    let t := t.setPage parentId (.internal parent)
    if i = 0 ∧ !parent.isRootPage then
      let grandParentId := parent.parentPageId
      let grandParent ← t.bpm.fetchInternal grandParentId
      match grandParent.findValue parent.pageId with
      | none => return t
      | some j =>
        return t.setPage grandParentId (.internal (grandParent.setKeyAt j (parent.keyAt 0)))
    else return t

/-- `BPlusTree::Remove`. -/
def remove [LinearOrder κ] (t : BPlusTree κ ν) (key : κ) : Option (BPlusTree κ ν) := do
  if t.isEmpty then return t
  match ← t.findLeafPage key with
  | none => return t
  | some (leafId, leaf) =>
    let leaf := leaf.removeAndDeleteRecord key
    let t := t.setPage leafId (.leaf leaf)
    let t ← if leaf.isRootPage then some t else t.updateParentKeys leaf.pageId leaf
    if leaf.size < leaf.minSize then coalesceOrRedistribute t.fuel t leafId
    else return t

end BPlusTree

end DisMiniSql.MiniSql
