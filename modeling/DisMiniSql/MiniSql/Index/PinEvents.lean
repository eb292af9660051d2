import DisMiniSql.Lib.Pins
import DisMiniSql.MiniSql.Index.IndexIterator

/-!
# `DisMiniSql.MiniSql.Index.PinEvents`: the calls of the buffer pool in `BPlusTree`

Every method of `index/b_plus_tree.cpp` and `index/index_iterator.cpp` once more, as the list of its
calls of the buffer pool in their order, with the uses of pages between them. `touch` is one or more
accesses through the pointer to a page.

The calls are those on the pages that the methods of `BPlusTree` work on, and the states between the
parts of a method are theirs. `none` is where the method has no result: a page that is not there or
of the wrong kind, or the end of the fuel.
-/

set_option autoImplicit false

namespace DisMiniSql.MiniSql

open DisMiniSql.Lib (PinEvent)

variable {κ ν : Type}

/-- The calls of a method, and its uses of pages. -/
abbrev Events := List (PinEvent PageId)

/-- `FetchPage`. -/
def fetchPage (p : PageId) : PinEvent PageId := .take p

/-- `NewPage`, which pins the new page. -/
def newPage (p : PageId) : PinEvent PageId := .take p

/-- `UnpinPage`. -/
def unpinPage (p : PageId) : PinEvent PageId := .give p

/-- `DeletePage` of a page that is in the pool. -/
def deletePage (p : PageId) : PinEvent PageId := .drop p

/-- The bytes of the page are read or written. -/
def touch (p : PageId) : PinEvent PageId := .use p

/-- `INDEX_ROOTS_PAGE_ID`. -/
def INDEX_ROOTS_PAGE_ID : PageId := 1

namespace BPlusTree

/-! ### Search -/

/-- The loop of `FindLeafPage`. The leaf stays pinned. -/
def findLeafEvents (bpm : PageStore κ ν) (child : InternalPage κ → PageId) :
    Nat → PageId → Option Events
  | 0, _ => none
  | fuel + 1, pageId =>
    match bpm.fetchPage pageId with
    | none => none
    | some (.leaf _) => some [fetchPage pageId, touch pageId]
    | some (.internal node) =>
      (findLeafEvents bpm child fuel (child node)).map (fun rest =>
        [fetchPage pageId, touch pageId, unpinPage node.pageId] ++ rest)

/-- `FindLeafPage(key)` of a tree that is not empty. -/
def findLeafPageEvents [LinearOrder κ] (t : BPlusTree κ ν) (key : κ) : Option Events :=
  findLeafEvents t.bpm (fun node => node.lookup key) t.fuel t.rootPageId

/-- `GetValue`. -/
def getValueEvents [LinearOrder κ] (t : BPlusTree κ ν) (key : κ) : Option Events := do
  match ← t.findLeafPage key with
  | none => return []
  | some (leafId, leaf) =>
    let found ← t.findLeafPageEvents key
    return found ++ [touch leafId, unpinPage leaf.pageId]

/-! ### Insertion -/

/-- `UpdateRootPageId`. -/
def updateRootPageIdEvents : Events :=
  [fetchPage INDEX_ROOTS_PAGE_ID, touch INDEX_ROOTS_PAGE_ID, unpinPage INDEX_ROOTS_PAGE_ID]

/-- `StartNewTree`. -/
def startNewTreeEvents (t : BPlusTree κ ν) : Events :=
  let pageId := t.bpm.newPage.1
  newPage pageId :: updateRootPageIdEvents ++ [touch pageId, unpinPage pageId]

/-- The loop of `InternalPage::CopyNFrom` that gives the children a new parent. Their ids are read
from the page `source`, and the id of the new parent from the page `recipient`. -/
def adoptEvents (source recipient : PageId) (children : List PageId) : Events :=
  children.flatMap (fun child =>
    [touch source, fetchPage child, touch child, touch recipient, unpinPage child])

/-- `Split(LeafPage *)`. -/
def splitLeafEvents (t : BPlusTree κ ν) (nodeId : PageId) : Events :=
  let pageId := t.bpm.newPage.1
  [newPage pageId, touch nodeId, touch pageId, touch nodeId, touch pageId, unpinPage pageId]

/-- `Split(InternalPage *)`. -/
def splitInternalEvents (t : BPlusTree κ ν) (nodeId : PageId) (node : InternalPage κ) : Events :=
  let pageId := t.bpm.newPage.1
  let moved := (node.pairs.drop (node.size - node.size / 2)).map Prod.snd
  [newPage pageId, touch nodeId, touch pageId] ++ adoptEvents nodeId pageId moved ++
    [touch nodeId, touch pageId, unpinPage pageId]

/-- `InsertIntoParent`. The key is read from the new page. -/
def insertIntoParentEvents [Inhabited κ] :
    Nat → BPlusTree κ ν → PageId → κ → PageId → Option Events
  | 0, _, _, _, _ => none
  | fuel + 1, t, oldId, key, newId => do
    let oldNode ← t.bpm.fetchPage oldId
    let newNode ← t.bpm.fetchPage newId
    if oldNode.isRootPage then
      let pageId := t.bpm.newPage.1
      return [touch oldId, newPage pageId, touch oldId, touch newId, touch pageId] ++
        updateRootPageIdEvents ++ [touch pageId, unpinPage pageId]
    else
      let parentId := oldNode.parentPageId
      let parent ← t.bpm.fetchInternal parentId
      let parent := parent.insertNodeAfter oldNode.pageId key newNode.pageId
      let t := t.setPage parentId (.internal parent)
      let before := [touch oldId, fetchPage parentId, touch oldId, touch newId, touch parentId]
      if parent.size > parent.maxSize then
        let ((newParentId, newParent), split) := t.splitInternal parentId parent
        let above ← insertIntoParentEvents fuel split parentId (newParent.keyAt 0) newParentId
        return before ++ t.splitInternalEvents parentId parent ++ touch newParentId :: above ++
          [unpinPage parentId]
      else return before ++ [unpinPage parentId]

/-- `InsertIntoLeaf`. `GetSize` is called behind `UnpinPage`. -/
def insertIntoLeafEvents [LinearOrder κ] [Inhabited κ] [Inhabited ν] (t : BPlusTree κ ν) (key : κ)
    (value : ν) : Option Events := do
  match ← t.findLeafPage key with
  | none => return []
  | some (leafId, leaf) =>
    let found ← t.findLeafPageEvents key
    if (leaf.lookup key).isSome then return found ++ [touch leafId, unpinPage leaf.pageId]
    else
      let leaf := leaf.insert key value
      let t := t.setPage leafId (.leaf leaf)
      let inserted := found ++ [touch leafId, unpinPage leaf.pageId, touch leafId]
      if leaf.size > t.leafMaxSize then
        let ((newId, newLeaf), split) := t.splitLeaf leafId leaf
        let above ← insertIntoParentEvents split.fuel split leafId (newLeaf.keyAt 0) newId
        return inserted ++ t.splitLeafEvents leafId ++ touch newId :: above
      else return inserted

/-- `Insert`. -/
def insertEvents [LinearOrder κ] [Inhabited κ] [Inhabited ν] (t : BPlusTree κ ν) (key : κ)
    (value : ν) : Option Events :=
  if t.isEmpty then some t.startNewTreeEvents else t.insertIntoLeafEvents key value

/-! ### Removal -/

/-- `AdjustRoot`. In the branch of an internal page `FetchPage` is called twice, and `UnpinPage`
once. -/
def adjustRootEvents (t : BPlusTree κ ν) (rootId : PageId) (oldRootNode : BPlusTreePage κ ν) :
    Option Events :=
  if oldRootNode.size > 1 then some [touch rootId]
  else
    match oldRootNode with
    | .leaf _ => some [touch rootId, deletePage oldRootNode.pageId]
    | .internal root => do
      let child ← t.bpm.fetchPage (root.valueAt 0)
      let newRootId := if child.size = 0 then root.valueAt 1 else root.valueAt 0
      return [touch rootId, fetchPage (root.valueAt 0), touch (root.valueAt 0), touch rootId,
        fetchPage newRootId, touch newRootId, unpinPage newRootId, touch rootId,
        deletePage oldRootNode.pageId]

/-- `Redistribute`, of the kind of page it is. -/
def redistributeEvents (neighborId : PageId) (neighbor : BPlusTreePage κ ν) (nodeId : PageId)
    (node : BPlusTreePage κ ν) (index : Nat) : Option Events :=
  let parentId := node.parentPageId
  match neighbor, node with
  | .leaf _, .leaf _ =>
    some [touch nodeId, fetchPage parentId, touch neighborId, touch nodeId, touch parentId,
      unpinPage parentId]
  | .internal neighbor, .internal _ =>
    let child := neighbor.valueAt (if index = 0 then 0 else neighbor.size - 1)
    some [touch nodeId, fetchPage parentId, touch parentId, touch neighborId, touch nodeId,
      fetchPage child, touch child, touch nodeId, unpinPage child, touch neighborId, touch nodeId,
      touch parentId, unpinPage parentId]
  | _, _ => none

/-- The part of `Coalesce` before the recursion. `GetPageId` is called behind `UnpinPage`. -/
def coalesceEvents (neighborId : PageId) (neighbor : BPlusTreePage κ ν) (nodeId : PageId)
    (node : BPlusTreePage κ ν) (parentId : PageId) : Option Events :=
  match neighbor, node with
  | .leaf _, .leaf _ =>
    some [touch nodeId, touch neighborId, unpinPage node.pageId, touch nodeId,
      deletePage node.pageId, touch parentId]
  | .internal _, .internal page =>
    some ([touch parentId, touch nodeId, touch neighborId] ++
      adoptEvents nodeId neighborId (page.pairs.map Prod.snd) ++
        [touch nodeId, unpinPage node.pageId, touch nodeId, deletePage node.pageId, touch parentId])
  | _, _ => none

/-- `CoalesceOrRedistribute`, for both kinds of pages. -/
def coalesceOrRedistributeEvents : Nat → BPlusTree κ ν → PageId → Option Events
  | 0, _, _ => none
  | fuel + 1, t, nodeId => do
    let node ← t.bpm.fetchPage nodeId
    if node.isRootPage then (t.adjustRootEvents nodeId node).map (fun rest => touch nodeId :: rest)
    else
      let parentId := node.parentPageId
      let parent ← t.bpm.fetchInternal parentId
      let index ← parent.findValue node.pageId
      let siblingIndex := if index = 0 then 1 else index - 1
      let siblingId := parent.valueAt siblingIndex
      let sibling ← t.bpm.fetchPage siblingId
      let before := [touch nodeId, fetchPage parentId, touch nodeId, touch parentId,
        fetchPage siblingId, touch nodeId, touch siblingId]
      let after := [touch siblingId, unpinPage sibling.pageId, unpinPage parentId]
      if node.size + sibling.size < maxSizeOf node then
        let merged ←
          if index = 0 then coalesceEvents nodeId node siblingId sibling parentId
          else coalesceEvents siblingId sibling nodeId node parentId
        let (parent, t) ←
          if index = 0 then t.coalesce nodeId node siblingId sibling parentId parent index
          else t.coalesce siblingId sibling nodeId node parentId parent siblingIndex
        if parent.size < parent.minSize then
          let above ← coalesceOrRedistributeEvents fuel t parentId
          return before ++ merged ++ above ++ after
        else return before ++ merged ++ after
      else
        let moved ← redistributeEvents siblingId sibling nodeId node index
        return before ++ moved ++ after

/-- The part of `Remove` that writes the first key of the leaf into the pages above. -/
def updateParentKeysEvents (t : BPlusTree κ ν) (leafId : PageId) (leaf : LeafPage κ ν) :
    Option Events := do
  let parentId := leaf.parentPageId
  let parent ← t.bpm.fetchInternal parentId
  let before := [touch leafId, fetchPage parentId, touch parentId, touch leafId]
  let after := [touch parentId, unpinPage parent.pageId]
  match parent.findValue leafId with
  | none => return before ++ after
  | some i =>
    let parent := parent.setKeyAt i (leaf.keyAt 0)
    let t := t.setPage parentId (.internal parent)
    if i = 0 ∧ !parent.isRootPage then
      let grandParentId := parent.parentPageId
      let grandParent ← t.bpm.fetchInternal grandParentId
      return before ++ [touch parentId, fetchPage grandParentId, touch grandParentId,
        touch parentId, unpinPage grandParent.pageId] ++ after
    else return before ++ after

/-- `Remove`. -/
def removeEvents [LinearOrder κ] (t : BPlusTree κ ν) (key : κ) : Option Events := do
  match ← t.findLeafPage key with
  | none => return []
  | some (leafId, leaf) =>
    let found ← t.findLeafPageEvents key
    let leaf := leaf.removeAndDeleteRecord key
    let t := t.setPage leafId (.leaf leaf)
    let above ← if leaf.isRootPage then some [] else t.updateParentKeysEvents leaf.pageId leaf
    let t ← if leaf.isRootPage then some t else t.updateParentKeys leaf.pageId leaf
    let after := [touch leafId, unpinPage leaf.pageId]
    if leaf.size < leaf.minSize then
      let shrunk ← coalesceOrRedistributeEvents t.fuel t leafId
      return found ++ touch leafId :: above ++ touch leafId :: shrunk ++ after
    else return found ++ touch leafId :: above ++ touch leafId :: after

end BPlusTree

/-! ### Iteration -/

namespace IndexIterator

/-- `IndexIterator::IndexIterator(page_id, bpm, index)`. -/
def newEvents (iter : IndexIterator) : Events :=
  if iter.currentPageId = INVALID_PAGE_ID then [] else [fetchPage iter.currentPageId]

/-- `IndexIterator::~IndexIterator`. -/
def deleteEvents (iter : IndexIterator) : Events :=
  if iter.currentPageId = INVALID_PAGE_ID then [] else [unpinPage iter.currentPageId]

/-- `IndexIterator::operator++`. The pointer to the page is null at the end. -/
def nextEvents (bpm : PageStore κ ν) (iter : IndexIterator) : Option Events :=
  if iter.currentPageId = INVALID_PAGE_ID then none
  else
    (bpm.fetchLeaf iter.currentPageId).map (fun page =>
      if page.size ≤ iter.itemIndex + 1 then
        [touch iter.currentPageId, unpinPage iter.currentPageId] ++ newEvents ⟨page.nextPageId, 0⟩
      else [touch iter.currentPageId])

/-- `++` some times, and the destructor. -/
def advanceEvents (bpm : PageStore κ ν) : Nat → IndexIterator → Option Events
  | 0, iter => some iter.deleteEvents
  | n + 1, iter => do
    let moved ← iter.nextEvents bpm
    let next ← iter.next bpm
    let rest ← advanceEvents bpm n next
    return moved ++ rest

end IndexIterator

/-- A call of the index, or an iteration: `Begin`, some `++`, and the destructor. -/
inductive IndexUse (κ ν : Type)
  | getValue (key : κ)
  | insert (key : κ) (value : ν)
  | remove (key : κ)
  | iterate (steps : Nat)
  | iterateFrom (key : κ) (steps : Nat)

namespace BPlusTree

/-- `Begin()`, some `++`, and the destructor. -/
def iterateEvents (t : BPlusTree κ ν) (steps : Nat) : Option Events := do
  match ← t.findLeftMostLeafPage with
  | none => IndexIterator.advanceEvents t.bpm steps endIterator
  | some (pageId, _) =>
    let found ← findLeafEvents t.bpm (fun node => node.valueAt 0) t.fuel t.rootPageId
    let rest ← IndexIterator.advanceEvents t.bpm steps ⟨pageId, 0⟩
    return found ++ IndexIterator.newEvents ⟨pageId, 0⟩ ++ rest

/-- `Begin(key)`, some `++`, and the destructor. -/
def iterateFromEvents [LinearOrder κ] (t : BPlusTree κ ν) (key : κ) (steps : Nat) :
    Option Events := do
  match ← t.findLeafPage key with
  | none => IndexIterator.advanceEvents t.bpm steps endIterator
  | some (pageId, leafPage) =>
    let found ← t.findLeafPageEvents key
    let index := leafPage.keyIndex key
    let iter := if index = leafPage.size then endIterator else ⟨pageId, index⟩
    let rest ← IndexIterator.advanceEvents t.bpm steps iter
    return found ++ touch pageId :: iter.newEvents ++ rest

/-- The calls of the buffer pool. -/
def events [LinearOrder κ] [Inhabited κ] [Inhabited ν] (t : BPlusTree κ ν) :
    IndexUse κ ν → Option Events
  | .getValue key => t.getValueEvents key
  | .insert key value => t.insertEvents key value
  | .remove key => t.removeEvents key
  | .iterate steps => t.iterateEvents steps
  | .iterateFrom key steps => t.iterateFromEvents key steps

/-- `Remove(x)` merges the leaf of `x` with its sibling. -/
def mergesLeaf [LinearOrder κ] (t : BPlusTree κ ν) (x : κ) : Bool :=
  match t.findLeafPage x with
  | some (some (leafId, leaf)) =>
    let size := if (leaf.lookup x).isSome then leaf.size - 1 else leaf.size
    if size < leaf.minSize then
      if leaf.isRootPage then false
      else
        match t.bpm.fetchInternal leaf.parentPageId with
        | none => false
        | some parent =>
          match parent.findValue leafId with
          | none => false
          | some index =>
            match t.bpm.fetchLeaf (parent.valueAt (if index = 0 then 1 else index - 1)) with
            | none => false
            | some sibling => size + sibling.size < leaf.maxSize
    else false
  | _ => false

end BPlusTree

/-! ### The end of an index

`BPlusTreeIndex::Destroy` calls `BPlusTree::Destroy`. It walks over the whole tree and deletes every
page behind the pages below it. The result has the tree beside the calls of the buffer pool.
`root_page_id_` and the page `INDEX_ROOTS_PAGE_ID` stay as they are. -/

namespace BPlusTree

/-- The loop of `BPlusTree::Destroy` over the children of the page `pageId`. The page is read before
each of them. -/
def destroyChildren (destroy : BPlusTree κ ν → PageId → Option (Events × BPlusTree κ ν))
    (pageId : PageId) : BPlusTree κ ν → List PageId → Option (Events × BPlusTree κ ν)
  | t, [] => some ([touch pageId], t)
  | t, child :: children => do
    let (below, t) ← destroy t child
    let (rest, t) ← destroyChildren destroy pageId t children
    some (touch pageId :: below ++ rest, t)

/-- `BPlusTree::Destroy(current_page_id)`. -/
def destroyFrom : Nat → BPlusTree κ ν → PageId → Option (Events × BPlusTree κ ν)
  | 0, _, _ => none
  | fuel + 1, t, currentPageId =>
    let currentPageId := if currentPageId = INVALID_PAGE_ID then t.rootPageId else currentPageId
    if currentPageId = INVALID_PAGE_ID then some ([], t)
    else
      match t.bpm.fetchPage currentPageId with
      | none => none
      | some (.leaf _) =>
        some ([fetchPage currentPageId, touch currentPageId, unpinPage currentPageId,
          deletePage currentPageId], { t with bpm := t.bpm.deletePage currentPageId })
      | some (.internal internalPage) => do
        let (below, t) ← destroyChildren (destroyFrom fuel) currentPageId t
          ((List.range internalPage.size).map internalPage.valueAt)
        some ([fetchPage currentPageId, touch currentPageId] ++ below ++
          [unpinPage currentPageId, deletePage currentPageId],
          { t with bpm := t.bpm.deletePage currentPageId })

/-- `BPlusTree::Destroy()`. -/
def destroy (t : BPlusTree κ ν) : Option (Events × BPlusTree κ ν) :=
  destroyFrom (t.fuel + 1) t INVALID_PAGE_ID

/-- The pages of the index: the root, and the children of its internal pages. -/
inductive Owns (t : BPlusTree κ ν) : PageId → Prop
  | root (some_root : t.rootPageId ≠ INVALID_PAGE_ID) : Owns t t.rootPageId
  | child {p : PageId} {node : InternalPage κ} {i : Nat} (above : Owns t p)
      (fetch_eq : t.bpm.fetchPage p = some (.internal node)) (lt_size : i < node.size) :
      Owns t (node.valueAt i)

end BPlusTree

/-- The pages that are deleted, in their order. -/
def deletedPages (es : Events) : List PageId :=
  es.filterMap fun
    | .drop p => some p
    | _ => none

end DisMiniSql.MiniSql
