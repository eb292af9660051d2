import DisMiniSql.MiniSql.Page.BPlusTreePage

/-!
# `DisMiniSql.MiniSql.Page.PageStore`: a page store without eviction

The index reaches its pages through `FetchPage`, `NewPage` and `DeletePage`. With room for every
page in the pool, these are a map from page ids to pages. A write through the pointer that
`FetchPage` returned is `setPage`.

`NewPage` hands out an id that no live page has, and a deleted id may come back. Which id it is
is left open: `Allocator` is any choice of one.
-/

set_option autoImplicit false

namespace DisMiniSql.MiniSql

/-- `AllocatePage`: a page id for a new page, given the ids in use. -/
structure Allocator where
  pick : List PageId → PageId
  pick_fresh : ∀ live, pick live ∉ live
  pick_nonneg : ∀ live, 0 ≤ pick live

/-- The allocator that hands out the id after the largest one in use. -/
def Allocator.increasing : Allocator where
  pick := fun live => live.foldr max (-1) + 1
  pick_fresh := by
    intro live hmem
    have hle : ∀ (l : List PageId) (p : PageId), p ∈ l → p ≤ l.foldr max (-1) := by
      intro l p hp
      induction l with
      | nil => cases hp
      | cons q l ih =>
        rcases List.mem_cons.mp hp with rfl | hp
        · exact Int.le_max_left _ _
        · exact Int.le_trans (ih hp) (Int.le_max_right _ _)
    exact Int.lt_irrefl _ (Int.add_one_le_iff.mp (hle live _ hmem))
  pick_nonneg := by
    intro live
    have hle : ∀ l : List PageId, (-1 : Int) ≤ l.foldr max (-1) := by
      intro l
      induction l with
      | nil => exact Int.le_refl _
      | cons q l ih => exact Int.le_trans ih (Int.le_max_right _ _)
    exact Int.add_le_add_right (hle live) 1

/-- The pages that an index can reach. -/
structure PageStore (κ ν : Type) where
  allocator : Allocator
  /-- The ids that are allocated. -/
  live : List PageId
  pages : PageId → Option (BPlusTreePage κ ν)

namespace PageStore
variable {κ ν : Type}

/-- `FetchPage`. A page that is not allocated, or that is no index page, cannot be used. -/
def fetchPage (s : PageStore κ ν) (p : PageId) : Option (BPlusTreePage κ ν) :=
  if p ∈ s.live then s.pages p else none

/-- `FetchPage`, and the cast to `LeafPage *`. -/
def fetchLeaf (s : PageStore κ ν) (p : PageId) : Option (LeafPage κ ν) :=
  match s.fetchPage p with
  | some (.leaf page) => some page
  | _ => none

/-- `FetchPage`, and the cast to `InternalPage *`. -/
def fetchInternal (s : PageStore κ ν) (p : PageId) : Option (InternalPage κ) :=
  match s.fetchPage p with
  | some (.internal page) => some page
  | _ => none

/-- The page behind a pointer is overwritten. -/
def setPage (s : PageStore κ ν) (p : PageId) (page : BPlusTreePage κ ν) : PageStore κ ν :=
  { s with pages := fun q => if q = p then some page else s.pages q }

/-- `NewPage`: the id, and the store with a page of zeros under it. -/
def newPage (s : PageStore κ ν) : PageId × PageStore κ ν :=
  let p := s.allocator.pick s.live
  (p, { s with live := p :: s.live, pages := fun q => if q = p then none else s.pages q })

/-- `DeletePage`. -/
def deletePage (s : PageStore κ ν) (p : PageId) : PageStore κ ν :=
  { s with live := s.live.filter (· ≠ p) }

/-- `FetchPage(child)`, `SetParentPageId(parent)`, when the child is there. -/
def setParent (s : PageStore κ ν) (parent child : PageId) : PageStore κ ν :=
  match s.fetchPage child with
  | some page => s.setPage child (page.setParentPageId parent)
  | none => s

/-- The loop that gives the children a new parent. -/
def adopt (s : PageStore κ ν) (parent : PageId) (children : List PageId) : PageStore κ ν :=
  children.foldl (fun s child => s.setParent parent child) s

end PageStore

end DisMiniSql.MiniSql
