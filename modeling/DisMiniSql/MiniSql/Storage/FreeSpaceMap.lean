import Mathlib.Algebra.Group.Nat.Defs
import DisMiniSql.MiniSql.Config

/-!
# `DisMiniSql.MiniSql.Storage.FreeSpaceMap`: `FreeSpaceMap`

`storage/freespace_map.cpp`. The map is a list of pages of pairs (`page/freespace_map_page.cpp`),
one pair for each data page with the free space of it. `GetBegin` and `GetNext` walk over the pairs
with a cursor: `page_index` is a page of the map, and `internal_index` is a pair of that page. The
index is an unsigned number of 32 bits, and `-1` is the largest of them.

The pages of the map stand in the order of `next_page_id`. `FetchPage` finds each of them.
-/

set_option autoImplicit false

namespace DisMiniSql.MiniSql.Heap

/-- `FreeSpaceMapPage`: its id, and the pairs of a data page and its free space. -/
structure FreeSpaceMapPage where
  pageId : PageId
  pairs : List (PageId × Nat)
  deriving DecidableEq

namespace FreeSpaceMapPage

/-- `SIZE_FREESPACEMAP_PAGE_HEADER`. -/
def SIZE_FREESPACEMAP_PAGE_HEADER : Nat := 16

/-- `SIZE_PAIR`. -/
def SIZE_PAIR : Nat := 8

/-- `SIZE_MAX_PAIR`. -/
def SIZE_MAX_PAIR : Nat := (PAGE_SIZE - SIZE_FREESPACEMAP_PAGE_HEADER) / SIZE_PAIR

/-- `FreeSpaceMapPage::Init`. -/
def init (pageId : PageId) : FreeSpaceMapPage := ⟨pageId, []⟩

/-- `FreeSpaceMapPage::GetPairCount`. -/
def getPairCount (page : FreeSpaceMapPage) : Nat := page.pairs.length

/-- `pair_count - 1`, an unsigned number of 32 bits. -/
def lastIndex (page : FreeSpaceMapPage) : Nat :=
  if page.getPairCount = 0 then 2 ^ 32 - 1 else page.getPairCount - 1

/-- `FreeSpaceMapPage::GetSpacePageId`. -/
def getSpacePageId (page : FreeSpaceMapPage) (internalId : Nat) : PageId :=
  ((page.pairs[internalId]?).map Prod.fst).getD INVALID_PAGE_ID

/-- `FreeSpaceMapPage::SetFreeSpace`. -/
def setFreeSpace (page : FreeSpaceMapPage) (internalId freeSpace : Nat) : FreeSpaceMapPage :=
  { page with pairs := page.pairs.modify internalId (fun pair => (pair.1, freeSpace)) }

/-- `FreeSpaceMapPage::NewPair`. -/
def newPair (page : FreeSpaceMapPage) (pageId : PageId) (freeSpace : Nat) : FreeSpaceMapPage :=
  { page with pairs := page.pairs ++ [(pageId, freeSpace)] }

/-- The inner loop over the pairs of a page: the first one from `internalId` on that is looked
for. -/
def findPair (page : FreeSpaceMapPage) (test : PageId × Nat → Bool) (internalId : Nat) :
    Option Nat :=
  ((page.pairs.drop internalId).findIdx? test).map (fun i => internalId + i)

end FreeSpaceMapPage

/-- `FreeSpaceMap`. -/
structure FreeSpaceMap where
  mapPages : List FreeSpaceMapPage
  lastPageId : PageId
  internalIndex : Nat
  pageIndex : PageId
  deriving DecidableEq

namespace FreeSpaceMap

open FreeSpaceMapPage (SIZE_MAX_PAIR)

/-- `FreeSpaceMap::FreeSpaceMap`, which makes the page empty. `GetBegin` sets the cursor before it
is read. -/
def new (firstMapPageId : PageId) : FreeSpaceMap :=
  ⟨[FreeSpaceMapPage.init firstMapPageId], INVALID_PAGE_ID, 0, INVALID_PAGE_ID⟩

/-- `FreeSpaceMap::GetFirstPageId`. -/
def getFirstPageId (m : FreeSpaceMap) : PageId :=
  (m.mapPages.head?.map FreeSpaceMapPage.pageId).getD INVALID_PAGE_ID

/-- Whether `SetNewPair` asks for a page. -/
def needsPage (m : FreeSpaceMap) : Bool :=
  m.mapPages.all (fun page => decide (SIZE_MAX_PAIR ≤ page.getPairCount))

/-- The loop of `SetNewPair`. Behind the last page stands the one that `NewPage` made. -/
def addPair (newPageId pageId : PageId) (freeSpace : Nat) :
    List FreeSpaceMapPage → List FreeSpaceMapPage
  | [] => [(FreeSpaceMapPage.init newPageId).newPair pageId freeSpace]
  | page :: pages =>
    if page.getPairCount < SIZE_MAX_PAIR then page.newPair pageId freeSpace :: pages
    else page :: addPair newPageId pageId freeSpace pages

/-- `FreeSpaceMap::SetNewPair`. `newPageId` is what `NewPage` answers. -/
def setNewPair (m : FreeSpaceMap) (newPageId pageId : PageId) (freeSpace : Nat) : FreeSpaceMap :=
  { m with
    mapPages := addPair newPageId pageId freeSpace m.mapPages
    lastPageId := pageId }

/-- The outer loop over the pages of the map: the page and the index of a pair. -/
def search (test : PageId × Nat → Bool) :
    Nat → List FreeSpaceMapPage → Option (FreeSpaceMapPage × Nat)
  | _, [] => none
  | internalId, page :: pages =>
    match page.findPair test internalId with
    | some i => some (page, i)
    | none => search test 0 pages

/-- `GetBegin` and `GetNext` on the last page, when no pair is found: the answer is the last data
page, unless the inner index of the cursor is already that of the last pair. -/
def settleLast (m : FreeSpaceMap) (page : FreeSpaceMapPage) : PageId × FreeSpaceMap :=
  if m.internalIndex = page.lastIndex then (INVALID_PAGE_ID, m)
  else (m.lastPageId, { m with internalIndex := page.lastIndex, pageIndex := page.pageId })

/-- The end of `GetBegin` and of `GetNext`: the cursor moves to the pair that was found. -/
def settle (m : FreeSpaceMap) : Option (FreeSpaceMapPage × Nat) → PageId × FreeSpaceMap
  | some (page, i) =>
    (page.getSpacePageId i, { m with internalIndex := i, pageIndex := page.pageId })
  | none => ((m.mapPages.getLast?).map m.settleLast).getD (INVALID_PAGE_ID, m)

/-- The free space is enough. -/
def enough (needSpace : Nat) (pair : PageId × Nat) : Bool := decide (needSpace ≤ pair.2)

/-- `FreeSpaceMap::GetBegin`. -/
def getBegin (m : FreeSpaceMap) (needSpace : Nat) : PageId × FreeSpaceMap :=
  settle { m with internalIndex := 2 ^ 32 - 1, pageIndex := INVALID_PAGE_ID }
    (search (enough needSpace) 0 m.mapPages)

/-- `FreeSpaceMap::GetNext`. The walk goes on from the page of the cursor. -/
def getNext (m : FreeSpaceMap) (needSpace : Nat) : PageId × FreeSpaceMap :=
  match m.mapPages.dropWhile (fun page => page.pageId != m.pageIndex) with
  | [] => (INVALID_PAGE_ID, m)
  | page :: pages =>
    m.settle (search (enough needSpace) ((m.internalIndex + 1) % 2 ^ 32) (page :: pages))

/-- The loop of `SetFreeSpace`: the page of the map with the pair, and the pages after the
write. -/
def setPair (pageId : PageId) (freeSpace : Nat) :
    List FreeSpaceMapPage → Option (PageId × List FreeSpaceMapPage)
  | [] => none
  | page :: pages =>
    match page.findPair (fun pair => pair.1 == pageId) 0 with
    | some i => some (page.pageId, page.setFreeSpace i freeSpace :: pages)
    | none => (setPair pageId freeSpace pages).map (fun found => (found.1, page :: found.2))

/-- `FreeSpaceMap::SetFreeSpace`. -/
def setFreeSpace (m : FreeSpaceMap) (pageId : PageId) (freeSpace : Nat) : PageId × FreeSpaceMap :=
  match setPair pageId freeSpace m.mapPages with
  | some (mapPageId, mapPages) => (mapPageId, { m with mapPages := mapPages })
  | none => (INVALID_PAGE_ID, m)

/-- The answers of `GetNext` behind the answer `result`, which is the answer `0`. -/
def answersFrom (needSpace : Nat) : PageId × FreeSpaceMap → Nat → PageId
  | result, 0 => result.1
  | result, n + 1 => answersFrom needSpace (result.2.getNext needSpace) n

/-- The `n`-th answer of `GetBegin` and then of `GetNext`. -/
def answer (m : FreeSpaceMap) (needSpace n : Nat) : PageId :=
  answersFrom needSpace (m.getBegin needSpace) n

end FreeSpaceMap

end DisMiniSql.MiniSql.Heap
