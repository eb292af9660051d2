import DisMiniSql.MiniSql.Buffer.LruReplacer

/-!
# `DisMiniSql.MiniSql.Buffer.BufferPoolManager`: `BufferPoolManager`

`buffer/buffer_pool_manager.cpp` over the LRU replacer (`USE_LRU_REPLACER` is defined in
`common/config.h`). A `Page *` is the index of its frame in `pages_`.

The disk is a map from page ids to bytes that returns what was last written. `AllocatePage`
hands out the page ids one after another, as the comment of its declaration says. `DeletePage` is
read over a disk of its own, `Pool`.
-/

set_option autoImplicit false

namespace DisMiniSql.MiniSql

/-- `Page`: the bytes and the book-keeping of one frame. -/
structure Page where
  data : PageData := emptyPageData
  pageId : PageId := INVALID_PAGE_ID
  pinCount : Nat := 0
  isDirty : Bool := false

namespace Page

/-- `Page::ResetAll`. -/
def resetAll (_p : Page) : Page where
  data := emptyPageData
  pageId := INVALID_PAGE_ID
  pinCount := 0
  isDirty := false

/-- `Page::ResetMemory`. -/
def resetMemory (p : Page) : Page := { p with data := emptyPageData }

end Page

/-- `DiskManager`, as the buffer pool sees it. -/
structure DiskManager where
  /-- The bytes last written to each page. -/
  pages : PageId → PageData
  /-- The page id the next `AllocatePage` returns. -/
  nextPageId : PageId

namespace DiskManager

/-- A new database file: no page is allocated and every read gives zeros. -/
def new : DiskManager where
  pages := fun _ => emptyPageData
  nextPageId := 0

/-- `DiskManager::WritePage`. -/
def writePage (d : DiskManager) (pageId : PageId) (data : PageData) : DiskManager :=
  { d with pages := fun p => if p = pageId then data else d.pages p }

/-- `DiskManager::ReadPage`. -/
def readPage (d : DiskManager) (pageId : PageId) : PageData := d.pages pageId

/-- `DiskManager::AllocatePage`. -/
def allocatePage (d : DiskManager) : PageId × DiskManager :=
  (d.nextPageId, { d with nextPageId := d.nextPageId + 1 })

end DiskManager

/-- `BufferPoolManager`. -/
structure BufferPoolManager where
  poolSize : Nat
  pages : FrameId → Page
  pageTable : PageId → Option FrameId
  replacer : LRUReplacer
  freeList : List FrameId
  disk : DiskManager

namespace BufferPoolManager

/-- `BufferPoolManager::BufferPoolManager`. -/
def new (poolSize : Nat) (disk : DiskManager) : BufferPoolManager where
  poolSize := poolSize
  pages := fun _ => {}
  pageTable := fun _ => none
  replacer := LRUReplacer.new poolSize
  freeList := List.range poolSize
  disk := disk

/-- The store `pages_[frame_id] = page`. -/
def setPage (b : BufferPoolManager) (frameId : FrameId) (page : Page) : BufferPoolManager :=
  { b with pages := fun f => if f = frameId then page else b.pages f }

/-- Setting a frame's page leaves the other frames alone. -/
@[simp] theorem setPage_pages (b : BufferPoolManager) (frameId : FrameId) (page : Page)
    (f : FrameId) :
    (b.setPage frameId page).pages f = if f = frameId then page else b.pages f := rfl

/-- The size of the pool is no part of a frame. -/
@[simp] theorem setPage_poolSize (b : BufferPoolManager) (frameId : FrameId) (page : Page) :
    (b.setPage frameId page).poolSize = b.poolSize := rfl

/-- Nor is the table. -/
@[simp] theorem setPage_pageTable (b : BufferPoolManager) (frameId : FrameId) (page : Page) :
    (b.setPage frameId page).pageTable = b.pageTable := rfl

/-- `page_table_[page_id] = frame_id`. -/
def tableInsert (t : PageId → Option FrameId) (pageId : PageId) (frameId : FrameId) :
    PageId → Option FrameId :=
  fun p => if p = pageId then some frameId else t p

/-- `page_table_.erase(page_id)`. -/
def tableErase (t : PageId → Option FrameId) (pageId : PageId) : PageId → Option FrameId :=
  fun p => if p = pageId then none else t p

/-- The frame that `FetchPage` and `NewPage` take: the front of the free list, else the victim
of the replacer, else none because all pages are pinned. Both functions start with the same
lines. -/
def takeFrame (b : BufferPoolManager) : Option (FrameId × BufferPoolManager) :=
  match b.freeList with
  | f :: rest => some (f, { b with freeList := rest })
  | [] =>
      if b.replacer.size == 0 then none
      else
        match b.replacer.victim with
        | (some f, r) => some (f, { b with replacer := r })
        | (none, _) => none

/-- `BufferPoolManager::FetchPage`: the frame of the returned page, or `none` for `nullptr`. A
dirty victim is written back under `page_id`, the id of the page that comes in, as the source
has it. -/
def fetchPage (b : BufferPoolManager) (pageId : PageId) : Option FrameId × BufferPoolManager :=
  match b.pageTable pageId with
  | some frameId =>
      let page := b.pages frameId
      let b := b.setPage frameId { page with pinCount := page.pinCount + 1 }
      (some frameId, { b with replacer := b.replacer.pin frameId })
  | none =>
      match b.takeFrame with
      | none => (none, b)
      | some (frameId, b) =>
          let page := b.pages frameId
          let disk := if page.isDirty then b.disk.writePage pageId page.data else b.disk
          let table := tableErase b.pageTable page.pageId
          let page := page.resetAll
          let page := { page with pageId := pageId }
          let table := tableInsert table pageId frameId
          let page := { page with pinCount := page.pinCount + 1 }
          let replacer := b.replacer.pin frameId
          let page := { page with data := disk.readPage pageId }
          (some frameId,
            { b with disk := disk, pageTable := table, replacer := replacer }.setPage frameId page)

/-- `BufferPoolManager::NewPage`: the frame of the returned page and the output parameter
`page_id`, or `none` for `nullptr`. A dirty victim is written back under the new `page_id`, and
`ResetMemory` keeps the dirty flag of the frame, as the source has it. -/
def newPage (b : BufferPoolManager) : Option (FrameId × PageId) × BufferPoolManager :=
  match b.takeFrame with
  | none => (none, b)
  | some (frameId, b) =>
      let (pageId, disk) := b.disk.allocatePage
      let page := b.pages frameId
      let disk := if page.isDirty then disk.writePage pageId page.data else disk
      let table := tableErase b.pageTable page.pageId
      let page := page.resetMemory
      let page := { page with pageId := pageId }
      let table := tableInsert table pageId frameId
      let page := { page with pinCount := page.pinCount + 1 }
      let replacer := b.replacer.pin frameId
      (some (frameId, pageId),
        { b with disk := disk, pageTable := table, replacer := replacer }.setPage frameId page)

/-- `BufferPoolManager::UnpinPage`. -/
def unpinPage (b : BufferPoolManager) (pageId : PageId) (isDirty : Bool) :
    Bool × BufferPoolManager :=
  match b.pageTable pageId with
  | none => (true, b)
  | some frameId =>
      let page := b.pages frameId
      if page.pinCount == 0 then (true, b)
      else
        let page := if isDirty then { page with isDirty := true } else page
        let page := { page with pinCount := page.pinCount - 1 }
        let b := b.setPage frameId page
        if page.pinCount == 0 then (true, { b with replacer := b.replacer.unpin frameId })
        else (false, b)

/-- `BufferPoolManager::FlushPage`. -/
def flushPage (b : BufferPoolManager) (pageId : PageId) : Bool × BufferPoolManager :=
  match b.pageTable pageId with
  | none => (true, b)
  | some frameId =>
      let page := b.pages frameId
      let b := { b with disk := b.disk.writePage pageId page.data }
      (true, b.setPage frameId { page with isDirty := false })

/-- `BufferPoolManager::~BufferPoolManager`: the disk that it leaves. `DBStorageEngine` makes the
buffer pool of a database and deletes it, and the next engine makes a new one over the same file
(`common/instance.cpp`). `pageIds` are the keys of `page_table_` in the order in which the map gives
them. -/
def destroy (b : BufferPoolManager) (pageIds : List PageId) : DiskManager :=
  (pageIds.foldl (fun b pageId => (b.flushPage pageId).2) b).disk

/-- The keys of `page_table_`, in some order. -/
def Lists (b : BufferPoolManager) (pageIds : List PageId) : Prop :=
  pageIds.Nodup ∧ ∀ p, p ∈ pageIds ↔ b.pageTable p ≠ none

end BufferPoolManager

/-! ## Deleting pages

The buffer pool over a disk that takes pages back. `DeallocatePage` is recorded, and which id
`AllocatePage` answers is left open: a call of `NewPage` carries the answer, also an id that was
handed out before. -/

/-- A buffer pool and the ids that it has passed to `DeallocatePage`, the last one first. -/
structure Pool where
  bpm : BufferPoolManager
  deallocated : List PageId

namespace Pool

open BufferPoolManager (tableInsert tableErase)

/-- The constructor. -/
def new (poolSize : Nat) (disk : DiskManager) : Pool := ⟨BufferPoolManager.new poolSize disk, []⟩

/-- `BufferPoolManager::NewPage`, when `AllocatePage` answers `allocated`. -/
def newPage (s : Pool) (allocated : PageId) : Option (FrameId × PageId) × Pool :=
  let result :=
    ({ s.bpm with disk := { s.bpm.disk with nextPageId := allocated } } : BufferPoolManager).newPage
  (result.1, { s with bpm := result.2 })

/-- `BufferPoolManager::DeletePage`. A page that is in the pool is deallocated and stays there. For
another page `page_table_[page_id]` makes an entry for the frame 0. -/
def deletePage (s : Pool) (pageId : PageId) : Bool × Pool :=
  match s.bpm.pageTable pageId with
  | some _ => (true, { s with deallocated := pageId :: s.deallocated })
  | none =>
    let frameId : FrameId := 0
    let b : BufferPoolManager :=
      { s.bpm with pageTable := tableInsert s.bpm.pageTable pageId frameId }
    let page := b.pages frameId
    if page.pinCount ≠ 0 then (false, { s with bpm := b })
    else
      let b : BufferPoolManager :=
        { b with
          pageTable := tableErase b.pageTable pageId
          freeList := frameId :: b.freeList }
      (true, ⟨b.setPage frameId page.resetAll, pageId :: s.deallocated⟩)

end Pool

/-- A call of the buffer pool. -/
inductive PoolCall
  | newPage (allocated : PageId)
  | fetchPage (pageId : PageId)
  | unpinPage (pageId : PageId) (isDirty : Bool)
  | flushPage (pageId : PageId)
  | deletePage (pageId : PageId)

/-- The pool after a call. -/
def Pool.next (s : Pool) : PoolCall → Pool
  | .newPage allocated => (s.newPage allocated).2
  | .fetchPage pageId => { s with bpm := (s.bpm.fetchPage pageId).2 }
  | .unpinPage pageId isDirty => { s with bpm := (s.bpm.unpinPage pageId isDirty).2 }
  | .flushPage pageId => { s with bpm := (s.bpm.flushPage pageId).2 }
  | .deletePage pageId => (s.deletePage pageId).2

end DisMiniSql.MiniSql
