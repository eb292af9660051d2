import DisMiniSql.MiniSql.Page.BitmapPage

/-!
# `DisMiniSql.MiniSql.Storage.DiskManager`: `DiskManager`

The page allocation of `storage/disk_manager.cpp`. The meta page counts the allocated pages, all of
them and those of each extent. Each extent begins with its bitmap, and bitmaps are the only pages
that these functions read and write.

`ReadPhysicalPage` computes the byte offset of a page, and the size of the file, in an `int`. An
offset that does not fit there is negative or wrong. A seek to a negative offset sets the fail bit
of `db_io_`, and nothing clears it: from then on no read gives a byte and no write is done.
-/

set_option autoImplicit false

namespace DisMiniSql.MiniSql.Disk

/-- The value of an `int` that holds an integer, in 32 bits. -/
def toInt (x : Int) : Int := Int.bmod x (2 ^ 32)

/-- `++` of an `uint32_t`. -/
def increment (x : Nat) : Nat := (x + 1) % 2 ^ 32

/-- `--` of an `uint32_t`. -/
def decrement (x : Nat) : Nat := (x + 2 ^ 32 - 1) % 2 ^ 32

/-- `DiskManager`, with the meta page and the file. -/
structure DiskManager where
  numAllocatedPages : Nat
  numExtents : Nat
  extentUsedPage : Nat → Nat
  /-- The pages of the file, read as bitmaps. A page that was not written is a page of zeros. -/
  file : Nat → BitmapPage
  /-- The number of pages of the file. -/
  filePages : Nat
  /-- The fail bit of `db_io_`. -/
  failed : Bool

namespace DiskManager

open BitmapPage (MAX_PAGES)

/-- `DiskManager::BITMAP_SIZE`. -/
def BITMAP_SIZE : Nat := MAX_PAGES

/-- `DiskManager::MAX_BITMAP`. -/
def MAX_BITMAP : Nat := (PAGE_SIZE - 8) / 4

/-- `MAX_VALID_PAGE_ID`. -/
def MAX_VALID_PAGE_ID : Nat := (PAGE_SIZE - 8) / 4 * MAX_PAGES

/-- The constructor, for a file that does not exist. -/
def new : DiskManager := ⟨0, 0, fun _ => 0, fun _ => BitmapPage.empty, 0, false⟩

/-- `DiskFileMetaPage::GetExtentUsedPage`. -/
def getExtentUsedPage (d : DiskManager) (extentId : Nat) : Nat :=
  if d.numExtents ≤ extentId then 0 else d.extentUsedPage extentId

/-- `DiskManager::GetFileSize`. -/
def getFileSize (d : DiskManager) : Int := toInt (d.filePages * PAGE_SIZE)

/-- `DiskManager::ReadPhysicalPage` behind the computation of `offset`. -/
def readAt (d : DiskManager) (offset : Int) : BitmapPage × DiskManager :=
  if d.getFileSize ≤ offset then (BitmapPage.empty, d)
  else if d.failed ∨ offset < 0 then (BitmapPage.empty, { d with failed := true })
  else (d.file (offset.toNat / PAGE_SIZE), d)

/-- `DiskManager::ReadPhysicalPage`. -/
def readPhysicalPage (d : DiskManager) (physicalPageId : Nat) : BitmapPage × DiskManager :=
  d.readAt (toInt (physicalPageId * PAGE_SIZE))

/-- `DiskManager::WritePhysicalPage`. -/
def writePhysicalPage (d : DiskManager) (physicalPageId : Nat) (page : BitmapPage) : DiskManager :=
  if d.failed then d
  else
    { d with
      file := Function.update d.file physicalPageId page
      filePages := max d.filePages (physicalPageId + 1) }

/-- The physical page of the bitmap of an extent. -/
def bitmapPageId (extentId : Nat) : Nat := extentId * (BITMAP_SIZE + 1) + 1

/-- The loop of `AllocatePage`: the first extent with a free page, or the number of extents. -/
def freeExtent (d : DiskManager) : Nat :=
  ((List.range d.numExtents).find? (fun i => decide (d.getExtentUsedPage i < BITMAP_SIZE))).getD
    d.numExtents

/-- `extent_used_page_[i]++` and `num_allocated_pages_++`. -/
def countAllocated (d : DiskManager) (i : Nat) : DiskManager :=
  { d with
    extentUsedPage := Function.update d.extentUsedPage i (increment (d.extentUsedPage i))
    numAllocatedPages := increment d.numAllocatedPages }

/-- `extent_used_page_[bitmap_id]--` and `num_allocated_pages_--`. -/
def countFreed (d : DiskManager) (bitmapId : Nat) : DiskManager :=
  { d with
    extentUsedPage :=
      Function.update d.extentUsedPage bitmapId (decrement (d.extentUsedPage bitmapId))
    numAllocatedPages := decrement d.numAllocatedPages }

/-- `DiskManager::AllocatePage` in the extent `i`. `BitmapPage::AllocatePage` does not set
`inner_index` if the bitmap is full, and `innerIndex` is what it holds then. -/
def allocateIn (d : DiskManager) (i innerIndex : Nat) : PageId × DiskManager :=
  let allocated := (d.readPhysicalPage (bitmapPageId i)).1.allocatePage
  (toInt (i * BITMAP_SIZE + allocated.1.getD innerIndex),
    ((d.readPhysicalPage (bitmapPageId i)).2.countAllocated i).writePhysicalPage (bitmapPageId i)
      allocated.2)

/-- `DiskManager::AllocatePage`. -/
def allocatePage (d : DiskManager) (innerIndex : Nat) : PageId × DiskManager :=
  let i := d.freeExtent
  if i = d.numExtents ∧ d.numExtents = MAX_BITMAP then (INVALID_PAGE_ID, d)
  else
    let d := if i = d.numExtents then { d with numExtents := d.numExtents + 1 } else d
    d.allocateIn i innerIndex

/-- `DiskManager::DeAllocatePage` in the extent `bitmapId`. The answer of the bitmap is not read. -/
def deAllocateIn (d : DiskManager) (bitmapId innerIndex : Nat) : DiskManager :=
  ((d.readPhysicalPage (bitmapPageId bitmapId)).2.countFreed bitmapId).writePhysicalPage
    (bitmapPageId bitmapId)
    ((d.readPhysicalPage (bitmapPageId bitmapId)).1.deAllocatePage innerIndex).2

/-- `DiskManager::DeAllocatePage`. -/
def deAllocatePage (d : DiskManager) (logicalPageId : Nat) : DiskManager :=
  if MAX_VALID_PAGE_ID ≤ logicalPageId then d
  else
    d.deAllocateIn ((logicalPageId + BITMAP_SIZE) / BITMAP_SIZE - 1) (logicalPageId % BITMAP_SIZE)

/-- `DiskManager::IsPageFree`. -/
def isPageFree (d : DiskManager) (logicalPageId : Nat) : Bool × DiskManager :=
  if MAX_VALID_PAGE_ID ≤ logicalPageId then (false, d)
  else
    let bitmapId := (logicalPageId + BITMAP_SIZE) / BITMAP_SIZE - 1
    let read := d.readPhysicalPage (bitmapPageId bitmapId)
    (read.1.isPageFree (logicalPageId % BITMAP_SIZE), read.2)

end DiskManager

/-- A call that allocates a page or frees one. -/
inductive DiskCall
  | allocatePage (innerIndex : Nat)
  | deAllocatePage (logicalPageId : Nat)

end DisMiniSql.MiniSql.Disk
