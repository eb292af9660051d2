import DisMiniSql.MiniSql.Storage.DiskManager

/-!
# `DisMiniSql.MiniSql.Storage.DiskFile`: `DiskManager` over the bytes of the file

The functions of `storage/disk_manager.cpp` that read and write pages, and those that allocate and
free them, over a file of bytes. A file grows where it is written behind its end, and the bytes that
were skipped are zeros.

`db_io_` fails as in `DisMiniSql.MiniSql.Storage.DiskManager`: nothing clears its fail bit, which is
set by a seek to a negative offset, and by a read that meets the end of the file.
-/

set_option autoImplicit false

namespace DisMiniSql.MiniSql.Disk.Bytewise

open DisMiniSql.Lib (Bytes)
open BitmapPage (MAX_PAGES)
open Disk.DiskManager (BITMAP_SIZE MAX_BITMAP MAX_VALID_PAGE_ID bitmapPageId)

/-- `META_PAGE_ID`. -/
def META_PAGE_ID : PageId := 0

/-- `db_io_`: the file behind the stream, and the fail bit of the stream. -/
structure DbIo where
  bytes : Bytes
  size : Nat
  failed : Bool
  /-- Behind the end there is nothing. -/
  beyond : ∀ i, size ≤ i → bytes i = 0

namespace DbIo

/-- The stream of a new file. -/
def empty : DbIo := ⟨fun _ => 0, 0, false, fun _ _ => rfl⟩

/-- `seekp(offset)` and `read(page_data, PAGE_SIZE)`, with zeros for the bytes that were not read.
-/
def read (io : DbIo) (offset : Int) : PageData × DbIo :=
  if io.failed ∨ offset < 0 then (emptyPageData, { io with failed := true })
  else
    let readCount := min PAGE_SIZE (io.size - offset.toNat)
    (fun i => if i.val < readCount then io.bytes (offset.toNat + i) else 0,
      { io with failed := decide (readCount < PAGE_SIZE) })

/-- The bytes of a page, in a row. -/
def pageBytes (page : PageData) : List UInt8 := List.ofFn page

/-- `seekp(offset)` and `write(page_data, PAGE_SIZE)`. -/
def write (io : DbIo) (offset : Nat) (page : PageData) : DbIo :=
  if io.failed then io
  else
    { bytes := io.bytes.blit offset (pageBytes page)
      size := max io.size (offset + PAGE_SIZE)
      failed := false
      beyond := fun i hi => by
        have hlength : (pageBytes page).length = PAGE_SIZE := List.length_ofFn
        rw [DisMiniSql.Lib.Bytes.blit_of_outside (.inr (by omega)), io.beyond i (by omega)] }

end DbIo

/-- `reinterpret_cast<BitmapPage *>` of a page. -/
def bitmapOf (page : PageData) : BitmapPage :=
  let bytes : Bytes := fun i => if h : i < PAGE_SIZE then page ⟨i, h⟩ else 0
  ⟨bytes.get32 0, bytes.get32 4, fun i => bytes (8 + i)⟩

/-- The page that a bitmap is. -/
def pageOf (bitmap : BitmapPage) : PageData := fun i =>
  if i.val < 8 then
    ((Bytes.set32 (fun _ => 0) 0 bitmap.pageAllocated).set32 4 bitmap.nextFreePage) i
  else bitmap.bytes (i - 8)

/-- `DiskManager`, with the meta page and the file. -/
structure DiskManager where
  numAllocatedPages : Nat
  numExtents : Nat
  extentUsedPage : Nat → Nat
  dbIo : DbIo

namespace DiskManager

/-- The constructor, for a file that does not exist. -/
def new : DiskManager := ⟨0, 0, fun _ => 0, DbIo.empty⟩

/-- `DiskFileMetaPage::GetExtentUsedPage`. -/
def getExtentUsedPage (d : DiskManager) (extentId : Nat) : Nat :=
  if d.numExtents ≤ extentId then 0 else d.extentUsedPage extentId

/-- `DiskManager::GetFileSize`. -/
def getFileSize (d : DiskManager) : Int := toInt d.dbIo.size

/-- `DiskManager::ReadPhysicalPage` behind the computation of `offset`. -/
def readAt (d : DiskManager) (offset : Int) : PageData × DiskManager :=
  if d.getFileSize ≤ offset then (emptyPageData, d)
  else ((d.dbIo.read offset).1, { d with dbIo := (d.dbIo.read offset).2 })

/-- `DiskManager::ReadPhysicalPage`. -/
def readPhysicalPage (d : DiskManager) (physicalPageId : PageId) : PageData × DiskManager :=
  d.readAt (toInt (physicalPageId * PAGE_SIZE))

/-- `DiskManager::WritePhysicalPage`. -/
def writePhysicalPage (d : DiskManager) (physicalPageId : PageId) (page : PageData) :
    DiskManager :=
  { d with dbIo := d.dbIo.write (physicalPageId.toNat * PAGE_SIZE) page }

/-- `DiskManager::MapPageId`. The sum is a `size_t`, of which the `page_id_t` has 32 bits. -/
def mapPageId (logicalPageId : Nat) : PageId :=
  let extentId := logicalPageId / BITMAP_SIZE
  let innerIndex := logicalPageId % BITMAP_SIZE
  (BitVec.ofNat 32 (extentId * (BITMAP_SIZE + 1) + innerIndex + 2)).toInt

/-- `DiskManager::ReadPage`. -/
def readPage (d : DiskManager) (logicalPageId : Nat) : PageData × DiskManager :=
  d.readPhysicalPage (mapPageId logicalPageId)

/-- `DiskManager::WritePage`. -/
def writePage (d : DiskManager) (logicalPageId : Nat) (page : PageData) : DiskManager :=
  d.writePhysicalPage (mapPageId logicalPageId) page

/-- The loop of `AllocatePage`: the first extent with a free page, or the number of extents. -/
def freeExtent (d : DiskManager) : Nat :=
  ((List.range d.numExtents).find? (fun i => decide (d.getExtentUsedPage i < BITMAP_SIZE))).getD
    d.numExtents

/-- `extent_used_page_[i]++` and `num_allocated_pages_++`. -/
def countAllocated (d : DiskManager) (i : Nat) : DiskManager :=
  { d with
    extentUsedPage := Function.update d.extentUsedPage i (increment (d.extentUsedPage i))
    numAllocatedPages := increment d.numAllocatedPages }

/-- `extent_used_page_[bitmap_id]--` and `num_allocated_pages_--`. -/
def countFreed (d : DiskManager) (bitmapId : Nat) : DiskManager :=
  { d with
    extentUsedPage :=
      Function.update d.extentUsedPage bitmapId (decrement (d.extentUsedPage bitmapId))
    numAllocatedPages := decrement d.numAllocatedPages }

/-- `DiskManager::AllocatePage` in the extent `i`. `innerIndex` is what the variable holds if the
bitmap is full. -/
def allocateIn (d : DiskManager) (i innerIndex : Nat) : PageId × DiskManager :=
  let read := d.readPhysicalPage (bitmapPageId i)
  let allocated := (bitmapOf read.1).allocatePage
  (toInt (i * BITMAP_SIZE + allocated.1.getD innerIndex),
    (read.2.countAllocated i).writePhysicalPage (bitmapPageId i) (pageOf allocated.2))

/-- `DiskManager::AllocatePage`. -/
def allocatePage (d : DiskManager) (innerIndex : Nat) : PageId × DiskManager :=
  let i := d.freeExtent
  if i = d.numExtents ∧ d.numExtents = MAX_BITMAP then (INVALID_PAGE_ID, d)
  else
    let d := if i = d.numExtents then { d with numExtents := d.numExtents + 1 } else d
    d.allocateIn i innerIndex

/-- `DiskManager::DeAllocatePage`. -/
def deAllocatePage (d : DiskManager) (logicalPageId : Nat) : DiskManager :=
  if MAX_VALID_PAGE_ID ≤ logicalPageId then d
  else
    let bitmapId := (logicalPageId + BITMAP_SIZE) / BITMAP_SIZE - 1
    let innerIndex := logicalPageId % BITMAP_SIZE
    let read := d.readPhysicalPage (bitmapPageId bitmapId)
    (read.2.countFreed bitmapId).writePhysicalPage (bitmapPageId bitmapId)
      (pageOf ((bitmapOf read.1).deAllocatePage innerIndex).2)

end DiskManager

/-- A logical page id that is valid. -/
abbrev LogicalPageId := Fin MAX_VALID_PAGE_ID

/-- A call on the disk. -/
inductive Call
  | readPage (logicalPageId : LogicalPageId)
  | writePage (logicalPageId : LogicalPageId) (page : PageData)
  | allocatePage (innerIndex : Nat)
  | deAllocatePage (logicalPageId : LogicalPageId)

/-- The disk behind a call. -/
def DiskManager.step (d : DiskManager) : Call → DiskManager
  | .readPage p => (d.readPage p).2
  | .writePage p page => d.writePage p page
  | .allocatePage innerIndex => (d.allocatePage innerIndex).2
  | .deAllocatePage p => d.deAllocatePage p

end DisMiniSql.MiniSql.Disk.Bytewise
