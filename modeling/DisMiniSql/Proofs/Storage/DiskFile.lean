import Mathlib.Order.Lattice
import DisMiniSql.MiniSql.Storage.DiskFile
import DisMiniSql.Proofs.Storage.DiskManager

/-!
# `DisMiniSql.Proofs.Storage.DiskFile`: the pages of the file do not interfere

`MapPageId` leaves out the meta page and one page in `BITMAP_SIZE + 1` for the bitmaps, so each data
page has bytes of its own, which only `WritePage` changes (`pageAt_writePhysicalPage_of_ne`). What
`ReadPage` gives is another matter: it computes its offset in an `int`, and compares it with a file
size that is an `int` too. `disk_pages_apart` proves it right in every run that stays below 2^31
bytes. `last_page_is_lost` is the first page behind.
-/

set_option autoImplicit false

namespace DisMiniSql.MiniSql.Disk.Bytewise

open DisMiniSql.Lib (Guarded)
open Disk.DiskManager (BITMAP_SIZE MAX_BITMAP MAX_VALID_PAGE_ID READABLE_EXTENTS bitmapPageId
  BITMAP_SIZE_eq READABLE_EXTENTS_eq bitmapPageId_eq toInt_offset_of_lt)

namespace DiskManager

/-! ## Where the pages are -/

/-- The physical page of a valid page. -/
def physical (p : LogicalPageId) : Nat := p.val / 32704 * 32705 + p.val % 32704 + 2

/-- `MapPageId` does not overflow. -/
theorem mapPageId_eq (p : LogicalPageId) : mapPageId p = (physical p : Int) := by
  have hp : p.val < 1022 * 32704 := p.isLt
  have hlt : physical p < 2 ^ 31 := by
    unfold physical
    omega
  show (BitVec.ofNat 32 (physical p)).toInt = _
  rw [BitVec.toInt_ofNat', Int.bmod_def]
  omega

/-- Two logical pages never share a place in the file. -/
theorem physical_injective {p q : LogicalPageId} (h : physical p = physical q) : p = q := by
  unfold physical at h
  exact Fin.ext (by omega)

/-- No data page is a bitmap. -/
theorem physical_ne_bitmap (p : LogicalPageId) (i : Nat) : physical p ≠ bitmapPageId i := by
  rw [bitmapPageId_eq]
  unfold physical
  omega

/-! ## The bytes of a page -/

/-- The bytes of a physical page, as they are in the file. -/
def pageAt (d : DiskManager) (q : Nat) : PageData := fun i => d.dbIo.bytes (q * PAGE_SIZE + i)

/-- The bytes of a data page, as they are in the file. -/
def content (d : DiskManager) (p : LogicalPageId) : PageData := d.pageAt (physical p)

variable {d : DiskManager} {page : PageData}

/-- A write changes the bytes of its own page alone. -/
theorem pageAt_writePhysicalPage_of_ne {q r : Nat} (h : r ≠ q) :
    (d.writePhysicalPage q page).pageAt r = d.pageAt r := by
  funext i
  have hi : i.val < 4096 := i.isLt
  have hlength : (DbIo.pageBytes page).length = 4096 := List.length_ofFn
  show (d.dbIo.write (q * 4096) page).bytes (r * 4096 + i) = d.dbIo.bytes (r * 4096 + i)
  unfold DbIo.write
  split
  · rfl
  · refine DisMiniSql.Lib.Bytes.blit_of_outside ?_
    omega

/-- On a working stream the page reads back. -/
theorem pageAt_writePhysicalPage_self {q : Nat} (h : d.dbIo.failed = false) :
    (d.writePhysicalPage q page).pageAt q = page := by
  funext i
  have hlength : (DbIo.pageBytes page).length = PAGE_SIZE := List.length_ofFn
  show (d.dbIo.write (q * PAGE_SIZE) page).bytes (q * PAGE_SIZE + i) = page i
  unfold DbIo.write
  rw [if_neg (fun hfailed => Bool.false_ne_true (h.symm.trans hfailed))]
  refine (DisMiniSql.Lib.Bytes.blit_of_inside (by rw [hlength]; exact i.isLt)).trans ?_
  exact List.getElem_ofFn _

/-- A read leaves the bytes and the fields. -/
theorem readPhysicalPage_bytes (q : PageId) :
    (d.readPhysicalPage q).2.dbIo.bytes = d.dbIo.bytes := by
  unfold readPhysicalPage readAt
  split
  · rfl
  · unfold DbIo.read
    dsimp only
    split
    · rfl
    · rfl

/-- Reading changes no page, even where it sets the stream's fail bit. -/
theorem content_readPhysicalPage (q : PageId) (p : LogicalPageId) :
    (d.readPhysicalPage q).2.content p = d.content p := by
  unfold content pageAt
  rw [readPhysicalPage_bytes]

/-- A write to a bitmap leaves the data pages. -/
theorem content_write_bitmap (i : Nat) (p : LogicalPageId) :
    (d.writePhysicalPage (bitmapPageId i) page).content p = d.content p :=
  pageAt_writePhysicalPage_of_ne (physical_ne_bitmap p i)

/-- The counters of the meta page are no part of the file. -/
theorem countAllocated_dbIo (i : Nat) : (d.countAllocated i).dbIo = d.dbIo := by
  unfold countAllocated
  rfl

/-- Neither when a page is freed. -/
theorem countFreed_dbIo (i : Nat) : (d.countFreed i).dbIo = d.dbIo := by
  unfold countFreed
  rfl

/-- The pages of two disks with the same file. -/
theorem content_congr {d' : DiskManager} (h : d'.dbIo = d.dbIo) (p : LogicalPageId) :
    d'.content p = d.content p := by
  unfold content pageAt
  rw [h]

/-- A write to a data page leaves the others. -/
theorem content_write_page (h : d.dbIo.failed = false) (p q : LogicalPageId) :
    (d.writePhysicalPage (physical p) page).content q = if q = p then page else d.content q := by
  unfold content
  split
  · next heq =>
    rw [heq]
    exact pageAt_writePhysicalPage_self h
  · next hne => exact pageAt_writePhysicalPage_of_ne fun heq => hne (physical_injective heq)

/-- `AllocatePage` leaves the bytes of every data page. -/
theorem content_allocatePage (innerIndex : Nat) (p : LogicalPageId) :
    (d.allocatePage innerIndex).2.content p = d.content p := by
  have hin : ∀ (d : DiskManager) (i : Nat),
      (d.allocateIn i innerIndex).2.content p = d.content p := by
    intro d i
    unfold allocateIn
    dsimp only
    rw [content_write_bitmap, content_congr (countAllocated_dbIo i), content_readPhysicalPage]
  unfold allocatePage
  dsimp only
  split
  · rfl
  · rw [hin]
    split
    · rfl
    · rfl

/-- `DeAllocatePage` leaves the bytes of every data page. -/
theorem content_deAllocatePage (q : Nat) (p : LogicalPageId) :
    (d.deAllocatePage q).content p = d.content p := by
  unfold deAllocatePage
  split
  · rfl
  · dsimp only
    rw [content_write_bitmap, content_congr (countFreed_dbIo _), content_readPhysicalPage]

/-! ## Below 2^31 bytes -/

/-- The stream works, and the size of the file fits in an `int`. -/
structure Small (d : DiskManager) : Prop where
  working : d.dbIo.failed = false
  size : ∃ pages, pages < 2 ^ 19 ∧ d.dbIo.size = pages * PAGE_SIZE

/-- While the file is below the bound of `int`, a read returns the page that stands in the file:
zeros where the file is shorter, the bytes otherwise. -/
theorem Small.read (h : d.Small) {q : Nat} (hq : q < 2 ^ 19) :
    d.readPhysicalPage q = (d.pageAt q, d) := by
  obtain ⟨pages, hpages, hsize⟩ := h.size
  have hfile : d.getFileSize = 4096 * pages := by
    unfold getFileSize
    rw [hsize, ← toInt_offset_of_lt hpages]
    rfl
  unfold readPhysicalPage
  rw [toInt_offset_of_lt hq]
  unfold readAt
  rw [hfile]
  have hsize' : d.dbIo.size = pages * 4096 := hsize
  split
  · next hbeyond =>
    have hzero : emptyPageData = d.pageAt q := by
      funext i
      refine (d.dbIo.beyond _ ?_).symm
      show d.dbIo.size ≤ q * 4096 + i
      omega
    rw [hzero]
  · next hinside =>
    -- the product does not wrap, so the offset is the page's
    have hoffset : (4096 * (q : Int)).toNat = q * PAGE_SIZE := by
      show (4096 * (q : Int)).toNat = q * 4096
      omega
    -- the file ends on a page boundary: no read is cut short
    have hcount : min PAGE_SIZE (d.dbIo.size - q * PAGE_SIZE) = PAGE_SIZE := by
      rw [hsize']
      show min 4096 (pages * 4096 - q * 4096) = 4096
      omega
    have hcases : ¬ (d.dbIo.failed ∨ (4096 * (q : Int)) < 0) := by
      rintro (hfailed | hneg)
      · exact absurd (h.working.symm.trans hfailed) Bool.false_ne_true
      · omega
    unfold DbIo.read
    rw [if_neg hcases, hoffset]
    dsimp only
    rw [hcount]
    have hpage : (fun i : Fin PAGE_SIZE =>
        if i.val < PAGE_SIZE then d.dbIo.bytes (q * PAGE_SIZE + i) else 0) = d.pageAt q := by
      funext i
      exact if_pos i.isLt
    have hfailed : decide (PAGE_SIZE < PAGE_SIZE) = d.dbIo.failed := by
      rw [h.working]
      exact decide_eq_false (Nat.lt_irrefl _)
    rw [hpage, hfailed]

/-- A write below the last page of the first 2^31 bytes. -/
theorem Small.write (h : d.Small) {q : Nat} (hq : q + 1 < 2 ^ 19) (page : PageData) :
    (d.writePhysicalPage q page).Small := by
  obtain ⟨pages, hpages, hsize⟩ := h.size
  have hworking : ¬ d.dbIo.failed = true :=
    fun hfailed => Bool.false_ne_true (h.working.symm.trans hfailed)
  constructor
  · show (d.dbIo.write (q * PAGE_SIZE) page).failed = false
    unfold DbIo.write
    rw [if_neg hworking]
  · refine ⟨max pages (q + 1), by omega, ?_⟩
    show (d.dbIo.write (q * PAGE_SIZE) page).size = max pages (q + 1) * PAGE_SIZE
    unfold DbIo.write
    rw [if_neg hworking]
    have hsize' : d.dbIo.size = pages * 4096 := hsize
    show max d.dbIo.size (q * 4096 + 4096) = max pages (q + 1) * 4096
    omega

/-- The bound is about the file alone. -/
theorem Small.congr {d' : DiskManager} (h : d.Small) (heq : d'.dbIo = d.dbIo) : d'.Small := by
  constructor
  · rw [heq]
    exact h.working
  · rw [heq]
    exact h.size

/-- The bitmaps of the first extents are below 2^31 bytes. -/
theorem bitmapPageId_lt {i : Nat} (hi : i < READABLE_EXTENTS) : bitmapPageId i + 1 < 2 ^ 19 := by
  rw [READABLE_EXTENTS_eq] at hi
  rw [bitmapPageId_eq]
  omega

/-- Where an extent has a free page, the loop of `AllocatePage` does not go behind it. -/
theorem freeExtent_le {i : Nat} (h : d.getExtentUsedPage i < BITMAP_SIZE) : d.freeExtent ≤ i := by
  unfold freeExtent
  cases hfind : (List.range d.numExtents).find?
      (fun i => decide (d.getExtentUsedPage i < BITMAP_SIZE)) with
  | none =>
    -- no extent in use has room, so the extent is not in use
    refine Nat.le_of_not_lt fun hlt => ?_
    have hnone := List.find?_eq_none.mp hfind i (List.mem_range.mpr hlt)
    exact hnone (decide_eq_true h)
  | some j =>
    refine Nat.le_of_not_lt fun hlt => ?_
    obtain ⟨-, -, hbefore⟩ := List.find?_range_eq_some.mp hfind
    have hnot := hbefore i hlt
    rw [decide_eq_true h] at hnot
    exact Bool.false_ne_true hnot

/-- While an extent below the bound has room, `AllocatePage` writes its bitmap below the bound too.
-/
theorem Small.allocatePage (h : d.Small)
    (hroom : ∃ i < READABLE_EXTENTS, d.getExtentUsedPage i < BITMAP_SIZE) (innerIndex : Nat) :
    (d.allocatePage innerIndex).2.Small := by
  obtain ⟨i, hi, hfree⟩ := hroom
  have hlt := bitmapPageId_lt (Nat.lt_of_le_of_lt (freeExtent_le hfree) hi)
  -- both branches write one bitmap page
  have hin : ∀ d : DiskManager, d.Small → ∀ i, bitmapPageId i + 1 < 2 ^ 19 →
      (d.allocateIn i innerIndex).2.Small := by
    intro d h i hlt
    unfold allocateIn
    dsimp only
    rw [h.read (Nat.lt_of_succ_lt hlt)]
    exact (h.congr (countAllocated_dbIo i)).write hlt _
  unfold DiskManager.allocatePage
  dsimp only
  split
  · exact h
  · refine hin _ ?_ _ hlt
    split
    · exact h.congr rfl
    · exact h

/-- `DeAllocatePage` writes the bitmap of the extent of its page. -/
theorem Small.deAllocatePage (h : d.Small) {q : Nat} (hq : q / BITMAP_SIZE < READABLE_EXTENTS) :
    (d.deAllocatePage q).Small := by
  have hlt := bitmapPageId_lt hq
  unfold DiskManager.deAllocatePage
  split
  · exact h
  · dsimp only
    rw [Disk.DiskManager.extentOf_eq, h.read (Nat.lt_of_succ_lt hlt)]
    exact (h.congr (countFreed_dbIo _)).write hlt _

end DiskManager

/-! ## A run -/

/-- A disk, and the page that was written last under every id, or zeros. -/
structure Session where
  disk : DiskManager
  last : LogicalPageId → PageData

namespace Session

open DisMiniSql.MiniSql.Disk.Bytewise.DiskManager

variable {s : Session}

/-- A new database. -/
def start : Session := ⟨DiskManager.new, fun _ => emptyPageData⟩

/-- One call of a run. -/
def next (s : Session) (call : Call) : Session :=
  ⟨s.disk.step call,
    match call with
    | .writePage p page => Function.update s.last p page
    | _ => s.last⟩

/-- What a call should do: a read gives what was written last, and the allocator leaves the bytes of
the data pages. -/
def Right (s : Session) : Call → Prop
  | .readPage p => (s.disk.readPage p).1 = s.last p
  | .writePage p page => ∀ q, (s.disk.writePage p page).content q =
      if q = p then page else s.disk.content q
  | .allocatePage innerIndex => ∀ p, (s.disk.allocatePage innerIndex).2.content p =
      s.disk.content p
  | .deAllocatePage q => ∀ p, (s.disk.deAllocatePage q).content p = s.disk.content p

/-- The first valid page whose offset is not below 2^31. -/
def FAR_PAGE : Nat := 524270

/-- The offset that the call computes, and the size of the file behind it, fit in an `int`. The
bitmaps of the first extents are below 2^31 bytes. -/
def Near (s : Session) : Call → Prop
  | .readPage p => p.val < FAR_PAGE
  | .writePage p _ => p.val + 1 < FAR_PAGE
  | .allocatePage _ => ∃ i < READABLE_EXTENTS, s.disk.getExtentUsedPage i < BITMAP_SIZE
  | .deAllocatePage p => p.val / BITMAP_SIZE < READABLE_EXTENTS

/-- The state of a run below 2^31 bytes. -/
structure Kept (s : Session) : Prop where
  small : s.disk.Small
  content : ∀ p, s.disk.content p = s.last p

/-- The empty file starts the induction. -/
theorem kept_start : start.Kept where
  small := ⟨rfl, 0, by decide, rfl⟩
  content _ := rfl

/-- The logical bound of a session is the physical bound of the file. -/
theorem physical_lt_iff (p : LogicalPageId) (n : Nat) (hn : n ≤ 1) :
    physical p + n < 2 ^ 19 ↔ p.val + n < FAR_PAGE := by
  show p.val / 32704 * 32705 + p.val % 32704 + 2 + n < 524288 ↔ p.val + n < 524270
  omega

/-- A read returns what was written last. -/
theorem Kept.readPage {p : LogicalPageId} (h : s.Kept) (hp : p.val < FAR_PAGE) :
    s.disk.readPage p = (s.last p, s.disk) := by
  have hread : s.disk.readPhysicalPage (physical p) = (s.disk.pageAt (physical p), s.disk) :=
    h.small.read ((physical_lt_iff p 0 (Nat.zero_le 1)).mpr hp)
  unfold DiskManager.readPage
  rw [mapPageId_eq, hread, ← h.content p]
  rfl

/-- A write sets the content of its page and of no other. -/
theorem Kept.writePage {p : LogicalPageId} (h : s.Kept) (hp : p.val + 1 < FAR_PAGE)
    (page : PageData) : (s.disk.writePage p page).Small ∧
      ∀ q, (s.disk.writePage p page).content q = if q = p then page else s.disk.content q := by
  have hsmall := h.small.write ((physical_lt_iff p 1 (Nat.le_refl 1)).mpr hp) page
  unfold DiskManager.writePage
  rw [mapPageId_eq]
  exact ⟨hsmall, content_write_page h.small.working p⟩

/-- Each call within the bound behaves as asked and keeps the invariant; the calls of the allocator
write bitmaps only, which are no logical page's bytes. -/
theorem Kept.step {call : Call} (h : s.Kept) (hnear : s.Near call) :
    s.Right call ∧ (s.next call).Kept := by
  cases call with
  | readPage p =>
    have hread := h.readPage hnear
    have hnext : s.next (.readPage p) = s := by
      show (⟨(s.disk.readPage p).2, s.last⟩ : Session) = s
      rw [hread]
    constructor
    · unfold Right
      dsimp only
      rw [hread]
    · rw [hnext]
      exact h
  | writePage p page =>
    obtain ⟨hsmall, hcontent⟩ := h.writePage hnear page
    refine ⟨hcontent, hsmall, fun q => ?_⟩
    show (s.disk.writePage p page).content q = Function.update s.last p page q
    rw [hcontent, Function.update_apply, h.content]
  | allocatePage innerIndex =>
    have hcontent : ∀ p, (s.disk.allocatePage innerIndex).2.content p = s.disk.content p :=
      content_allocatePage innerIndex
    have hsmall := h.small.allocatePage hnear innerIndex
    refine ⟨hcontent, hsmall, fun p => ?_⟩
    show (s.disk.allocatePage innerIndex).2.content p = s.last p
    rw [hcontent, h.content]
  | deAllocatePage q =>
    have hcontent : ∀ p, (s.disk.deAllocatePage q).content p = s.disk.content p :=
      content_deAllocatePage q
    have hsmall : (s.disk.deAllocatePage q).Small := h.small.deAllocatePage hnear
    refine ⟨hcontent, hsmall, fun p => ?_⟩
    show (s.disk.deAllocatePage q).content p = s.last p
    rw [hcontent, h.content]

/-- Data pages are apart from each other, from the meta page and from the bitmaps, and in a run from
a new database that stays below 2^31 bytes every call does what it should. -/
theorem disk_pages_apart {calls : List Call} (hnear : Guarded Near next start calls) :
    (Function.Injective fun p : LogicalPageId => mapPageId p) ∧
      (∀ p : LogicalPageId, mapPageId p ≠ META_PAGE_ID ∧
        ∀ i < MAX_BITMAP, mapPageId p ≠ bitmapPageId i) ∧
      Guarded Right next start calls := by
  refine ⟨fun p q h => ?_, fun p => ⟨?_, fun i _ => ?_⟩,
    Guarded.of_guarded (fun _ _ h => h.step) kept_start hnear⟩
  · have h' : mapPageId p = mapPageId q := h
    rw [mapPageId_eq, mapPageId_eq] at h'
    exact physical_injective (Int.ofNat.inj h')
  · rw [mapPageId_eq]
    exact fun h => Nat.succ_ne_zero _ (Int.ofNat.inj h)
  · rw [mapPageId_eq]
    exact fun h => physical_ne_bitmap p i (Int.ofNat.inj h)

/-- A page that is allocated, written and read. -/
theorem disk_pages_apart_of_one_page :
    Guarded Right next start
      [.allocatePage 0, .writePage ⟨0, by decide⟩ (fun _ => 1), .readPage ⟨0, by decide⟩] := by
  have hnear : Guarded Near next start
      [.allocatePage 0, .writePage ⟨0, by decide⟩ (fun _ => 1), .readPage ⟨0, by decide⟩] := by
    refine ⟨⟨0, by decide, by decide⟩, ?_, ?_, trivial⟩
    · show 0 + 1 < FAR_PAGE
      decide
    · show 0 < FAR_PAGE
      decide
  exact (disk_pages_apart hnear).2.2

/-- The page whose last byte is the last of the first 2^31 bytes. -/
def lastPage : LogicalPageId := ⟨524269, by decide⟩

/-- What is written there is not read: the size of the file is negative, as an `int`. -/
theorem last_page_is_lost :
    mapPageId lastPage = 524287 ∧
      ((DiskManager.new.writePage lastPage fun _ => 1).readPage lastPage).1 = emptyPageData ∧
      ¬ ∀ calls, Guarded Right next start calls := by
  have hphysical : mapPageId lastPage = 524287 := by decide
  have hread : ((DiskManager.new.writePage lastPage fun _ => 1).readPage lastPage).1 =
      emptyPageData := by
    unfold readPage readPhysicalPage readAt
    rw [hphysical, if_pos]
    show toInt 2147483648 ≤ toInt (524287 * 4096)
    decide
  refine ⟨hphysical, hread, fun h => ?_⟩
  have hright := (h [.writePage lastPage fun _ => 1, .readPage lastPage]).2.1
  have hone : ((DiskManager.new.writePage lastPage fun _ => 1).readPage lastPage).1 =
      Function.update (fun _ => emptyPageData) lastPage (fun _ => 1) lastPage := hright
  rw [hread, Function.update_self] at hone
  exact absurd (congrFun hone ⟨0, by decide⟩) (by decide)

end Session

end DisMiniSql.MiniSql.Disk.Bytewise
