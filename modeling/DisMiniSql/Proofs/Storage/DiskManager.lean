import Mathlib.Data.Finset.Dedup
import Mathlib.Data.Finset.Image
import DisMiniSql.Lib.Run
import DisMiniSql.MiniSql.Storage.DiskManager
import DisMiniSql.Proofs.Page.BitmapPage

/-!
# `DisMiniSql.Proofs.Storage.DiskManager`: the counters of the allocator

`Accounts` is what should hold after each call: the two kinds of counters, the bitmaps and
`IsPageFree` all agree with the pages that are handed out. `accounts_iff` shows that a run keeps it
exactly if it frees no page that is not handed out, and never allocates a page while the first
`READABLE_EXTENTS` extents are full. The bitmap of the next extent is behind the largest offset that
`ReadPhysicalPage` can compute.
-/

set_option autoImplicit false

namespace DisMiniSql.MiniSql.Disk

open DisMiniSql.Lib (Guarded)
open BitmapPage (MAX_PAGES)

namespace DiskManager

/-- The extents whose bitmap begins below `2 ^ 31` bytes. -/
def READABLE_EXTENTS : Nat := 17

/-- The bitmap of an extent, on the disk. -/
def bitmap (d : DiskManager) (extentId : Nat) : BitmapPage := d.file (bitmapPageId extentId)

/-- The bits and the fields of the disk agree. Only the first extents have been written to. -/
structure Sound (d : DiskManager) : Prop where
  consistent : ∀ i, (d.bitmap i).Consistent
  extentUsedPage : ∀ i, d.extentUsedPage i = (d.bitmap i).allocated.card
  numExtents : d.numExtents ≤ READABLE_EXTENTS
  unused : ∀ i, d.numExtents ≤ i → d.bitmap i = BitmapPage.empty
  others : ∀ q, (∀ i < READABLE_EXTENTS, q ≠ bitmapPageId i) → d.file q = BitmapPage.empty
  working : d.failed = false
  filePages : d.filePages ≤ bitmapPageId (READABLE_EXTENTS - 1) + 1
  beyond : ∀ i, d.filePages ≤ bitmapPageId i → d.bitmap i = BitmapPage.empty

variable {d : DiskManager} {i p x : Nat}

/-- Where the bitmap of an extent stands, in numbers. -/
theorem bitmapPageId_eq (i : Nat) : bitmapPageId i = i * 32705 + 1 := rfl

theorem BITMAP_SIZE_eq : BITMAP_SIZE = 32704 := rfl

/-- The extents the file can hold below the bound of `int`. -/
theorem READABLE_EXTENTS_eq : READABLE_EXTENTS = 17 := rfl

theorem increment_eq (h : x + 1 < 2 ^ 32) : increment x = x + 1 := Nat.mod_eq_of_lt h

/-- Counting down from a positive value. -/
theorem decrement_eq (hpos : 0 < x) (h : x < 2 ^ 32) : decrement x = x - 1 := by
  unfold decrement
  omega

/-- Counting down always changes the counter; at zero it wraps. -/
theorem decrement_ne (h : x < 2 ^ 32) : decrement x ≠ x := by
  unfold decrement
  omega

/-- The offset of a page, in an `int`. -/
theorem toInt_offset (q : Nat) :
    toInt ((q : Int) * PAGE_SIZE) = 4096 * Int.bmod q 1048576 := by
  have hpage : (PAGE_SIZE : Int) = 4096 := rfl
  unfold toInt
  rw [hpage, Int.bmod_def, Int.bmod_def]
  omega

/-- The offsets below `2 ^ 31` are right. -/
theorem toInt_offset_of_lt (h : p < 2 ^ 19) : toInt ((p : Int) * PAGE_SIZE) = 4096 * p := by
  rw [toInt_offset, Int.bmod_def]
  omega

/-- The file consists of whole pages. -/
theorem Sound.getFileSize (h : d.Sound) : d.getFileSize = 4096 * d.filePages := by
  have hle := h.filePages
  rw [READABLE_EXTENTS_eq, bitmapPageId_eq] at hle
  exact toInt_offset_of_lt (by omega)

/-- Behind the end of the file a read gives zeros. -/
theorem readAt_beyond {offset : Int} (h : d.getFileSize ≤ offset) :
    d.readAt offset = (BitmapPage.empty, d) := if_pos h

/-- A read that fails, now or because one has failed before. -/
theorem readAt_fails {offset : Int} (h : ¬ d.getFileSize ≤ offset)
    (hfails : d.failed ∨ offset < 0) :
    d.readAt offset = (BitmapPage.empty, { d with failed := true }) := by
  unfold readAt
  rw [if_neg h, if_pos hfails]

/-- Within the file it gives the page. -/
theorem readAt_inside {offset : Int} (h : ¬ d.getFileSize ≤ offset) (hworking : d.failed = false)
    (hnonneg : 0 ≤ offset) : d.readAt offset = (d.file (offset.toNat / PAGE_SIZE), d) := by
  unfold readAt
  rw [if_neg h, if_neg]
  rintro (hfails | hneg)
  · exact absurd (hworking.symm.trans hfails) Bool.false_ne_true
  · omega

/-- Behind the fail bit, a read gives a page of zeros. -/
theorem read_of_failed (h : d.failed = true) (q : Nat) :
    (d.readPhysicalPage q).1 = BitmapPage.empty := by
  unfold readPhysicalPage
  generalize toInt (q * PAGE_SIZE) = offset
  by_cases hle : d.getFileSize ≤ offset
  · rw [readAt_beyond hle]
  · rw [readAt_fails hle (.inl h)]

/-- The bitmap of one of the first extents is read. -/
theorem Sound.read (h : d.Sound) (hi : i < READABLE_EXTENTS) :
    d.readPhysicalPage (bitmapPageId i) = (d.bitmap i, d) := by
  rw [READABLE_EXTENTS_eq] at hi
  have hlt : bitmapPageId i < 2 ^ 19 := by
    rw [bitmapPageId_eq]
    omega
  have hbeyond := h.beyond i
  have hsize := h.getFileSize
  unfold readPhysicalPage
  rw [toInt_offset_of_lt hlt]
  unfold bitmap at *
  generalize bitmapPageId i = q at hbeyond ⊢
  by_cases hle : d.filePages ≤ q
  · rw [readAt_beyond (by omega), hbeyond hle]
  · rw [readAt_inside (by omega) h.working (by omega)]
    have hpage : ((4096 : Int) * q).toNat / PAGE_SIZE = q := by
      show ((4096 : Int) * q).toNat / 4096 = q
      omega
    rw [hpage]

/-- The bitmap of a later extent is read as a page of zeros, whatever is in the file. -/
theorem Sound.read_far (h : d.Sound) (hi : READABLE_EXTENTS ≤ i) (hmax : i < MAX_BITMAP) :
    (d.readPhysicalPage (bitmapPageId i)).1 = BitmapPage.empty := by
  have hmax' : i < 1022 := hmax
  have hoffset := toInt_offset (bitmapPageId i)
  rw [Int.bmod_def, bitmapPageId_eq] at hoffset
  unfold readPhysicalPage
  rw [bitmapPageId_eq]
  generalize toInt _ = offset at hoffset ⊢
  by_cases hle : d.getFileSize ≤ offset
  · rw [readAt_beyond hle]
  by_cases hnonneg : 0 ≤ offset
  · rw [readAt_inside hle h.working hnonneg]
    refine h.others _ (fun j hj => ?_)
    -- a wrapped offset is not that of another bitmap
    rw [READABLE_EXTENTS_eq] at hi hj
    rw [bitmapPageId_eq]
    show offset.toNat / 4096 ≠ _
    omega
  · rw [readAt_fails hle (.inr (by omega))]

/-- The read of the first bitmap that is too far sets the fail bit. -/
theorem Sound.read_fails (h : d.Sound) :
    d.readPhysicalPage (bitmapPageId READABLE_EXTENTS) =
      (BitmapPage.empty, { d with failed := true }) := by
  have hoffset := toInt_offset (bitmapPageId READABLE_EXTENTS)
  have hsize := h.getFileSize
  rw [Int.bmod_def, bitmapPageId_eq, READABLE_EXTENTS_eq] at hoffset
  unfold readPhysicalPage
  rw [bitmapPageId_eq, READABLE_EXTENTS_eq]
  generalize toInt _ = offset at hoffset ⊢
  exact readAt_fails (by omega) (.inr (by omega))

/-- The disk behind a write to the bitmap of one of the first extents. -/
def withBitmap (d : DiskManager) (i : Nat) (b : BitmapPage) (m n : Nat) : DiskManager :=
  { numAllocatedPages := m
    numExtents := n
    extentUsedPage := Function.update d.extentUsedPage i b.allocated.card
    file := Function.update d.file (bitmapPageId i) b
    filePages := max d.filePages (bitmapPageId i + 1)
    failed := false }

variable {b : BitmapPage} {m n : Nat}

/-- Writing the bitmap of one extent leaves the others alone. -/
theorem bitmap_withBitmap (j : Nat) :
    (d.withBitmap i b m n).bitmap j = if j = i then b else d.bitmap j := by
  show Function.update d.file (bitmapPageId i) b (bitmapPageId j) = _
  by_cases hj : j = i
  · rw [hj, if_pos rfl, Function.update_self]
  · have hne : bitmapPageId j ≠ bitmapPageId i := by
      rw [bitmapPageId_eq, bitmapPageId_eq]
      omega
    rw [if_neg hj, Function.update_of_ne hne]
    rfl

/-- What the two calls do in the end is to put one bitmap and its count in place. -/
theorem write_eq_withBitmap {used : Nat} (h : d.failed = false) (hused : used = b.allocated.card) :
    ({ d with
        numExtents := n
        extentUsedPage := Function.update d.extentUsedPage i used
        numAllocatedPages := m } : DiskManager).writePhysicalPage (bitmapPageId i) b =
      d.withBitmap i b m n := by
  unfold writePhysicalPage
  rw [if_neg (fun hfailed => Bool.false_ne_true (h.symm.trans hfailed)), hused]
  unfold withBitmap
  rw [← h]

/-- Putting a consistent bitmap in place keeps the meta page in step with the file: the count of its
extent is the number of its set bits, and the number of extents covers it. -/
theorem Sound.withBitmap (h : d.Sound) (hb : b.Consistent) (hn : d.numExtents ≤ n) (hin : i < n)
    (hle : n ≤ READABLE_EXTENTS) : (d.withBitmap i b m n).Sound where
  consistent j := by
    rw [bitmap_withBitmap]
    split
    · exact hb
    · exact h.consistent j
  extentUsedPage j := by
    rw [bitmap_withBitmap]
    show Function.update d.extentUsedPage i b.allocated.card j = _
    by_cases hj : j = i
    · rw [hj, if_pos rfl, Function.update_self]
    · rw [if_neg hj, Function.update_of_ne hj, h.extentUsedPage]
  numExtents := hle
  unused j hj := by
    have hnj : n ≤ j := hj
    rw [bitmap_withBitmap, if_neg (by omega)]
    exact h.unused j (by omega)
  others q hq := by
    show Function.update d.file (bitmapPageId i) b q = _
    rw [Function.update_of_ne (hq i (by omega))]
    exact h.others q hq
  working := rfl
  filePages := by
    have hfile := h.filePages
    rw [READABLE_EXTENTS_eq, bitmapPageId_eq] at *
    show max d.filePages (bitmapPageId i + 1) ≤ _
    rw [bitmapPageId_eq]
    omega
  beyond j hj := by
    -- a bitmap behind the end of the file reads as zeros
    have hmax : max d.filePages (bitmapPageId i + 1) ≤ bitmapPageId j := hj
    have hne : j ≠ i := by
      rintro rfl
      omega
    rw [bitmap_withBitmap, if_neg hne]
    exact h.beyond j (by omega)

/-- The count of an extent on a sound disk. -/
theorem Sound.getExtentUsedPage (h : d.Sound) (i : Nat) :
    d.getExtentUsedPage i = d.extentUsedPage i := by
  unfold DiskManager.getExtentUsedPage
  split
  · next hle => rw [h.extentUsedPage, h.unused i hle, BitmapPage.allocated_empty, Finset.card_empty]
  · rfl

/-- The extent that `AllocatePage` takes. -/
theorem freeExtent_cases (d : DiskManager) :
    (d.freeExtent < d.numExtents ∧ d.getExtentUsedPage d.freeExtent < BITMAP_SIZE) ∨
      d.freeExtent = d.numExtents ∧ ∀ i < d.numExtents, ¬ d.getExtentUsedPage i < BITMAP_SIZE := by
  unfold freeExtent
  cases hfind : (List.range d.numExtents).find?
      (fun i => decide (d.getExtentUsedPage i < BITMAP_SIZE)) with
  | none =>
    refine .inr ⟨rfl, fun i hi => ?_⟩
    have hnone := List.find?_eq_none.mp hfind i (List.mem_range.mpr hi)
    rwa [decide_eq_true_eq] at hnone
  | some i =>
    have hroom := List.find?_some hfind
    rw [decide_eq_true_eq] at hroom
    exact .inl ⟨List.mem_range.mp (List.mem_of_find?_eq_some hfind), hroom⟩

/-- A page of one of the first extents is free. -/
def HasRoom (d : DiskManager) : Prop := ∃ i < READABLE_EXTENTS, d.getExtentUsedPage i < BITMAP_SIZE

/-- A read does not look at the number of extents. -/
theorem readPhysicalPage_numExtents (d : DiskManager) (n q : Nat) :
    ({ d with numExtents := n } : DiskManager).readPhysicalPage q =
      ((d.readPhysicalPage q).1, { (d.readPhysicalPage q).2 with numExtents := n }) := by
  unfold readPhysicalPage readAt
  generalize toInt (q * PAGE_SIZE) = offset
  show (if d.getFileSize ≤ offset then _ else _) = _
  split
  · rfl
  · split
    · rfl
    · rfl

/-- `AllocatePage` in an extent whose bitmap hands out a page: count it, write the bitmap back and
return the global id. -/
theorem allocateIn_eq {page b : BitmapPage} {d' : DiskManager}
    (hread : d.readPhysicalPage (bitmapPageId i) = (page, d'))
    (hallocate : page.allocatePage = (some x, b)) (innerIndex : Nat) :
    d.allocateIn i innerIndex = (toInt (i * BITMAP_SIZE + x),
      (d'.countAllocated i).writePhysicalPage (bitmapPageId i) b) := by
  unfold allocateIn
  rw [hread]
  dsimp only
  rw [hallocate, Option.getD_some]

/-- `AllocatePage` where the bitmap has room. -/
theorem allocatePage_eq {page b : BitmapPage} {d' : DiskManager} (hi : d.freeExtent = i)
    (hmax : ¬ (i = d.numExtents ∧ d.numExtents = MAX_BITMAP))
    (hn : (if i = d.numExtents then d.numExtents + 1 else d.numExtents) = n)
    (hread : d.readPhysicalPage (bitmapPageId i) = (page, d'))
    (hallocate : page.allocatePage = (some x, b)) (innerIndex : Nat) :
    d.allocatePage innerIndex = (toInt (i * BITMAP_SIZE + x),
      (({ d' with numExtents := n } : DiskManager).countAllocated i).writePhysicalPage
        (bitmapPageId i) b) := by
  have hnum : (if i = d.numExtents then { d with numExtents := d.numExtents + 1 } else d) =
      { d with numExtents := n } := by
    rw [← hn]
    split
    · rfl
    · rfl
  have hread' := readPhysicalPage_numExtents d n (bitmapPageId i)
  rw [hread] at hread'
  unfold DiskManager.allocatePage
  rw [hi, if_neg hmax, hnum, allocateIn_eq hread' hallocate]

/-- The id of a page of one of the first extents fits in an `int`. -/
theorem toInt_pageId (hi : i ≤ READABLE_EXTENTS) (hx : x < BITMAP_SIZE) :
    toInt ((i : Int) * BITMAP_SIZE + x) = ((i * BITMAP_SIZE + x : Nat) : Int) := by
  rw [READABLE_EXTENTS_eq] at hi
  rw [BITMAP_SIZE_eq] at hx ⊢
  unfold toInt
  rw [Int.bmod_def]
  omega

/-- Where there is room, a page of one of the first extents is allocated. -/
theorem Sound.allocatePage (h : d.Sound) (hroom : d.HasRoom)
    (hnum : d.numAllocatedPages + 1 < 2 ^ 32) (innerIndex : Nat) :
    ∃ i x b n, d.allocatePage innerIndex =
        (((i * BITMAP_SIZE + x : Nat) : Int), d.withBitmap i b (d.numAllocatedPages + 1) n) ∧
      i < READABLE_EXTENTS ∧ x < BITMAP_SIZE ∧ x ∉ (d.bitmap i).allocated ∧
        b.allocated = insert x (d.bitmap i).allocated ∧
          (d.withBitmap i b (d.numAllocatedPages + 1) n).Sound := by
  obtain ⟨k, hk, hfree⟩ := hroom
  have hnumExtents := h.numExtents
  have hfreeExtent := d.freeExtent_cases
  generalize hi : d.freeExtent = i at hfreeExtent
  have hextent : i ≤ d.numExtents ∧ i < READABLE_EXTENTS ∧ d.extentUsedPage i < BITMAP_SIZE := by
    rcases hfreeExtent with ⟨hlt, hused⟩ | ⟨heq, hall⟩
    · rw [h.getExtentUsedPage] at hused
      exact ⟨Nat.le_of_lt hlt, by omega, hused⟩
    · have hkn : d.numExtents ≤ k := Nat.le_of_not_lt (fun hlt => hall k hlt hfree)
      refine ⟨by omega, by omega, ?_⟩
      rw [h.extentUsedPage, h.unused i (by omega), BitmapPage.allocated_empty, Finset.card_empty]
      decide
  obtain ⟨hle, hlt, hused⟩ := hextent
  have hmax : ¬ (i = d.numExtents ∧ d.numExtents = MAX_BITMAP) := by
    rintro ⟨heq, hfull⟩
    have hmax : MAX_BITMAP = 1022 := rfl
    rw [READABLE_EXTENTS_eq] at hlt
    omega
  have hcard := h.extentUsedPage i
  obtain ⟨x, b, hallocate, hx, hxfree, hb, hinsert⟩ :=
    (h.consistent i).allocatePage (hcard ▸ hused)
  generalize hn : (if i = d.numExtents then d.numExtents + 1 else d.numExtents) = n
  have hbcard : b.allocated.card = d.extentUsedPage i + 1 := by
    rw [hinsert, Finset.card_insert_of_notMem hxfree, hcard]
  have hB := BITMAP_SIZE_eq
  refine ⟨i, x, b, n, ?_, hlt, hx, hxfree, hinsert, h.withBitmap hb ?_ ?_ ?_⟩
  · have hused' : increment (d.extentUsedPage i) = b.allocated.card := by
      rw [hbcard]
      exact increment_eq (by omega)
    rw [allocatePage_eq hi hmax hn (h.read hlt) hallocate, toInt_pageId (Nat.le_of_lt hlt) hx]
    unfold countAllocated
    rw [write_eq_withBitmap h.working hused', increment_eq hnum]
  · split at hn
    · omega
    · omega
  · split at hn
    · omega
    · omega
  · split at hn
    · omega
    · omega

/-- Where the first extents are full, the next page is allocated in a bitmap that is not written. -/
theorem Sound.allocatePage_full (h : d.Sound) (hfull : ¬ d.HasRoom) (innerIndex : Nat) :
    (∃ p < MAX_VALID_PAGE_ID, (d.allocatePage innerIndex).1 = ((p : Nat) : Int)) ∧
      (d.allocatePage innerIndex).2.failed = true := by
  have hnumExtents := h.numExtents
  have hall : ∀ i < READABLE_EXTENTS, ¬ d.getExtentUsedPage i < BITMAP_SIZE :=
    fun i hi hlt => hfull ⟨i, hi, hlt⟩
  have hextents : d.numExtents = READABLE_EXTENTS := by
    by_contra hne
    refine hall d.numExtents (by omega) ?_
    rw [h.getExtentUsedPage, h.extentUsedPage, h.unused _ (Nat.le_refl _),
      BitmapPage.allocated_empty, Finset.card_empty]
    decide
  have hi : d.freeExtent = READABLE_EXTENTS := by
    rcases d.freeExtent_cases with ⟨hlt, hused⟩ | ⟨heq, _⟩
    · exact absurd hused (hall _ (hextents ▸ hlt))
    · exact heq.trans hextents
  have hmax : ¬ (READABLE_EXTENTS = d.numExtents ∧ d.numExtents = MAX_BITMAP) := by
    rintro ⟨_, hmax⟩
    rw [hextents] at hmax
    exact absurd hmax (by decide)
  obtain ⟨x, b, hallocate, hx, _⟩ := BitmapPage.consistent_empty.allocatePage (by
    rw [BitmapPage.allocated_empty, Finset.card_empty]
    decide)
  rw [allocatePage_eq hi hmax (if_pos hextents.symm) h.read_fails hallocate,
    toInt_pageId (Nat.le_refl _) hx]
  refine ⟨⟨_, ?_, rfl⟩, ?_⟩
  · have hmaxId : MAX_VALID_PAGE_ID = 1022 * 32704 := rfl
    have hx' : x < BITMAP_SIZE := hx
    rw [BITMAP_SIZE_eq] at hx' ⊢
    rw [READABLE_EXTENTS_eq]
    omega
  · generalize hfailed : ({ { d with failed := true } with
      numExtents := d.numExtents + 1 } : DiskManager).countAllocated READABLE_EXTENTS = d'
    have hfailed : d'.failed = true := by rw [← hfailed]; rfl
    unfold writePhysicalPage
    rw [if_pos hfailed]
    exact hfailed

/-- The extent and the index of a page id. -/
theorem extentOf_eq (p : Nat) : (p + BITMAP_SIZE) / BITMAP_SIZE - 1 = p / BITMAP_SIZE := by
  rw [BITMAP_SIZE_eq]
  omega

/-- An id is its extent and its place there. -/
theorem pageId_ext {q : Nat} (hdiv : p / BITMAP_SIZE = q / BITMAP_SIZE)
    (hmod : p % BITMAP_SIZE = q % BITMAP_SIZE) : p = q := by
  rw [← Nat.div_add_mod' p BITMAP_SIZE, ← Nat.div_add_mod' q BITMAP_SIZE, hdiv, hmod]

/-- A page that is handed out is freed. -/
theorem Sound.deAllocatePage (h : d.Sound) (hp : p < MAX_VALID_PAGE_ID)
    (hmem : p % BITMAP_SIZE ∈ (d.bitmap (p / BITMAP_SIZE)).allocated)
    (hpos : 0 < d.numAllocatedPages) (hnum : d.numAllocatedPages < 2 ^ 32) :
    ∃ b, d.deAllocatePage p =
        d.withBitmap (p / BITMAP_SIZE) b (d.numAllocatedPages - 1) d.numExtents ∧
      b.allocated = (d.bitmap (p / BITMAP_SIZE)).allocated.erase (p % BITMAP_SIZE) ∧
        (d.deAllocatePage p).Sound := by
  have hnumExtents := h.numExtents
  have hextent : p / BITMAP_SIZE < d.numExtents := by
    by_contra hge
    rw [h.unused _ (Nat.le_of_not_lt hge), BitmapPage.allocated_empty] at hmem
    exact Finset.notMem_empty _ hmem
  obtain ⟨b, hfree, hb, herase⟩ := (h.consistent (p / BITMAP_SIZE)).deAllocatePage hmem
  have hused := h.extentUsedPage (p / BITMAP_SIZE)
  have hcard : b.allocated.card + 1 = d.extentUsedPage (p / BITMAP_SIZE) := by
    rw [herase, hused, Finset.card_erase_add_one hmem]
  have hle := BitmapPage.card_allocated_le (d.bitmap (p / BITMAP_SIZE))
  have hmax : MAX_PAGES = 32704 := rfl
  have hused' : decrement (d.extentUsedPage (p / BITMAP_SIZE)) = b.allocated.card := by
    rw [decrement_eq (by omega) (by omega)]
    omega
  have heq : d.deAllocatePage p =
      d.withBitmap (p / BITMAP_SIZE) b (d.numAllocatedPages - 1) d.numExtents := by
    unfold DiskManager.deAllocatePage deAllocateIn
    rw [if_neg (Nat.not_le_of_lt hp), extentOf_eq, h.read (by omega)]
    dsimp only
    rw [hfree, ← decrement_eq hpos hnum, ← write_eq_withBitmap h.working hused']
    rfl
  refine ⟨b, heq, herase, ?_⟩
  rw [heq]
  exact h.withBitmap hb (Nat.le_refl _) hextent hnumExtents

/-- Each free takes one from the counter, also that of a page that is free. -/
theorem deAllocatePage_numAllocatedPages (hp : p < MAX_VALID_PAGE_ID) :
    (d.deAllocatePage p).numAllocatedPages = decrement d.numAllocatedPages := by
  have hread : ∀ q, (d.readPhysicalPage q).2.numAllocatedPages = d.numAllocatedPages := by
    intro q
    unfold readPhysicalPage
    generalize toInt (q * PAGE_SIZE) = offset
    unfold readAt
    split
    · rfl
    · split
      · rfl
      · rfl
  have hwrite : ∀ (d' : DiskManager) (q : Nat) (b : BitmapPage),
      (d'.writePhysicalPage q b).numAllocatedPages = d'.numAllocatedPages := by
    intro d' q b
    unfold writePhysicalPage
    split
    · rfl
    · rfl
  have hcount : ∀ (d' : DiskManager) (i : Nat),
      (d'.countFreed i).numAllocatedPages = decrement d'.numAllocatedPages := fun _ _ => rfl
  unfold DiskManager.deAllocatePage deAllocateIn
  rw [if_neg (Nat.not_le_of_lt hp), hwrite, hcount, hread]

/-- An id beyond the last valid one is ignored. -/
theorem deAllocatePage_of_invalid (hp : ¬ p < MAX_VALID_PAGE_ID) : d.deAllocatePage p = d :=
  if_pos (Nat.le_of_not_lt hp)

/-- `IsPageFree` asks the bitmap of the page's extent. -/
theorem isPageFree_eq (hp : p < MAX_VALID_PAGE_ID) : (d.isPageFree p).1 =
    (d.readPhysicalPage (bitmapPageId (p / BITMAP_SIZE))).1.isPageFree (p % BITMAP_SIZE) := by
  unfold isPageFree
  rw [if_neg (Nat.not_le_of_lt hp), extentOf_eq]

/-- The place in the extent lies within its bitmap. -/
theorem mod_lt_maxPages (p : Nat) : p % BITMAP_SIZE < MAX_PAGES := Nat.mod_lt p (by decide)

/-- On a zero bitmap every page is free. -/
theorem isPageFree_empty (p : Nat) : BitmapPage.empty.isPageFree (p % BITMAP_SIZE) = true := by
  rw [BitmapPage.isPageFree_iff, BitmapPage.allocated_empty]
  exact ⟨mod_lt_maxPages p, Finset.notMem_empty _⟩

/-- `IsPageFree` reads the bit, also where it cannot read the bitmap. -/
theorem Sound.isPageFree_iff (h : d.Sound) (hp : p < MAX_VALID_PAGE_ID) :
    (d.isPageFree p).1 = true ↔ p % BITMAP_SIZE ∉ (d.bitmap (p / BITMAP_SIZE)).allocated := by
  rw [isPageFree_eq hp]
  by_cases hi : p / BITMAP_SIZE < READABLE_EXTENTS
  · rw [h.read hi, BitmapPage.isPageFree_iff]
    exact and_iff_right (mod_lt_maxPages p)
  · have hge := Nat.le_of_not_lt hi
    have hmax : p / BITMAP_SIZE < MAX_BITMAP := by
      have hmaxId : MAX_VALID_PAGE_ID = 1022 * 32704 := rfl
      have hmaxBitmap : MAX_BITMAP = 1022 := rfl
      rw [BITMAP_SIZE_eq]
      omega
    rw [h.read_far hge hmax, h.unused _ (Nat.le_trans h.numExtents hge),
      BitmapPage.allocated_empty]
    exact iff_of_true (isPageFree_empty p) (Finset.notMem_empty _)

end DiskManager

/-! ### A run -/

/-- A disk and the pages that are handed out. -/
structure Session where
  disk : DiskManager
  handedOut : List PageId

namespace Session

open DisMiniSql.MiniSql.Disk.DiskManager

variable {s : Session}

/-- One call of a run. -/
def next (s : Session) : DiskCall → Session
  | .allocatePage innerIndex =>
    ⟨(s.disk.allocatePage innerIndex).2,
      if (s.disk.allocatePage innerIndex).1 = INVALID_PAGE_ID then s.handedOut
      else (s.disk.allocatePage innerIndex).1 :: s.handedOut⟩
  | .deAllocatePage logicalPageId =>
    ⟨s.disk.deAllocatePage logicalPageId, s.handedOut.erase logicalPageId⟩

/-- The counters and the bitmaps say which pages are handed out, and none of these was handed out
twice. A counter that has wrapped around is not the number of anything. -/
structure Accounts (s : Session) : Prop where
  nodup : s.handedOut.Nodup
  numAllocatedPages : s.disk.numAllocatedPages = s.handedOut.length
  extentUsedPage : ∀ i < MAX_BITMAP,
    s.disk.extentUsedPage i = (s.disk.bitmap i).allocated.card
  isPageFree : ∀ p < MAX_VALID_PAGE_ID,
    (s.disk.isPageFree p).1 = true ↔ (p : PageId) ∉ s.handedOut

/-- The call frees a page that is handed out, or allocates one where the first extents have
room. -/
def Safe (s : Session) : DiskCall → Prop
  | .allocatePage _ => s.disk.HasRoom
  | .deAllocatePage logicalPageId =>
    logicalPageId < MAX_VALID_PAGE_ID → (logicalPageId : PageId) ∈ s.handedOut

/-- The state of a run that is right so far. -/
structure Kept (s : Session) : Prop where
  disk : s.disk.Sound
  nodup : s.handedOut.Nodup
  numAllocatedPages : s.disk.numAllocatedPages = s.handedOut.length
  handedOut : ∀ id : PageId, id ∈ s.handedOut ↔
    ∃ p : Nat, (p : PageId) = id ∧ p % BITMAP_SIZE ∈ (s.disk.bitmap (p / BITMAP_SIZE)).allocated

/-- A page is handed out exactly when its bit is set. -/
theorem Kept.mem_iff (h : s.Kept) (p : Nat) : (p : PageId) ∈ s.handedOut ↔
    p % BITMAP_SIZE ∈ (s.disk.bitmap (p / BITMAP_SIZE)).allocated := by
  rw [h.handedOut]
  constructor
  · rintro ⟨q, hq, hmem⟩
    obtain rfl := Int.ofNat.inj hq
    exact hmem
  · exact fun hmem => ⟨p, rfl, hmem⟩

/-- The invariant of a session gives what the counters and bitmaps have to say. -/
theorem Kept.accounts (h : s.Kept) : s.Accounts where
  nodup := h.nodup
  numAllocatedPages := h.numAllocatedPages
  extentUsedPage i _ := h.disk.extentUsedPage i
  isPageFree p hp := by rw [h.disk.isPageFree_iff hp, h.mem_iff]

/-- There are too few pages for the counter of all allocated pages to wrap. -/
theorem Kept.length_lt (h : s.Kept) : s.handedOut.length + 1 < 2 ^ 32 := by
  have hsub : s.handedOut.toFinset ⊆
      (Finset.range (READABLE_EXTENTS * BITMAP_SIZE)).image (fun p : Nat => (p : PageId)) := by
    intro id hid
    obtain ⟨p, rfl, hmem⟩ := (h.handedOut id).mp (List.mem_toFinset.mp hid)
    refine Finset.mem_image.mpr ⟨p, Finset.mem_range.mpr ?_, rfl⟩
    by_contra hge
    have hextent : s.disk.numExtents ≤ p / BITMAP_SIZE := by
      have hle := h.disk.numExtents
      rw [READABLE_EXTENTS_eq, BITMAP_SIZE_eq] at *
      omega
    rw [h.disk.unused _ hextent, BitmapPage.allocated_empty] at hmem
    exact Finset.notMem_empty _ hmem
  have hcard := (Finset.card_le_card hsub).trans Finset.card_image_le
  rw [List.toFinset_card_of_nodup h.nodup, Finset.card_range, READABLE_EXTENTS_eq,
    BITMAP_SIZE_eq] at hcard
  omega

/-- A new disk has handed out nothing. -/
theorem kept_new : (⟨DiskManager.new, []⟩ : Session).Kept where
  disk :=
    { consistent := fun _ => BitmapPage.consistent_empty
      extentUsedPage := fun _ => by
        show 0 = BitmapPage.empty.allocated.card
        rw [BitmapPage.allocated_empty, Finset.card_empty]
      numExtents := Nat.zero_le _
      unused := fun _ _ => rfl
      others := fun _ _ => rfl
      working := rfl
      filePages := Nat.zero_le _
      beyond := fun _ _ => rfl }
  nodup := List.nodup_nil
  numAllocatedPages := rfl
  handedOut id := by
    refine ⟨fun hid => (nomatch hid), ?_⟩
    rintro ⟨p, _, hmem⟩
    have hmem : p % BITMAP_SIZE ∈ BitmapPage.empty.allocated := hmem
    rw [BitmapPage.allocated_empty] at hmem
    exact absurd hmem (Finset.notMem_empty _)

/-- An allocated id is never `INVALID_PAGE_ID`. -/
theorem natCast_ne_invalid (p : Nat) : (p : PageId) ≠ INVALID_PAGE_ID := by
  have hnonneg := Int.natCast_nonneg p
  intro heq
  rw [heq] at hnonneg
  exact absurd hnonneg (by decide)

/-- With room the call hands out a page nobody has, and the session still keeps its accounts. -/
theorem Kept.allocatePage (h : s.Kept) (hroom : s.disk.HasRoom) (innerIndex : Nat) :
    (s.next (.allocatePage innerIndex)).Kept := by
  have hlength := h.length_lt
  obtain ⟨i, x, b, n, heq, hi, hx, hfree, hinsert, hsound⟩ :=
    h.disk.allocatePage hroom (by rw [h.numAllocatedPages]; exact hlength) innerIndex
  have hdiv : (i * BITMAP_SIZE + x) / BITMAP_SIZE = i := by
    rw [BITMAP_SIZE_eq] at hx ⊢
    omega
  have hmod : (i * BITMAP_SIZE + x) % BITMAP_SIZE = x := by
    rw [BITMAP_SIZE_eq] at hx ⊢
    omega
  have hne := natCast_ne_invalid (i * BITMAP_SIZE + x)
  -- the bit was clear, so nobody has the page
  have hnew : ((i * BITMAP_SIZE + x : Nat) : PageId) ∉ s.handedOut := by
    rw [h.mem_iff, hdiv, hmod]
    exact hfree
  have hnext : s.next (.allocatePage innerIndex) =
      ⟨s.disk.withBitmap i b (s.disk.numAllocatedPages + 1) n,
        ((i * BITMAP_SIZE + x : Nat) : PageId) :: s.handedOut⟩ := by
    show (⟨(s.disk.allocatePage innerIndex).2, if (s.disk.allocatePage innerIndex).1 = _ then _
      else _⟩ : Session) = _
    rw [heq, if_neg hne]
  rw [hnext]
  refine ⟨hsound, List.nodup_cons.mpr ⟨hnew, h.nodup⟩, ?_, fun id => ?_⟩
  · show s.disk.numAllocatedPages + 1 = _
    rw [h.numAllocatedPages, List.length_cons]
  · rw [List.mem_cons, h.handedOut]
    constructor
    · rintro (rfl | ⟨p, rfl, hmem⟩)
      · refine ⟨_, rfl, ?_⟩
        rw [hdiv, hmod, bitmap_withBitmap, if_pos rfl, hinsert]
        exact Finset.mem_insert_self _ _
      · refine ⟨p, rfl, ?_⟩
        rw [bitmap_withBitmap]
        split
        · next hp => exact hinsert ▸ Finset.mem_insert_of_mem (hp ▸ hmem)
        · exact hmem
    · rintro ⟨p, rfl, hmem⟩
      rw [bitmap_withBitmap] at hmem
      split at hmem
      · next hp =>
        rcases Finset.mem_insert.mp (hinsert ▸ hmem) with hpx | hold
        · exact .inl (congrArg Nat.cast (pageId_ext (hp.trans hdiv.symm) (hpx.trans hmod.symm)))
        · exact .inr ⟨p, rfl, hp ▸ hold⟩
      · exact .inr ⟨p, rfl, hmem⟩

/-- Giving a page back that was handed out clears its bit and counts it once; a page that is no
valid one changes nothing. -/
theorem Kept.deAllocatePage (h : s.Kept) {p : Nat}
    (hp : p < MAX_VALID_PAGE_ID → (p : PageId) ∈ s.handedOut) :
    (s.next (.deAllocatePage p)).Kept := by
  -- a page beyond the last valid one, which the code ignores, comes second
  by_cases hvalid : p < MAX_VALID_PAGE_ID
  · have hin := hp hvalid
    have hlength := h.length_lt
    have hpos := List.length_pos_of_mem hin
    have hnum := h.numAllocatedPages
    obtain ⟨b, heq, herase, hsound⟩ := h.disk.deAllocatePage hvalid ((h.mem_iff p).mp hin)
      (by omega) (by omega)
    refine ⟨hsound, h.nodup.erase _, ?_, fun id => ?_⟩
    · show (s.disk.deAllocatePage p).numAllocatedPages = _
      rw [heq]
      show s.disk.numAllocatedPages - 1 = (s.handedOut.erase p).length
      rw [List.length_erase_of_mem hin, ← hnum]
    · show id ∈ s.handedOut.erase p ↔ ∃ q : Nat, (q : PageId) = id ∧
        q % BITMAP_SIZE ∈ ((s.disk.deAllocatePage p).bitmap (q / BITMAP_SIZE)).allocated
      rw [h.nodup.mem_erase_iff, h.handedOut, heq]
      constructor
      · rintro ⟨hne, q, rfl, hmem⟩
        refine ⟨q, rfl, ?_⟩
        rw [bitmap_withBitmap]
        split
        · next hq =>
          rw [herase]
          refine Finset.mem_erase.mpr ⟨fun hmod => hne (congrArg Nat.cast ?_), hq ▸ hmem⟩
          exact pageId_ext hq hmod
        · exact hmem
      · rintro ⟨q, rfl, hmem⟩
        rw [bitmap_withBitmap] at hmem
        split at hmem
        · next hq =>
          obtain ⟨hmod, hmem⟩ := Finset.mem_erase.mp (herase ▸ hmem)
          exact ⟨fun heq => hmod (congrArg (· % BITMAP_SIZE) (Int.ofNat.inj heq)), q, rfl,
            hq ▸ hmem⟩
        · next hq =>
          exact ⟨fun heq => hq (congrArg (· / BITMAP_SIZE) (Int.ofNat.inj heq)), q, rfl, hmem⟩
  · have hnot : (p : PageId) ∉ s.handedOut := by
      rw [h.mem_iff]
      have hextent : s.disk.numExtents ≤ p / BITMAP_SIZE := by
        have hle := h.disk.numExtents
        have hmaxId : MAX_VALID_PAGE_ID = 1022 * 32704 := rfl
        rw [READABLE_EXTENTS_eq] at hle
        rw [BITMAP_SIZE_eq]
        omega
      rw [h.disk.unused _ hextent, BitmapPage.allocated_empty]
      exact Finset.notMem_empty _
    have hnext : s.next (.deAllocatePage p) = s := by
      show (⟨s.disk.deAllocatePage p, s.handedOut.erase p⟩ : Session) = s
      rw [deAllocatePage_of_invalid hvalid, List.erase_of_not_mem hnot]
    rw [hnext]
    exact h

/-- A run from a new database keeps the accounts in every state exactly if it allocates a page only
where the first extents have room, and frees only pages that are handed out. -/
theorem accounts_iff (calls : List DiskCall) :
    (∀ n, ((calls.take n).foldl next ⟨DiskManager.new, []⟩).Accounts) ↔
      Guarded Safe next ⟨DiskManager.new, []⟩ calls := by
  refine Guarded.iff_forall_take_of (J := Kept) (fun _ h => h.accounts) (fun s call h hsafe => ?_)
    (fun s call h haccounts => ?_) calls _ kept_new
  · cases call with
    | allocatePage innerIndex => exact h.allocatePage hsafe innerIndex
    | deAllocatePage p => exact h.deAllocatePage hsafe
  · cases call with
    | allocatePage innerIndex =>
      by_contra hfull
      obtain ⟨⟨p, hp, hid⟩, hfailed⟩ := h.disk.allocatePage_full hfull innerIndex
      have hvalid : (s.disk.allocatePage innerIndex).1 ≠ INVALID_PAGE_ID := by
        rw [hid]
        exact natCast_ne_invalid p
      have hmem : (p : PageId) ∈ (s.next (.allocatePage innerIndex)).handedOut := by
        show (p : PageId) ∈ if (s.disk.allocatePage innerIndex).1 = _ then _ else _
        rw [if_neg hvalid, hid]
        exact List.mem_cons_self
      refine (haccounts.isPageFree p hp).mp ?_ hmem
      rw [isPageFree_eq hp]
      show ((s.disk.allocatePage innerIndex).2.readPhysicalPage _).1.isPageFree _ = true
      rw [read_of_failed hfailed]
      exact isPageFree_empty p
    | deAllocatePage p =>
      intro hp
      by_contra hout
      have hnum := haccounts.numAllocatedPages
      have hlength := h.length_lt
      have hlen : (s.next (.deAllocatePage p)).handedOut = s.handedOut :=
        List.erase_of_not_mem hout
      rw [hlen, ← h.numAllocatedPages] at hnum
      refine decrement_ne (x := s.disk.numAllocatedPages) ?_ ?_
      · rw [h.numAllocatedPages]
        omega
      · rw [← deAllocatePage_numAllocatedPages hp]
        exact hnum

/-- The free of a page that was never allocated takes one from a counter that is zero. -/
theorem free_wraps_counter :
    ¬ ∀ (calls : List DiskCall) (n : Nat),
      ((calls.take n).foldl next ⟨DiskManager.new, []⟩).Accounts := by
  intro h
  have hnum := (h [.deAllocatePage 0] 1).numAllocatedPages
  have heq : (DiskManager.new.deAllocatePage 0).numAllocatedPages = 0 := hnum
  rw [deAllocatePage_numAllocatedPages (by decide)] at heq
  exact absurd heq (by decide)

end Session

end DisMiniSql.MiniSql.Disk
