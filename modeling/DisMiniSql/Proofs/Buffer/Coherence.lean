import DisMiniSql.Lib.Run
import DisMiniSql.MiniSql.Buffer.BufferPoolManager
import DisMiniSql.Proofs.Buffer.LruReplacer

/-!
# `DisMiniSql.Proofs.Buffer.Coherence`: what `FetchPage` returns

A session is a buffer pool with the history its callers care about: for each page the bytes
last written to it by any holder, and whether a write is still to be reported by an
`UnpinPage` with `is_dirty`. `BufferSession.step` runs one call of the interface.

`FetchPage` and `NewPage` write a dirty victim back under the id of the page that comes in
(`buffer_pool_manager.cpp:64` and `:101`), so the bytes of the victim are lost and the page
that comes in gets them. `fetchPage_loses_victim` is a run where `FetchPage` returns zeros for
a page with other bytes.

The invariant `Coherent` holds in every session whose calls take no dirty frame as the victim
(`VictimClean`) and in which no `NewPage` that finds a frame is handed an id that a `FetchPage`
brought in before (`Fresh`). It gives `fetchPage_returns_lastWritten`.
-/

set_option autoImplicit false

namespace DisMiniSql.MiniSql

open DisMiniSql.Lib (Steps)

/-- The calls of a session. `write` stores through the `Page *` of a pinned page. -/
inductive BufferOp
  | newPage
  | fetchPage (pageId : PageId)
  | write (pageId : PageId) (data : PageData)
  | unpinPage (pageId : PageId) (isDirty : Bool)
  | flushPage (pageId : PageId)

/-- A buffer pool and what its callers did with the pages. -/
structure BufferSession where
  bpm : BufferPoolManager
  /-- The bytes last written to each page, those on the disk at the start included. -/
  lastWritten : PageId → PageData
  /-- A write that no `UnpinPage` with `is_dirty` has reported yet. -/
  unsaved : PageId → Bool

namespace BufferSession

/-- A session over a new buffer pool. -/
def new (poolSize : Nat) (disk : DiskManager) : BufferSession where
  bpm := BufferPoolManager.new poolSize disk
  lastWritten := disk.pages
  unsaved := fun _ => false

/-- One call. -/
def step (s : BufferSession) : BufferOp → BufferSession
  | .newPage => { s with bpm := s.bpm.newPage.2 }
  | .fetchPage p => { s with bpm := (s.bpm.fetchPage p).2 }
  | .write p d =>
      match s.bpm.pageTable p with
      | none => s
      | some f =>
          { bpm := s.bpm.setPage f { s.bpm.pages f with data := d }
            lastWritten := fun q => if q = p then d else s.lastWritten q
            unsaved := fun q => if q = p then true else s.unsaved q }
  | .unpinPage p dirty =>
      { s with
          bpm := (s.bpm.unpinPage p dirty).2
          unsaved := fun q => if q = p ∧ dirty then false else s.unsaved q }
  | .flushPage p => { s with bpm := (s.bpm.flushPage p).2 }

/-- What the callers keep to. Page ids are not negative, as `DiskManager::ReadPage` asserts.
Only a pinned page is written. The `UnpinPage` that releases the last pin of a page with an
unreported write has `is_dirty` set. -/
def Allowed (s : BufferSession) : BufferOp → Prop
  | .newPage => True
  | .fetchPage p => 0 ≤ p
  | .write p _ => ∃ f, s.bpm.pageTable p = some f ∧ 0 < (s.bpm.pages f).pinCount
  | .unpinPage p dirty =>
      ∀ f, s.bpm.pageTable p = some f → (s.bpm.pages f).pinCount = 1 → s.unsaved p = true →
        dirty = true
  | .flushPage _ => True

/-- The frame that the replacer gives up next is not dirty, or a free frame is taken before
it. -/
def VictimClean (s : BufferSession) : Prop :=
  s.bpm.freeList = [] → ∀ f, s.bpm.replacer.frames.getLast? = some f →
    (s.bpm.pages f).isDirty = false

/-- The page id that the disk hands out next is not in the pool, and the disk has no bytes for
it. -/
def Fresh (s : BufferSession) : Prop :=
  s.bpm.pageTable s.bpm.disk.nextPageId = none ∧
    s.bpm.disk.pages s.bpm.disk.nextPageId = emptyPageData

/-- There is a frame for a page that comes in. If all frames are pinned, `NewPage` and the
`FetchPage` of an absent page return `nullptr`. -/
def HasRoom (s : BufferSession) : Prop :=
  s.bpm.freeList ≠ [] ∨ s.bpm.replacer.frames ≠ []

/-- The call does not take a dirty frame, and a `NewPage` that finds a frame gets an id nobody
used. -/
def KeepsBytes (s : BufferSession) : BufferOp → Prop
  | .newPage => s.HasRoom → s.VictimClean ∧ s.Fresh
  | .fetchPage p => s.bpm.pageTable p = none → s.VictimClean
  | _ => True

/-- A call that the callers may make, with its result. -/
def AllowedStep (s : BufferSession) (op : BufferOp) (s' : BufferSession) : Prop :=
  s.Allowed op ∧ s' = s.step op

/-- A call that the callers may make and that keeps the bytes of its victim. -/
def SafeStep (s : BufferSession) (op : BufferOp) (s' : BufferSession) : Prop :=
  s.KeepsBytes op ∧ s.AllowedStep op s'

/-- The frames, the page table and the disk hold the bytes last written. -/
structure Coherent (s : BufferSession) : Prop where
  replacer : s.bpm.replacer.Consistent
  maxNumPages : s.bpm.replacer.maxNumPages = s.bpm.poolSize
  mapped : ∀ p f, s.bpm.pageTable p = some f →
    f < s.bpm.poolSize ∧ (s.bpm.pages f).pageId = p ∧ 0 ≤ p
  free : ∀ f ∈ s.bpm.freeList, f < s.bpm.poolSize ∧ s.bpm.pages f = {}
  free_nodup : s.bpm.freeList.Nodup
  evictable : ∀ f ∈ s.bpm.replacer.frames,
    s.bpm.pageTable (s.bpm.pages f).pageId = some f ∧ (s.bpm.pages f).pinCount = 0
  resident : ∀ p f, s.bpm.pageTable p = some f → (s.bpm.pages f).data = s.lastWritten p
  clean : ∀ p f, s.bpm.pageTable p = some f → (s.bpm.pages f).isDirty = false →
    s.unsaved p = false → s.bpm.disk.pages p = s.lastWritten p
  absent : ∀ p, s.bpm.pageTable p = none → s.bpm.disk.pages p = s.lastWritten p
  pinned : ∀ p, s.unsaved p = true →
    ∃ f, s.bpm.pageTable p = some f ∧ 0 < (s.bpm.pages f).pinCount
  next_nonneg : 0 ≤ s.bpm.disk.nextPageId

/-- The empty pool on any disk. -/
theorem coherent_new (poolSize : Nat) (disk : DiskManager) (h : 0 ≤ disk.nextPageId) :
    (new poolSize disk).Coherent where
  replacer := LRUReplacer.consistent_new _
  maxNumPages := rfl
  mapped := fun _ _ h => nomatch h
  free := fun f hf => ⟨List.mem_range.mp hf, rfl⟩
  free_nodup := List.nodup_range
  evictable := fun f hf => by cases hf
  resident := fun _ _ h => nomatch h
  clean := fun _ _ h => nomatch h
  absent := fun _ _ => rfl
  pinned := fun _ h => nomatch h
  next_nonneg := h

/-- A free frame holds no page. -/
theorem Coherent.free_not_mapped {s : BufferSession} (h : s.Coherent) {f : FrameId}
    (hf : f ∈ s.bpm.freeList) (p : PageId) : s.bpm.pageTable p ≠ some f := by
  intro hp
  obtain ⟨-, hid, hnonneg⟩ := h.mapped p f hp
  rw [(h.free f hf).2] at hid
  rw [← hid] at hnonneg
  exact absurd hnonneg (by decide)

/-! ### The frame that comes in

`FetchPage` on a miss and `NewPage` do the same thing to a frame that is not dirty. `install`
is the pool afterwards. -/

/-- The pool after the frame `f` was given to the page `p` with the bytes `d`. -/
def install (b : BufferPoolManager) (f : FrameId) (p : PageId) (d : PageData) :
    BufferPoolManager :=
  { b with
      pageTable := BufferPoolManager.tableInsert
        (BufferPoolManager.tableErase b.pageTable (b.pages f).pageId) p f
      replacer := b.replacer.pin f }.setPage f
    { data := d, pageId := p, pinCount := 1, isDirty := false }

/-- What `takeFrame` gives: an unpinned frame that is in no list any more, and that holds
either the page its `page_id_` names or no page at all. -/
structure Taken (s : BufferSession) (f : FrameId) (b : BufferPoolManager) : Prop where
  room : s.HasRoom
  lt : f < s.bpm.poolSize
  unpinned : (s.bpm.pages f).pinCount = 0
  holds : s.bpm.pageTable (s.bpm.pages f).pageId = some f ∨
    (s.bpm.pages f).pageId = INVALID_PAGE_ID ∧ ∀ p, s.bpm.pageTable p ≠ some f
  same : b = { s.bpm with freeList := b.freeList, replacer := b.replacer }
  consistent : b.replacer.Consistent
  maxNumPages : b.replacer.maxNumPages = s.bpm.poolSize
  free : ∀ g ∈ b.freeList, g ∈ s.bpm.freeList ∧ g ≠ f
  free_nodup : b.freeList.Nodup
  evictable : ∀ g ∈ b.replacer.frames, g ∈ s.bpm.replacer.frames ∧ g ≠ f
  clean : s.VictimClean → (s.bpm.pages f).isDirty = false

/-- A frame taken for a page is either free or the replacer's victim; its old page is written back
if dirty, so nothing written is lost. -/
theorem Coherent.taken {s : BufferSession} (h : s.Coherent) {f : FrameId}
    {b : BufferPoolManager} (hb : s.bpm.takeFrame = some (f, b)) : s.Taken f b := by
  unfold BufferPoolManager.takeFrame at hb
  split at hb
  · -- A free frame.
    rename_i g rest hfree
    simp only [Option.some.injEq, Prod.mk.injEq] at hb
    obtain ⟨rfl, rfl⟩ := hb
    have hmem : g ∈ s.bpm.freeList := by simp [hfree]
    have hnd := h.free_nodup
    rw [hfree, List.nodup_cons] at hnd
    have hroom : s.HasRoom := Or.inl (List.ne_nil_of_mem hmem)
    refine ⟨hroom, (h.free g hmem).1, by rw [(h.free g hmem).2],
      Or.inr ⟨by rw [(h.free g hmem).2], h.free_not_mapped hmem⟩, rfl, h.replacer,
      h.maxNumPages, ?_, hnd.2, ?_, ?_⟩
    · intro k hk
      exact ⟨by rw [hfree]; exact List.mem_cons_of_mem _ hk, fun he => hnd.1 (he ▸ hk)⟩
    · rintro k hk
      exact ⟨hk, fun he => h.free_not_mapped hmem _ (he ▸ (h.evictable k hk).1)⟩
    · intro _
      rw [(h.free g hmem).2]
  · -- The victim of the replacer.
    rename_i hfree
    split at hb
    · cases hb
    · -- the free list is empty: no victim, or the least recently used frame
      rcases h.replacer.victim_eq with ⟨-, hv⟩ | ⟨rest, g, r, hframes, hv, hrest, hr, hmax⟩
      · rw [hv] at hb
        cases hb
      · rw [hv] at hb
        simp only [Option.some.injEq, Prod.mk.injEq] at hb
        obtain ⟨rfl, rfl⟩ := hb
        have hmem : g ∈ s.bpm.replacer.frames := by simp [hframes]
        have hnd := h.replacer.frames_nodup
        rw [hframes, List.nodup_append] at hnd
        obtain ⟨hmapped, hpin⟩ := h.evictable g hmem
        have hroom : s.HasRoom := Or.inr (List.ne_nil_of_mem hmem)
        refine ⟨hroom, (h.mapped _ _ hmapped).1, hpin, Or.inl hmapped, rfl, hr,
          hmax.trans h.maxNumPages, ?_, h.free_nodup, ?_, ?_⟩
        · intro k hk
          simp [hfree] at hk
        · intro k hk
          have hk' : k ∈ rest := hrest ▸ hk
          exact ⟨by simp [hframes, hk'], hnd.2.2 k hk' g (List.mem_singleton_self g)⟩
        · intro hclean
          exact hclean hfree g (by simp [hframes])

/-- The page of another frame is not the page of the frame that was taken. -/
theorem Taken.pageId_ne {s : BufferSession} (h : s.Coherent) {f : FrameId}
    {b : BufferPoolManager} (ht : s.Taken f b) {q : PageId} {g : FrameId}
    (hg : s.bpm.pageTable q = some g) (hne : g ≠ f) : q ≠ (s.bpm.pages f).pageId := by
  rintro rfl
  rcases ht.holds with hv | ⟨hinv, -⟩
  · rw [hv, Option.some.injEq] at hg
    exact hne hg.symm
  · have hnonneg := (h.mapped _ _ hg).2.2
    rw [hinv] at hnonneg
    exact absurd hnonneg (by decide)

/-- A page with an unreported write is pinned, so it is in another frame. -/
theorem Taken.unsaved_elsewhere {s : BufferSession} (h : s.Coherent) {f : FrameId}
    {b : BufferPoolManager} (ht : s.Taken f b) {q : PageId} (hq : s.unsaved q = true) :
    ∃ g, s.bpm.pageTable q = some g ∧ 0 < (s.bpm.pages g).pinCount ∧ g ≠ f := by
  obtain ⟨g, hg, hpin⟩ := h.pinned q hq
  refine ⟨g, hg, hpin, ?_⟩
  rintro rfl
  rw [ht.unpinned] at hpin
  exact absurd hpin (Nat.lt_irrefl 0)

section Install
variable {s : BufferSession} {f : FrameId} {b : BufferPoolManager} {p : PageId}

/-- The page table afterwards: the new page, and not the page of the victim. -/
theorem Taken.install_pageTable (ht : s.Taken f b) (d : PageData) (q : PageId) :
    (BufferSession.install b f p d).pageTable q
      = if q = p then some f
        else if q = (s.bpm.pages f).pageId then none else s.bpm.pageTable q := by
  have hsame := ht.same
  have hpages : b.pages = s.bpm.pages := by rw [hsame]
  have htable : b.pageTable = s.bpm.pageTable := by rw [hsame]
  simp [BufferSession.install, BufferPoolManager.setPage, BufferPoolManager.tableInsert,
    BufferPoolManager.tableErase, hpages, htable]

/-- The frames afterwards: only the frame that was taken changed. -/
theorem Taken.install_pages (ht : s.Taken f b) (d : PageData) (g : FrameId) :
    (BufferSession.install b f p d).pages g
      = if g = f then { data := d, pageId := p, pinCount := 1, isDirty := false }
        else s.bpm.pages g := by
  have hsame := ht.same
  have hpages : b.pages = s.bpm.pages := by rw [hsame]
  simp [BufferSession.install, BufferPoolManager.setPage, hpages]

/-- A page other than the new one that is in the pool was there before, in another frame. -/
theorem Taken.of_install_pageTable (h : s.Coherent) (ht : s.Taken f b) {d : PageData}
    {q : PageId} {g : FrameId} (hq : q ≠ p)
    (hg : (BufferSession.install b f p d).pageTable q = some g) :
    s.bpm.pageTable q = some g ∧ g ≠ f := by
  rw [ht.install_pageTable, if_neg hq] at hg
  split at hg
  · cases hg
  · rename_i hne
    refine ⟨hg, ?_⟩
    rintro rfl
    exact hne (h.mapped q g hg).2.1.symm

/-- Giving a clean frame to a page that is not in the pool keeps `Coherent` when the frame gets
the bytes last written to the page. -/
theorem Coherent.install (h : s.Coherent) (ht : s.Taken f b)
    (hclean : (s.bpm.pages f).isDirty = false) (hp : 0 ≤ p)
    (habsent : s.bpm.pageTable p = none) :
    Coherent { s with bpm := BufferSession.install b f p (s.lastWritten p) } := by
  have hsame := ht.same
  have hpool : b.poolSize = s.bpm.poolSize := by rw [hsame]
  have hdisk : b.disk = s.bpm.disk := by rw [hsame]
  obtain ⟨hpin, hcons, hmax⟩ := ht.consistent.pin_frames
    (f := f) (ht.maxNumPages ▸ Nat.le_of_lt ht.lt)
  refine ⟨hcons, hmax.trans (ht.maxNumPages.trans hpool.symm), ?_, ?_, ht.free_nodup, ?_, ?_,
    ?_, ?_, ?_, ?_⟩
  · intro q g hg
    show g < b.poolSize ∧ _
    rw [hpool, ht.install_pages]
    by_cases hq : q = p
    · subst hq
      rw [ht.install_pageTable, if_pos rfl, Option.some.injEq] at hg
      subst hg
      rw [if_pos rfl]
      exact ⟨ht.lt, rfl, hp⟩
    · obtain ⟨hg', hne⟩ := ht.of_install_pageTable h hq hg
      rw [if_neg hne]
      exact h.mapped q g hg'
  · intro g hg
    obtain ⟨hg', hne⟩ := ht.free g hg
    show g < b.poolSize ∧ _
    rw [hpool, ht.install_pages, if_neg hne]
    exact h.free g hg'
  · intro g hg
    have hg' : g ∈ b.replacer.frames ∧ g ≠ f := by
      have hmem : g ∈ (b.replacer.pin f).frames := hg
      rw [hpin] at hmem
      simpa using hmem
    obtain ⟨hold, hne⟩ := ht.evictable g hg'.1
    obtain ⟨hmapped, hunpinned⟩ := h.evictable g hold
    rw [ht.install_pages, if_neg hne, ht.install_pageTable, if_neg ?_,
      if_neg (ht.pageId_ne h hmapped hne)]
    · exact ⟨hmapped, hunpinned⟩
    · intro he
      rw [he, habsent] at hmapped
      cases hmapped
  · intro q g hg
    rw [ht.install_pages]
    by_cases hq : q = p
    · subst hq
      rw [ht.install_pageTable, if_pos rfl, Option.some.injEq] at hg
      rw [if_pos hg.symm]
    · obtain ⟨hg', hne⟩ := ht.of_install_pageTable h hq hg
      rw [if_neg hne]
      exact h.resident q g hg'
  · -- a page with no unsaved write in the pool is on the disk
    intro q g hg hdirty hun
    show b.disk.pages q = s.lastWritten q
    rw [hdisk]
    by_cases hq : q = p
    · rw [hq]
      exact h.absent p habsent
    · obtain ⟨hg', hne⟩ := ht.of_install_pageTable h hq hg
      rw [ht.install_pages, if_neg hne] at hdirty
      exact h.clean q g hg' hdirty hun
  · intro q hq
    show b.disk.pages q = s.lastWritten q
    rw [hdisk]
    rw [ht.install_pageTable] at hq
    split at hq
    · cases hq
    split at hq
    · -- The page of the victim: its frame is clean, so the disk has its bytes.
      rename_i hqf
      cases hcase : s.bpm.pageTable q with
      | none => exact h.absent q hcase
      | some g =>
        have hgf : g = f := by
          by_contra hne
          exact ht.pageId_ne h hcase hne hqf
        refine h.clean q g hcase (hgf ▸ hclean) (Bool.not_eq_true _ ▸ fun hun => ?_)
        obtain ⟨k, hk, -, hne⟩ := ht.unsaved_elsewhere h hun
        exact ht.pageId_ne h hk hne hqf
    · exact h.absent q hq
  · -- an unsaved page stays pinned where it was
    intro q hq
    obtain ⟨g, hg, hgpin, hne⟩ := ht.unsaved_elsewhere h hq
    refine ⟨g, ?_, ?_⟩
    · rw [ht.install_pageTable, if_neg ?_, if_neg (ht.pageId_ne h hg hne)]
      · exact hg
      · rintro rfl
        rw [habsent] at hg
        cases hg
    · rw [ht.install_pages, if_neg hne]
      exact hgpin
  · show 0 ≤ b.disk.nextPageId
    rw [hdisk]
    exact h.next_nonneg

end Install

/-! ### One call -/

/-- `FetchPage` on a miss, when the frame it takes is clean. -/
theorem fetchPage_miss {b b' : BufferPoolManager} {f : FrameId} {p : PageId}
    (habsent : b.pageTable p = none) (htake : b.takeFrame = some (f, b'))
    (hclean : (b'.pages f).isDirty = false) :
    b.fetchPage p = (some f, BufferSession.install b' f p (b'.disk.pages p)) := by
  simp only [BufferPoolManager.fetchPage, habsent, htake, hclean, Bool.false_eq_true, if_false]
  rfl

/-- `NewPage`, when the frame it takes is clean and unpinned. -/
theorem newPage_eq {b b' : BufferPoolManager} {f : FrameId}
    (htake : b.takeFrame = some (f, b')) (hclean : (b'.pages f).isDirty = false)
    (hpin : (b'.pages f).pinCount = 0) :
    b.newPage = (some (f, b'.disk.nextPageId),
      { BufferSession.install b' f b'.disk.nextPageId emptyPageData with
          disk := b'.disk.allocatePage.2 }) := by
  simp only [BufferPoolManager.newPage, htake, DiskManager.allocatePage, hclean,
    Bool.false_eq_true, if_false, Page.resetMemory, hpin]
  rfl

/-- A later page id for the next `NewPage` changes nothing else. -/
theorem Coherent.allocate {s : BufferSession} (h : s.Coherent) {disk : DiskManager}
    (hpages : disk.pages = s.bpm.disk.pages) (hnext : 0 ≤ disk.nextPageId) :
    Coherent { s with bpm := { s.bpm with disk := disk } } :=
  { h with
    clean := fun p f hf hd hu => by
      show disk.pages p = _
      rw [hpages]
      exact h.clean p f hf hd hu
    absent := fun p hp => by
      show disk.pages p = _
      rw [hpages]
      exact h.absent p hp
    next_nonneg := hnext }

/-- `NewPage` keeps the invariant: its page was never written, so it reads as zeros. -/
theorem Coherent.newPage {s : BufferSession} (h : s.Coherent) (hsafe : s.KeepsBytes .newPage) :
    Coherent (s.step .newPage) := by
  cases htake : s.bpm.takeFrame with
  | none =>
    -- no frame can be taken: nothing changes
    have hnone : s.step .newPage = s := by
      simp only [step, BufferPoolManager.newPage, htake]
    rw [hnone]
    exact h
  | some fb =>
    obtain ⟨f, b⟩ := fb
    have ht := h.taken htake
    obtain ⟨hvictim, habsent, hzero⟩ := hsafe ht.room
    have hsame := ht.same
    have hpages : b.pages = s.bpm.pages := by rw [hsame]
    have hdisk : b.disk = s.bpm.disk := by rw [hsame]
    have hclean := ht.clean hvictim
    -- Nobody wrote to the new page, so zeros are its bytes.
    have hlast : s.lastWritten s.bpm.disk.nextPageId = emptyPageData := by
      rw [← h.absent _ habsent, hzero]
    have hnew := newPage_eq htake (by rw [hpages]; exact hclean)
      (by rw [hpages]; exact ht.unpinned)
    have hinst := h.install ht hclean h.next_nonneg habsent
    rw [hlast] at hinst
    rw [hdisk] at hnew
    simp only [step, hnew]
    refine hinst.allocate ?_ (Int.le_add_one h.next_nonneg)
    show s.bpm.disk.pages = b.disk.pages
    rw [hdisk]

/-- A call that changes only the frame `f` of the page `p`: its record, its place in the
replacer, and what the disk and the history say about `p`. `FetchPage` on a hit, a write,
`UnpinPage` and `FlushPage` are such calls. -/
theorem Coherent.update {s : BufferSession} (h : s.Coherent) {p : PageId} {f : FrameId}
    (htab : s.bpm.pageTable p = some f) {pg : Page} {r : LRUReplacer} {d : DiskManager}
    {lw : PageId → PageData} {un : PageId → Bool} (hid : pg.pageId = p)
    (hr : r.Consistent) (hmax : r.maxNumPages = s.bpm.replacer.maxNumPages)
    (hframes : ∀ g ∈ r.frames,
      g ≠ f ∧ g ∈ s.bpm.replacer.frames ∨ g = f ∧ pg.pinCount = 0)
    (hother : ∀ q, q ≠ p → d.pages q = s.bpm.disk.pages q ∧ lw q = s.lastWritten q ∧
      un q = s.unsaved q)
    (hnext : d.nextPageId = s.bpm.disk.nextPageId) (hdata : pg.data = lw p)
    (hclean : pg.isDirty = false → un p = false → d.pages p = lw p)
    (hpin : un p = true → 0 < pg.pinCount) :
    Coherent ⟨{ s.bpm.setPage f pg with replacer := r, disk := d }, lw, un⟩ := by
  -- Another page is in another frame.
  have hne : ∀ q g, s.bpm.pageTable q = some g → q ≠ p → g ≠ f := by
    rintro q g hg hq rfl
    exact hq ((h.mapped q g hg).2.1.symm.trans (h.mapped p g htab).2.1)
  obtain ⟨hlt, -, hnonneg⟩ := h.mapped p f htab
  refine ⟨hr, hmax.trans h.maxNumPages, ?_, ?_, h.free_nodup, ?_, ?_, ?_, ?_, ?_, ?_⟩
  · intro q g hg
    by_cases hq : q = p
    · subst hq
      obtain rfl : f = g := Option.some.inj (htab.symm.trans hg)
      exact ⟨hlt, by simpa using hid, hnonneg⟩
    · have hg' := h.mapped q g hg
      simpa [hne q g hg hq] using hg'
  · intro g hg
    have hgf : g ≠ f := by
      rintro rfl
      exact h.free_not_mapped hg p htab
    have hg' := h.free g hg
    simpa [hgf] using hg'
  · intro g hg
    rcases hframes g hg with ⟨hgf, hg'⟩ | ⟨rfl, hzero⟩
    · have hg'' := h.evictable g hg'
      simpa [hgf] using hg''
    · refine ⟨?_, by simpa using hzero⟩
      show s.bpm.pageTable ((s.bpm.setPage g pg).pages g).pageId = some g
      rw [BufferPoolManager.setPage_pages, if_pos rfl, hid]
      exact htab
  · intro q g hg
    by_cases hq : q = p
    · subst hq
      obtain rfl : f = g := Option.some.inj (htab.symm.trans hg)
      simpa using hdata
    · have hg' := h.resident q g hg
      simpa [hne q g hg hq, (hother q hq).2.1] using hg'
  · intro q g hg hdirty hun
    by_cases hq : q = p
    · subst hq
      obtain rfl : f = g := Option.some.inj (htab.symm.trans hg)
      exact hclean (by simpa using hdirty) hun
    · show d.pages q = lw q
      rw [(hother q hq).1, (hother q hq).2.1]
      refine h.clean q g hg (by simpa [hne q g hg hq] using hdirty) ?_
      rw [← (hother q hq).2.2]
      exact hun
  · intro q hq
    have hqp : q ≠ p := by
      rintro rfl
      exact absurd (htab.symm.trans hq) (by simp)
    show d.pages q = lw q
    rw [(hother q hqp).1, (hother q hqp).2.1]
    exact h.absent q hq
  · intro q hq
    by_cases hqp : q = p
    · subst hqp
      exact ⟨f, htab, by simpa using hpin hq⟩
    · obtain ⟨g, hg, hgpin⟩ := h.pinned q ((hother q hqp).2.2 ▸ hq)
      exact ⟨g, hg, by simpa [hne q g hg hqp] using hgpin⟩
  · show 0 ≤ d.nextPageId
    rw [hnext]
    exact h.next_nonneg

/-- `FetchPage` on a hit pins the frame and takes it out of the replacer. -/
theorem fetchPage_hit {b : BufferPoolManager} {f : FrameId} {p : PageId}
    (htab : b.pageTable p = some f) :
    b.fetchPage p = (some f,
      { b.setPage f { b.pages f with pinCount := (b.pages f).pinCount + 1 } with
          replacer := b.replacer.pin f
          disk := b.disk }) := by
  simp only [BufferPoolManager.fetchPage, htab]
  rfl

/-- `FetchPage` keeps `Coherent`, and the page it returns is `p` with the bytes last written
to `p`. -/
theorem Coherent.fetchPage {s : BufferSession} (h : s.Coherent) {p : PageId} (hp : 0 ≤ p)
    (hsafe : s.KeepsBytes (.fetchPage p)) :
    Coherent (s.step (.fetchPage p)) ∧
      ∀ f b, s.bpm.fetchPage p = (some f, b) →
        (b.pages f).pageId = p ∧ (b.pages f).data = s.lastWritten p := by
  cases htab : s.bpm.pageTable p with
  | some f =>
    obtain ⟨hlt, hid, -⟩ := h.mapped p f htab
    obtain ⟨hpin, hcons, hmax⟩ := h.replacer.pin_frames
      (f := f) (h.maxNumPages ▸ Nat.le_of_lt hlt)
    refine ⟨?_, ?_⟩
    · simp only [step, fetchPage_hit htab]
      refine h.update htab hid hcons hmax ?_ (fun q _ => ⟨rfl, rfl, rfl⟩) rfl
        (h.resident p f htab) (h.clean p f htab) (fun _ => Nat.succ_pos _)
      intro g hg
      rw [hpin] at hg
      exact Or.inl ⟨by simpa using (List.mem_filter.mp hg).2, (List.mem_filter.mp hg).1⟩
    · intro g b hb
      rw [fetchPage_hit htab] at hb
      simp only [Prod.mk.injEq, Option.some.injEq] at hb
      obtain ⟨rfl, rfl⟩ := hb
      simpa [BufferPoolManager.setPage] using And.intro hid (h.resident p f htab)
  | none =>
    cases htake : s.bpm.takeFrame with
    | none =>
      have hfetch : s.bpm.fetchPage p = (none, s.bpm) := by
        simp only [BufferPoolManager.fetchPage, htab, htake]
      refine ⟨?_, ?_⟩
      · simp only [step, hfetch]
        exact h
      · intro g b hb
        rw [hfetch] at hb
        cases hb
    | some fb =>
      obtain ⟨f, b⟩ := fb
      have ht := h.taken htake
      have hsame := ht.same
      have hpages : b.pages = s.bpm.pages := by rw [hsame]
      have hdisk : b.disk = s.bpm.disk := by rw [hsame]
      have hclean := ht.clean (hsafe htab)
      have hfetch := fetchPage_miss htab htake (by rw [hpages]; exact hclean)
      rw [hdisk, h.absent p htab] at hfetch
      refine ⟨?_, ?_⟩
      · simp only [step, hfetch]
        exact h.install ht hclean hp htab
      · intro g b' hb
        rw [hfetch] at hb
        simp only [Prod.mk.injEq, Option.some.injEq] at hb
        obtain ⟨rfl, rfl⟩ := hb
        rw [ht.install_pages, if_pos rfl]
        exact ⟨rfl, rfl⟩

/-- Writing into a pinned page keeps it; the page counts as unsaved until an unpin reports it. -/
theorem Coherent.write {s : BufferSession} (h : s.Coherent) {p : PageId} {d : PageData}
    (hallowed : s.Allowed (.write p d)) : Coherent (s.step (.write p d)) := by
  obtain ⟨f, htab, hpin⟩ := hallowed
  simp only [step, htab]
  refine h.update htab (h.mapped p f htab).2.1 h.replacer rfl ?_ ?_ rfl (by simp) (by simp)
    (fun _ => hpin)
  · intro g hg
    refine Or.inl ⟨?_, hg⟩
    rintro rfl
    rw [(h.evictable g hg).2] at hpin
    exact absurd hpin (Nat.lt_irrefl 0)
  · intro q hq
    simp [hq]

/-- `FlushPage` writes the frame's bytes to its own page. -/
theorem Coherent.flushPage {s : BufferSession} (h : s.Coherent) (p : PageId) :
    Coherent (s.step (.flushPage p)) := by
  cases htab : s.bpm.pageTable p with
  | none =>
    simp only [step, BufferPoolManager.flushPage, htab]
    exact h
  | some f =>
    have hid := (h.mapped p f htab).2.1
    have hflush : (s.bpm.flushPage p).2 =
        { s.bpm.setPage f { s.bpm.pages f with isDirty := false } with
            replacer := s.bpm.replacer
            disk := s.bpm.disk.writePage p (s.bpm.pages f).data } := by
      simp only [BufferPoolManager.flushPage, htab]
      rfl
    simp only [step, hflush]
    refine h.update htab hid h.replacer rfl ?_ ?_ rfl (h.resident p f htab) ?_ ?_
    · intro g hg
      -- the flushed frame, and the frames it leaves alone
      by_cases hgf : g = f
      · subst hgf
        exact Or.inr ⟨rfl, (h.evictable g hg).2⟩
      · exact Or.inl ⟨hgf, hg⟩
    · intro q hq
      simp [DiskManager.writePage, hq]
    · intro _ _
      simpa [DiskManager.writePage] using h.resident p f htab
    · intro hun
      obtain ⟨g, hg, hpin⟩ := h.pinned p hun
      rw [htab, Option.some.injEq] at hg
      rw [hg]
      exact hpin

/-- `UnpinPage` keeps the invariant in each of its branches: an unknown page, a page without pins,
and a pin given back, after which the frame may become a victim. -/
theorem Coherent.unpinPage {s : BufferSession} (h : s.Coherent) {p : PageId} {dirty : Bool}
    (hallowed : s.Allowed (.unpinPage p dirty)) : Coherent (s.step (.unpinPage p dirty)) := by
  -- Without a pin there is no unreported write, and the call changes nothing.
  have hidle : (s.bpm.unpinPage p dirty).2 = s.bpm → s.unsaved p = false →
      Coherent (s.step (.unpinPage p dirty)) := by
    intro hbpm hun
    have hs : s.step (.unpinPage p dirty) = s := by
      have hfun : (fun q => if q = p ∧ dirty then false else s.unsaved q) = s.unsaved := by
        funext q
        split
        · rename_i hq
          rw [hq.1, hun]
        · rfl
      simp only [step, hbpm, hfun]
    rw [hs]
    exact h
  -- a page that is not in the pool: nothing changes
  cases htab : s.bpm.pageTable p with
  | none =>
    refine hidle (by simp only [BufferPoolManager.unpinPage, htab]) ?_
    rw [← Bool.not_eq_true]
    intro hun
    obtain ⟨f, hf, -⟩ := h.pinned p hun
    rw [htab] at hf
    cases hf
  | some f =>
    obtain ⟨hlt, hid, -⟩ := h.mapped p f htab
    -- the frame holds no pin: nothing changes either
    by_cases hzero : (s.bpm.pages f).pinCount = 0
    · refine hidle (by simp [BufferPoolManager.unpinPage, htab, hzero]) ?_
      rw [← Bool.not_eq_true]
      intro hun
      obtain ⟨g, hg, hpin⟩ := h.pinned p hun
      rw [htab, Option.some.injEq] at hg
      rw [← hg, hzero] at hpin
      exact absurd hpin (Nat.lt_irrefl 0)
    · obtain ⟨hframes, hcons, hmax⟩ := h.replacer.unpin_frames
        (f := f) (h.maxNumPages ▸ Nat.le_of_lt hlt)
      -- The record of the frame after the call, and the replacer.
      have hunpin : (s.bpm.unpinPage p dirty).2 =
          { s.bpm.setPage f { s.bpm.pages f with
              isDirty := (s.bpm.pages f).isDirty || dirty
              pinCount := (s.bpm.pages f).pinCount - 1 } with
            replacer := if (s.bpm.pages f).pinCount - 1 = 0 then s.bpm.replacer.unpin f
              else s.bpm.replacer
            disk := s.bpm.disk } := by
        simp only [BufferPoolManager.unpinPage, htab, beq_iff_eq, hzero, if_false]
        cases dirty <;> simp only [Bool.false_eq_true, if_false, if_true, Bool.or_false,
          Bool.or_true] <;> split <;> rfl
      simp only [step, hunpin]
      refine h.update htab hid ?_ ?_ ?_ ?_ rfl (h.resident p f htab) ?_ ?_
      · split
        · exact hcons
        · exact h.replacer
      · split
        · exact hmax
        · rfl
      · intro g hg
        split at hg
        · rename_i hlast
          by_cases hgf : g = f
          · exact Or.inr ⟨hgf, hlast⟩
          · rw [hframes] at hg
            split at hg
            · exact Or.inl ⟨hgf, hg⟩
            · exact Or.inl ⟨hgf, (List.mem_cons.mp hg).resolve_left hgf⟩
        · refine Or.inl ⟨?_, hg⟩
          rintro rfl
          exact hzero (h.evictable g hg).2
      · intro q hq
        simp [hq]
      · intro hdirty hun
        obtain ⟨hd1, rfl⟩ : (s.bpm.pages f).isDirty = false ∧ dirty = false := by
          simpa using hdirty
        exact h.clean p f htab hd1 (by simpa using hun)
      · intro hun
        obtain ⟨hd, hun'⟩ : dirty = false ∧ s.unsaved p = true := by
          cases dirty <;> simp_all
        have hne : (s.bpm.pages f).pinCount ≠ 1 := by
          intro hone
          have := hallowed f htab hone hun'
          rw [hd] at this
          cases this
        show 0 < (s.bpm.pages f).pinCount - 1
        omega

/-! ### Whole sessions -/

/-- A call that keeps the bytes of its victim keeps `Coherent`. -/
theorem Coherent.step {s s' : BufferSession} {op : BufferOp} (h : s.Coherent)
    (hstep : s.SafeStep op s') : s'.Coherent := by
  obtain ⟨hsafe, hallowed, rfl⟩ := hstep
  cases op with
  | newPage => exact h.newPage hsafe
  | fetchPage p => exact (h.fetchPage hallowed hsafe).1
  | write p d => exact h.write hallowed
  | unpinPage p dirty => exact h.unpinPage hallowed
  | flushPage p => exact h.flushPage p

/-- In every session whose calls take no dirty victim and reuse no page id, `FetchPage(p)`
returns the page `p` with the bytes last written to it, whatever was evicted in between. -/
theorem fetchPage_returns_lastWritten (poolSize : Nat) (disk : DiskManager)
    (hdisk : 0 ≤ disk.nextPageId) (ops : List BufferOp) (s : BufferSession)
    (hrun : Steps SafeStep (new poolSize disk) ops s) (p : PageId)
    (hallowed : s.Allowed (.fetchPage p)) (hsafe : s.KeepsBytes (.fetchPage p)) (f : FrameId)
    (b : BufferPoolManager) (hfetch : s.bpm.fetchPage p = (some f, b)) :
    (b.pages f).pageId = p ∧ (b.pages f).data = s.lastWritten p := by
  have hs : s.Coherent := hrun.invariant (fun _ _ _ h hstep => h.step hstep)
    (coherent_new poolSize disk hdisk)
  exact (hs.fetchPage hallowed hsafe).2 f b hfetch

/-- A pool of one frame. Page 0 is written, flushed and evicted by a `NewPage`, and
`FetchPage(0)` gets its bytes back. -/
theorem fetchPage_returns_flushed :
    ∃ s f b, Steps SafeStep (new 1 DiskManager.new)
        [.newPage, .write 0 (fun _ => 1), .unpinPage 0 true, .flushPage 0, .newPage,
          .unpinPage 1 false] s ∧
      s.bpm.fetchPage 0 = (some f, b) ∧ (b.pages f).pageId = 0 ∧
      (b.pages f).data = fun _ => 1 := by
  have hrun : Steps SafeStep (new 1 DiskManager.new)
      [.newPage, .write 0 (fun _ => 1), .unpinPage 0 true, .flushPage 0, .newPage,
        .unpinPage 1 false] _ :=
    .cons ⟨fun _ => ⟨fun h => (nomatch h), rfl, rfl⟩, trivial, rfl⟩ <|
    .cons ⟨trivial, ⟨0, rfl, by decide⟩, rfl⟩ <|
    .cons ⟨trivial, fun _ _ _ _ => rfl, rfl⟩ <|
    .cons ⟨trivial, trivial, rfl⟩ <|
    .cons ⟨fun _ => ⟨fun _ f hf => (by cases hf; rfl), rfl, rfl⟩, trivial, rfl⟩ <|
    .cons ⟨trivial, fun _ _ _ h => (nomatch h), rfl⟩ <| .nil _
  have h := fetchPage_returns_lastWritten 1 DiskManager.new (by decide) _ _ hrun 0
    (Int.le_refl 0) (fun _ _ f hf => by cases hf; rfl) 0 _ rfl
  exact ⟨_, 0, _, hrun, rfl, h⟩

/-- A pool of one frame. Page 0 is written and unpinned as dirty, and a `NewPage` evicts it.
Its bytes go to page 1 on the disk, and `FetchPage(0)` returns zeros. -/
theorem fetchPage_loses_victim :
    ∃ s f b, Steps AllowedStep (new 1 DiskManager.new)
        [.newPage, .write 0 (fun _ => 1), .unpinPage 0 true, .newPage, .unpinPage 1 false] s ∧
      s.Allowed (.fetchPage 0) ∧ s.bpm.fetchPage 0 = (some f, b) ∧
      (b.pages f).data ≠ s.lastWritten 0 := by
  have hrun : Steps AllowedStep (new 1 DiskManager.new)
      [.newPage, .write 0 (fun _ => 1), .unpinPage 0 true, .newPage, .unpinPage 1 false] _ :=
    .cons ⟨trivial, rfl⟩ <|
    .cons ⟨⟨0, rfl, by decide⟩, rfl⟩ <|
    .cons ⟨fun _ _ _ _ => rfl, rfl⟩ <|
    .cons ⟨trivial, rfl⟩ <|
    .cons ⟨fun _ _ _ h => (nomatch h), rfl⟩ <| .nil _
  refine ⟨_, 0, _, hrun, Int.le_refl 0, rfl, fun h => ?_⟩
  have h0 := congrFun h ⟨0, by decide⟩
  exact absurd h0 (by decide)

end BufferSession

end DisMiniSql.MiniSql
