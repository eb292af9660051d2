import DisMiniSql.Proofs.Buffer.Coherence

/-!
# `DisMiniSql.Proofs.Buffer.Lifetime`: pages that outlive their buffer pool

A lifetime is the history of a database over all the processes that open it. A process ends in one
of two ways. If `DBStorageEngine` is deleted, the destructor of the buffer pool writes the pages
back. If the process dies, the frames are lost.

The callers know two things about a page: the bytes last written to it, and the bytes that a
`FlushPage` or a shutdown has made safe. A shutdown makes all bytes safe, those of pinned pages and
of pages that no `UnpinPage` has reported as dirty included. A crash takes a page back to the safe
bytes.

The conditions are those of `BufferSession.SafeStep`, call by call.
-/

set_option autoImplicit false

namespace DisMiniSql.MiniSql

open DisMiniSql.Lib (Steps)

/-- What happens to a database. -/
inductive LifetimeOp
  | call (op : BufferOp)
  /-- The engine is deleted, and a new one opens the file. -/
  | shutdown (pageIds : List PageId) (poolSize : Nat)
  /-- The process dies, and a new one opens the file. The meta page of the disk is as old as the
  last shutdown, so the next page id can be any. -/
  | crash (nextPageId : PageId) (poolSize : Nat)

/-- A database and what its callers did with it. -/
structure Lifetime where
  session : BufferSession
  /-- The bytes of each page that a crash leaves. -/
  lastFlushed : PageId → PageData

namespace Lifetime

/-- The first process on a disk. -/
def new (poolSize : Nat) (disk : DiskManager) : Lifetime :=
  ⟨BufferSession.new poolSize disk, disk.pages⟩

/-- `FlushPage` makes the bytes of its page safe. -/
def flushed (s : Lifetime) : BufferOp → PageId → PageData
  | .flushPage p => fun q => if q = p then s.session.lastWritten q else s.lastFlushed q
  | _ => s.lastFlushed

/-- A new process over a disk with these bytes. -/
def reopen (disk : DiskManager) (pages : PageId → PageData) (poolSize : Nat) : Lifetime where
  session :=
    { bpm := BufferPoolManager.new poolSize disk
      lastWritten := pages
      unsaved := fun _ => false }
  lastFlushed := pages

/-- One step. -/
def step (s : Lifetime) : LifetimeOp → Lifetime
  | .call op => ⟨s.session.step op, s.flushed op⟩
  | .shutdown pageIds poolSize =>
    reopen (s.session.bpm.destroy pageIds) s.session.lastWritten poolSize
  | .crash nextPageId poolSize =>
    reopen { s.session.bpm.disk with nextPageId := nextPageId } s.lastFlushed poolSize

/-- A call is safe as in one session. The destructor goes through the page table. -/
def Safe (s : Lifetime) : LifetimeOp → Prop
  | .call op => s.session.KeepsBytes op ∧ s.session.Allowed op
  | .shutdown pageIds _ => s.session.bpm.Lists pageIds
  | .crash nextPageId _ => 0 ≤ nextPageId

/-- A safe step with its result. -/
def SafeStep (s : Lifetime) (op : LifetimeOp) (s' : Lifetime) : Prop := s.Safe op ∧ s' = s.step op

/-- The pool is coherent, and the disk has the safe bytes. -/
structure Durable (s : Lifetime) : Prop where
  coherent : s.session.Coherent
  disk : ∀ p, s.session.bpm.disk.pages p = s.lastFlushed p

/-! ### The disk under one call -/

section Disk

variable {s : BufferSession}

/-- The frame that comes in is clean, so nothing is written. -/
theorem disk_newPage (h : s.Coherent) (hsafe : s.KeepsBytes .newPage) :
    (s.step .newPage).bpm.disk.pages = s.bpm.disk.pages := by
  cases htake : s.bpm.takeFrame with
  | none => simp only [BufferSession.step, BufferPoolManager.newPage, htake]
  | some fb =>
    obtain ⟨f, b⟩ := fb
    have ht := h.taken htake
    obtain ⟨hvictim, -⟩ := hsafe ht.room
    have hsame := ht.same
    have hpages : b.pages = s.bpm.pages := by rw [hsame]
    have hdisk : b.disk = s.bpm.disk := by rw [hsame]
    have hnew := BufferSession.newPage_eq htake (by rw [hpages]; exact ht.clean hvictim)
      (by rw [hpages]; exact ht.unpinned)
    simp only [BufferSession.step, hnew]
    show b.disk.pages = _
    rw [hdisk]

/-- A fetch within the conditions changes no byte of the disk: its victim is clean. -/
theorem disk_fetchPage (h : s.Coherent) {p : PageId} (hsafe : s.KeepsBytes (.fetchPage p)) :
    (s.step (.fetchPage p)).bpm.disk.pages = s.bpm.disk.pages := by
  cases htab : s.bpm.pageTable p with
  | some f =>
    simp only [BufferSession.step, BufferSession.fetchPage_hit htab]
  | none =>
    cases htake : s.bpm.takeFrame with
    | none => simp only [BufferSession.step, BufferPoolManager.fetchPage, htab, htake]
    | some fb =>
      obtain ⟨f, b⟩ := fb
      have ht := h.taken htake
      have hsame := ht.same
      have hpages : b.pages = s.bpm.pages := by rw [hsame]
      have hdisk : b.disk = s.bpm.disk := by rw [hsame]
      have hfetch := BufferSession.fetchPage_miss htab htake
        (by rw [hpages]; exact ht.clean (hsafe htab))
      simp only [BufferSession.step, hfetch]
      show b.disk.pages = _
      rw [hdisk]

/-- Writing into a frame leaves the disk alone. -/
theorem disk_write (p : PageId) (d : PageData) :
    (s.step (.write p d)).bpm.disk = s.bpm.disk := by
  simp only [BufferSession.step]
  split <;> rfl

/-- So does an unpin. -/
theorem disk_unpinPage (p : PageId) (dirty : Bool) :
    (s.step (.unpinPage p dirty)).bpm.disk = s.bpm.disk := by
  simp only [BufferSession.step, BufferPoolManager.unpinPage]
  split
  · rfl
  · split
    · rfl
    · -- whether the page is reported as dirty, and whether this was its last pin
      split
      · split <;> rfl
      · split <;> rfl

/-- The flushed page has its last bytes on the disk, also when it is not in the pool. -/
theorem disk_flushPage (h : s.Coherent) (p q : PageId) :
    (s.step (.flushPage p)).bpm.disk.pages q =
      if q = p then s.lastWritten q else s.bpm.disk.pages q := by
  cases htab : s.bpm.pageTable p with
  | none =>
    simp only [BufferSession.step, BufferPoolManager.flushPage, htab]
    split
    · next heq =>
      rw [heq]
      exact h.absent p htab
    · rfl
  | some f =>
    have hdisk : (s.step (.flushPage p)).bpm.disk =
        s.bpm.disk.writePage p (s.bpm.pages f).data := by
      simp only [BufferSession.step, BufferPoolManager.flushPage, htab]
      rfl
    rw [hdisk, h.resident p f htab]
    show (if q = p then s.lastWritten p else s.bpm.disk.pages q) = _
    split
    · next heq => rw [heq]
    · rfl

/-! ### The destructor -/

/-- Flushing on and on. -/
theorem disk_foldl_flushPage (h : s.Coherent) {pageIds : List PageId}
    (hrest : ∀ p, p ∉ pageIds → s.bpm.disk.pages p = s.lastWritten p) :
    (s.bpm.destroy pageIds).pages = s.lastWritten ∧
      (s.bpm.destroy pageIds).nextPageId = s.bpm.disk.nextPageId := by
  induction pageIds generalizing s with
  | nil => exact ⟨funext fun p => hrest p List.not_mem_nil, rfl⟩
  | cons p pageIds ih =>
    have hstep := h.flushPage p
    have hnext : (s.step (.flushPage p)).bpm.disk.nextPageId = s.bpm.disk.nextPageId := by
      simp only [BufferSession.step, BufferPoolManager.flushPage]
      split <;> rfl
    obtain ⟨hpages, hnextPage⟩ := ih hstep fun q hq => by
      rw [disk_flushPage h]
      split
      · rfl
      · next hne =>
        refine hrest q fun hmem => ?_
        exact (List.mem_cons.mp hmem).elim hne hq
    exact ⟨hpages, hnextPage.trans hnext⟩

/-- The destructor leaves the bytes last written to every page. -/
theorem disk_destroy (h : s.Coherent) {pageIds : List PageId} (hlists : s.bpm.Lists pageIds) :
    (s.bpm.destroy pageIds).pages = s.lastWritten ∧
      (s.bpm.destroy pageIds).nextPageId = s.bpm.disk.nextPageId := by
  refine disk_foldl_flushPage h fun p hp => h.absent p ?_
  by_contra hne
  exact hp ((hlists.2 p).mpr hne)

end Disk

/-! ### Lifetimes -/

/-- The empty pool on any disk. -/
theorem durable_new (poolSize : Nat) (disk : DiskManager) (h : 0 ≤ disk.nextPageId) :
    (new poolSize disk).Durable :=
  ⟨BufferSession.coherent_new poolSize disk h, fun _ => rfl⟩

/-- A new pool over a disk with these bytes. -/
theorem durable_reopen {disk : DiskManager} {pages : PageId → PageData}
    (hpages : disk.pages = pages) (hnext : 0 ≤ disk.nextPageId) (poolSize : Nat) :
    (reopen disk pages poolSize).Durable := by
  subst hpages
  exact durable_new poolSize disk hnext

/-- One step of a life: a call of the pool, a shutdown that writes every page back, or a crash that
loses the pool. -/
theorem Durable.step {s s' : Lifetime} {op : LifetimeOp} (h : s.Durable)
    (hstep : s.SafeStep op s') : s'.Durable := by
  obtain ⟨hsafe, rfl⟩ := hstep
  cases op with
  | call op =>
    obtain ⟨hkeeps, hallowed⟩ := hsafe
    refine ⟨h.coherent.step ⟨hkeeps, hallowed, rfl⟩, fun p => ?_⟩
    show (s.session.step op).bpm.disk.pages p = s.flushed op p
    cases op with
    | newPage =>
      rw [disk_newPage h.coherent hkeeps]
      exact h.disk p
    | fetchPage q =>
      rw [disk_fetchPage h.coherent hkeeps]
      exact h.disk p
    | write q d =>
      rw [disk_write]
      exact h.disk p
    | unpinPage q dirty =>
      rw [disk_unpinPage]
      exact h.disk p
    | flushPage q =>
      rw [disk_flushPage h.coherent, h.disk p]
      rfl
  | shutdown pageIds poolSize =>
    obtain ⟨hpages, hnext⟩ := disk_destroy h.coherent hsafe
    exact durable_reopen hpages (hnext ▸ h.coherent.next_nonneg) poolSize
  | crash nextPageId poolSize =>
    have hpages : ({ s.session.bpm.disk with nextPageId := nextPageId } : DiskManager).pages =
        s.lastFlushed := funext h.disk
    exact durable_reopen hpages hsafe poolSize

/-- A page outlives every process that used it. In every lifetime whose calls are safe, `FetchPage`
returns the bytes last written to the page, by whatever process, if there was no crash since; and
after a crash those that a `FlushPage` or a shutdown had made safe. -/
theorem fetchPage_across_restarts (poolSize : Nat) (disk : DiskManager)
    (hdisk : 0 ≤ disk.nextPageId) (ops : List LifetimeOp) (s : Lifetime)
    (hrun : Steps SafeStep (new poolSize disk) ops s) :
    (∀ p f b, 0 ≤ p → s.session.KeepsBytes (.fetchPage p) →
      s.session.bpm.fetchPage p = (some f, b) →
        (b.pages f).pageId = p ∧ (b.pages f).data = s.session.lastWritten p) ∧
    (∀ pageIds, s.session.bpm.Lists pageIds →
      (s.session.bpm.destroy pageIds).pages = s.session.lastWritten) ∧
    s.session.bpm.disk.pages = s.lastFlushed := by
  have hs : s.Durable := hrun.invariant (fun _ _ _ h hstep => h.step hstep)
    (durable_new poolSize disk hdisk)
  refine ⟨fun p f b hp hsafe hfetch => ?_, fun pageIds hlists => ?_, funext hs.disk⟩
  · exact (hs.coherent.fetchPage hp hsafe).2 f b hfetch
  · exact (disk_destroy hs.coherent hlists).1

/-- Page 0 gets ones before a shutdown and twos after it, and then the process dies. The next one
reads the ones. -/
theorem fetchPage_across_restarts_after_crash :
    ∃ s f b, Steps SafeStep (new 1 DiskManager.new)
        [.call .newPage, .call (.write 0 (fun _ => 1)), .call (.unpinPage 0 true),
          .shutdown [0] 1, .call (.fetchPage 0), .call (.write 0 (fun _ => 2)),
          .call (.unpinPage 0 true), .crash 1 1] s ∧
      s.session.bpm.fetchPage 0 = (some f, b) ∧ (b.pages f).pageId = 0 ∧
      (b.pages f).data = fun _ => 1 := by
  have hlists : ∀ p : PageId, p ∈ ([0] : List PageId) ↔
      (if p = 0 then some 0 else if p = INVALID_PAGE_ID then none else none : Option FrameId) ≠
        none := by
    intro p
    simp
  have hrun : Steps SafeStep (new 1 DiskManager.new)
      [.call .newPage, .call (.write 0 (fun _ => 1)), .call (.unpinPage 0 true),
        .shutdown [0] 1, .call (.fetchPage 0), .call (.write 0 (fun _ => 2)),
        .call (.unpinPage 0 true), .crash 1 1] _ :=
    .cons ⟨⟨fun _ => ⟨fun h => (nomatch h), rfl, rfl⟩, trivial⟩, rfl⟩ <|
    .cons ⟨⟨trivial, ⟨0, rfl, by decide⟩⟩, rfl⟩ <|
    .cons ⟨⟨trivial, fun _ _ _ _ => rfl⟩, rfl⟩ <|
    .cons ⟨⟨List.nodup_singleton 0, hlists⟩, rfl⟩ <|
    .cons ⟨⟨fun _ h => (nomatch h), Int.le_refl 0⟩, rfl⟩ <|
    .cons ⟨⟨trivial, ⟨0, rfl, by decide⟩⟩, rfl⟩ <|
    .cons ⟨⟨trivial, fun _ _ _ _ => rfl⟩, rfl⟩ <|
    .cons ⟨(by decide : (0 : Int) ≤ 1), rfl⟩ <| .nil _
  have h := (fetchPage_across_restarts 1 DiskManager.new (by decide) _ _ hrun).1 0 0 _
    (Int.le_refl 0) (fun _ h => (nomatch h)) rfl
  exact ⟨_, 0, _, hrun, rfl, h⟩

end Lifetime

end DisMiniSql.MiniSql
