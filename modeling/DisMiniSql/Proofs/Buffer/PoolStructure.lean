import DisMiniSql.Lib.Run
import DisMiniSql.MiniSql.Buffer.BufferPoolManager
import DisMiniSql.Proofs.Buffer.LruReplacer

/-!
# `DisMiniSql.Proofs.Buffer.PoolStructure`: the frames of the buffer pool

`Structured` is how the page table, the free list, the replacer and the frames should fit together.
`Keeps` is what a call should do with pinned pages and with the page that it deletes.

`pool_structure_iff` shows that the calls of a run do this exactly if none of them is a
`DeletePage`, and no page comes in that clashes with one that is there (`Admits`).
-/

set_option autoImplicit false

namespace DisMiniSql.MiniSql

open DisMiniSql.Lib (Guarded)
open BufferPoolManager (tableInsert tableErase)

namespace BufferPoolManager

/-- A page is in the frame. -/
def Mapped (b : BufferPoolManager) (f : FrameId) : Prop := ∃ p, b.pageTable p = some f

/-- The frame is in the free list. -/
def Free (b : BufferPoolManager) (f : FrameId) : Prop := f ∈ b.freeList

/-- The frame holds a page in use. -/
def Pinned (b : BufferPoolManager) (f : FrameId) : Prop := b.Mapped f ∧ 0 < (b.pages f).pinCount

/-- The frame holds a page that may go. -/
def Evictable (b : BufferPoolManager) (f : FrameId) : Prop := b.Mapped f ∧ f ∈ b.replacer.frames

/-- The page table maps ids to frames that have them, and every frame is exactly one of free, in use
and evictable. The free list has only frames, and each once. -/
structure Structured (b : BufferPoolManager) : Prop where
  mapped : ∀ p f, b.pageTable p = some f → f < b.poolSize ∧ (b.pages f).pageId = p
  injective : ∀ p q f, b.pageTable p = some f → b.pageTable q = some f → p = q
  free : ∀ f ∈ b.freeList, f < b.poolSize
  free_nodup : b.freeList.Nodup
  exactlyOne : ∀ f < b.poolSize, (b.Free f ∧ ¬ b.Pinned f ∧ ¬ b.Evictable f) ∨
    (¬ b.Free f ∧ b.Pinned f ∧ ¬ b.Evictable f) ∨ (¬ b.Free f ∧ ¬ b.Pinned f ∧ b.Evictable f)

/-- The state of a run that is right so far. -/
structure Kept (b : BufferPoolManager) : Prop extends b.Structured where
  replacer : b.replacer.Consistent
  maxNumPages : b.replacer.maxNumPages = b.poolSize
  evictable : ∀ f ∈ b.replacer.frames, b.Evictable f
  empty : ∀ f ∈ b.freeList,
    (b.pages f).pageId = INVALID_PAGE_ID ∧ (b.pages f).pinCount = 0 ∧ ¬ b.Mapped f

variable {b b' : BufferPoolManager} {f g : FrameId} {p q : PageId}

/-- The empty pool: every frame is free. -/
theorem kept_new (poolSize : Nat) (disk : DiskManager) : (new poolSize disk).Kept := by
  have hmapped : ∀ f, ¬ (new poolSize disk).Mapped f := by
    rintro f ⟨p, hp⟩
    exact nomatch hp
  exact
    { mapped := fun _ _ h => nomatch h
      injective := fun _ _ _ h => nomatch h
      free := fun _ hf => List.mem_range.mp hf
      free_nodup := List.nodup_range
      exactlyOne := fun f hf => .inl ⟨List.mem_range.mpr hf, fun h => hmapped f h.1,
        fun h => hmapped f h.1⟩
      replacer := LRUReplacer.consistent_new _
      maxNumPages := rfl
      evictable := fun _ hf => nomatch hf
      empty := fun f _ => ⟨rfl, rfl, hmapped f⟩ }

/-- A frame the replacer offers is unpinned and not free. -/
theorem Kept.pinCount_of_evictable (h : b.Kept) (hf : f ∈ b.replacer.frames) :
    f < b.poolSize ∧ (b.pages f).pinCount = 0 ∧ f ∉ b.freeList := by
  obtain ⟨hmapped, hin⟩ := h.evictable f hf
  obtain ⟨p, hp⟩ := id hmapped
  have hlt := (h.mapped p f hp).1
  rcases h.exactlyOne f hlt with ⟨_, _, hnot⟩ | ⟨_, _, hnot⟩ | ⟨hfree, hpinned, _⟩
  · exact absurd ⟨hmapped, hin⟩ hnot
  · exact absurd ⟨hmapped, hin⟩ hnot
  · exact ⟨hlt, Nat.eq_zero_of_not_pos (fun hpos => hpinned ⟨hmapped, hpos⟩), hfree⟩

/-! ### A page comes in -/

/-- The frame `f` was taken from the free list or from the replacer. -/
structure Taken (b : BufferPoolManager) (f : FrameId) (b' : BufferPoolManager) : Prop where
  lt : f < b.poolSize
  unpinned : (b.pages f).pinCount = 0
  same : b'.poolSize = b.poolSize ∧ b'.pages = b.pages ∧ b'.pageTable = b.pageTable ∧
    b'.disk = b.disk
  replacer : b'.replacer.Consistent ∧ b'.replacer.maxNumPages = b.poolSize
  free : ∀ g, g ∈ b'.freeList ↔ g ∈ b.freeList ∧ g ≠ f
  free_nodup : b'.freeList.Nodup
  evictable : ∀ g, g ∈ b'.replacer.frames ↔ g ∈ b.replacer.frames ∧ g ≠ f

/-- What taking a frame can do: nothing, when neither list has one, else the frame is free or the
replacer's last, and is prepared for its new page. -/
theorem Kept.takeFrame_cases (h : b.Kept) :
    (b.takeFrame = none ∧ b.freeList = [] ∧ b.replacer.frames = []) ∨
      ∃ f b', b.takeFrame = some (f, b') ∧ b.Taken f b' ∧
        (f ∈ b.freeList ∨ b.freeList = [] ∧ b.replacer.frames.getLast? = some f) := by
  unfold takeFrame
  cases hfree : b.freeList with
  | cons f rest =>
    have hmem : f ∈ b.freeList := by rw [hfree]; exact List.mem_cons_self
    have hnodup := h.free_nodup
    rw [hfree, List.nodup_cons] at hnodup
    obtain ⟨_, hpin, hmapped⟩ := h.empty f hmem
    refine .inr ⟨f, { b with freeList := rest }, rfl, ⟨h.free f hmem, hpin, ⟨rfl, rfl, rfl, rfl⟩,
      ⟨h.replacer, h.maxNumPages⟩, fun g => ?_, hnodup.2, fun g => ?_⟩, .inl List.mem_cons_self⟩
    · show g ∈ rest ↔ g ∈ b.freeList ∧ g ≠ f
      rw [hfree, List.mem_cons]
      constructor
      · exact fun hg => ⟨.inr hg, fun heq => hnodup.1 (heq ▸ hg)⟩
      · rintro ⟨rfl | hg, hne⟩
        · exact absurd rfl hne
        · exact hg
    · exact ⟨fun hg => ⟨hg, fun heq => hmapped (heq ▸ (h.evictable g hg).1)⟩, fun hg => hg.1⟩
  | nil =>
    -- the replacer is empty, or gives its least recently used frame
    rcases h.replacer.victim_eq with ⟨hnone, _⟩ | ⟨rest, f, r, hframes, hvictim, hrest, hr, hmax⟩
    · have hsize : (b.replacer.size == 0) = true := by
        have hlen := congrArg List.length hnone
        rw [LRUReplacer.frames, List.length_map, ← h.replacer.size_eq] at hlen
        exact beq_iff_eq.mpr hlen
      exact .inl ⟨if_pos hsize, rfl, hnone⟩
    · have hmem : f ∈ b.replacer.frames := by rw [hframes]; simp
      have hsize : ¬ (b.replacer.size == 0) = true := by
        intro hzero
        have hlen := h.replacer.size_eq
        have hzero : b.replacer.nowSize = 0 := beq_iff_eq.mp hzero
        rw [hzero] at hlen
        rw [LRUReplacer.frames, List.eq_nil_of_length_eq_zero hlen.symm] at hmem
        exact List.not_mem_nil hmem
      have hnodup := h.replacer.frames_nodup
      rw [hframes] at hnodup
      obtain ⟨hlt, hpin, _⟩ := h.pinCount_of_evictable hmem
      refine .inr ⟨f, { b with freeList := [], replacer := r }, ?_,
        ⟨hlt, hpin, ⟨rfl, rfl, rfl, rfl⟩, ⟨hr, hmax.trans h.maxNumPages⟩, fun g => ?_,
          List.nodup_nil, fun g => ?_⟩, .inr ⟨rfl, ?_⟩⟩
      · dsimp only
        rw [if_neg hsize, hvictim]
      · show g ∈ [] ↔ g ∈ b.freeList ∧ g ≠ f
        rw [hfree]
        exact ⟨fun hg => absurd hg List.not_mem_nil, fun hg => hg.1⟩
      · show g ∈ r.frames ↔ _
        rw [hrest, hframes, List.mem_append, List.mem_singleton]
        constructor
        · exact fun hg => ⟨.inl hg, fun heq => List.disjoint_of_nodup_append hnodup hg
            (List.mem_singleton.mpr heq)⟩
        · rintro ⟨hg | rfl, hne⟩
          · exact hg
          · exact absurd rfl hne
      · rw [hframes, List.getLast?_concat]

/-- The page `p` is in the frame that was taken, and what the frame held is gone. -/
structure Installed (b : BufferPoolManager) (f : FrameId) (p : PageId) (b' : BufferPoolManager) :
    Prop where
  poolSize : b'.poolSize = b.poolSize
  pageTable : ∀ q, b'.pageTable q =
    if q = p then some f else if q = (b.pages f).pageId then none else b.pageTable q
  own : (b'.pages f).pageId = p ∧ (b'.pages f).pinCount = 1
  others : ∀ g, g ≠ f → b'.pages g = b.pages g
  replacer : b'.replacer.Consistent ∧ b'.replacer.maxNumPages = b'.poolSize
  free : ∀ g, g ∈ b'.freeList ↔ g ∈ b.freeList ∧ g ≠ f
  free_nodup : b'.freeList.Nodup
  evictable : ∀ g, g ∈ b'.replacer.frames ↔ g ∈ b.replacer.frames ∧ g ≠ f

/-- The entries that the installation of `p` in the frame `f` overwrites are those of `f`. -/
def NoClash (b : BufferPoolManager) (f : FrameId) (p : PageId) : Prop :=
  ∀ g, g ≠ f → b.pageTable (b.pages f).pageId ≠ some g ∧ b.pageTable p ≠ some g

/-- Without a clash, the other frames keep their pages. -/
theorem Installed.pageTable_iff (hi : b.Installed f p b') (hclash : b.NoClash f p) (hg : g ≠ f) :
    b'.pageTable q = some g ↔ b.pageTable q = some g := by
  obtain ⟨hold, hnew⟩ := hclash g hg
  rw [hi.pageTable]
  by_cases hqp : q = p
  · rw [if_pos hqp, Option.some.injEq, hqp]
    exact iff_of_false (fun heq => hg heq.symm) hnew
  · rw [if_neg hqp]
    by_cases hqo : q = (b.pages f).pageId
    · rw [if_pos hqo, hqo]
      exact iff_of_false (fun heq => (nomatch heq)) hold
    · rw [if_neg hqo]

/-- The taken frame holds the new page and no other. -/
theorem Installed.pageTable_self (hi : b.Installed f p b') (h : b.Kept) :
    b'.pageTable q = some f ↔ q = p := by
  rw [hi.pageTable]
  by_cases hqp : q = p
  · rw [if_pos hqp]
    exact iff_of_true rfl hqp
  · rw [if_neg hqp]
    refine iff_of_false (fun heq => ?_) hqp
    split at heq
    · exact nomatch heq
    · next hne => exact hne (h.mapped q f heq).2.symm

/-- With its page installed the pool keeps its structure, unless the page sits in another frame
already. -/
theorem Installed.kept (hi : b.Installed f p b') (h : b.Kept) (hf : f < b.poolSize)
    (hclash : b.NoClash f p) : b'.Kept := by
  have hmapped : ∀ g, g ≠ f → (b'.Mapped g ↔ b.Mapped g) := fun g hg =>
    exists_congr (fun _ => hi.pageTable_iff hclash hg)
  have hfree : ∀ g, g ≠ f → (b'.Free g ↔ b.Free g) := fun g hg =>
    (hi.free g).trans (and_iff_left hg)
  have hframes : ∀ g, g ≠ f → (g ∈ b'.replacer.frames ↔ g ∈ b.replacer.frames) := fun g hg =>
    (hi.evictable g).trans (and_iff_left hg)
  have hpinned : ∀ g, g ≠ f → (b'.Pinned g ↔ b.Pinned g) := fun g hg => by
    unfold Pinned
    rw [hmapped g hg, hi.others g hg]
  have hevictable : ∀ g, g ≠ f → (b'.Evictable g ↔ b.Evictable g) := fun g hg =>
    and_congr (hmapped g hg) (hframes g hg)
  -- the taken frame is mapped and pinned now; every other is as before
  have hself : b'.Mapped f := ⟨p, (hi.pageTable_self h).mpr rfl⟩
  refine
    { mapped := fun q g hq => ?_
      injective := fun q r g hq hr => ?_
      free := fun g hg => ?_
      free_nodup := hi.free_nodup
      exactlyOne := fun g hg => ?_
      replacer := hi.replacer.1
      maxNumPages := hi.replacer.2
      evictable := fun g hg => ?_
      empty := fun g hg => ?_ }
  · rw [hi.poolSize]
    by_cases hgf : g = f
    · rw [hgf] at hq ⊢
      exact ⟨hf, hi.own.1.trans ((hi.pageTable_self h).mp hq).symm⟩
    · rw [hi.others g hgf]
      exact h.mapped q g ((hi.pageTable_iff hclash hgf).mp hq)
  · by_cases hgf : g = f
    · rw [hgf, hi.pageTable_self h] at hq hr
      exact hq.trans hr.symm
    · exact h.injective q r g ((hi.pageTable_iff hclash hgf).mp hq)
        ((hi.pageTable_iff hclash hgf).mp hr)
  · rw [hi.poolSize]
    exact h.free g ((hi.free g).mp hg).1
  · by_cases hgf : g = f
    · subst hgf
      refine .inr (.inl ⟨fun hin => ((hi.free g).mp hin).2 rfl, ⟨hself, ?_⟩,
        fun hin => ((hi.evictable g).mp hin.2).2 rfl⟩)
      rw [hi.own.2]
      exact Nat.one_pos
    · rw [hfree g hgf, hpinned g hgf, hevictable g hgf]
      exact h.exactlyOne g (hi.poolSize ▸ hg)
  · obtain ⟨hin, hgf⟩ := (hi.evictable g).mp hg
    exact (hevictable g hgf).mpr (h.evictable g hin)
  · obtain ⟨hin, hgf⟩ := (hi.free g).mp hg
    rw [hi.others g hgf, hmapped g hgf]
    exact h.empty g hin

/-- A page that clashes leaves a frame that is in nobody's hands. -/
theorem Installed.noClash (hi : b.Installed f p b') (h : b.Kept) (hs : b'.Structured) :
    b.NoClash f p := by
  -- the only entry of the frame `g` is overwritten, so no entry is left
  have hlost : ∀ q g, g ≠ f → b.pageTable q = some g → (q = p ∨ q = (b.pages f).pageId) →
      False := by
    intro q g hg hq hor
    have hnone : ∀ r, b'.pageTable r ≠ some g := by
      intro r hr
      rw [hi.pageTable] at hr
      split at hr
      · exact hg (Option.some.inj hr).symm
      · split at hr
        · exact nomatch hr
        · next hne hne' =>
          obtain rfl := h.injective r q g hr hq
          exact hor.elim hne hne'
    have hlt := (h.mapped q g hq).1
    have hfree : ¬ b'.Free g := fun hin => (h.empty g ((hi.free g).mp hin).1).2.2 ⟨q, hq⟩
    rcases hs.exactlyOne g (hi.poolSize ▸ hlt) with ⟨hin, _⟩ | ⟨_, hin, _⟩ | ⟨_, _, hin⟩
    · exact hfree hin
    · exact hnone _ hin.1.choose_spec
    · exact hnone _ hin.1.choose_spec
  exact fun g hg => ⟨fun hq => hlost _ g hg hq (.inr rfl), fun hq => hlost _ g hg hq (.inl rfl)⟩

/-- No page clashes with the page `p` when it comes in: a free frame carries `INVALID_PAGE_ID`,
which is taken out of the page table, and the entry of `p` itself is overwritten. -/
def Admits (b : BufferPoolManager) (p : PageId) : Prop :=
  (b.freeList ≠ [] → b.pageTable INVALID_PAGE_ID = none ∧ b.pageTable p = none) ∧
    (b.freeList = [] → ∀ f g, b.replacer.frames.getLast? = some f → b.pageTable p = some g → g = f)

/-- What the condition says about the state before: the page asked for is in no other frame. -/
theorem Kept.admits_iff (h : b.Kept) (ht : f ∈ b.freeList ∨
    b.freeList = [] ∧ b.replacer.frames.getLast? = some f) : b.Admits p ↔ b.NoClash f p := by
  rcases ht with hfree | ⟨hnil, hlast⟩
  · obtain ⟨hid, _, hmapped⟩ := h.empty f hfree
    have hne : b.freeList ≠ [] := List.ne_nil_of_mem hfree
    have hnone : ∀ q, b.pageTable q = none ↔ ∀ g, g ≠ f → b.pageTable q ≠ some g := by
      intro q
      constructor
      · intro hq g _ hg
        rw [hq] at hg
        exact nomatch hg
      · intro hall
        refine Option.eq_none_iff_forall_ne_some.mpr (fun g hg => ?_)
        by_cases hgf : g = f
        · exact hmapped ⟨q, hgf ▸ hg⟩
        · exact hall g hgf hg
    unfold Admits NoClash
    rw [hid, hnone, hnone]
    constructor
    · exact fun ha g hg => ⟨(ha.1 hne).1 g hg, (ha.1 hne).2 g hg⟩
    · exact fun hc => ⟨fun _ => ⟨fun g hg => (hc g hg).1, fun g hg => (hc g hg).2⟩,
        fun hnil => absurd hnil hne⟩
  · have hin := List.mem_of_getLast? hlast
    obtain ⟨q, hq⟩ := (h.evictable f hin).1
    have hid := (h.mapped q f hq).2
    constructor
    · intro ha g hg
      refine ⟨fun hg' => ?_, fun hg' => hg (ha.2 hnil f g hlast hg')⟩
      rw [hid, hq] at hg'
      exact hg (Option.some.inj hg').symm
    · intro hc
      refine ⟨fun hne => absurd hnil hne, fun _ f' g hlast' hg => ?_⟩
      obtain rfl := Option.some.inj (hlast.symm.trans hlast')
      by_contra hgf
      exact (hc g hgf).2 hg

/-- A pinned page keeps its frame. -/
theorem Installed.pinned (hi : b.Installed f p b') (hclash : b.NoClash f p)
    (hf : (b.pages f).pinCount = 0) (hq : b.pageTable q = some g)
    (hpin : 0 < (b.pages g).pinCount) : b'.pageTable q = some g := by
  have hgf : g ≠ f := by
    rintro rfl
    omega
  exact (hi.pageTable_iff hclash hgf).mpr hq

/-- The taken frame is pinned for the page, and the table names it under the page. -/
theorem Taken.installed {taken b' : BufferPoolManager} (ht : b.Taken f taken)
    (hsize : b'.poolSize = taken.poolSize)
    (htable : b'.pageTable = tableInsert (tableErase taken.pageTable (taken.pages f).pageId) p f)
    (hown : (b'.pages f).pageId = p ∧ (b'.pages f).pinCount = 1)
    (hothers : ∀ g, g ≠ f → b'.pages g = taken.pages g)
    (hreplacer : b'.replacer = taken.replacer.pin f) (hfree : b'.freeList = taken.freeList) :
    b.Installed f p b' := by
  obtain ⟨hpool, hpages, hsame, _⟩ := ht.same
  obtain ⟨hframes, hconsistent, hmax⟩ := ht.replacer.1.pin_frames
    (f := f) (ht.replacer.2 ▸ Nat.le_of_lt ht.lt)
  refine ⟨hsize.trans hpool, fun q => ?_, hown, fun g hg => ?_, ?_, ?_, ?_, fun g => ?_⟩
  · rw [htable]
    unfold tableInsert tableErase
    rw [hsame, hpages]
  · rw [hothers g hg, hpages]
  · rw [hreplacer, hsize]
    exact ⟨hconsistent, (hmax.trans ht.replacer.2).trans hpool.symm⟩
  · rw [hfree]
    exact ht.free
  · rw [hfree]
    exact ht.free_nodup
  · rw [hreplacer, hframes, List.mem_filter, ht.evictable, bne_iff_ne, and_assoc, and_self]

/-- `FetchPage` of a page that is not there. -/
theorem fetchPage_installed (hmiss : b.pageTable p = none) {taken : BufferPoolManager}
    (htake : b.takeFrame = some (f, taken)) (ht : b.Taken f taken) :
    b.Installed f p (b.fetchPage p).2 := by
  unfold fetchPage
  rw [hmiss]
  dsimp only
  rw [htake]
  refine ht.installed rfl rfl ⟨?_, ?_⟩ (fun g hg => ?_) rfl rfl
  · rw [setPage_pages, if_pos rfl]
  · rw [setPage_pages, if_pos rfl]
    rfl
  · rw [setPage_pages, if_neg hg]

/-- `NewPage`. -/
theorem newPage_installed {taken : BufferPoolManager} (htake : b.takeFrame = some (f, taken))
    (ht : b.Taken f taken) (hnext : taken.disk.nextPageId = p) :
    b.Installed f p b.newPage.2 := by
  unfold newPage
  rw [htake]
  dsimp only [DiskManager.allocatePage]
  rw [hnext]
  refine ht.installed rfl rfl ⟨?_, ?_⟩ (fun g hg => ?_) rfl rfl
  · rw [setPage_pages, if_pos rfl]
  · rw [setPage_pages, if_pos rfl]
    show (taken.pages f).pinCount + 1 = 1
    rw [ht.same.2.1, ht.unpinned]
  · rw [setPage_pages, if_neg hg]

/-! ### A page that is there -/

/-- The frame of a page is in the replacer exactly when it has no pin. -/
theorem Kept.mem_frames_iff (h : b.Kept) (hp : b.pageTable p = some f) :
    f ∈ b.replacer.frames ↔ (b.pages f).pinCount = 0 := by
  refine ⟨fun hin => (h.pinCount_of_evictable hin).2.1, fun hpin => ?_⟩
  rcases h.exactlyOne f (h.mapped p f hp).1 with ⟨hfree, _⟩ | ⟨_, hpinned, _⟩ | ⟨_, _, hin⟩
  · exact absurd ⟨p, hp⟩ (h.empty f hfree).2.2
  · exact absurd hpinned.2 (by omega)
  · exact hin.2

/-- The frame `f` of a page has changed, and with it its place in the replacer. -/
structure Touched (b : BufferPoolManager) (f : FrameId) (b' : BufferPoolManager) : Prop where
  poolSize : b'.poolSize = b.poolSize
  pageTable : b'.pageTable = b.pageTable
  freeList : b'.freeList = b.freeList
  own : (b'.pages f).pageId = (b.pages f).pageId
  others : ∀ g, g ≠ f → b'.pages g = b.pages g
  replacer : b'.replacer.Consistent ∧ b'.replacer.maxNumPages = b'.poolSize
  evictable : ∀ g, g ≠ f → (g ∈ b'.replacer.frames ↔ g ∈ b.replacer.frames)
  own_evictable : f ∈ b'.replacer.frames ↔ (b'.pages f).pinCount = 0

/-- Changing the pins of one mapped frame keeps the structure, if the replacer follows. -/
theorem Touched.kept (ht : b.Touched f b') (h : b.Kept) (hp : b.pageTable p = some f) :
    b'.Kept := by
  have hmapped : ∀ g, b'.Mapped g ↔ b.Mapped g := fun g => by
    unfold Mapped
    rw [ht.pageTable]
  have hself : b'.Mapped f := (hmapped f).mpr ⟨p, hp⟩
  have hnotFree : f ∉ b.freeList := fun hin => (h.empty f hin).2.2 ⟨p, hp⟩
  refine
    { mapped := fun q g hq => ?_
      injective := ht.pageTable ▸ h.injective
      free := fun g hg => ?_
      free_nodup := ht.freeList ▸ h.free_nodup
      exactlyOne := fun g hg => ?_
      replacer := ht.replacer.1
      maxNumPages := ht.replacer.2
      evictable := fun g hg => ?_
      empty := fun g hg => ?_ }
  · rw [ht.pageTable] at hq
    rw [ht.poolSize]
    by_cases hgf : g = f
    · subst hgf
      rw [ht.own]
      exact h.mapped q g hq
    · rw [ht.others g hgf]
      exact h.mapped q g hq
  · rw [ht.poolSize]
    exact h.free g (ht.freeList ▸ hg)
  · have hfree : b'.Free g ↔ b.Free g := by
      unfold Free
      rw [ht.freeList]
    by_cases hgf : g = f
    · subst hgf
      have hfree' : ¬ b'.Free g := fun hin => hnotFree (hfree.mp hin)
      -- pinned or evictable, as its count says
      by_cases hpin : (b'.pages g).pinCount = 0
      · exact .inr (.inr ⟨hfree', fun hpinned => absurd hpinned.2 (by omega), hself,
          ht.own_evictable.mpr hpin⟩)
      · exact .inr (.inl ⟨hfree', ⟨hself, Nat.pos_of_ne_zero hpin⟩,
          fun hin => hpin (ht.own_evictable.mp hin.2)⟩)
    · have hpinned : b'.Pinned g ↔ b.Pinned g := by
        unfold Pinned
        rw [hmapped, ht.others g hgf]
      have hevictable : b'.Evictable g ↔ b.Evictable g :=
        and_congr (hmapped g) (ht.evictable g hgf)
      rw [hfree, hpinned, hevictable]
      exact h.exactlyOne g (ht.poolSize ▸ hg)
  · refine ⟨?_, hg⟩
    by_cases hgf : g = f
    · exact hgf ▸ hself
    · exact (hmapped g).mpr (h.evictable g ((ht.evictable g hgf).mp hg)).1
  · rw [ht.freeList] at hg
    have hgf : g ≠ f := fun heq => hnotFree (heq ▸ hg)
    rw [ht.others g hgf, hmapped]
    exact h.empty g hg

/-- `FetchPage` of a page that is there pins it. -/
theorem Kept.fetchPage_touched (h : b.Kept) (hp : b.pageTable p = some f) :
    b.Touched f (b.fetchPage p).2 := by
  have hlt := (h.mapped p f hp).1
  obtain ⟨hframes, hconsistent, hmax⟩ := h.replacer.pin_frames
    (f := f) (h.maxNumPages ▸ Nat.le_of_lt hlt)
  unfold fetchPage
  rw [hp]
  dsimp only
  refine ⟨rfl, rfl, rfl, ?_, fun g hg => if_neg hg, ⟨hconsistent, hmax.trans h.maxNumPages⟩,
    fun g hg => ?_, ?_⟩
  · rw [setPage_pages, if_pos rfl]
  · show g ∈ (b.replacer.pin f).frames ↔ _
    rw [hframes, List.mem_filter, bne_iff_ne]
    exact and_iff_left hg
  · show f ∈ (b.replacer.pin f).frames ↔ (if f = f then _ else _ : Page).pinCount = 0
    rw [hframes, List.mem_filter, bne_iff_ne, if_pos rfl]
    exact iff_of_false (fun hin => hin.2 rfl) (Nat.succ_ne_zero _)

/-- `UnpinPage` of a page in use. The last pin makes it evictable. -/
theorem Kept.unpinPage_touched (h : b.Kept) (hp : b.pageTable p = some f)
    (hpin : (b.pages f).pinCount ≠ 0) (isDirty : Bool) :
    b.Touched f (b.unpinPage p isDirty).2 := by
  have hlt := (h.mapped p f hp).1
  have hout : f ∉ b.replacer.frames := fun hin => hpin ((h.mem_frames_iff hp).mp hin)
  obtain ⟨hframes, hconsistent, hmax⟩ := h.replacer.unpin_frames
    (f := f) (h.maxNumPages ▸ Nat.le_of_lt hlt)
  rw [if_neg hout] at hframes
  have hzero : ((b.pages f).pinCount == 0) = false := beq_eq_false_iff_ne.mpr hpin
  unfold unpinPage
  rw [hp]
  dsimp only
  rw [hzero, if_neg Bool.false_ne_true]
  generalize hpage : (if isDirty = true then { b.pages f with isDirty := true } else b.pages f) =
    page
  have hids : page.pageId = (b.pages f).pageId := by
    rw [← hpage]
    split
    · rfl
    · rfl
  by_cases hlast : page.pinCount - 1 = 0
  · have hlast' : (page.pinCount - 1 == 0) = true := beq_iff_eq.mpr hlast
    rw [hlast', if_pos rfl]
    refine ⟨rfl, rfl, rfl, ?_, fun g hg => if_neg hg, ⟨hconsistent, hmax.trans h.maxNumPages⟩,
      fun g hg => ?_, ?_⟩
    · rw [setPage_pages, if_pos rfl]
      exact hids
    · show g ∈ (b.replacer.unpin f).frames ↔ _
      rw [hframes, List.mem_cons]
      exact or_iff_right hg
    · show f ∈ (b.replacer.unpin f).frames ↔ (if f = f then _ else _ : Page).pinCount = 0
      rw [hframes, if_pos rfl]
      exact iff_of_true List.mem_cons_self hlast
  · have hlast' : (page.pinCount - 1 == 0) = false := beq_eq_false_iff_ne.mpr hlast
    rw [hlast', if_neg Bool.false_ne_true]
    refine ⟨rfl, rfl, rfl, ?_, fun g hg => if_neg hg, ⟨h.replacer, h.maxNumPages⟩,
      fun g _ => Iff.rfl, ?_⟩
    · rw [setPage_pages, if_pos rfl]
      exact hids
    · rw [setPage_pages, if_pos rfl]
      exact iff_of_false hout hlast

/-- `FlushPage` makes a page clean. -/
theorem Kept.flushPage_touched (h : b.Kept) (hp : b.pageTable p = some f) :
    b.Touched f (b.flushPage p).2 := by
  unfold flushPage
  rw [hp]
  refine ⟨rfl, rfl, rfl, ?_, fun g hg => if_neg hg, ⟨h.replacer, h.maxNumPages⟩,
    fun g _ => Iff.rfl, ?_⟩
  · rw [setPage_pages, if_pos rfl]
  · rw [setPage_pages, if_pos rfl]
    exact h.mem_frames_iff hp

/-- The disk is not part of the structure. -/
theorem Kept.withDisk (h : b.Kept) (disk : DiskManager) :
    ({ b with disk := disk } : BufferPoolManager).Kept :=
  { mapped := h.mapped
    injective := h.injective
    free := h.free
    free_nodup := h.free_nodup
    exactlyOne := h.exactlyOne
    replacer := h.replacer
    maxNumPages := h.maxNumPages
    evictable := h.evictable
    empty := h.empty }

end BufferPoolManager

/-! ### A run -/

namespace Pool

open BufferPoolManager (Kept)

variable {s : Pool} {p : PageId} {f : FrameId}

/-- What a call should do: the structure stays, a page in use keeps its frame, and `DeletePage`
refuses a page in use and gives back the frame of another page that is there. -/
structure Keeps (s : Pool) (call : PoolCall) : Prop where
  structured : (s.next call).bpm.Structured
  pinned : ∀ p f, s.bpm.pageTable p = some f → 0 < (s.bpm.pages f).pinCount →
    (s.next call).bpm.pageTable p = some f
  deletePinned : ∀ p f, call = .deletePage p → s.bpm.pageTable p = some f →
    0 < (s.bpm.pages f).pinCount → s.deletePage p = (false, s)
  deleteUnpinned : ∀ p f, call = .deletePage p → s.bpm.pageTable p = some f →
    (s.bpm.pages f).pinCount = 0 → (s.deletePage p).2.bpm.pageTable p = none ∧
      (s.deletePage p).2.deallocated = p :: s.deallocated ∧ f ∈ (s.deletePage p).2.bpm.freeList

/-- The call is not a `DeletePage`, and brings in no page that clashes with one that is there. -/
def Safe (s : Pool) : PoolCall → Prop
  | .newPage allocated => s.bpm.Admits allocated
  | .fetchPage pageId => s.bpm.pageTable pageId = none → s.bpm.Admits pageId
  | .deletePage _ => False
  | _ => True

/-- A call that is not a `DeletePage` is right if the structure and the pages in use stay. -/
theorem keeps_of {call : PoolCall} (hcall : ∀ p, call ≠ .deletePage p)
    (hs : (s.next call).bpm.Structured)
    (hpinned : ∀ p f, s.bpm.pageTable p = some f → 0 < (s.bpm.pages f).pinCount →
      (s.next call).bpm.pageTable p = some f) : s.Keeps call :=
  ⟨hs, hpinned, fun p _ heq => absurd heq (hcall p), fun p _ heq => absurd heq (hcall p)⟩

/-- The call changes nothing but the disk. -/
theorem keeps_same {call : PoolCall} (h : s.bpm.Kept) (hcall : ∀ p, call ≠ .deletePage p)
    (disk : DiskManager) (heq : (s.next call).bpm = { s.bpm with disk := disk }) :
    s.Keeps call ∧ (s.next call).bpm.Kept := by
  have hk := h.withDisk disk
  rw [← heq] at hk
  refine ⟨keeps_of hcall hk.toStructured (fun p f hp _ => ?_), hk⟩
  rw [heq]
  exact hp

/-- The call changes the frame of a page that is there. -/
theorem keeps_touched {call : PoolCall} (h : s.bpm.Kept) (hcall : ∀ p, call ≠ .deletePage p)
    (hp : s.bpm.pageTable p = some f) (ht : s.bpm.Touched f (s.next call).bpm) :
    s.Keeps call ∧ (s.next call).bpm.Kept := by
  have hk := ht.kept h hp
  refine ⟨keeps_of hcall hk.toStructured (fun q g hq _ => ?_), hk⟩
  rw [ht.pageTable]
  exact hq

/-- A call that brings in a page is right exactly if the page does not clash. -/
theorem keeps_iff_admits {call : PoolCall} (h : s.bpm.Kept) (hcall : ∀ p, call ≠ .deletePage p)
    (disk : DiskManager)
    (hnone : ({ s.bpm with disk := disk } : BufferPoolManager).takeFrame = none →
      (s.next call).bpm = { s.bpm with disk := disk })
    (hsome : ∀ f taken, ({ s.bpm with disk := disk } : BufferPoolManager).takeFrame =
      some (f, taken) → ({ s.bpm with disk := disk } : BufferPoolManager).Taken f taken →
        ({ s.bpm with disk := disk } : BufferPoolManager).Installed f p (s.next call).bpm) :
    (s.bpm.Admits p → s.Keeps call ∧ (s.next call).bpm.Kept) ∧ (s.Keeps call → s.bpm.Admits p) := by
  have hdisk := h.withDisk disk
  rcases hdisk.takeFrame_cases with ⟨htake, hfree, hframes⟩ | ⟨f, taken, htake, ht, hwhere⟩
  · refine ⟨fun _ => keeps_same h hcall disk (hnone htake), fun _ => ?_⟩
    refine ⟨fun hne => absurd hfree hne, fun _ f g hlast => ?_⟩
    have hframes : s.bpm.replacer.frames = [] := hframes
    rw [hframes] at hlast
    exact nomatch hlast
  · have hi := hsome f taken htake ht
    have hiff : s.bpm.Admits p ↔ _ := hdisk.admits_iff (p := p) hwhere
    constructor
    · intro hadmits
      have hclash := hiff.mp hadmits
      have hk := hi.kept hdisk ht.lt hclash
      exact ⟨keeps_of hcall hk.toStructured
        (fun q g hq hpin => hi.pinned hclash ht.unpinned hq hpin), hk⟩
    · exact fun hkeeps => hiff.mpr (hi.noClash hdisk hkeeps.structured)

/-- `DeletePage` of a page that is not there leaves an entry of frame 0, or frees frame 0 with what
it holds. -/
theorem not_structured_deletePage (h : s.bpm.Kept) (hp : s.bpm.pageTable p = none) :
    ¬ (s.deletePage p).2.bpm.Structured := by
  unfold deletePage
  rw [hp]
  dsimp only
  by_cases hpin : (s.bpm.pages 0).pinCount = 0
  · rw [if_neg (not_not_intro hpin)]
    intro hs
    have hlt : 0 < s.bpm.poolSize := hs.free 0 List.mem_cons_self
    have hnodup : (0 :: s.bpm.freeList).Nodup := hs.free_nodup
    rcases h.exactlyOne 0 hlt with ⟨hfree, _⟩ | ⟨_, hpinned, _⟩ | ⟨_, _, ⟨q, hq⟩, hin⟩
    · exact (List.nodup_cons.mp hnodup).1 hfree
    · exact absurd hpinned.2 (by omega)
    · have hqp : q ≠ p := by
        rintro rfl
        exact nomatch hp.symm.trans hq
      have hentry : tableErase (tableInsert s.bpm.pageTable p 0) p q = some 0 := by
        unfold tableErase tableInsert
        rw [if_neg hqp, if_neg hqp, hq]
      rcases hs.exactlyOne 0 hlt with ⟨_, _, hnot⟩ | ⟨hnot, _⟩ | ⟨hnot, _⟩
      · exact hnot ⟨⟨q, hentry⟩, hin⟩
      · exact hnot List.mem_cons_self
      · exact hnot List.mem_cons_self
  · rw [if_pos hpin]
    intro hs
    have hentry : tableInsert s.bpm.pageTable p 0 p = some 0 := if_pos rfl
    obtain ⟨hlt, hid⟩ := hs.mapped p 0 hentry
    rcases h.exactlyOne 0 hlt with ⟨hfree, _⟩ | ⟨_, ⟨⟨q, hq⟩, _⟩, _⟩ | ⟨_, _, hin⟩
    · exact hpin (h.empty 0 hfree).2.1
    · obtain rfl : q = p := (h.mapped q 0 hq).2.symm.trans hid
      exact nomatch hp.symm.trans hq
    · exact hpin (h.pinCount_of_evictable hin.2).2.1

/-- `DeletePage` is never right. -/
theorem not_keeps_deletePage (h : s.bpm.Kept) (p : PageId) : ¬ s.Keeps (.deletePage p) := by
  intro hkeeps
  cases hp : s.bpm.pageTable p with
  | none => exact not_structured_deletePage h hp hkeeps.structured
  | some f =>
    -- the page stays in the page table, and the answer is `true`
    have hdelete : s.deletePage p = (true, { s with deallocated := p :: s.deallocated }) := by
      unfold deletePage
      rw [hp]
    by_cases hpin : (s.bpm.pages f).pinCount = 0
    · have hnone := (hkeeps.deleteUnpinned p f rfl hp hpin).1
      rw [hdelete] at hnone
      exact nomatch hp.symm.trans hnone
    · have hsame := hkeeps.deletePinned p f rfl hp (Nat.pos_of_ne_zero hpin)
      rw [hdelete] at hsame
      exact nomatch (Prod.mk.inj hsame).1

/-- `NewPage` keeps the structure exactly when the allocated id is admitted. -/
theorem keeps_newPage (h : s.bpm.Kept) (allocated : PageId) :
    (s.bpm.Admits allocated → s.Keeps (.newPage allocated) ∧
      (s.next (.newPage allocated)).bpm.Kept) ∧
        (s.Keeps (.newPage allocated) → s.bpm.Admits allocated) := by
  refine keeps_iff_admits h (fun _ heq => nomatch heq)
    { s.bpm.disk with nextPageId := allocated } (fun htake => ?_) (fun f taken htake ht => ?_)
  · show (BufferPoolManager.newPage _).2 = _
    unfold BufferPoolManager.newPage
    rw [htake]
  · exact BufferPoolManager.newPage_installed htake ht
      (congrArg DiskManager.nextPageId ht.same.2.2.2)

/-- A fetch that misses keeps it exactly when the page is admitted. -/
theorem keeps_fetchPage_miss (h : s.bpm.Kept) (hmiss : s.bpm.pageTable p = none) :
    (s.bpm.Admits p → s.Keeps (.fetchPage p) ∧ (s.next (.fetchPage p)).bpm.Kept) ∧
      (s.Keeps (.fetchPage p) → s.bpm.Admits p) := by
  refine keeps_iff_admits h (fun _ heq => nomatch heq) s.bpm.disk (fun htake => ?_)
    (fun f taken htake ht => ?_)
  · show (s.bpm.fetchPage p).2 = s.bpm
    unfold BufferPoolManager.fetchPage
    rw [hmiss]
    dsimp only
    rw [show s.bpm.takeFrame = none from htake]
  · exact BufferPoolManager.fetchPage_installed hmiss htake ht

/-- `UnpinPage` always keeps it. -/
theorem keeps_unpinPage (h : s.bpm.Kept) (p : PageId) (isDirty : Bool) :
    s.Keeps (.unpinPage p isDirty) ∧ (s.next (.unpinPage p isDirty)).bpm.Kept := by
  have hcall : ∀ q, PoolCall.unpinPage p isDirty ≠ .deletePage q := fun _ heq => nomatch heq
  cases hp : s.bpm.pageTable p with
  | none =>
    refine keeps_same h hcall s.bpm.disk ?_
    show (s.bpm.unpinPage p isDirty).2 = s.bpm
    unfold BufferPoolManager.unpinPage
    rw [hp]
  | some f =>
    by_cases hpin : (s.bpm.pages f).pinCount = 0
    · refine keeps_same h hcall s.bpm.disk ?_
      show (s.bpm.unpinPage p isDirty).2 = s.bpm
      unfold BufferPoolManager.unpinPage
      rw [hp]
      exact congrArg Prod.snd (if_pos (beq_iff_eq.mpr hpin))
    · exact keeps_touched h hcall hp (h.unpinPage_touched hp hpin isDirty)

/-- So does `FlushPage`. -/
theorem keeps_flushPage (h : s.bpm.Kept) (p : PageId) :
    s.Keeps (.flushPage p) ∧ (s.next (.flushPage p)).bpm.Kept := by
  have hcall : ∀ q, PoolCall.flushPage p ≠ .deletePage q := fun _ heq => nomatch heq
  cases hp : s.bpm.pageTable p with
  | none =>
    refine keeps_same h hcall s.bpm.disk ?_
    show (s.bpm.flushPage p).2 = s.bpm
    unfold BufferPoolManager.flushPage
    rw [hp]
  | some f => exact keeps_touched h hcall hp (h.flushPage_touched hp)

/-- The calls of a run keep the structure of the pool, the frames of the pages in use, and what
`DeletePage` promises, exactly if no call is a `DeletePage` and no page comes in that clashes. -/
theorem pool_structure_iff (poolSize : Nat) (disk : DiskManager) (calls : List PoolCall) :
    Guarded Keeps next (new poolSize disk) calls ↔ Guarded Safe next (new poolSize disk) calls := by
  have hinit : (new poolSize disk).bpm.Kept := BufferPoolManager.kept_new poolSize disk
  refine Guarded.iff_guarded_of (J := fun s => s.bpm.Kept) (fun s call h hsafe => ?_)
    (fun s call h hkeeps => ?_) calls _ hinit
  · cases call with
    | newPage allocated => exact (keeps_newPage h allocated).1 hsafe
    | fetchPage p =>
      cases hp : s.bpm.pageTable p with
      | none => exact (keeps_fetchPage_miss h hp).1 (hsafe hp)
      | some f => exact keeps_touched h (fun _ heq => nomatch heq) hp (h.fetchPage_touched hp)
    | unpinPage p isDirty => exact keeps_unpinPage h p isDirty
    | flushPage p => exact keeps_flushPage h p
    | deletePage p => exact hsafe.elim
  · cases call with
    | newPage allocated => exact (keeps_newPage h allocated).2 hkeeps
    | fetchPage p => exact fun hp => (keeps_fetchPage_miss h hp).2 hkeeps
    | unpinPage p isDirty => trivial
    | flushPage p => trivial
    | deletePage p => exact not_keeps_deletePage h p hkeeps

/-- A page is deleted while it is in use: the answer is `true`. -/
theorem deletePage_of_pinned :
    ¬ ∀ (poolSize : Nat) (disk : DiskManager) (calls : List PoolCall),
      Guarded Keeps next (new poolSize disk) calls := by
  intro h
  obtain ⟨_, hkeeps, _⟩ := h 1 DiskManager.new [.newPage 0, .deletePage 0]
  have hkept : ((new 1 DiskManager.new).next (.newPage 0)).bpm.Kept := by
    refine ((keeps_newPage (BufferPoolManager.kept_new 1 DiskManager.new) 0).1 ?_).2
    exact ⟨fun _ => ⟨rfl, rfl⟩, fun hnil => nomatch hnil⟩
  exact not_keeps_deletePage hkept 0 hkeeps

end Pool

end DisMiniSql.MiniSql
