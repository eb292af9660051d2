import DisMiniSql.Lib.Pins
import DisMiniSql.Proofs.Buffer.PoolStructure

/-!
# `DisMiniSql.Proofs.Buffer.PinCount`: what `FetchPage` and `UnpinPage` do to pin counts

`pinCountOf` is the pin count of a page by its id. A holder of pins sees of the pool these counts,
and the frames of the pages that have one: `FetchPage` adds a pin and takes no frame of such a page
away (`Sound.fetchPage_cases`), and `UnpinPage` takes a pin, and none from a page without pins
(`Sound.unpinPage`).

`Pool.Answers` is a call that succeeds, or a write to a page. The pin counts of the pool go with the
pins of the caller's events (`Pool.pinCountOf_run`).
-/

set_option autoImplicit false

namespace DisMiniSql.MiniSql

namespace BufferPoolManager

variable {b b' : BufferPoolManager} {f g : FrameId} {p q : PageId}

/-- The pin count of a page, and zero for a page that is not there. -/
def pinCountOf (b : BufferPoolManager) (p : PageId) : Nat :=
  ((b.pageTable p).map (fun f => (b.pages f).pinCount)).getD 0

/-- The pins of a page in the pool are its frame's. -/
theorem pinCountOf_some (hp : b.pageTable p = some f) :
    b.pinCountOf p = (b.pages f).pinCount := by
  unfold pinCountOf
  rw [hp, Option.map_some, Option.getD_some]

/-- A page outside the pool has none. -/
theorem pinCountOf_none (hp : b.pageTable p = none) : b.pinCountOf p = 0 := by
  unfold pinCountOf
  rw [hp, Option.map_none, Option.getD_none]

/-- The pool is as `pool_structure_iff` has it, and no frame is under `INVALID_PAGE_ID`. -/
structure Sound (b : BufferPoolManager) : Prop where
  kept : b.Kept
  invalid : b.pageTable INVALID_PAGE_ID = none

/-- The empty pool is sound. -/
theorem sound_new (poolSize : Nat) (disk : DiskManager) : (new poolSize disk).Sound :=
  ⟨kept_new poolSize disk, rfl⟩

/-- The page is there, or there is a frame for it. -/
def HasFrame (b : BufferPoolManager) (p : PageId) : Prop :=
  b.pageTable p ≠ none ∨ b.freeList ≠ [] ∨ b.replacer.frames ≠ []

/-- The frames of the pages that `m` counts pins for stay. -/
def KeepsFrames (m : PageId → Nat) (b b' : BufferPoolManager) : Prop :=
  ∀ q g, 0 < m q → b.pageTable q = some g → b'.pageTable q = some g

/-- Two stretches that keep the pinned frames keep them together. -/
theorem KeepsFrames.trans {m : PageId → Nat} {b'' : BufferPoolManager} (h : KeepsFrames m b b')
    (h' : KeepsFrames m b' b'') : KeepsFrames m b b'' :=
  fun q g hpin hq => h' q g hpin (h q g hpin hq)

/-- Fewer pins are kept too. -/
theorem KeepsFrames.mono {m m' : PageId → Nat} (h : KeepsFrames m b b') (hle : ∀ q, m' q ≤ m q) :
    KeepsFrames m' b b' :=
  fun q g hpin hq => h q g (Nat.lt_of_lt_of_le hpin (hle q)) hq

/-- A pin more on the page `p`. -/
structure Fetched (b : BufferPoolManager) (p : PageId) (f : FrameId) (b' : BufferPoolManager) :
    Prop where
  sound : b'.Sound
  frame : b'.pageTable p = some f
  pins : ∀ q, b'.pinCountOf q = b.pinCountOf q + if q = p then 1 else 0
  frames : KeepsFrames b.pinCountOf b b'

/-- A page that is there gets one pin more. -/
theorem Sound.fetched_hit (h : b.Sound) (hp : b.pageTable p = some f) :
    b.Fetched p f (b.fetchPage p).2 := by
  have ht := h.kept.fetchPage_touched hp
  have hpin : ((b.fetchPage p).2.pages f).pinCount = (b.pages f).pinCount + 1 := by
    unfold fetchPage
    rw [hp]
    dsimp only
    rw [setPage_pages, if_pos rfl]
  refine
    { sound := ⟨ht.kept h.kept hp, ht.pageTable ▸ h.invalid⟩
      frame := ht.pageTable ▸ hp
      pins := fun q => ?_
      frames := fun q g _ hq => ht.pageTable ▸ hq }
  by_cases hqp : q = p
  · rw [hqp, if_pos rfl, pinCountOf_some hp, pinCountOf_some (ht.pageTable ▸ hp), hpin]
  · rw [if_neg hqp, Nat.add_zero]
    cases hq : b.pageTable q with
    | none => rw [pinCountOf_none hq, pinCountOf_none (ht.pageTable ▸ hq)]
    | some g =>
      have hgf : g ≠ f := by
        rintro rfl
        exact hqp (h.kept.injective q p g hq hp)
      rw [pinCountOf_some hq, pinCountOf_some (ht.pageTable ▸ hq), ht.others g hgf]

/-- A page that comes in has one pin, and the page that goes had none. -/
theorem Sound.fetched_installed (h : b.Sound) (hmiss : b.pageTable p = none)
    (hvalid : p ≠ INVALID_PAGE_ID) (hi : b.Installed f p b') (hf : f < b.poolSize)
    (hpin : (b.pages f).pinCount = 0) (hclash : b.NoClash f p) : b.Fetched p f b' := by
  have hself : b'.pageTable p = some f := (hi.pageTable_self h.kept).mpr rfl
  refine
    { sound := ⟨hi.kept h.kept hf hclash, ?_⟩
      frame := hself
      pins := fun q => ?_
      frames := fun q g hpin' hq => hi.pinned hclash hpin hq (pinCountOf_some hq ▸ hpin') }
  · rw [hi.pageTable, if_neg (Ne.symm hvalid), h.invalid, ite_self]
  · by_cases hqp : q = p
    · rw [hqp, if_pos rfl, pinCountOf_none hmiss, pinCountOf_some hself, hi.own.2]
    · rw [if_neg hqp, Nat.add_zero]
      cases hq : b.pageTable q with
      | none =>
        have hq' : b'.pageTable q = none := by
          rw [hi.pageTable, if_neg hqp, hq, ite_self]
        rw [pinCountOf_none hq, pinCountOf_none hq']
      | some g =>
        by_cases hgf : g = f
        · -- the page was in the frame that was taken
          have hold : q = (b.pages f).pageId := (h.kept.mapped q f (hgf ▸ hq)).2.symm
          have hq' : b'.pageTable q = none := by rw [hi.pageTable, if_neg hqp, if_pos hold]
          rw [pinCountOf_none hq', pinCountOf_some hq, hgf, hpin]
        · rw [pinCountOf_some hq, pinCountOf_some ((hi.pageTable_iff hclash hgf).mpr hq),
            hi.others g hgf]

/-- `FetchPage` finds no frame and changes nothing, or it adds a pin. -/
theorem Sound.fetchPage_cases (h : b.Sound) (hvalid : p ≠ INVALID_PAGE_ID) :
    (¬ b.HasFrame p ∧ b.fetchPage p = (none, b)) ∨
      ∃ f b', b.HasFrame p ∧ b.fetchPage p = (some f, b') ∧ b.Fetched p f b' := by
  cases hp : b.pageTable p with
  | some f =>
    have hanswer : (b.fetchPage p).1 = some f := by
      unfold fetchPage
      rw [hp]
    refine .inr ⟨f, (b.fetchPage p).2, .inl ?_, Prod.ext hanswer rfl, h.fetched_hit hp⟩
    rw [hp]
    exact Option.some_ne_none f
  | none =>
    rcases h.kept.takeFrame_cases with ⟨htake, hfree, hframes⟩ | ⟨f, taken, htake, ht, hwhere⟩
    · refine .inl ⟨?_, ?_⟩
      · rintro (hhit | hhas | hhas)
        · exact hhit hp
        · exact hhas hfree
        · exact hhas hframes
      · unfold fetchPage
        rw [hp]
        dsimp only
        rw [htake]
    · have hi := fetchPage_installed hp htake ht
      have hadmits : b.Admits p := by
        refine ⟨fun _ => ⟨h.invalid, hp⟩, fun _ f g _ hg => ?_⟩
        exact nomatch hp.symm.trans hg
      have hclash := (h.kept.admits_iff hwhere).mp hadmits
      have hanswer : (b.fetchPage p).1 = some f := by
        unfold fetchPage
        rw [hp]
        dsimp only
        rw [htake]
      refine .inr ⟨f, (b.fetchPage p).2, .inr ?_, Prod.ext hanswer rfl,
        h.fetched_installed hp hvalid hi ht.lt ht.unpinned hclash⟩
      rcases hwhere with hfree | ⟨_, hlast⟩
      · exact .inl (List.ne_nil_of_mem hfree)
      · exact .inr (List.ne_nil_of_mem (List.mem_of_getLast? hlast))

/-- A fetch of a valid page keeps the pool sound. -/
theorem Sound.fetchPage (h : b.Sound) (hvalid : p ≠ INVALID_PAGE_ID) : (b.fetchPage p).2.Sound := by
  rcases h.fetchPage_cases hvalid with ⟨_, heq⟩ | ⟨f, b', _, heq, hf⟩
  · rw [heq]
    exact h
  · rw [heq]
    exact hf.sound

/-- `UnpinPage` takes one pin from the page, if it has one. The page table stays. -/
theorem Sound.unpinPage (h : b.Sound) (p : PageId) (isDirty : Bool) :
    (b.unpinPage p isDirty).2.Sound ∧ (b.unpinPage p isDirty).2.pageTable = b.pageTable ∧
      ∀ q, (b.unpinPage p isDirty).2.pinCountOf q = b.pinCountOf q - if q = p then 1 else 0 := by
  have hsame : b.pinCountOf p = 0 →
      ∀ q, b.pinCountOf q = b.pinCountOf q - if q = p then 1 else 0 := by
    intro hzero q
    split
    · next hqp => rw [hqp, hzero]
    · rfl
  cases hp : b.pageTable p with
  | none =>
    have heq : (b.unpinPage p isDirty).2 = b := by
      unfold BufferPoolManager.unpinPage
      rw [hp]
    rw [heq]
    exact ⟨h, rfl, hsame (pinCountOf_none hp)⟩
  | some f =>
    by_cases hpin : (b.pages f).pinCount = 0
    · have heq : (b.unpinPage p isDirty).2 = b := by
        unfold BufferPoolManager.unpinPage
        rw [hp]
        exact congrArg Prod.snd (if_pos (beq_iff_eq.mpr hpin))
      rw [heq]
      exact ⟨h, rfl, hsame ((pinCountOf_some hp).trans hpin)⟩
    · have ht := h.kept.unpinPage_touched hp hpin isDirty
      have hless : ((b.unpinPage p isDirty).2.pages f).pinCount = (b.pages f).pinCount - 1 := by
        have hzero : ((b.pages f).pinCount == 0) = false := beq_eq_false_iff_ne.mpr hpin
        unfold BufferPoolManager.unpinPage
        rw [hp]
        dsimp only
        rw [hzero, if_neg Bool.false_ne_true]
        cases isDirty with
        | true =>
          rw [if_pos rfl]
          split
          · exact congrArg Page.pinCount (if_pos rfl)
          · exact congrArg Page.pinCount (if_pos rfl)
        | false =>
          rw [if_neg Bool.false_ne_true]
          split
          · exact congrArg Page.pinCount (if_pos rfl)
          · exact congrArg Page.pinCount (if_pos rfl)
      refine ⟨⟨ht.kept h.kept hp, ht.pageTable ▸ h.invalid⟩, ht.pageTable, fun q => ?_⟩
      by_cases hqp : q = p
      · rw [hqp, if_pos rfl, pinCountOf_some hp, pinCountOf_some (ht.pageTable ▸ hp), hless]
      · rw [if_neg hqp, Nat.sub_zero]
        cases hq : b.pageTable q with
        | none => rw [pinCountOf_none hq, pinCountOf_none (ht.pageTable ▸ hq)]
        | some g =>
          have hgf : g ≠ f := by
            rintro rfl
            exact hqp (h.kept.injective q p g hq hp)
          rw [pinCountOf_some hq, pinCountOf_some (ht.pageTable ▸ hq), ht.others g hgf]

/-- `NewPage` finds no frame, or it adds a pin to a page that was not there. -/
theorem Sound.newPage (h : b.Sound) (hmiss : b.pageTable p = none) (hvalid : p ≠ INVALID_PAGE_ID)
    (hnext : b.disk.nextPageId = p) (hanswer : b.newPage.1 = some (f, p)) :
    b.Fetched p f b.newPage.2 := by
  rcases h.kept.takeFrame_cases with ⟨htake, _, _⟩ | ⟨g, taken, htake, ht, hwhere⟩
  · unfold BufferPoolManager.newPage at hanswer
    rw [htake] at hanswer
    exact nomatch hanswer
  · have hi :=
      newPage_installed htake ht ((congrArg DiskManager.nextPageId ht.same.2.2.2).trans hnext)
    have hadmits : b.Admits p := by
      refine ⟨fun _ => ⟨h.invalid, hmiss⟩, fun _ f g _ hg => ?_⟩
      exact nomatch hmiss.symm.trans hg
    have hclash := (h.kept.admits_iff hwhere).mp hadmits
    have hg : g = f := by
      unfold BufferPoolManager.newPage at hanswer
      rw [htake] at hanswer
      exact (Prod.mk.inj (Option.some.inj hanswer)).1
    rw [← hg]
    exact h.fetched_installed hmiss hvalid hi ht.lt ht.unpinned hclash

/-- The disk is no part of it. -/
theorem Sound.withDisk (h : b.Sound) (disk : DiskManager) :
    ({ b with disk := disk } : BufferPoolManager).Sound := ⟨h.kept.withDisk disk, h.invalid⟩

/-- The bytes of a page are no part of the structure. -/
theorem Sound.setData (h : b.Sound) (hp : b.pageTable p = some f) (data : PageData) :
    (b.setPage f { b.pages f with data := data }).Sound ∧
      (b.setPage f { b.pages f with data := data }).pinCountOf = b.pinCountOf := by
  have ht : b.Touched f (b.setPage f { b.pages f with data := data }) := by
    refine ⟨rfl, rfl, rfl, ?_, fun g hg => if_neg hg, ⟨h.kept.replacer, h.kept.maxNumPages⟩,
      fun g _ => Iff.rfl, ?_⟩
    · rw [setPage_pages, if_pos rfl]
    · rw [setPage_pages, if_pos rfl]
      exact h.kept.mem_frames_iff hp
  refine ⟨⟨ht.kept h.kept hp, h.invalid⟩, funext (fun q => ?_)⟩
  unfold pinCountOf
  rw [setPage_pageTable]
  refine congrArg (fun pins => Option.getD pins 0) (Option.map_congr (fun g hq => ?_))
  rw [setPage_pages]
  split
  · next hgf => rw [hgf]
  · rfl

end BufferPoolManager

/-! ### The calls of one caller -/

namespace Pool

open DisMiniSql.Lib (PinEvent Steps pinsAfter)

/-- A call that succeeds, or a write to a page that is in the pool. `NewPage` has an id that no page
in the pool has. -/
inductive Answers : Pool → PinEvent PageId → Pool → Prop
  | fetchPage {s : Pool} {p : PageId} {f : FrameId} {b : BufferPoolManager} :
      p ≠ INVALID_PAGE_ID → s.bpm.fetchPage p = (some f, b) →
        Answers s (.take p) { s with bpm := b }
  | newPage {s : Pool} {p : PageId} {f : FrameId} : p ≠ INVALID_PAGE_ID →
      s.bpm.pageTable p = none → (s.newPage p).1 = some (f, p) → Answers s (.take p) (s.newPage p).2
  | unpinPage (s : Pool) (p : PageId) (isDirty : Bool) :
      Answers s (.give p) { s with bpm := (s.bpm.unpinPage p isDirty).2 }
  | write {s : Pool} {p : PageId} {f : FrameId} (data : PageData) : s.bpm.pageTable p = some f →
      Answers s (.use p) { s with bpm := s.bpm.setPage f { s.bpm.pages f with data := data } }
  | deletePage {s : Pool} {p : PageId} {f : FrameId} : s.bpm.pageTable p = some f →
      Answers s (.drop p) (s.deletePage p).2

variable {s s' : Pool} {e : PinEvent PageId} {es : List (PinEvent PageId)}

/-- A fetched page, as an event. -/
theorem pinCountOf_fetched {b b' : BufferPoolManager} {p : PageId} {f : FrameId}
    (hf : b.Fetched p f b') : b'.pinCountOf = (PinEvent.take p).apply b.pinCountOf := by
  funext q
  rw [hf.pins q]
  show _ = Function.update b.pinCountOf p (b.pinCountOf p + 1) q
  by_cases hq : q = p
  · rw [if_pos hq, hq, Function.update_self]
  · rw [if_neg hq, Function.update_of_ne hq, Nat.add_zero]

/-- One event. -/
theorem Answers.pins (ha : s.Answers e s') (h : s.bpm.Sound) :
    s'.bpm.Sound ∧ s'.bpm.pinCountOf = e.apply s.bpm.pinCountOf := by
  cases ha with
  | fetchPage hvalid hfetch =>
    rcases h.fetchPage_cases hvalid with ⟨_, heq⟩ | ⟨f', b', _, heq, hf⟩
    · exact nomatch hfetch.symm.trans heq
    · obtain ⟨_, rfl⟩ := Prod.mk.inj (hfetch.symm.trans heq)
      exact ⟨hf.sound, pinCountOf_fetched hf⟩
  | @newPage p f hvalid hmiss hanswer =>
    have hf := (h.withDisk { s.bpm.disk with nextPageId := p }).newPage hmiss hvalid rfl hanswer
    have hpins := pinCountOf_fetched hf
    exact ⟨hf.sound, hpins⟩
  | unpinPage p isDirty =>
    obtain ⟨hs, _, hpins⟩ := h.unpinPage p isDirty
    refine ⟨hs, funext (fun q => (hpins q).trans ?_)⟩
    show _ = Function.update s.bpm.pinCountOf p (s.bpm.pinCountOf p - 1) q
    by_cases hq : q = p
    · rw [if_pos hq, hq, Function.update_self]
    · rw [if_neg hq, Function.update_of_ne hq, Nat.sub_zero]
  | write data hp => exact h.setData hp data
  | @deletePage p f hp =>
    have hsame : (s.deletePage p).2.bpm = s.bpm := by
      unfold Pool.deletePage
      rw [hp]
    rw [hsame]
    exact ⟨h, rfl⟩

/-- The pin counts of the pool go with the pins of the events. -/
theorem pinCountOf_run (hrun : Steps Answers s es s') (h : s.bpm.Sound) :
    s'.bpm.Sound ∧ s'.bpm.pinCountOf = pinsAfter s.bpm.pinCountOf es := by
  induction hrun with
  | nil s => exact ⟨h, rfl⟩
  | cons hstep _ ih =>
    obtain ⟨hs, hpins⟩ := hstep.pins h
    obtain ⟨hs', hpins'⟩ := ih hs
    refine ⟨hs', ?_⟩
    rw [hpins', hpins]
    rfl

end Pool

end DisMiniSql.MiniSql
