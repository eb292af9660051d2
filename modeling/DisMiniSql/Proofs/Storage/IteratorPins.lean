import DisMiniSql.MiniSql.Storage.IteratorPins
import DisMiniSql.Proofs.Buffer.PinCount
import DisMiniSql.Proofs.Storage.TableScan

/-!
# `DisMiniSql.Proofs.Storage.IteratorPins`: the pins of table iterators

`OwnPins` is the ledger of the pins: what a page has is what it had before, and one for each living
iterator that stands on it. `Owned` adds to it the frames that the iterators point to.

A copy takes no pin, an assignment gives none back, and every `++` gives the pin back, also where
the iterator goes on to a tuple (`moveLoop_spec`). So the ledger is right exactly while the program
copies only iterators at `End`, assigns only between iterators on the same page, and advances only
an iterator with no tuple behind it: `iterator_pins_iff`.
-/

set_option autoImplicit false

namespace DisMiniSql.MiniSql.Heap.Pooled

open DisMiniSql.Lib (Steps)
open DisMiniSql.MiniSql.Heap.TableHeap (wideRow)
open BufferPoolManager (HasFrame KeepsFrames Fetched pinCountOf)

variable {h : TableHeap} {b b' : BufferPoolManager} {p q : PageId} {f : FrameId} {rid : RowId}
  {it it' : TableIterator} {fuel : Nat} {base : PageId → Nat}

/-- One for an iterator on a tuple of the page, and zero for any other. -/
def TableIterator.on (it : TableIterator) (p : PageId) : Nat := if it.rid.pageId = p then 1 else 0

/-- The iterator is at `End`, or points to the frame of its page. -/
def TableIterator.Attached (it : TableIterator) (b : BufferPoolManager) : Prop :=
  (it.rid.pageId = INVALID_PAGE_ID ∧ it.page = none) ∨
    (it.rid.pageId ≠ INVALID_PAGE_ID ∧ ∃ f, it.page = some f ∧ b.pageTable it.rid.pageId = some f)

/-- An iterator at the end stands on no page. -/
theorem TableIterator.on_invalid (hend : it.rid.pageId = INVALID_PAGE_ID)
    (hp : p ≠ INVALID_PAGE_ID) : it.on p = 0 :=
  if_neg (fun heq => hp (heq.symm.trans hend))

/-- An iterator stands on the page of its row. -/
theorem TableIterator.on_self (it : TableIterator) : it.on it.rid.pageId = 1 := if_pos rfl

/-- An iterator stays attached in a pool that keeps the frames with pins. -/
theorem TableIterator.Attached.keeps {m : PageId → Nat} (ha : it.Attached b)
    (hk : KeepsFrames m b b')
    (hpin : it.rid.pageId ≠ INVALID_PAGE_ID → 0 < m it.rid.pageId) : it.Attached b' := by
  rcases ha with hend | ⟨hvalid, f, hpage, hf⟩
  · exact .inl hend
  · exact .inr ⟨hvalid, f, hpage, hk _ f (hpin hvalid) hf⟩

/-- Two iterators stand on the same pages exactly when their rows do. -/
theorem TableIterator.on_eq_iff : (∀ p, p ≠ INVALID_PAGE_ID → it.on p = it'.on p) ↔
    it.rid.pageId = it'.rid.pageId := by
  constructor
  · intro hall
    unfold TableIterator.on at hall
    by_contra hne
    by_cases hend : it.rid.pageId = INVALID_PAGE_ID
    · have hthere := hall it'.rid.pageId (fun heq => hne (hend.trans heq.symm))
      rw [if_pos rfl, if_neg hne] at hthere
      exact nomatch hthere
    · have hthere := hall it.rid.pageId hend
      rw [if_pos rfl, if_neg (Ne.symm hne)] at hthere
      exact nomatch hthere
  · intro heq p _
    unfold TableIterator.on
    rw [heq]

/-! ### Calls that leave the pins -/

/-- The pins are those of before, and no frame with a pin is taken. -/
structure Neutral (b b' : BufferPoolManager) : Prop where
  sound : b'.Sound
  pins : ∀ q, b'.pinCountOf q = b.pinCountOf q
  frames : KeepsFrames b.pinCountOf b b'

theorem Neutral.refl (hb : b.Sound) : Neutral b b := ⟨hb, fun _ => rfl, fun _ _ _ hq => hq⟩

/-- Unpinning by frame is unpinning the page in it. -/
theorem unpin_eq (hb : b.Sound) (hp : b.pageTable p = some f) :
    unpin b f = (b.unpinPage p false).2 := by
  unfold unpin
  rw [(hb.kept.mapped p f hp).2]

/-- A page that was fetched and is unpinned. -/
theorem neutral_of_unpin (hf : b.Fetched p f b') (isDirty : Bool) :
    Neutral b (b'.unpinPage p isDirty).2 ∧ (b'.unpinPage p isDirty).2.pageTable p = some f := by
  obtain ⟨hsound, htable, hpins⟩ := hf.sound.unpinPage p isDirty
  refine ⟨⟨hsound, fun q => ?_, fun q g hpin hq => ?_⟩, htable ▸ hf.frame⟩
  · rw [hpins, hf.pins, Nat.add_sub_cancel]
  · rw [htable]
    exact hf.frames q g hpin hq

/-- `GetTuple` gives back the pin that it takes, and the page is there if a frame was. -/
theorem getTuple_spec (ho : h.OwnIds) (hb : b.Sound) (hvalid : rid.pageId ≠ INVALID_PAGE_ID)
    {read : Option (List UInt8) × BufferPoolManager} (hread : getTuple h b rid = some read) :
    Neutral b read.2 ∧ (read.2.HasFrame rid.pageId ↔ b.HasFrame rid.pageId) := by
  unfold getTuple at hread
  rcases hb.fetchPage_cases hvalid with ⟨_, heq⟩ | ⟨f, fetched, hroom, heq, hf⟩
  · rw [heq] at hread
    obtain rfl := Option.some.inj hread
    exact ⟨.refl hb, Iff.rfl⟩
  · rw [heq] at hread
    obtain ⟨page, hpage, rfl⟩ := Option.map_eq_some_iff.mp hread
    rw [(hf.sound.kept.mapped _ f hf.frame).2] at hpage
    dsimp only
    rw [(ho.page _ page hpage).2]
    obtain ⟨hneutral, hthere⟩ := neutral_of_unpin hf false
    refine ⟨hneutral, fun _ => hroom, fun _ => .inl ?_⟩
    rw [hthere]
    exact Option.some_ne_none f

/-! ### A new iterator -/

/-- An iterator was made, with its pin. -/
structure Made (b : BufferPoolManager) (it : TableIterator) (b' : BufferPoolManager) : Prop where
  sound : b'.Sound
  pins : ∀ q, q ≠ INVALID_PAGE_ID → b'.pinCountOf q = b.pinCountOf q + it.on q
  frames : KeepsFrames b.pinCountOf b b'
  attached : it.Attached b'

/-- An iterator at the end made without a pin is made properly. -/
theorem Neutral.made (hn : Neutral b b') (hend : it.rid.pageId = INVALID_PAGE_ID)
    (hpage : it.page = none) : Made b it b' where
  sound := hn.sound
  pins q hq := by rw [hn.pins, TableIterator.on_invalid hend hq, Nat.add_zero]
  frames := hn.frames
  attached := .inl ⟨hend, hpage⟩

/-- The constructor of an iterator on a tuple makes it with its pin if there is a frame. -/
theorem construct_spec (ho : h.OwnIds) (hb : b.Sound) (hvalid : rid.pageId ≠ INVALID_PAGE_ID)
    (hmade : construct h b rid = some (it, b')) : it.rid = rid ∧ ((b.HasFrame rid.pageId ∧
      Made b it b') ∨ (¬ b.HasFrame rid.pageId ∧ Neutral b b')) := by
  unfold construct at hmade
  rw [if_neg hvalid] at hmade
  obtain ⟨read, hread, heq⟩ := Option.map_eq_some_iff.mp hmade
  obtain ⟨hneutral, hroom⟩ := getTuple_spec ho hb hvalid hread
  rcases hneutral.sound.fetchPage_cases hvalid with ⟨hfull, hfetch⟩ | ⟨f, fetched, hhas, hfetch, hf⟩
  · dsimp only at heq
    rw [hfetch] at heq
    obtain ⟨rfl, rfl⟩ := Prod.mk.inj heq
    exact ⟨rfl, .inr ⟨fun hhas => hfull (hroom.mpr hhas), hneutral⟩⟩
  · dsimp only at heq
    rw [hfetch] at heq
    obtain ⟨rfl, rfl⟩ := Prod.mk.inj heq
    refine ⟨rfl, .inl ⟨hroom.mp hhas, hf.sound, fun q _ => ?_, ?_, .inr ⟨hvalid, f, rfl, hf.frame⟩⟩⟩
    · rw [hf.pins, hneutral.pins]
      unfold TableIterator.on
      simp only [eq_comm]
    · exact hneutral.frames.trans (hf.frames.mono (fun q => (hneutral.pins q).ge))

/-- `Begin` makes an iterator with its pin. -/
theorem begin_spec (ho : h.OwnIds) (hb : b.Sound) (hmade : begin h b = some (it, b')) :
    Made b it b' := by
  unfold begin at hmade
  rcases hb.fetchPage_cases ho.first with ⟨_, heq⟩ | ⟨f, fetched, hroom, heq, hf⟩
  · rw [heq] at hmade
    obtain ⟨rfl, rfl⟩ := Prod.mk.inj (Option.some.inj hmade)
    exact (Neutral.refl hb).made rfl rfl
  · rw [heq] at hmade
    obtain ⟨page, hpage, hmade⟩ := Option.bind_eq_some_iff.mp hmade
    rw [(hf.sound.kept.mapped _ f hf.frame).2] at hpage
    obtain ⟨hneutral, hthere⟩ := neutral_of_unpin hf false
    rw [unpin_eq hf.sound hf.frame] at hmade
    cases hfirst : page.getFirstTupleRid with
    | none =>
      rw [hfirst] at hmade
      obtain ⟨rfl, rfl⟩ := Prod.mk.inj (Option.some.inj hmade)
      exact hneutral.made rfl rfl
    | some slotNum =>
      rw [hfirst] at hmade
      dsimp only at hmade
      rw [(ho.page _ page hpage).2] at hmade
      obtain ⟨_, hcases⟩ := construct_spec ho hneutral.sound ho.first hmade
      -- the first page is still in its frame
      have hhas : (fetched.unpinPage h.firstPageId false).2.HasFrame h.firstPageId := by
        refine .inl ?_
        rw [hthere]
        exact Option.some_ne_none f
      obtain ⟨_, hm⟩ := hcases.resolve_right (fun hnot => hnot.1 hhas)
      exact ⟨hm.sound, fun q hq => by rw [hm.pins q hq, hneutral.pins],
        hneutral.frames.trans (hm.frames.mono (fun q => (hneutral.pins q).ge)), hm.attached⟩

/-! ### Advancing -/

/-- No live tuple from the slot `s` of the page `p` on. -/
inductive NoTupleFrom (h : TableHeap) : PageId → Nat → Prop
  | last {p : PageId} {s : Nat} {page : TablePage} : h.pages p = some page →
      page.liveSlots s = [] → page.nextPageId = INVALID_PAGE_ID → NoTupleFrom h p s
  | next {p : PageId} {s : Nat} {page : TablePage} : h.pages p = some page →
      page.liveSlots s = [] → page.nextPageId ≠ INVALID_PAGE_ID → NoTupleFrom h page.nextPageId 0 →
        NoTupleFrom h p s

/-- No row from a slot on: none on this page, and none on those behind it. -/
theorem noTupleFrom_iff {s : Nat} {page : TablePage} (hp : h.pages p = some page) :
    NoTupleFrom h p s ↔ page.liveSlots s = [] ∧
      (page.nextPageId = INVALID_PAGE_ID ∨ NoTupleFrom h page.nextPageId 0) := by
  constructor
  · intro hno
    cases hno with
    | last hpage hslots hnext =>
      obtain rfl := Option.some.inj (hp.symm.trans hpage)
      exact ⟨hslots, .inl hnext⟩
    | next hpage hslots _ hrest =>
      obtain rfl := Option.some.inj (hp.symm.trans hpage)
      exact ⟨hslots, .inr hrest⟩
  · rintro ⟨hslots, hcases⟩
    by_cases hnext : page.nextPageId = INVALID_PAGE_ID
    · exact .last hp hslots hnext
    · exact .next hp hslots hnext (hcases.resolve_left hnext)

/-- What `++` leaves: `m` are the pins without that of the iterator. -/
structure Moved (h : TableHeap) (m : PageId → Nat) (b : BufferPoolManager) (p : PageId) (s : Nat)
    (it : TableIterator) (b' : BufferPoolManager) : Prop where
  sound : b'.Sound
  pins : ∀ q, b'.pinCountOf q = m q
  frames : KeepsFrames m b b'
  ends_iff : it.rid.pageId = INVALID_PAGE_ID ↔ NoTupleFrom h p s
  page_none : it.rid.pageId = INVALID_PAGE_ID → it.page = none

/-- The loop gives the pin back, at `End` and also at a tuple. -/
theorem moveLoop_spec (ho : h.OwnIds) (hb : b.Sound) (hvalid : p ≠ INVALID_PAGE_ID)
    (hp : b.pageTable p = some f) {m : PageId → Nat}
    (hm : ∀ q, b.pinCountOf q = m q + if q = p then 1 else 0) {firstSlot : Bool} {slotNum s : Nat}
    (hs : s = if firstSlot then slotNum else slotNum + 1)
    (hmoved : moveLoop h it fuel b firstSlot f ⟨p, slotNum⟩ = some (it', b')) :
    Moved h m b p s it' b' := by
  induction fuel generalizing b p f firstSlot slotNum s with
  | zero => exact nomatch hmoved
  | succ fuel ih =>
    unfold moveLoop at hmoved
    obtain ⟨page, hpage, hmoved⟩ := Option.bind_eq_some_iff.mp hmoved
    rw [(hb.kept.mapped p f hp).2] at hpage
    have hrid : (if firstSlot then (⟨p, slotNum⟩ : RowId) else ⟨p, slotNum + 1⟩) = ⟨p, s⟩ := by
      rw [hs]
      cases firstSlot with
      | true => rfl
      | false => rfl
    dsimp only at hmoved
    rw [hrid] at hmoved
    dsimp only at hmoved
    -- the pin of the iterator, given back
    have hback : ∀ {b''}, Neutral b b'' → (unpin b'' f).Sound ∧
        (∀ q, (unpin b'' f).pinCountOf q = m q) ∧ KeepsFrames m b (unpin b'' f) := by
      intro b'' hn
      have hpin : 0 < b.pinCountOf p := by
        rw [hm, if_pos rfl]
        exact Nat.succ_pos _
      obtain ⟨hsound, htable, hpins⟩ := hn.sound.unpinPage p false
      rw [unpin_eq hn.sound (hn.frames p f hpin hp)]
      refine ⟨hsound, fun q => by rw [hpins, hn.pins, hm, Nat.add_sub_cancel], fun q g hq hg => ?_⟩
      rw [htable]
      refine hn.frames q g (Nat.lt_of_lt_of_le hq ?_) hg
      rw [hm]
      exact Nat.le_add_right _ _
    by_cases hlt : s < page.getTupleCount
    · rw [if_pos hlt] at hmoved
      have hslots := TablePage.liveSlots_of_lt hlt
      cases hdeleted : TablePage.isDeleted (page.getTupleSize s) with
      | true =>
        rw [hdeleted, if_pos rfl] at hmoved hslots
        have hnext := ih hb hvalid hp hm (s := s + 1) rfl hmoved
        refine { hnext with ends_iff := hnext.ends_iff.trans ?_ }
        rw [noTupleFrom_iff hpage, noTupleFrom_iff hpage, hslots]
      | false =>
        rw [hdeleted, if_neg Bool.false_ne_true] at hmoved hslots
        obtain ⟨read, hread, heq⟩ := Option.map_eq_some_iff.mp hmoved
        obtain ⟨rfl, rfl⟩ := Prod.mk.inj heq
        obtain ⟨hsound, hpins, hframes⟩ := hback (getTuple_spec ho hb hvalid hread).1
        refine ⟨hsound, hpins, hframes, iff_of_false hvalid ?_, fun hend => absurd hend hvalid⟩
        rw [noTupleFrom_iff hpage, hslots]
        exact fun hno => nomatch hno.1
    · rw [if_neg hlt] at hmoved
      have hslots := TablePage.liveSlots_of_le (Nat.le_of_not_lt hlt)
      obtain ⟨hsound, hpins, hframes⟩ := hback (.refl hb)
      by_cases hlast : page.nextPageId = INVALID_PAGE_ID
      · rw [if_pos hlast] at hmoved
        obtain ⟨rfl, rfl⟩ := Prod.mk.inj (Option.some.inj hmoved)
        exact ⟨hsound, hpins, hframes, iff_of_true rfl (.last hpage hslots hlast), fun _ => rfl⟩
      · rw [if_neg hlast] at hmoved
        rcases hsound.fetchPage_cases hlast with ⟨_, heq⟩ | ⟨f', fetched, _, heq, hf⟩
        · rw [heq] at hmoved
          exact nomatch hmoved
        · rw [heq] at hmoved
          have hm' : ∀ q, fetched.pinCountOf q = m q + if q = page.nextPageId then 1 else 0 :=
            fun q => by rw [hf.pins, hpins]
          have hnext := ih hf.sound hlast hf.frame hm' (s := 0) rfl hmoved
          refine ⟨hnext.sound, hnext.pins, ?_, hnext.ends_iff.trans ?_, hnext.page_none⟩
          · exact (hframes.trans (hf.frames.mono (fun q => (hpins q).ge))).trans hnext.frames
          · rw [noTupleFrom_iff hpage, and_iff_right hslots, or_iff_right hlast]

/-! ### The ledger -/

namespace Session

variable {s s' : Session} {i j : Nat} {object : Option TableIterator}

/-- The number of living iterators on tuples of the page. -/
def positionedOn (s : Session) (p : PageId) : Nat :=
  s.objects.countP (fun object => object.any (fun it => it.rid.pageId == p))

/-- What iterators should do with pins, where `base` are those of before: one pin for each living
iterator that stands on a tuple of the page, and so the old pins when all are destroyed. -/
structure OwnPins (base : PageId → Nat) (s : Session) : Prop where
  exactlyOne : ∀ p, p ≠ INVALID_PAGE_ID → s.bpm.pinCountOf p = base p + s.positionedOn p
  destroyed : (∀ i, s.live i = none) → ∀ p, p ≠ INVALID_PAGE_ID → s.bpm.pinCountOf p = base p

/-- The state of a run that is right so far. -/
structure Owned (base : PageId → Nat) (s : Session) : Prop where
  sound : s.bpm.Sound
  pins : ∀ p, p ≠ INVALID_PAGE_ID → s.bpm.pinCountOf p = base p + s.positionedOn p
  attached : ∀ it, some it ∈ s.objects → it.Attached s.bpm

/-- A live iterator is one of the session's objects. -/
theorem mem_of_live (hi : s.live i = some it) : some it ∈ s.objects :=
  List.mem_of_getElem? (Option.join_eq_some_iff.mp hi)

/-- The test of the count is the count of one iterator. -/
theorem any_on (it : TableIterator) (p : PageId) :
    (if (some it).any (fun it => it.rid.pageId == p) then 1 else 0) = it.on p := by
  unfold TableIterator.on
  simp only [Option.any_some, beq_iff_eq]

/-- A new iterator is counted on its page. -/
theorem positionedOn_add (s : Session) (it : TableIterator) (b : BufferPoolManager) (p : PageId) :
    (s.add (it, b)).positionedOn p = s.positionedOn p + it.on p := by
  show List.countP _ (s.objects ++ [some it]) = _
  rw [List.countP_append, List.countP_singleton, any_on]
  rfl

/-- The list of the objects around one that lives, before and after it is replaced. -/
theorem exists_split_of_live (hi : s.live i = some it) (object : Option TableIterator) :
    ∃ before after, s.objects = before ++ some it :: after ∧
      s.objects.set i object = before ++ object :: after := by
  obtain ⟨hlt, hget⟩ := List.getElem?_eq_some_iff.mp (Option.join_eq_some_iff.mp hi)
  obtain ⟨before, after, hsplit, _, hset⟩ : ∃ before after,
      s.objects = before ++ s.objects[i] :: after ∧ before.length = i ∧
        s.objects.set i object = before ++ object :: after := List.exists_of_set hlt
  rw [hget] at hsplit
  exact ⟨before, after, hsplit, hset⟩

/-- The object that is replaced counts no longer, and the new one does. -/
theorem positionedOn_set (hi : s.live i = some it) (object : Option TableIterator)
    (b : BufferPoolManager) (p : PageId) : (s.set i object b).positionedOn p + it.on p =
      s.positionedOn p + object.elim 0 (fun it => it.on p) := by
  obtain ⟨before, after, hsplit, hset⟩ := exists_split_of_live hi object
  show List.countP _ (s.objects.set i object) + _ = List.countP _ s.objects + _
  rw [hset, hsplit, List.countP_append, List.countP_append, List.countP_cons, List.countP_cons,
    any_on]
  cases object with
  | none =>
    rw [Option.any_none, if_neg Bool.false_ne_true, Option.elim_none]
    omega
  | some made =>
    rw [any_on, Option.elim_some]
    omega

/-- A live iterator is counted. -/
theorem on_le_positionedOn (hi : s.live i = some it) (p : PageId) :
    it.on p ≤ s.positionedOn p := by
  have hset := positionedOn_set hi none s.bpm p
  rw [Option.elim_none] at hset
  omega

/-- The iterators own their pins exactly when every valid page has its pins of before and one for
each iterator on it. -/
theorem ownPins_iff : s.OwnPins base ↔
    ∀ p, p ≠ INVALID_PAGE_ID → s.bpm.pinCountOf p = base p + s.positionedOn p := by
  refine ⟨fun hown => hown.exactlyOne, fun hpins => ⟨hpins, fun hnone p hp => ?_⟩⟩
  have hzero : s.positionedOn p = 0 := by
    refine List.countP_eq_zero.mpr (fun object hobject hany => ?_)
    cases object with
    | none => exact nomatch hany
    | some it =>
      obtain ⟨i, hi⟩ := List.getElem?_of_mem hobject
      have hlive : s.live i = some it := Option.join_eq_some_iff.mpr hi
      rw [hnone i] at hlive
      exact nomatch hlive
  rw [hpins p hp, hzero, Nat.add_zero]

/-- Every pin of a page with an iterator on it is counted, so its frame stays. -/
theorem Owned.pin_pos (ho : s.Owned base) (hi : some it ∈ s.objects)
    (hvalid : it.rid.pageId ≠ INVALID_PAGE_ID) : 0 < s.bpm.pinCountOf it.rid.pageId := by
  have hcount : 0 < s.positionedOn it.rid.pageId :=
    List.countP_pos_iff.mpr ⟨some it, hi, beq_self_eq_true _⟩
  rw [ho.pins _ hvalid]
  omega

/-- A new iterator with its pin. -/
theorem Owned.add (ho : s.Owned base) (hm : Made s.bpm it b) : (s.add (it, b)).Owned base := by
  refine ⟨hm.sound, fun p hp => ?_, fun it' hit' => ?_⟩
  · show b.pinCountOf p = _
    rw [hm.pins p hp, ho.pins p hp, positionedOn_add]
    omega
  · rcases List.mem_append.mp hit' with hold | hnew
    · exact (ho.attached it' hold).keeps hm.frames (ho.pin_pos hold)
    · obtain rfl := Option.some.inj (List.mem_singleton.mp hnew)
      exact hm.attached

/-- A new iterator for which no pin was taken is right only at `End`. -/
theorem OwnPins.add_neutral (hown : (s.add (it, b)).OwnPins base) (ho : s.Owned base)
    (hpins : ∀ q, b.pinCountOf q = s.bpm.pinCountOf q) : it.rid.pageId = INVALID_PAGE_ID := by
  by_contra hvalid
  have hafter : b.pinCountOf it.rid.pageId = _ := hown.exactlyOne _ hvalid
  rw [hpins, ho.pins _ hvalid, positionedOn_add, it.on_self] at hafter
  omega

/-- The other objects are those of before, and the one that is replaced is counted beside them. -/
theorem mem_set_cases (hi : s.live i = some it) (hmem : some it' ∈ (s.set i object b).objects) :
    some it' = object ∨ (some it' ∈ s.objects ∧ ∀ p, it.on p + it'.on p ≤ s.positionedOn p) := by
  obtain ⟨before, after, hsplit, hset⟩ := exists_split_of_live hi object
  have hmem : some it' ∈ s.objects.set i object := hmem
  rw [hset, List.mem_append, List.mem_cons] at hmem
  by_cases hnew : some it' = object
  · exact .inl hnew
  have hin : some it' ∈ before ++ after := by
    rcases hmem with hbefore | heq | hafter
    · exact List.mem_append_left after hbefore
    · exact absurd heq hnew
    · exact List.mem_append_right before hafter
  refine .inr ⟨?_, fun p => ?_⟩
  · rw [hsplit]
    rcases List.mem_append.mp hin with hbefore | hafter
    · exact List.mem_append_left _ hbefore
    · exact List.mem_append_right _ (List.mem_cons_of_mem _ hafter)
  · have hother : it'.on p ≤
        (before ++ after).countP (fun object => object.any (fun it => it.rid.pageId == p)) := by
      rw [← any_on]
      split
      · next hany => exact List.countP_pos_iff.mpr ⟨some it', hin, hany⟩
      · exact Nat.zero_le _
    unfold positionedOn
    rw [hsplit, List.countP_append, List.countP_cons, any_on]
    rw [List.countP_append] at hother
    omega

/-- An object is replaced, with the pins that this asks for. -/
theorem Owned.set (ho : s.Owned base) (hi : s.live i = some it) (hsound : b.Sound)
    (hpins : ∀ p, p ≠ INVALID_PAGE_ID →
      b.pinCountOf p + it.on p = s.bpm.pinCountOf p + object.elim 0 (fun it => it.on p))
    (hframes : KeepsFrames (fun q => s.bpm.pinCountOf q - it.on q) s.bpm b)
    (hattached : ∀ it', object = some it' → it'.Attached b) : (s.set i object b).Owned base := by
  refine ⟨hsound, fun p hp => ?_, fun it' hit' => ?_⟩
  · show b.pinCountOf p = _
    have hset := positionedOn_set hi object b p
    have hafter := hpins p hp
    rw [ho.pins p hp] at hafter
    omega
  · rcases mem_set_cases hi hit' with hnew | ⟨hold, hcount⟩
    · exact hattached it' hnew.symm
    · refine (ho.attached it' hold).keeps hframes (fun hvalid => ?_)
      show 0 < s.bpm.pinCountOf it'.rid.pageId - it.on it'.rid.pageId
      have hle := hcount it'.rid.pageId
      rw [it'.on_self] at hle
      rw [ho.pins _ hvalid]
      omega

/-- Without a change of the pool, the new object has to be on the same page. -/
theorem OwnPins.set_same {jt : TableIterator} (hown : (s.set i (some jt) s.bpm).OwnPins base)
    (ho : s.Owned base) (hi : s.live i = some it) : it.rid.pageId = jt.rid.pageId := by
  refine TableIterator.on_eq_iff.mp (fun p hp => ?_)
  have hafter : s.bpm.pinCountOf p = _ := hown.exactlyOne p hp
  have hset := positionedOn_set hi (some jt) s.bpm p
  rw [ho.pins p hp] at hafter
  rw [Option.elim_some] at hset
  omega

/-- The destructor. -/
theorem Owned.destroy (ho : s.Owned base) (hi : s.live i = some it) :
    (s.set i none (destroy s.bpm it)).Owned base := by
  unfold Pooled.destroy
  rcases ho.attached it (mem_of_live hi) with ⟨hend, hpage⟩ | ⟨hvalid, f, hpage, hf⟩
  · rw [hpage]
    refine ho.set hi ho.sound (fun p hp => ?_) (fun _ _ _ hq => hq) (fun _ heq => nomatch heq)
    rw [TableIterator.on_invalid hend hp, Option.elim_none]
  · rw [hpage]
    dsimp only
    rw [unpin_eq ho.sound hf]
    obtain ⟨hsound, htable, hpins⟩ := ho.sound.unpinPage it.rid.pageId false
    refine ho.set hi hsound (fun p hp => ?_) (fun q g _ hq => htable ▸ hq)
      (fun _ heq => nomatch heq)
    have hle := on_le_positionedOn hi p
    rw [hpins, ho.pins p hp, Option.elim_none]
    unfold TableIterator.on at hle ⊢
    simp only [eq_comm] at hle ⊢
    omega

/-- `++` at `End` does nothing, and elsewhere it gives the pin of the iterator back. -/
theorem Owned.moveToNextTuple (ho : s.Owned base) (hown : h.OwnIds) (hi : s.live i = some it)
    (hmoved : moveToNextTuple h fuel s.bpm it = some (it', b)) :
    (it.rid.pageId = INVALID_PAGE_ID ∧ it' = it ∧ b = s.bpm) ∨
      (it.rid.pageId ≠ INVALID_PAGE_ID ∧ (∀ p, it.on p ≤ s.bpm.pinCountOf p) ∧
        Moved h (fun q => s.bpm.pinCountOf q - it.on q) s.bpm it.rid.pageId (it.rid.slotNum + 1)
          it' b) := by
  unfold Pooled.moveToNextTuple at hmoved
  rcases ho.attached it (mem_of_live hi) with ⟨hend, hpage⟩ | ⟨hvalid, f, hpage, hf⟩
  · rw [hpage] at hmoved
    obtain ⟨rfl, rfl⟩ := Prod.mk.inj (Option.some.inj hmoved)
    exact .inl ⟨hend, rfl, rfl⟩
  · rw [hpage] at hmoved
    have hle : ∀ p, it.on p ≤ s.bpm.pinCountOf p := by
      intro p
      unfold TableIterator.on
      split
      · next heq => exact heq ▸ ho.pin_pos (mem_of_live hi) hvalid
      · exact Nat.zero_le _
    refine .inr ⟨hvalid, hle, moveLoop_spec hown ho.sound hvalid hf (fun q => ?_) rfl hmoved⟩
    have hq := hle q
    unfold TableIterator.on at hq ⊢
    simp only [eq_comm] at hq ⊢
    omega

/-! ### Every statement -/

/-- The statement keeps the ledger: a new iterator finds a frame, only an iterator at `End` is
copied, an assignment is between iterators on the same page, and `++` has no tuple to go on to. -/
def Balanced (h : TableHeap) (s : Session) : IteratorOp → Prop
  | .begin => True
  | .endIterator => True
  | .construct rid => rid.pageId = INVALID_PAGE_ID ∨ s.bpm.HasFrame rid.pageId
  | .copy i => ∀ it, s.live i = some it → it.rid.pageId = INVALID_PAGE_ID
  | .assign i j => ∀ it jt, s.live i = some it → s.live j = some jt →
      it.rid.pageId = jt.rid.pageId
  | .increment i => ∀ it, s.live i = some it →
      it.rid.pageId = INVALID_PAGE_ID ∨ NoTupleFrom h it.rid.pageId (it.rid.slotNum + 1)
  | .postIncrement i => ∀ it, s.live i = some it → it.rid.pageId = INVALID_PAGE_ID
  | .destroy _ => True

/-- A new iterator at `End`. -/
theorem Owned.add_end (ho : s.Owned base) (hi : s.live i = some it)
    (hend : it.rid.pageId = INVALID_PAGE_ID) : (s.add (it, s.bpm)).Owned base := by
  have hpage : it.page = none :=
    (ho.attached it (mem_of_live hi)).elim And.right (fun hnot => absurd hend hnot.1)
  exact ho.add ((Neutral.refl ho.sound).made hend hpage)

/-- Constructing an iterator keeps the balance exactly in the balanced case. -/
theorem Owned.construct (ho : s.Owned base) (hown : h.OwnIds) {rid : RowId}
    (hmade : construct h s.bpm rid = some (it, b)) :
    ((s.add (it, b)).OwnPins base → Balanced h s (.construct rid)) ∧
      (Balanced h s (.construct rid) → (s.add (it, b)).Owned base) := by
  by_cases hvalid : rid.pageId = INVALID_PAGE_ID
  · unfold Pooled.construct at hmade
    rw [if_pos hvalid] at hmade
    obtain ⟨rfl, rfl⟩ := Prod.mk.inj (Option.some.inj hmade)
    exact ⟨fun _ => .inl hvalid, fun _ => ho.add ((Neutral.refl ho.sound).made hvalid rfl)⟩
  · obtain ⟨hrid, ⟨hroom, hm⟩ | ⟨hfull, hneutral⟩⟩ := construct_spec hown ho.sound hvalid hmade
    · exact ⟨fun _ => .inr hroom, fun _ => ho.add hm⟩
    · refine ⟨fun hafter => ?_, fun hor => absurd (hor.resolve_left hvalid) hfull⟩
      exact .inl (hrid ▸ hafter.add_neutral ho hneutral.pins)

/-- Assigning an iterator on the same page keeps the balance. -/
theorem Owned.assign (ho : s.Owned base) {jt : TableIterator} (hi : s.live i = some it)
    (hj : s.live j = some jt) (heq : it.rid.pageId = jt.rid.pageId) :
    (s.set i (some jt) s.bpm).Owned base := by
  refine ho.set hi ho.sound (fun p hp => ?_) (fun _ _ _ hq => hq) (fun it' hit' => ?_)
  · rw [TableIterator.on_eq_iff.mpr heq p hp, Option.elim_some]
  · obtain rfl := Option.some.inj hit'
    exact ho.attached jt (mem_of_live hj)

/-- `++i` keeps the ledger exactly if it reaches `End` or was there. -/
theorem Owned.increment (ho : s.Owned base) (hown : h.OwnIds) (hi : s.live i = some it)
    (hmoved : Pooled.moveToNextTuple h fuel s.bpm it = some (it', b)) :
    ((s.set i (some it') b).OwnPins base → it.rid.pageId = INVALID_PAGE_ID ∨
      NoTupleFrom h it.rid.pageId (it.rid.slotNum + 1)) ∧
        (it.rid.pageId = INVALID_PAGE_ID ∨ NoTupleFrom h it.rid.pageId (it.rid.slotNum + 1) →
          (s.set i (some it') b).Owned base) := by
  rcases ho.moveToNextTuple hown hi hmoved with ⟨hend, rfl, rfl⟩ | ⟨hvalid, hle, hm⟩
  · exact ⟨fun _ => .inl hend, fun _ => ho.assign hi hi rfl⟩
  constructor
  · intro hafter
    refine .inr (hm.ends_iff.mp ?_)
    by_contra hgoes
    have hpins : b.pinCountOf it'.rid.pageId = _ := hafter.exactlyOne _ hgoes
    have hset := positionedOn_set hi (some it') b it'.rid.pageId
    have hless := hle it'.rid.pageId
    rw [hm.pins, ho.pins _ hgoes] at hpins
    rw [ho.pins _ hgoes] at hless
    rw [Option.elim_some, it'.on_self] at hset
    omega
  · intro hor
    have hend := hm.ends_iff.mpr (hor.resolve_left hvalid)
    refine ho.set hi hm.sound (fun p hp => ?_) hm.frames (fun other hother => ?_)
    · rw [hm.pins, Option.elim_some, TableIterator.on_invalid hend hp,
        Nat.sub_add_cancel (hle p), Nat.add_zero]
    · obtain rfl := Option.some.inj hother
      exact .inl ⟨hend, hm.page_none hend⟩

/-- `i++` keeps the ledger exactly at `End`: the result is a copy, for which no pin was taken. -/
theorem Owned.postIncrement (ho : s.Owned base) (hown : h.OwnIds) (hi : s.live i = some it)
    (hmoved : Pooled.moveToNextTuple h fuel s.bpm it = some (it', b)) :
    (((s.set i (some it') b).add (it, b)).OwnPins base → it.rid.pageId = INVALID_PAGE_ID) ∧
      (it.rid.pageId = INVALID_PAGE_ID → ((s.set i (some it') b).add (it, b)).Owned base) := by
  rcases ho.moveToNextTuple hown hi hmoved with ⟨hend, rfl, rfl⟩ | ⟨hvalid, hle, hm⟩
  · refine ⟨fun _ => hend, fun _ => ?_⟩
    have hset := ho.assign hi hi rfl
    have hpage := (ho.attached it' (mem_of_live hi)).elim And.right
      (fun hnot => absurd hend hnot.1)
    exact hset.add ((Neutral.refl ho.sound).made hend hpage)
  · refine ⟨fun hafter => ?_, fun hend => absurd hend hvalid⟩
    have hpins : b.pinCountOf it.rid.pageId = _ := hafter.exactlyOne _ hvalid
    have hset := positionedOn_set hi (some it') b it.rid.pageId
    have hless := hle it.rid.pageId
    rw [hm.pins, ho.pins _ hvalid, positionedOn_add] at hpins
    rw [ho.pins _ hvalid] at hless
    rw [Option.elim_some] at hset
    rw [it.on_self] at hpins hset hless
    omega

/-- The statements of a program. -/
def Step (h : TableHeap) (fuel : Nat) (s : Session) (op : IteratorOp) (s' : Session) : Prop :=
  s.step h fuel op = some s'

/-- A statement keeps the ledger exactly if it is balanced. -/
theorem Owned.step (ho : s.Owned base) (hown : h.OwnIds) (op : IteratorOp)
    (hstep : Step h fuel s op s') :
    (s'.OwnPins base → Balanced h s op) ∧ (Balanced h s op → s'.Owned base) := by
  cases op with
  | begin =>
    obtain ⟨⟨it, b⟩, hmade, rfl⟩ := Option.map_eq_some_iff.mp hstep
    exact ⟨fun _ => trivial, fun _ => ho.add (begin_spec hown ho.sound hmade)⟩
  | endIterator =>
    obtain rfl := Option.some.inj hstep
    exact ⟨fun _ => trivial, fun _ => ho.add ((Neutral.refl ho.sound).made rfl rfl)⟩
  | construct rid =>
    obtain ⟨⟨it, b⟩, hmade, rfl⟩ := Option.map_eq_some_iff.mp hstep
    exact ho.construct hown hmade
  | copy i =>
    obtain ⟨it, hi, rfl⟩ := Option.map_eq_some_iff.mp hstep
    constructor
    · intro hafter it' hi'
      obtain rfl := Option.some.inj (hi.symm.trans hi')
      exact hafter.add_neutral ho (fun _ => rfl)
    · exact fun hend => ho.add_end hi (hend it hi)
  | assign i j =>
    obtain ⟨it, hi, hstep⟩ := Option.bind_eq_some_iff.mp hstep
    obtain ⟨jt, hj, rfl⟩ := Option.map_eq_some_iff.mp hstep
    constructor
    · intro hafter it' jt' hi' hj'
      obtain rfl := Option.some.inj (hi.symm.trans hi')
      obtain rfl := Option.some.inj (hj.symm.trans hj')
      exact hafter.set_same ho hi
    · exact fun hsame => ho.assign hi hj (hsame it jt hi hj)
  | increment i =>
    obtain ⟨it, hi, hstep⟩ := Option.bind_eq_some_iff.mp hstep
    obtain ⟨⟨it', b⟩, hmoved, rfl⟩ := Option.map_eq_some_iff.mp hstep
    obtain ⟨hbad, hgood⟩ := ho.increment hown hi hmoved
    constructor
    · intro hafter other hi'
      obtain rfl := Option.some.inj (hi.symm.trans hi')
      exact hbad hafter
    · exact fun hends => hgood (hends it hi)
  | postIncrement i =>
    obtain ⟨it, hi, hstep⟩ := Option.bind_eq_some_iff.mp hstep
    obtain ⟨⟨it', b⟩, hmoved, rfl⟩ := Option.map_eq_some_iff.mp hstep
    obtain ⟨hbad, hgood⟩ := ho.postIncrement hown hi hmoved
    constructor
    · intro hafter other hi'
      obtain rfl := Option.some.inj (hi.symm.trans hi')
      exact hbad hafter
    · exact fun hend => hgood (hend it hi)
  | destroy i =>
    obtain ⟨it, hi, rfl⟩ := Option.map_eq_some_iff.mp hstep
    exact ⟨fun _ => trivial, fun _ => ho.destroy hi⟩

/-- A program keeps the ledger in every state exactly if its statements are balanced. The heap is
that of a session, and other holders may have pins. -/
theorem iterator_pins_iff (allocator : Allocator) (ids : List PageId) (calls : List HeapCall)
    (hb : b.Sound) {ops : List IteratorOp} {t : Session}
    (hrun : Steps (Step (calls.foldl TableHeap.next (TableHeap.create allocator ids)) fuel) ⟨b, []⟩
      ops t) :
    (∀ n u, Steps (Step (calls.foldl TableHeap.next (TableHeap.create allocator ids)) fuel) ⟨b, []⟩
      (ops.take n) u → u.OwnPins b.pinCountOf) ↔
      Steps (fun s op s' =>
        Balanced (calls.foldl TableHeap.next (TableHeap.create allocator ids)) s op ∧
          Step (calls.foldl TableHeap.next (TableHeap.create allocator ids)) fuel s op s') ⟨b, []⟩
        ops t := by
  have hown := TableHeap.ownIds_session allocator ids calls
  generalize calls.foldl TableHeap.next (TableHeap.create allocator ids) = h at hrun hown ⊢
  have hdet : ∀ {s op t u}, Step h fuel s op t → Step h fuel s op u → t = u :=
    fun ht hu => Option.some.inj (ht.symm.trans hu)
  refine Steps.iff_forall_take_of (R := Step h fuel) (J := Owned b.pinCountOf) hdet
    (fun s ho => ownPins_iff.mpr ho.pins)
    (fun s op s' ho hbal hstep => (ho.step hown op hstep).2 hbal)
    (fun s op s' ho hstep hafter => (ho.step hown op hstep).1 hafter) hrun ?_
  exact ⟨hb, fun p _ => rfl, fun it hit => nomatch hit⟩

/-- A scan of one row, with a second iterator that is assigned and advanced at `End`. -/
theorem iterator_pins_iff_scan : ∃ t,
    (∀ n u, Steps (Step ([HeapCall.insertTuple wideRow].foldl TableHeap.next
        (TableHeap.create .increasing [])) 3) ⟨.new 2 .new, []⟩
      ([.begin, .begin, .assign 0 1, .increment 0, .postIncrement 0, .destroy 1].take n) u →
        u.OwnPins (BufferPoolManager.new 2 .new).pinCountOf) ↔
    Steps (fun s op s' => Balanced ([HeapCall.insertTuple wideRow].foldl TableHeap.next
        (TableHeap.create .increasing [])) s op ∧
      Step ([HeapCall.insertTuple wideRow].foldl TableHeap.next
        (TableHeap.create .increasing [])) 3 s op s') ⟨.new 2 .new, []⟩
      [.begin, .begin, .assign 0 1, .increment 0, .postIncrement 0, .destroy 1] t := by
  have hends : ([IteratorOp.begin, .begin, .assign 0 1, .increment 0, .postIncrement 0,
      .destroy 1].foldlM (step ([HeapCall.insertTuple wideRow].foldl TableHeap.next
        (TableHeap.create .increasing [])) 3) ⟨.new 2 .new, []⟩).isSome = true := by decide +kernel
  obtain ⟨t, ht⟩ := Option.isSome_iff_exists.mp hends
  exact ⟨t, iterator_pins_iff .increasing [] [.insertTuple wideRow]
    (BufferPoolManager.sound_new 2 .new) (Steps.of_foldlM ht)⟩

/-- Another holder has a pin on the first page. An iterator and its copy are destroyed, and the pin
of the holder is gone. -/
theorem copy_releases_other_pin :
    ¬ ∀ (allocator : Allocator) (ids : List PageId) (calls : List HeapCall)
      (b : BufferPoolManager), b.Sound → ∀ (fuel : Nat) (ops : List IteratorOp) (t : Session),
        Steps (Step (calls.foldl TableHeap.next (TableHeap.create allocator ids)) fuel) ⟨b, []⟩
          ops t → t.OwnPins b.pinCountOf := by
  intro hall
  have hsound : ((BufferPoolManager.new 2 .new).fetchPage 0).2.Sound :=
    (BufferPoolManager.sound_new 2 .new).fetchPage (by decide)
  have hrun : (([IteratorOp.begin, .copy 0, .destroy 0, .destroy 1].foldlM
      (step ([HeapCall.insertTuple wideRow].foldl TableHeap.next (TableHeap.create .increasing []))
        3) ⟨((BufferPoolManager.new 2 .new).fetchPage 0).2, []⟩).map
          (fun t => (t.bpm.pinCountOf 0, t.positionedOn 0))) = some (0, 0) := by decide +kernel
  obtain ⟨t, ht, hpins⟩ := Option.map_eq_some_iff.mp hrun
  obtain ⟨hpin, hcount⟩ := Prod.mk.inj hpins
  have hexact := (hall .increasing [] [.insertTuple wideRow] _ hsound 3 _ t
    (Steps.of_foldlM ht)).exactlyOne 0 (by decide)
  have hbase : ((BufferPoolManager.new 2 .new).fetchPage 0).2.pinCountOf 0 = 1 := by decide +kernel
  rw [hpin, hcount, hbase] at hexact
  exact nomatch hexact

end Session

end DisMiniSql.MiniSql.Heap.Pooled
