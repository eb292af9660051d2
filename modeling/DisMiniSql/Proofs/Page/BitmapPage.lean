import Mathlib.Data.Finset.Card
import Mathlib.Data.Finset.Range
import DisMiniSql.MiniSql.Page.BitmapPage

/-!
# `DisMiniSql.Proofs.Page.BitmapPage`: the bitmap allocator

`allocated` is the set of the offsets whose bit is set. `Sized.Sound` is the invariant: the counter
is the number of these offsets, and the hint is a free offset unless the page is full. It is what
makes the search loop end (`seekFree_of_free`), and both operations keep it
(`Sound.allocatePage`, `Sound.deAllocatePage`).

`bitmap_allocator_correct` is the result for every sequence of calls on a page of zeros, of any
size: the calls return, the offsets with a set bit are those that the answers say are allocated, and
the next call of each kind answers as an allocator should (`Sized.Correct`).

The bitmap of the disk manager is the one for pages of `PAGE_SIZE` bytes, where the search loop ends
(`allocatePage_eq`). A consistent bitmap counts its allocated pages, and its hint is a free page as
long as there is one. Both operations keep this: they add one page and remove one page.
-/

set_option autoImplicit false

namespace DisMiniSql.MiniSql.Disk

namespace BitmapPage

variable {b : BitmapPage} {x y : Nat}

/-- Setting a bit changes that bit alone. -/
theorem get_set : (b.set x).get y = (b.get y || decide (x = y)) := by
  unfold get set
  dsimp only
  by_cases hbyte : y / 8 = x / 8
  · have hbit : decide (x = y) = decide (x % 8 = y % 8) :=
      decide_eq_decide.mpr ⟨fun heq => heq ▸ rfl, fun heq => by omega⟩
    have hlt : y % 8 < 8 := Nat.mod_lt y (by omega)
    rw [hbyte, Function.update_self, hbit, UInt8.toNat_ofNat', Nat.testBit_mod_two_pow,
      decide_eq_true hlt, Bool.true_and, Nat.testBit_or, Nat.one_shiftLeft, Nat.testBit_two_pow]
  · have hne : x ≠ y := fun heq => hbyte (heq ▸ rfl)
    rw [Function.update_of_ne hbyte, decide_eq_false hne, Bool.or_false]

/-- Clearing a bit changes that bit alone: within its byte by the mask, in the other bytes not at
all. -/
theorem get_reset : (b.reset x).get y = (b.get y && !decide (x = y)) := by
  unfold get reset
  dsimp only
  -- only the bits of the same byte are touched
  by_cases hbyte : y / 8 = x / 8
  · have hbit : decide (x = y) = decide (x % 8 = y % 8) :=
      decide_eq_decide.mpr ⟨fun heq => heq ▸ rfl, fun heq => by omega⟩
    have hlt : y % 8 < 8 := Nat.mod_lt y (by omega)
    have hall : (255 : Nat).testBit (y % 8) = true := by
      rw [show (255 : Nat) = 2 ^ 8 - 1 from rfl, Nat.testBit_two_pow_sub_one]
      exact decide_eq_true hlt
    rw [hbyte, Function.update_self, hbit, UInt8.toNat_ofNat', Nat.testBit_mod_two_pow,
      decide_eq_true hlt, Bool.true_and, Nat.testBit_and, Nat.testBit_xor, hall,
      Nat.one_shiftLeft, Nat.testBit_two_pow, Bool.true_xor]
  · have hne : x ≠ y := fun heq => hbyte (heq ▸ rfl)
    rw [Function.update_of_ne hbyte, decide_eq_false hne, Bool.not_false, Bool.and_true]

theorem get_empty : BitmapPage.empty.get x = false := Nat.zero_testBit (x % 8)

namespace Sized

variable {pageSize : Nat}

variable (pageSize) in
/-- The offsets whose bit is set. -/
def allocated (b : BitmapPage) : Finset Nat :=
  (Finset.range (MAX_PAGES pageSize)).filter fun x => b.get x = true

/-- The allocated pages are the set bits within the bounds of the page. -/
theorem mem_allocated : x ∈ allocated pageSize b ↔ x < MAX_PAGES pageSize ∧ b.get x = true := by
  simp [allocated]

/-- Setting a bit adds that page. -/
theorem allocated_set (hx : x < MAX_PAGES pageSize) :
    allocated pageSize (b.set x) = insert x (allocated pageSize b) := by
  ext y
  simp only [Finset.mem_insert, mem_allocated, get_set, Bool.or_eq_true, decide_eq_true_eq]
  constructor
  · rintro ⟨hlt, hget | rfl⟩
    · exact .inr ⟨hlt, hget⟩
    · exact .inl rfl
  · rintro (rfl | ⟨hlt, hget⟩)
    · exact ⟨hx, .inr rfl⟩
    · exact ⟨hlt, .inl hget⟩

/-- Clearing a bit takes that page out. -/
theorem allocated_reset : allocated pageSize (b.reset x) = (allocated pageSize b).erase x := by
  ext y
  simp only [Finset.mem_erase, mem_allocated, get_reset, Bool.and_eq_true, Bool.not_eq_true',
    decide_eq_false_iff_not]
  exact ⟨fun h => ⟨fun heq => h.2.2 heq.symm, h.1, h.2.1⟩,
    fun h => ⟨h.2.1, h.2.2, fun heq => h.1 heq.symm⟩⟩

/-- `IsPageFree` answers by the bit, and no for a page outside the bounds. -/
theorem isPageFree_iff :
    isPageFree pageSize b x = true ↔ x < MAX_PAGES pageSize ∧ x ∉ allocated pageSize b := by
  unfold isPageFree
  rw [mem_allocated]
  by_cases hx : MAX_PAGES pageSize ≤ x
  · simp [hx]
  · simp [hx, Nat.lt_of_not_le hx]

/-- At most `MAX_PAGES` pages are ever allocated. -/
theorem card_allocated_le (b : BitmapPage) : (allocated pageSize b).card ≤ MAX_PAGES pageSize :=
  (Finset.card_filter_le _ _).trans_eq (Finset.card_range _)

/-- Nothing is allocated in the zero page. -/
theorem allocated_empty : allocated pageSize BitmapPage.empty = ∅ := by
  ext x
  simp [mem_allocated, get_empty]

/-- An offset is free where fewer than all of them are allocated. -/
theorem exists_free (h : (allocated pageSize b).card < MAX_PAGES pageSize) :
    ∃ x, isPageFree pageSize b x = true := by
  by_contra hnone
  have hall : Finset.range (MAX_PAGES pageSize) ⊆ allocated pageSize b := by
    intro x hx
    by_contra hout
    exact hnone ⟨x, isPageFree_iff.mpr ⟨Finset.mem_range.mp hx, hout⟩⟩
  have hle := Finset.card_le_card hall
  rw [Finset.card_range] at hle
  omega

variable (pageSize) in
/-- The counter is right, and the hint is a free offset if there is one. -/
structure Sound (b : BitmapPage) : Prop where
  count : b.pageAllocated = (allocated pageSize b).card
  hint : b.pageAllocated ≠ MAX_PAGES pageSize → isPageFree pageSize b b.nextFreePage = true

/-- The zero page starts the induction over the calls. -/
theorem sound_empty : Sound pageSize BitmapPage.empty where
  count := by rw [allocated_empty]; rfl
  hint hne := by
    have hpos : 0 < MAX_PAGES pageSize := Nat.pos_of_ne_zero (Ne.symm hne)
    exact isPageFree_iff.mpr ⟨hpos, by simp [allocated_empty]⟩

/-! ### The search loop -/

/-- With a free offset less than `fuel` steps ahead, the loop ends on a free offset and has changed
nothing but the hint. Induction on the steps that are left: the free offset comes one step nearer,
also where the hint wraps around. -/
theorem seekFree_of_free {fuel d : Nat} (hfree : isPageFree pageSize b x = true)
    (hnext : b.nextFreePage < MAX_PAGES pageSize) (hd : d < fuel)
    (hx : x = b.nextFreePage + d ∨ x + MAX_PAGES pageSize = b.nextFreePage + d) :
    ∃ k, seekFree pageSize fuel b = some { b with nextFreePage := k } ∧
      isPageFree pageSize b k = true := by
  induction fuel generalizing b d with
  | zero => omega
  | succ fuel ih =>
    unfold seekFree
    by_cases hhere : isPageFree pageSize b b.nextFreePage = true
    · exact ⟨b.nextFreePage, if_pos hhere, hhere⟩
    · rw [if_neg hhere]
      dsimp only
      have hne : x ≠ b.nextFreePage := fun heq => hhere (heq ▸ hfree)
      have hlt := (isPageFree_iff.mp hfree).1
      by_cases hwrap : MAX_PAGES pageSize ≤ b.nextFreePage + 1
      · -- the hint was the last offset and goes to the first one
        have heq : b.nextFreePage + 1 = MAX_PAGES pageSize := by omega
        rw [if_pos hwrap, heq, Nat.mod_self]
        have hpos : 0 < MAX_PAGES pageSize := Nat.zero_lt_of_lt hnext
        exact ih (b := { b with nextFreePage := 0 }) (d := d - 1) hfree hpos (by omega)
          (show x = 0 + (d - 1) ∨ x + MAX_PAGES pageSize = 0 + (d - 1) by omega)
      · rw [if_neg hwrap]
        exact ih (b := { b with nextFreePage := b.nextFreePage + 1 }) (d := d - 1) hfree
          (Nat.lt_of_not_le hwrap) (by omega)
          (show x = b.nextFreePage + 1 + (d - 1) ∨
            x + MAX_PAGES pageSize = b.nextFreePage + 1 + (d - 1) by omega)

/-- The loop ends where an offset is free. -/
theorem seekFree_ends (hroom : (allocated pageSize b).card < MAX_PAGES pageSize)
    (hnext : b.nextFreePage < MAX_PAGES pageSize) :
    ∃ k, seekFree pageSize (MAX_PAGES pageSize) b = some { b with nextFreePage := k } ∧
      isPageFree pageSize b k = true := by
  obtain ⟨x, hx⟩ := exists_free hroom
  have hxlt := (isPageFree_iff.mp hx).1
  by_cases hahead : b.nextFreePage ≤ x
  · exact seekFree_of_free (d := x - b.nextFreePage) hx hnext (by omega) (.inl (by omega))
  · exact seekFree_of_free (d := x + MAX_PAGES pageSize - b.nextFreePage) hx hnext (by omega)
      (.inr (by omega))

/-! ### The operations -/

/-- A full page refuses. -/
theorem Sound.allocatePage_full (h : Sound pageSize b)
    (hfull : (allocated pageSize b).card = MAX_PAGES pageSize) :
    Sized.allocatePage pageSize b = some (none, b) := by
  have hcount := h.count
  unfold Sized.allocatePage
  rw [if_pos (by omega)]

/-- The page in `AllocatePage` before the search: the counter is up, and the bit of the hint set. -/
def taken (b : BitmapPage) : BitmapPage :=
  { b with pageAllocated := b.pageAllocated + 1 }.set b.nextFreePage

/-- `AllocatePage` on a page with room: it hands out `next_free_page_` and looks for the next free
bit, except when the last page was just taken. -/
theorem allocatePage_of_room (hroom : b.pageAllocated < MAX_PAGES pageSize) :
    Sized.allocatePage pageSize b =
      if b.pageAllocated + 1 = MAX_PAGES pageSize then
        some (some b.nextFreePage, { taken b with nextFreePage := 0 })
      else
        match seekFree pageSize (MAX_PAGES pageSize) (taken b) with
        | none => none
        | some b' => some (some b.nextFreePage, b') := by
  unfold Sized.allocatePage
  rw [if_neg (by omega)]
  rfl

/-- A page with room gives out an offset that was free, and sets its bit. -/
theorem Sound.allocatePage (h : Sound pageSize b)
    (hroom : (allocated pageSize b).card < MAX_PAGES pageSize) :
    ∃ x b', Sized.allocatePage pageSize b = some (some x, b') ∧ x < MAX_PAGES pageSize ∧
      x ∉ allocated pageSize b ∧ Sound pageSize b' ∧ b'.bytes = (b.set x).bytes := by
  have hcount := h.count
  obtain ⟨hlt, hfree⟩ := isPageFree_iff.mp (h.hint (by omega))
  have hcard : (allocated pageSize (taken b)).card = b.pageAllocated + 1 := by
    have hset : allocated pageSize (taken b) = insert b.nextFreePage (allocated pageSize b) :=
      allocated_set (b := { b with pageAllocated := b.pageAllocated + 1 }) hlt
    rw [hset, Finset.card_insert_of_notMem hfree, hcount]
  rw [allocatePage_of_room (by omega)]
  by_cases hfull : b.pageAllocated + 1 = MAX_PAGES pageSize
  · exact ⟨b.nextFreePage, { taken b with nextFreePage := 0 }, if_pos hfull, hlt, hfree,
      ⟨hcard.symm, fun hne => absurd hfull hne⟩, rfl⟩
  · -- the loop runs on the page with the new bit
    have hleft : (allocated pageSize (taken b)).card < MAX_PAGES pageSize := by omega
    obtain ⟨k, hseek, hk⟩ := seekFree_ends hleft hlt
    refine ⟨b.nextFreePage, { taken b with nextFreePage := k }, ?_, hlt, hfree,
      ⟨hcard.symm, fun _ => hk⟩, rfl⟩
    rw [if_neg hfull, hseek]

/-- An offset that is not allocated cannot be freed, and the page stays. -/
theorem deAllocatePage_of_not_mem (hx : x ∉ allocated pageSize b) :
    Sized.deAllocatePage pageSize b x = (false, b) := by
  unfold Sized.deAllocatePage
  by_cases hle : MAX_PAGES pageSize ≤ x
  · rw [if_pos (.inl hle)]
  · rw [if_pos (.inr (isPageFree_iff.mpr ⟨Nat.lt_of_not_le hle, hx⟩))]

/-- An allocated offset can be freed, and its bit goes. -/
theorem Sound.deAllocatePage (h : Sound pageSize b) (hx : x ∈ allocated pageSize b) :
    ∃ b', Sized.deAllocatePage pageSize b x = (true, b') ∧ Sound pageSize b' ∧
      b'.bytes = (b.reset x).bytes := by
  have hcount := h.count
  have hlt := (mem_allocated.mp hx).1
  have hcond : ¬ (MAX_PAGES pageSize ≤ x ∨ isPageFree pageSize b x = true) := by
    simp [isPageFree_iff, hx, Nat.not_le_of_lt hlt]
  have hreset : allocated pageSize (b.reset x) = (allocated pageSize b).erase x := allocated_reset
  have hcard : (allocated pageSize (b.reset x)).card = b.pageAllocated - 1 := by
    rw [hreset, Finset.card_erase_of_mem hx, hcount]
  unfold Sized.deAllocatePage
  rw [if_neg hcond]
  dsimp only
  by_cases hfull : b.pageAllocated = MAX_PAGES pageSize
  · -- the page was full, and the hint is the offset that was freed
    have hpages : (b.reset x).pageAllocated = MAX_PAGES pageSize := hfull
    rw [if_pos hpages]
    refine ⟨_, rfl, ⟨hcard.symm, fun _ => ?_⟩, rfl⟩
    have hgone : x ∉ allocated pageSize (b.reset x) := by simp [hreset]
    exact isPageFree_iff.mpr ⟨hlt, hgone⟩
  · have hpages : ¬ (b.reset x).pageAllocated = MAX_PAGES pageSize := hfull
    rw [if_neg hpages]
    refine ⟨_, rfl, ⟨hcard.symm, fun _ => ?_⟩, rfl⟩
    -- the hint was free, and no bit was set
    obtain ⟨hnlt, hnfree⟩ := isPageFree_iff.mp (h.hint hfull)
    have hgone : b.nextFreePage ∉ allocated pageSize (b.reset x) := by simp [hreset, hnfree]
    exact isPageFree_iff.mpr ⟨hnlt, hgone⟩

/-! ### Sequences of calls -/

/-- Two pages with the same bytes have the same bits. -/
theorem allocated_congr {b' : BitmapPage} (h : b'.bytes = b.bytes) :
    allocated pageSize b' = allocated pageSize b := by
  unfold allocated BitmapPage.get
  rw [h]

/-- A bit depends on the bytes alone, not on the two counters. -/
theorem get_congr {b' : BitmapPage} (h : b'.bytes = b.bytes) : b'.get x = b.get x := by
  unfold BitmapPage.get
  rw [h]

variable (pageSize) in
/-- What a bitmap page owes when the offsets of `held` are allocated. -/
structure Correct (b : BitmapPage) (held : Finset Nat) : Prop where
  /-- The counter is the number of set bits. -/
  count : b.pageAllocated = ((Finset.range (MAX_PAGES pageSize)).filter fun x => b.get x).card
  /-- The set bits are those of the allocated offsets. -/
  bits : ∀ x, x < MAX_PAGES pageSize → (b.get x = true ↔ x ∈ held)
  inside : ∀ x ∈ held, x < MAX_PAGES pageSize
  /-- The hint is a free offset unless the page is full. -/
  hint : held.card < MAX_PAGES pageSize →
    b.nextFreePage < MAX_PAGES pageSize ∧ b.nextFreePage ∉ held
  /-- `IsPageFree` reports the offsets of the page that are not allocated. -/
  free : ∀ x, isPageFree pageSize b x = true ↔ x < MAX_PAGES pageSize ∧ x ∉ held
  /-- `AllocatePage` fails on a full page, which it leaves alone. -/
  full : held.card = MAX_PAGES pageSize → Sized.allocatePage pageSize b = some (none, b)
  /-- Otherwise it returns an offset that was free, and sets its bit and no other. -/
  room : held.card < MAX_PAGES pageSize →
    ∃ x b', Sized.allocatePage pageSize b = some (some x, b') ∧
    x < MAX_PAGES pageSize ∧ x ∉ held ∧ ∀ y, b'.get y = (b.get y || decide (x = y))
  /-- `DeAllocatePage` of an allocated offset clears its bit and no other. -/
  freed : ∀ x ∈ held, ∃ b', Sized.deAllocatePage pageSize b x = (true, b') ∧
    ∀ y, b'.get y = (b.get y && !decide (x = y))
  /-- Of any other offset it fails and leaves the page alone. -/
  refused : ∀ x, x ∉ held → Sized.deAllocatePage pageSize b x = (false, b)

/-- The invariant says all of it. -/
theorem Sound.correct (h : Sound pageSize b) : Correct pageSize b (allocated pageSize b) where
  count := h.count
  bits x hx := by simp [mem_allocated, hx]
  inside x hx := (mem_allocated.mp hx).1
  hint hroom := by
    have hcount := h.count
    exact isPageFree_iff.mp (h.hint (by omega))
  free _ := isPageFree_iff
  full := h.allocatePage_full
  room hroom := by
    obtain ⟨x, b', heq, hlt, hfree, _, hbytes⟩ := h.allocatePage hroom
    exact ⟨x, b', heq, hlt, hfree, fun y => by rw [get_congr hbytes, get_set]⟩
  freed x hx := by
    obtain ⟨b', heq, _, hbytes⟩ := h.deAllocatePage hx
    exact ⟨b', heq, fun y => by rw [get_congr hbytes, get_reset]⟩
  refused _ := deAllocatePage_of_not_mem

/-- A call returns, and the allocated offsets are again those with a set bit. -/
theorem Sound.step {s : Session} (h : Sound pageSize s.page)
    (hheld : s.held = allocated pageSize s.page) (call : Call) :
    ∃ s', s.step pageSize call = some s' ∧ Sound pageSize s'.page ∧
      s'.held = allocated pageSize s'.page := by
  cases call with
  | allocatePage =>
    unfold Session.step
    by_cases hfull : (allocated pageSize s.page).card = MAX_PAGES pageSize
    · rw [h.allocatePage_full hfull]
      exact ⟨_, rfl, h, hheld⟩
    · have hle : (allocated pageSize s.page).card ≤ MAX_PAGES pageSize := card_allocated_le s.page
      obtain ⟨x, b', heq, hlt, _, hsound, hbytes⟩ := h.allocatePage (by omega)
      rw [heq]
      refine ⟨_, rfl, hsound, ?_⟩
      show insert x s.held = allocated pageSize b'
      rw [allocated_congr hbytes, allocated_set hlt, hheld]
  | deAllocatePage x =>
    unfold Session.step
    by_cases hx : x ∈ allocated pageSize s.page
    · obtain ⟨b', heq, hsound, hbytes⟩ := h.deAllocatePage hx
      simp only [heq]
      refine ⟨_, rfl, hsound, ?_⟩
      show s.held.erase x = allocated pageSize b'
      rw [allocated_congr hbytes, allocated_reset, hheld]
    · simp only [deAllocatePage_of_not_mem hx]
      exact ⟨_, rfl, h, hheld⟩

/-- The calls return, and keep the invariant. -/
theorem Sound.run {s : Session} (h : Sound pageSize s.page)
    (hheld : s.held = allocated pageSize s.page) (calls : List Call) :
    ∃ s', calls.foldlM (fun s call => s.step pageSize call) s = some s' ∧ Sound pageSize s'.page ∧
      s'.held = allocated pageSize s'.page := by
  induction calls generalizing s with
  | nil => exact ⟨s, rfl, h, hheld⟩
  | cons call calls ih =>
    obtain ⟨s₁, hstep, hsound, hheld₁⟩ := h.step hheld call
    rw [List.foldlM_cons, hstep]
    exact ih hsound hheld₁

/-- For every page size and every sequence of `AllocatePage` and `DeAllocatePage` with any offsets,
on a page of zeros: every call returns, and the page is correct for the offsets that the answers
have given out and not taken back. -/
theorem bitmap_allocator_correct (pageSize : Nat) (calls : List Call) :
    ∃ s : Session, calls.foldlM (fun s call => s.step pageSize call) {} = some s ∧
      Correct pageSize s.page s.held := by
  have hempty : Sound pageSize BitmapPage.empty := sound_empty
  obtain ⟨s, hrun, hsound, hheld⟩ := hempty.run (s := {}) allocated_empty.symm calls
  exact ⟨s, hrun, hheld ▸ hsound.correct⟩

end Sized

end BitmapPage

/-! ### The bitmap of the disk manager -/

namespace BitmapPage

variable {b : BitmapPage} {x y : Nat}

/-- The pages whose bit is set. -/
def allocated (b : BitmapPage) : Finset Nat :=
  (Finset.range MAX_PAGES).filter (fun x => b.get x = true)

/-- The allocated pages at the size the program uses. -/
theorem mem_allocated : x ∈ b.allocated ↔ x < MAX_PAGES ∧ b.get x = true :=
  @Sized.mem_allocated b x PAGE_SIZE

/-- `IsPageFree` at the size the program uses. -/
theorem isPageFree_iff : b.isPageFree x = true ↔ x < MAX_PAGES ∧ x ∉ b.allocated :=
  @Sized.isPageFree_iff b x PAGE_SIZE

/-- The bound at the size the program uses. -/
theorem card_allocated_le (b : BitmapPage) : b.allocated.card ≤ MAX_PAGES :=
  @Sized.card_allocated_le PAGE_SIZE b

/-- The zero page at the size the program uses. -/
theorem allocated_empty : BitmapPage.empty.allocated = ∅ := @Sized.allocated_empty PAGE_SIZE

/-- The counter is right, and the hint is a free page if there is one. -/
structure Consistent (b : BitmapPage) : Prop where
  count : b.pageAllocated = b.allocated.card
  hint : b.pageAllocated ≠ MAX_PAGES → b.isPageFree b.nextFreePage = true

/-- The invariant of any size gives the one of `PAGE_SIZE`. -/
theorem consistent_of_sound (h : Sized.Sound PAGE_SIZE b) : b.Consistent := ⟨h.count, h.hint⟩

/-- And conversely, so the general results apply to the program's page. -/
theorem Consistent.sound (h : b.Consistent) : Sized.Sound PAGE_SIZE b := ⟨h.count, h.hint⟩

/-- The zero page of the disk manager is consistent. -/
theorem consistent_empty : BitmapPage.empty.Consistent := consistent_of_sound Sized.sound_empty

/-! ### The operations -/

/-- The loop of the instance, where it ends. -/
theorem seekFree_eq {fuel : Nat} {b' : BitmapPage} (h : Sized.seekFree PAGE_SIZE fuel b = some b') :
    b.seekFree fuel = b' := by
  induction fuel generalizing b with
  | zero => cases h
  | succ fuel ih =>
    unfold Sized.seekFree at h
    unfold seekFree
    by_cases hhere : b.isPageFree b.nextFreePage = true
    · rw [if_pos hhere]
      exact Option.some.inj ((if_pos hhere).symm.trans h)
    · rw [if_neg hhere]
      exact ih ((if_neg hhere).symm.trans h)

/-- A call that returns. -/
theorem allocatePage_eq {r : Option Nat × BitmapPage}
    (h : Sized.allocatePage PAGE_SIZE b = some r) :
    b.allocatePage = r := by
  have hmax : Sized.MAX_PAGES PAGE_SIZE = MAX_PAGES := rfl
  unfold Sized.allocatePage at h
  unfold BitmapPage.allocatePage
  rw [hmax] at h
  by_cases hfull : MAX_PAGES < b.pageAllocated + 1
  · rw [if_pos hfull] at h ⊢
    exact Option.some.inj h
  · rw [if_neg hfull] at h ⊢
    dsimp only at h ⊢
    split at h
    · next hlast => rw [if_pos hlast, Option.some.inj h]
    · next hlast =>
      rw [if_neg hlast]
      split at h
      · cases h
      · next hseek => rw [← Option.some.inj h, ← seekFree_eq hseek]

/-- A bitmap with room gives out a page that was free. -/
theorem Consistent.allocatePage (h : b.Consistent) (hroom : b.allocated.card < MAX_PAGES) :
    ∃ x b', b.allocatePage = (some x, b') ∧ x < MAX_PAGES ∧ x ∉ b.allocated ∧ b'.Consistent ∧
      b'.allocated = insert x b.allocated := by
  obtain ⟨x, b', heq, hlt, hfree, hsound, hbytes⟩ := h.sound.allocatePage hroom
  refine ⟨x, b', allocatePage_eq heq, hlt, hfree, consistent_of_sound hsound, ?_⟩
  exact (Sized.allocated_congr hbytes).trans (Sized.allocated_set hlt)

/-- An allocated page can be freed. -/
theorem Consistent.deAllocatePage (h : b.Consistent) (hx : x ∈ b.allocated) :
    ∃ b', b.deAllocatePage x = (true, b') ∧ b'.Consistent ∧ b'.allocated = b.allocated.erase x := by
  obtain ⟨b', heq, hsound, hbytes⟩ := h.sound.deAllocatePage hx
  refine ⟨b', heq, consistent_of_sound hsound, ?_⟩
  exact (Sized.allocated_congr hbytes).trans Sized.allocated_reset

end BitmapPage

end DisMiniSql.MiniSql.Disk
