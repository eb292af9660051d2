import DisMiniSql.Lib.Run
import DisMiniSql.Lib.Tiling
import DisMiniSql.MiniSql.Page.TablePage
import Mathlib.Data.Nat.Bitwise
import Mathlib.Logic.Function.Basic

/-!
# `DisMiniSql.Proofs.Page.TablePage`: a table page is a map from slots to tuples

`view` reads a page as a map: a slot has the bytes of its tuple and the delete flag, or nothing.
`Layout` says where the bytes are: the tuples tile the page from the free space pointer to its end,
and the directory ends before them.
-/

set_option autoImplicit false

namespace DisMiniSql.MiniSql.Heap

open DisMiniSql.Lib (Bytes Tiles Steps)

namespace TablePage

variable {p q : TablePage} {i j n v : Nat}

/-! ### Sizes and the delete flag -/

/-- Below the mask the delete bit is clear. -/
theorem and_deleteMask_of_lt (h : n < DELETE_MASK) : n &&& DELETE_MASK = 0 := by
  unfold DELETE_MASK at h ⊢
  rw [Nat.and_two_pow, Nat.testBit_lt_two_pow h]
  rfl

/-- Setting the delete bit adds the mask. -/
theorem setDeletedFlag_of_lt (h : n < DELETE_MASK) : setDeletedFlag n = DELETE_MASK + n := by
  unfold setDeletedFlag DELETE_MASK at *
  have hor := Nat.two_pow_add_eq_or_of_lt h 1
  rw [Nat.mul_one] at hor
  rw [Nat.or_comm, ← hor]

/-- Clearing it is the remainder by the mask. -/
theorem unsetDeletedFlag_eq (n : Nat) : unsetDeletedFlag n = n % DELETE_MASK :=
  Nat.and_two_pow_sub_one_eq_mod n 31

/-- Above the mask the delete bit is set. -/
theorem and_deleteMask_add (h : n < DELETE_MASK) : (DELETE_MASK + n) &&& DELETE_MASK ≠ 0 := by
  unfold DELETE_MASK at h ⊢
  have hbit : (2 ^ 31 + n).testBit 31 = true := by
    rw [Nat.testBit_two_pow_add_eq, Nat.testBit_lt_two_pow h]
    rfl
  rw [Nat.and_two_pow, hbit]
  decide

/-! ### The accessors -/

/-- The count is read back as it was set, if it fits 32 bits. The lemmas that follow say the same of
the other fields, and that setting one field leaves the others alone; they are the frame of every
operation below. -/
@[simp] theorem getTupleCount_setTupleCount (hv : v < 2 ^ 32) :
    (p.setTupleCount v).getTupleCount = v := Bytes.get32_set32_self hv

/-- The count is no part of the free space pointer. -/
@[simp] theorem getFreeSpacePointer_setTupleCount :
    (p.setTupleCount v).getFreeSpacePointer = p.getFreeSpacePointer :=
  Bytes.get32_set32_of_disjoint (.inr (Nat.le_refl _))

/-- Nor of a slot's offset. -/
@[simp] theorem getTupleOffsetAtSlot_setTupleCount :
    (p.setTupleCount v).getTupleOffsetAtSlot i = p.getTupleOffsetAtSlot i :=
  Bytes.get32_set32_of_disjoint (by unfold OFFSET_TUPLE_COUNT OFFSET_TUPLE_OFFSET; omega)

/-- Nor of a slot's size. -/
@[simp] theorem getTupleSize_setTupleCount :
    (p.setTupleCount v).getTupleSize i = p.getTupleSize i :=
  Bytes.get32_set32_of_disjoint (by unfold OFFSET_TUPLE_COUNT OFFSET_TUPLE_SIZE; omega)

/-- The free space pointer is no part of the count. -/
@[simp] theorem getTupleCount_setFreeSpacePointer :
    (p.setFreeSpacePointer v).getTupleCount = p.getTupleCount :=
  Bytes.get32_set32_of_disjoint (.inl (Nat.le_refl _))

/-- It is read back as it was set. -/
@[simp] theorem getFreeSpacePointer_setFreeSpacePointer (hv : v < 2 ^ 32) :
    (p.setFreeSpacePointer v).getFreeSpacePointer = v := Bytes.get32_set32_self hv

/-- It is no part of a slot's offset. -/
@[simp] theorem getTupleOffsetAtSlot_setFreeSpacePointer :
    (p.setFreeSpacePointer v).getTupleOffsetAtSlot i = p.getTupleOffsetAtSlot i :=
  Bytes.get32_set32_of_disjoint (by unfold OFFSET_FREE_SPACE OFFSET_TUPLE_OFFSET; omega)

/-- Nor of a slot's size. -/
@[simp] theorem getTupleSize_setFreeSpacePointer :
    (p.setFreeSpacePointer v).getTupleSize i = p.getTupleSize i :=
  Bytes.get32_set32_of_disjoint (by unfold OFFSET_FREE_SPACE OFFSET_TUPLE_SIZE; omega)

/-- An offset is no part of the count. -/
@[simp] theorem getTupleCount_setTupleOffsetAtSlot :
    (p.setTupleOffsetAtSlot j v).getTupleCount = p.getTupleCount :=
  Bytes.get32_set32_of_disjoint (by unfold OFFSET_TUPLE_COUNT OFFSET_TUPLE_OFFSET; omega)

/-- Nor of the free space pointer. -/
@[simp] theorem getFreeSpacePointer_setTupleOffsetAtSlot :
    (p.setTupleOffsetAtSlot j v).getFreeSpacePointer = p.getFreeSpacePointer :=
  Bytes.get32_set32_of_disjoint (by unfold OFFSET_FREE_SPACE OFFSET_TUPLE_OFFSET; omega)

/-- Setting an offset changes the offset of that slot alone. -/
theorem getTupleOffsetAtSlot_setTupleOffsetAtSlot (hv : v < 2 ^ 32) :
    (p.setTupleOffsetAtSlot j v).getTupleOffsetAtSlot i =
      if i = j then v else p.getTupleOffsetAtSlot i := by
  split
  · next h =>
    subst h
    exact Bytes.get32_set32_self hv
  · next h => exact Bytes.get32_set32_of_disjoint (by unfold SIZE_TUPLE; omega)

/-- And no size. -/
@[simp] theorem getTupleSize_setTupleOffsetAtSlot :
    (p.setTupleOffsetAtSlot j v).getTupleSize i = p.getTupleSize i :=
  Bytes.get32_set32_of_disjoint (by
    unfold OFFSET_TUPLE_SIZE OFFSET_TUPLE_OFFSET SIZE_TUPLE
    omega)

/-- A size is no part of the count. -/
@[simp] theorem getTupleCount_setTupleSize :
    (p.setTupleSize j v).getTupleCount = p.getTupleCount :=
  Bytes.get32_set32_of_disjoint (by unfold OFFSET_TUPLE_COUNT OFFSET_TUPLE_SIZE; omega)

/-- Nor of the free space pointer. -/
@[simp] theorem getFreeSpacePointer_setTupleSize :
    (p.setTupleSize j v).getFreeSpacePointer = p.getFreeSpacePointer :=
  Bytes.get32_set32_of_disjoint (by unfold OFFSET_FREE_SPACE OFFSET_TUPLE_SIZE; omega)

/-- Setting a size changes no offset. -/
@[simp] theorem getTupleOffsetAtSlot_setTupleSize :
    (p.setTupleSize j v).getTupleOffsetAtSlot i = p.getTupleOffsetAtSlot i :=
  Bytes.get32_set32_of_disjoint (by
    unfold OFFSET_TUPLE_SIZE OFFSET_TUPLE_OFFSET SIZE_TUPLE
    omega)

/-- And the size of that slot alone. -/
theorem getTupleSize_setTupleSize (hv : v < 2 ^ 32) :
    (p.setTupleSize j v).getTupleSize i = if i = j then v else p.getTupleSize i := by
  split
  · next h =>
    subst h
    exact Bytes.get32_set32_self hv
  · next h => exact Bytes.get32_set32_of_disjoint (by unfold SIZE_TUPLE; omega)

/-- The header and the directory of the first `n` slots end here. -/
def directoryEnd (n : Nat) : Nat := SIZE_TABLE_PAGE_HEADER + SIZE_TUPLE * n

/-- The header and the directory of the first `n` slots are the same. -/
def SameDirectory (n : Nat) (p q : TablePage) : Prop := ∀ a < directoryEnd n, q.data a = p.data a

namespace SameDirectory

/-- Pages with the same directory have the same count. -/
theorem getTupleCount (h : SameDirectory n p q) : q.getTupleCount = p.getTupleCount :=
  Bytes.get32_congr (fun _ _ => h _ (by
    unfold OFFSET_TUPLE_COUNT directoryEnd SIZE_TABLE_PAGE_HEADER
    omega))

/-- The same free space pointer. -/
theorem getFreeSpacePointer (h : SameDirectory n p q) :
    q.getFreeSpacePointer = p.getFreeSpacePointer :=
  Bytes.get32_congr (fun _ _ => h _ (by
    unfold OFFSET_FREE_SPACE directoryEnd SIZE_TABLE_PAGE_HEADER
    omega))

/-- The same offsets. -/
theorem getTupleOffsetAtSlot (h : SameDirectory n p q) (hi : i < n) :
    q.getTupleOffsetAtSlot i = p.getTupleOffsetAtSlot i :=
  Bytes.get32_congr (fun _ _ => h _ (by
    unfold OFFSET_TUPLE_OFFSET directoryEnd SIZE_TABLE_PAGE_HEADER SIZE_TUPLE
    omega))

/-- And the same sizes. -/
theorem getTupleSize (h : SameDirectory n p q) (hi : i < n) :
    q.getTupleSize i = p.getTupleSize i :=
  Bytes.get32_congr (fun _ _ => h _ (by
    unfold OFFSET_TUPLE_SIZE directoryEnd SIZE_TABLE_PAGE_HEADER SIZE_TUPLE
    omega))

end SameDirectory

/-- What stands behind the directory of the first `n` slots is the same. -/
def SameTuples (n : Nat) (p q : TablePage) : Prop := ∀ a, directoryEnd n ≤ a → q.data a = p.data a

/-- Changing the directory moves no row: a size. -/
theorem sameTuples_setTupleSize (hi : i < n) : SameTuples n p (p.setTupleSize i v) := by
  intro a ha
  unfold directoryEnd SIZE_TABLE_PAGE_HEADER SIZE_TUPLE at ha
  exact Bytes.set32_of_outside (by unfold OFFSET_TUPLE_SIZE SIZE_TUPLE; omega)

/-- An offset. -/
theorem sameTuples_setTupleOffsetAtSlot (hi : i < n) :
    SameTuples n p (p.setTupleOffsetAtSlot i v) := by
  intro a ha
  unfold directoryEnd SIZE_TABLE_PAGE_HEADER SIZE_TUPLE at ha
  exact Bytes.set32_of_outside (by unfold OFFSET_TUPLE_OFFSET SIZE_TUPLE; omega)

/-- The free space pointer. -/
theorem sameTuples_setFreeSpacePointer : SameTuples n p (p.setFreeSpacePointer v) := by
  intro a ha
  unfold directoryEnd SIZE_TABLE_PAGE_HEADER at ha
  exact Bytes.set32_of_outside (by unfold OFFSET_FREE_SPACE; omega)

/-- The count. -/
theorem sameTuples_setTupleCount : SameTuples n p (p.setTupleCount v) := by
  intro a ha
  unfold directoryEnd SIZE_TABLE_PAGE_HEADER at ha
  exact Bytes.set32_of_outside (by unfold OFFSET_TUPLE_COUNT; omega)

/-- Two changes one after the other. -/
theorem SameTuples.trans {r : TablePage} (h : SameTuples n p q) (h' : SameTuples n q r) :
    SameTuples n p r := fun a ha => (h' a ha).trans (h a ha)

/-! ### The loop over the offsets -/

/-- What the loop has done up to the slot `n`. -/
structure OffsetsMoved (bound low high n : Nat) (p q : TablePage) : Prop where
  pageId : q.tablePageId = p.tablePageId ∧ q.prevPageId = p.prevPageId ∧
    q.nextPageId = p.nextPageId
  getTupleCount : q.getTupleCount = p.getTupleCount
  getFreeSpacePointer : q.getFreeSpacePointer = p.getFreeSpacePointer
  getTupleSize : ∀ i, q.getTupleSize i = p.getTupleSize i
  getTupleOffsetAtSlot : ∀ i, q.getTupleOffsetAtSlot i =
    if i < n ∧ p.getTupleSize i ≠ 0 ∧ p.getTupleOffsetAtSlot i < bound then
      p.getTupleOffsetAtSlot i + high - low
    else p.getTupleOffsetAtSlot i
  tuples : SameTuples n p q

/-- What the loop over the directory leaves behind: the offsets below `bound` of rows that are not
empty have moved, nothing else has changed. Induction on the number of slots visited. -/
theorem moveOffsets_spec (p : TablePage) (bound low high n : Nat)
    (hfit : bound + high ≤ 2 ^ 32) :
    OffsetsMoved bound low high n p (p.moveOffsets bound low high n) := by
  induction n with
  | zero => exact ⟨⟨rfl, rfl, rfl⟩, rfl, rfl, fun _ => rfl, fun _ => rfl, fun _ _ => rfl⟩
  | succ n ih =>
    unfold moveOffsets
    -- the slot `n` is as it was, since the loop has not reached it
    -- slot `n` is still as it was when the loop comes to it
    have hown : (p.moveOffsets bound low high n).getTupleOffsetAtSlot n =
        p.getTupleOffsetAtSlot n := by
      rw [ih.getTupleOffsetAtSlot, if_neg (fun h => Nat.lt_irrefl n h.1)]
    have htuples : SameTuples (n + 1) p (p.moveOffsets bound low high n) := fun a ha =>
      ih.tuples a (by unfold directoryEnd SIZE_TUPLE at ha ⊢; omega)
    dsimp only
    rw [hown, ih.getTupleSize]
    -- the test of the loop: a used slot below the bound
    split
    · next h =>
      refine ⟨ih.pageId, ?_, ?_, fun i => ?_, fun i => ?_, ?_⟩
      · rw [getTupleCount_setTupleOffsetAtSlot, ih.getTupleCount]
      · rw [getFreeSpacePointer_setTupleOffsetAtSlot, ih.getFreeSpacePointer]
      · rw [getTupleSize_setTupleOffsetAtSlot, ih.getTupleSize]
      · rw [getTupleOffsetAtSlot_setTupleOffsetAtSlot (by omega), ih.getTupleOffsetAtSlot]
        by_cases hin : i = n
        · subst hin
          rw [if_pos rfl, if_pos ⟨Nat.lt_succ_self i, h⟩]
        · rw [if_neg hin]
          exact if_congr (and_congr_left (fun _ => by omega)) rfl rfl
      · exact htuples.trans (sameTuples_setTupleOffsetAtSlot (Nat.lt_succ_self n))
    · next h =>
      refine ⟨ih.pageId, ih.getTupleCount, ih.getFreeSpacePointer, ih.getTupleSize, fun i => ?_,
        htuples⟩
      rw [ih.getTupleOffsetAtSlot]
      by_cases hin : i = n
      · subst hin
        rw [if_neg (fun h => Nat.lt_irrefl i h.1), if_neg (fun h' => h h'.2)]
      · exact if_congr (and_congr_left (fun _ => by omega)) rfl rfl

/-! ### The page as a map -/

/-- The slots that have a tuple. -/
def used (p : TablePage) : Set Nat := {i | i < p.getTupleCount ∧ p.getTupleSize i ≠ 0}

/-- The length of the tuple in a slot, also of a deleted one. -/
def tupleLength (p : TablePage) (i : Nat) : Nat := unsetDeletedFlag (p.getTupleSize i)

/-- The bytes of the tuple in a slot and its delete flag. -/
def view (p : TablePage) (i : Nat) : Option (List UInt8 × Bool) :=
  if i < p.getTupleCount ∧ p.getTupleSize i ≠ 0 then
    some (p.data.slice (p.getTupleOffsetAtSlot i) (p.tupleLength i), isDeleted (p.getTupleSize i))
  else none

/-- Where the bytes of a page are. -/
structure Layout (p : TablePage) : Prop where
  directory : directoryEnd p.getTupleCount ≤ p.getFreeSpacePointer
  pointer : p.getFreeSpacePointer ≤ PAGE_SIZE
  tiles : Tiles p.used p.getTupleOffsetAtSlot p.tupleLength p.getFreeSpacePointer PAGE_SIZE

/-- A used slot shows its bytes and whether it is marked. -/
theorem view_of_mem (hi : i ∈ p.used) : p.view i =
    some (p.data.slice (p.getTupleOffsetAtSlot i) (p.tupleLength i),
      isDeleted (p.getTupleSize i)) := if_pos hi

theorem view_of_not_mem (hi : i ∉ p.used) : p.view i = none := if_neg hi

/-- The size of a tuple is its length, or its length with the flag. -/
theorem Layout.size_cases (h : p.Layout) (hi : i ∈ p.used) :
    0 < p.tupleLength i ∧ p.tupleLength i ≤ PAGE_SIZE ∧
      ((p.getTupleSize i = p.tupleLength i ∧ isDeleted (p.getTupleSize i) = false) ∨
        (p.getTupleSize i = setDeletedFlag (p.tupleLength i) ∧
          isDeleted (p.getTupleSize i) = true)) := by
  have hin := h.tiles.inside i hi
  have hlen : p.tupleLength i = p.getTupleSize i % DELETE_MASK := unsetDeletedFlag_eq _
  have hlt : p.tupleLength i < DELETE_MASK := by
    rw [hlen]
    exact Nat.mod_lt _ (by decide)
  refine ⟨hin.1, by omega, ?_⟩
  rcases Nat.lt_or_ge (p.getTupleSize i) DELETE_MASK with hlow | hhigh
  · left
    rw [Nat.mod_eq_of_lt hlow] at hlen
    refine ⟨hlen.symm, ?_⟩
    unfold isDeleted
    rw [and_deleteMask_of_lt hlow]
    simpa using hi.2
  · right
    have hsize : p.getTupleSize i = DELETE_MASK + p.tupleLength i := by
      have := Bytes.get32_lt p.data (OFFSET_TUPLE_SIZE + SIZE_TUPLE * i)
      have hraw : p.getTupleSize i < 2 ^ 32 := this
      unfold DELETE_MASK at *
      omega
    refine ⟨by rw [hsize, setDeletedFlag_of_lt hlt], ?_⟩
    unfold isDeleted
    rw [hsize]
    have := and_deleteMask_add hlt
    simp [this]

/-- There are never more slots than bytes. -/
theorem Layout.count_le (h : p.Layout) : p.getTupleCount ≤ PAGE_SIZE := by
  have hdir := h.directory
  have hptr := h.pointer
  unfold directoryEnd SIZE_TUPLE at hdir
  omega

/-- On a well laid out page the subtraction of `GetFreeSpaceRemaining` does not wrap. -/
theorem Layout.getFreeSpaceRemaining (h : p.Layout) :
    p.getFreeSpaceRemaining = p.getFreeSpacePointer - directoryEnd p.getTupleCount := by
  have hdir := h.directory
  have hptr := h.pointer
  unfold TablePage.getFreeSpaceRemaining directoryEnd SIZE_TABLE_PAGE_HEADER SIZE_TUPLE
    PAGE_SIZE at *
  omega

/-- A deleted slot or an empty one has no tuple for a reader. -/
theorem Layout.getTuple (h : p.Layout) (i : Nat) :
    p.getTuple i = (p.view i).bind (fun x => if x.2 then none else some x.1) := by
  unfold TablePage.getTuple
  by_cases hcount : p.getTupleCount ≤ i
  · rw [if_pos hcount, view_of_not_mem (fun hi => Nat.not_lt_of_le hcount hi.1)]
    rfl
  rw [if_neg hcount]
  dsimp only
  by_cases hsize : p.getTupleSize i = 0
  · rw [view_of_not_mem (fun hi => hi.2 hsize), hsize]
    rfl
  · have hi : i ∈ p.used := ⟨Nat.lt_of_not_le hcount, hsize⟩
    rw [view_of_mem hi, Option.bind_some]
    obtain ⟨_, _, ⟨hlen, hlive⟩ | ⟨_, hdeleted⟩⟩ := h.size_cases hi
    · rw [hlive, ← hlen]
    · rw [hdeleted]
      rfl

/-- `GetTuple` returns the bytes of a live row and fails on every other slot. -/
theorem Layout.getTuple_eq_some_iff (h : p.Layout) {bytes : List UInt8} :
    p.getTuple i = some bytes ↔ p.view i = some (bytes, false) := by
  rw [h.getTuple]
  cases p.view i with
  | none => exact ⟨fun hsome => (nomatch hsome), fun hsome => (nomatch hsome)⟩
  | some tuple =>
    obtain ⟨bytes', flag⟩ := tuple
    cases flag with
    | true => simp
    | false => simp

/-- A fresh page has no slots. -/
theorem getTupleCount_init (pageId prevId : PageId) (data : Bytes) :
    (init pageId prevId data).getTupleCount = 0 := getTupleCount_setTupleCount (by omega)

/-- Its free space starts at the end of the page. -/
theorem getFreeSpacePointer_init (pageId prevId : PageId) (data : Bytes) :
    (init pageId prevId data).getFreeSpacePointer = PAGE_SIZE := by
  unfold init
  rw [getFreeSpacePointer_setTupleCount]
  exact getFreeSpacePointer_setFreeSpacePointer (by decide)

/-- No slot is used. -/
theorem used_init (pageId prevId : PageId) (data : Bytes) :
    (init pageId prevId data).used = ∅ := by
  refine Set.eq_empty_of_forall_notMem (fun i hi => ?_)
  have hlt := hi.1
  rw [getTupleCount_init] at hlt
  exact Nat.not_lt_zero i hlt

/-- So it is well laid out, whatever its bytes are. -/
theorem Layout.init (pageId prevId : PageId) (data : Bytes) : (init pageId prevId data).Layout := by
  refine ⟨?_, ?_, ?_⟩
  · rw [getTupleCount_init, getFreeSpacePointer_init]
    decide
  · rw [getFreeSpacePointer_init]
  · rw [getFreeSpacePointer_init, used_init]
    exact Tiles.empty _ _ _

/-! ### Inserting -/

/-- What `InsertTuple` does to a page with room. -/
structure Inserted (row : Row) (k : Nat) (p q : TablePage) : Prop where
  slot : k ∉ p.used ∧ k ≤ p.getTupleCount
  getTupleCount : q.getTupleCount = max p.getTupleCount (k + 1)
  getFreeSpacePointer : q.getFreeSpacePointer + row.bytes.length = p.getFreeSpacePointer
  room : directoryEnd (p.getTupleCount + 1) ≤ q.getFreeSpacePointer
  getTupleSize : ∀ i < p.getTupleCount + 1,
    q.getTupleSize i = if i = k then row.bytes.length else p.getTupleSize i
  getTupleOffsetAtSlot : ∀ i < p.getTupleCount + 1,
    q.getTupleOffsetAtSlot i = if i = k then q.getFreeSpacePointer else p.getTupleOffsetAtSlot i
  own : q.data.slice q.getFreeSpacePointer row.bytes.length = row.bytes
  others : ∀ a, p.getFreeSpacePointer ≤ a → q.data a = p.data a

/-- The slot an insert takes is unused, and at most one behind the last. -/
theorem freeSlot_spec (p : TablePage) : p.freeSlot ∉ p.used ∧ p.freeSlot ≤ p.getTupleCount := by
  unfold freeSlot
  cases hfind : (List.range p.getTupleCount).find? (fun i => p.getTupleSize i == 0) with
  | none =>
    rw [Option.getD_none]
    exact ⟨fun h => Nat.lt_irrefl _ h.1, Nat.le_refl _⟩
  | some i =>
    rw [Option.getD_some]
    have hsize : p.getTupleSize i = 0 := by simpa using List.find?_some hfind
    have hlt := List.mem_range.mp (List.mem_of_find?_eq_some hfind)
    exact ⟨fun h => h.2 hsize, Nat.le_of_lt hlt⟩

/-- Without room for the row and a directory entry the insert fails and changes nothing. -/
theorem Layout.insertTuple_none (h : p.Layout) {row : Row}
    (hroom : p.getFreeSpacePointer < directoryEnd (p.getTupleCount + 1) + row.bytes.length) :
    p.insertTuple row = (none, p) := by
  unfold TablePage.insertTuple Row.getSerializedSize
  rw [if_pos]
  rw [h.getFreeSpaceRemaining]
  have hdir := h.directory
  unfold directoryEnd SIZE_TUPLE at *
  omega

/-- With room the insert puts the row below the free space pointer and its entry into the free slot.
The writes of the code are followed one by one: each leaves the rows and the fields the next one
needs alone. -/
theorem Layout.insertTuple_some (h : p.Layout) {row : Row}
    (hroom : directoryEnd (p.getTupleCount + 1) + row.bytes.length ≤ p.getFreeSpacePointer) :
    ∃ q, p.insertTuple row = (some p.freeSlot, q) ∧ Inserted row p.freeSlot p q ∧
      q.tablePageId = p.tablePageId ∧ q.prevPageId = p.prevPageId ∧
        q.nextPageId = p.nextPageId := by
  have hcond : ¬ p.getFreeSpaceRemaining < row.bytes.length + SIZE_TUPLE := by
    rw [h.getFreeSpaceRemaining]
    unfold directoryEnd SIZE_TUPLE at *
    omega
  have hptr := h.pointer
  unfold TablePage.insertTuple Row.getSerializedSize
  rw [if_neg hcond]
  dsimp only
  rw [if_neg (fun hboth => hcond hboth.2)]
  obtain ⟨hfree, hle⟩ := p.freeSlot_spec
  generalize p.freeSlot = k at hfree hle ⊢
  have hk : k < p.getTupleCount + 1 := Nat.lt_succ_of_le hle
  have hcount := h.count_le
  -- the pointer moves down, and the row is written behind the directory
  have hfsp : (p.setFreeSpacePointer
      (p.getFreeSpacePointer - row.bytes.length)).getFreeSpacePointer =
        p.getFreeSpacePointer - row.bytes.length :=
    getFreeSpacePointer_setFreeSpacePointer (by unfold PAGE_SIZE at hptr; omega)
  generalize hp1 : p.setFreeSpacePointer (p.getFreeSpacePointer - row.bytes.length) = p1 at hfsp ⊢
  -- after the free space pointer: the directory is as it was
  have hp1count : p1.getTupleCount = p.getTupleCount := by
    rw [← hp1, getTupleCount_setFreeSpacePointer]
  have hp1tuples : SameTuples (p.getTupleCount + 1) p p1 := hp1 ▸ sameTuples_setFreeSpacePointer
  generalize hp2 : ({ p1 with data := p1.data.blit p1.getFreeSpacePointer row.bytes } :
    TablePage) = p2
  -- after the bytes of the row: they lie behind the directory
  have hsame : SameDirectory (p.getTupleCount + 1) p1 p2 := by
    intro a ha
    rw [← hp2]
    exact Bytes.blit_of_outside (by omega)
  -- and the row reads back
  have hp2own : p2.data.slice p1.getFreeSpacePointer row.bytes.length = row.bytes := by
    rw [← hp2]
    exact Bytes.slice_blit_self
  have hp2others : ∀ a, p.getFreeSpacePointer ≤ a → p2.data a = p.data a := by
    intro a ha
    rw [← hp2]
    refine (Bytes.blit_of_outside (by omega)).trans (hp1tuples a ?_)
    omega
  rw [hsame.getFreeSpacePointer]
  generalize hp4 : (p2.setTupleOffsetAtSlot k p1.getFreeSpacePointer).setTupleSize k
    row.bytes.length = p4
  have hp4tuples : SameTuples (p.getTupleCount + 1) p2 p4 := by
    rw [← hp4]
    exact (sameTuples_setTupleOffsetAtSlot hk).trans (sameTuples_setTupleSize hk)
  have hp4fsp : p4.getFreeSpacePointer = p1.getFreeSpacePointer := by
    rw [← hp4, getFreeSpacePointer_setTupleSize, getFreeSpacePointer_setTupleOffsetAtSlot,
      hsame.getFreeSpacePointer]
  have hp4size : ∀ i < p.getTupleCount + 1,
      p4.getTupleSize i = if i = k then row.bytes.length else p.getTupleSize i := by
    intro i hi
    rw [← hp4, getTupleSize_setTupleSize row.size_lt, getTupleSize_setTupleOffsetAtSlot,
      hsame.getTupleSize hi, ← hp1, getTupleSize_setFreeSpacePointer]
  have hp4off : ∀ i < p.getTupleCount + 1,
      p4.getTupleOffsetAtSlot i =
        if i = k then p1.getFreeSpacePointer else p.getTupleOffsetAtSlot i := by
    intro i hi
    rw [← hp4, getTupleOffsetAtSlot_setTupleSize,
      getTupleOffsetAtSlot_setTupleOffsetAtSlot (by unfold PAGE_SIZE at hptr; omega),
      hsame.getTupleOffsetAtSlot hi, ← hp1, getTupleOffsetAtSlot_setFreeSpacePointer]
  have hp4count : p4.getTupleCount = p.getTupleCount := by
    rw [← hp4, getTupleCount_setTupleSize, getTupleCount_setTupleOffsetAtSlot,
      hsame.getTupleCount, hp1count]
  have hp4ids : p4.tablePageId = p.tablePageId ∧ p4.prevPageId = p.prevPageId ∧
      p4.nextPageId = p.nextPageId := by
    rw [← hp4, ← hp2, ← hp1]
    exact ⟨rfl, rfl, rfl⟩
  -- the tuples are not changed by what is written to the directory
  have hp4data : ∀ a, p1.getFreeSpacePointer ≤ a → p4.data a = p2.data a :=
    fun a ha => hp4tuples a (by omega)
  have hdone : ∀ q : TablePage, q.getTupleCount = max p.getTupleCount (k + 1) →
      q.getFreeSpacePointer = p4.getFreeSpacePointer →
      (∀ i, q.getTupleSize i = p4.getTupleSize i) →
      (∀ i, q.getTupleOffsetAtSlot i = p4.getTupleOffsetAtSlot i) →
      SameTuples (p.getTupleCount + 1) p4 q → Inserted row k p q := by
    intro q hqcount hqfsp hqsize hqoff hqtuples
    have hqdata : ∀ a, p1.getFreeSpacePointer ≤ a → q.data a = p2.data a :=
      fun a ha => (hqtuples a (by omega)).trans (hp4data a ha)
    refine ⟨⟨hfree, hle⟩, hqcount, ?_, ?_, fun i hi => ?_, fun i hi => ?_, ?_, fun a ha => ?_⟩
    · omega
    · omega
    · rw [hqsize, hp4size i hi]
    · rw [hqoff, hp4off i hi, hqfsp, hp4fsp]
    · rw [hqfsp, hp4fsp]
      refine Eq.trans (Bytes.slice_congr (fun i hi => ?_)) hp2own
      exact hqdata _ (by omega)
    · exact (hqdata a (by omega)).trans (hp2others a ha)
  by_cases hlast : k = p.getTupleCount
  · refine ⟨p4.setTupleCount (p.getTupleCount + 1), by rw [if_pos hlast], ?_, hp4ids⟩
    refine hdone _ ?_ getFreeSpacePointer_setTupleCount (fun _ => getTupleSize_setTupleCount)
      (fun _ => getTupleOffsetAtSlot_setTupleCount) sameTuples_setTupleCount
    rw [getTupleCount_setTupleCount (by unfold PAGE_SIZE at hcount; omega)]
    omega
  · refine ⟨p4, by rw [if_neg hlast], ?_, hp4ids⟩
    exact hdone p4 (by omega) rfl (fun _ => rfl) (fun _ => rfl) (fun _ _ => rfl)

section Inserted

variable {row : Row} {k : Nat}

/-- A size below the mask that is not zero is a live row's. -/
theorem isDeleted_of_lt (hpos : 0 < n) (hlt : n < DELETE_MASK) : isDeleted n = false := by
  unfold isDeleted
  rw [and_deleteMask_of_lt hlt]
  simpa using Nat.ne_of_gt hpos

/-- The insert uses one slot more. -/
theorem Inserted.used (h : Inserted row k p q) : q.used = insert k p.used := by
  ext i
  rw [Set.mem_insert_iff]
  have hcount := h.getTupleCount
  have hk := h.slot.2
  constructor
  · rintro ⟨hlt, hsize⟩
    rw [h.getTupleSize i (by omega)] at hsize
    by_cases hik : i = k
    · exact .inl hik
    · rw [if_neg hik] at hsize
      refine .inr ⟨?_, hsize⟩
      omega
  · rintro (rfl | ⟨hlt, hsize⟩)
    · refine ⟨by omega, ?_⟩
      rw [h.getTupleSize i (by omega), if_pos rfl]
      have := row.header
      omega
    · refine ⟨by omega, ?_⟩
      rw [h.getTupleSize i (by omega)]
      split
      · have := row.header
        omega
      · exact hsize

/-- The slots that had a tuple are as they were. -/
theorem Inserted.same (h : Inserted row k p q) (hi : i ∈ p.used) :
    i ≠ k ∧ q.getTupleOffsetAtSlot i = p.getTupleOffsetAtSlot i ∧
      q.getTupleSize i = p.getTupleSize i := by
  have hik : i ≠ k := fun heq => h.slot.1 (heq ▸ hi)
  have hlt : i < p.getTupleCount + 1 := Nat.lt_succ_of_lt hi.1
  refine ⟨hik, ?_, ?_⟩
  · rw [h.getTupleOffsetAtSlot i hlt, if_neg hik]
  · rw [h.getTupleSize i hlt, if_neg hik]

/-- The new slot holds the offset and the size of the row. -/
theorem Inserted.at_slot (h : Inserted row k p q) (hp : p.Layout) :
    q.getTupleOffsetAtSlot k = q.getFreeSpacePointer ∧ q.getTupleSize k = row.bytes.length ∧
      q.tupleLength k = row.bytes.length ∧ row.bytes.length < DELETE_MASK := by
  have hlt : k < p.getTupleCount + 1 := Nat.lt_succ_of_le h.slot.2
  have hsize : q.getTupleSize k = row.bytes.length := by rw [h.getTupleSize k hlt, if_pos rfl]
  have hmask : row.bytes.length < DELETE_MASK := by
    have := h.getFreeSpacePointer
    have := hp.pointer
    unfold PAGE_SIZE DELETE_MASK at *
    omega
  refine ⟨by rw [h.getTupleOffsetAtSlot k hlt, if_pos rfl], hsize, ?_, hmask⟩
  unfold tupleLength
  rw [hsize, unsetDeletedFlag_eq, Nat.mod_eq_of_lt hmask]

/-- The insert keeps the layout: the new row lies between the directory and the rows of before. -/
theorem Inserted.layout (h : Inserted row k p q) (hp : p.Layout) : q.Layout := by
  obtain ⟨hoff, _, hlen, _⟩ := h.at_slot hp
  have hfsp := h.getFreeSpacePointer
  have hptr := hp.pointer
  refine ⟨?_, by omega, ?_⟩
  · have hroom := h.room
    have hcount := h.getTupleCount
    have hk := h.slot.2
    unfold directoryEnd at *
    have : q.getTupleCount ≤ p.getTupleCount + 1 := by omega
    exact le_trans (Nat.add_le_add_left (Nat.mul_le_mul_left _ this) _) hroom
  · have htiles := hp.tiles.push q.getTupleOffsetAtSlot q.tupleLength
      h.slot.1 (by have := row.header; omega) (by omega) hptr (fun i hi => by
        obtain ⟨_, hoffi, hsizei⟩ := h.same hi
        unfold tupleLength
        exact ⟨hoffi, by rw [hsizei]⟩)
    rw [← h.used, hoff] at htiles
    exact htiles

/-- The new row is in the slot, and every other slot is as it was. -/
theorem Inserted.view (h : Inserted row k p q) (hp : p.Layout) :
    q.view = Function.update p.view k (some (row.bytes, false)) := by
  obtain ⟨hoff, hsize, hlen, hmask⟩ := h.at_slot hp
  funext i
  by_cases hik : i = k
  · subst hik
    have hi : i ∈ q.used := h.used ▸ Set.mem_insert i _
    rw [Function.update_self, view_of_mem hi, hoff, hlen, h.own, hsize,
      isDeleted_of_lt (by have := row.header; omega) hmask]
  · rw [Function.update_of_ne hik]
    by_cases hi : i ∈ p.used
    · obtain ⟨_, hoffi, hsizei⟩ := h.same hi
      have hiq : i ∈ q.used := h.used ▸ Set.mem_insert_of_mem k hi
      have hleni : q.tupleLength i = p.tupleLength i := by unfold tupleLength; rw [hsizei]
      rw [view_of_mem hiq, view_of_mem hi, hoffi, hleni, hsizei]
      have hin := hp.tiles.inside i hi
      rw [Bytes.slice_congr (fun a _ => h.others _ (by omega))]
    · have hiq : i ∉ q.used := by
        rw [h.used]
        exact fun hmem => hmem.elim hik hi
      rw [view_of_not_mem hiq, view_of_not_mem hi]

end Inserted

/-! ### Resizing -/

section Resized

variable {k : Nat} {bytes : List UInt8}

/-- The tuple of the slot `k` has become these bytes, or is gone if there are none. Its end has
stayed, and the tuples below it have moved. -/
structure Resized (bytes : List UInt8) (k : Nat) (p q : TablePage) : Prop where
  getTupleCount : q.getTupleCount = p.getTupleCount
  room : directoryEnd p.getTupleCount + bytes.length ≤ p.getFreeSpacePointer + p.tupleLength k
  getFreeSpacePointer :
    q.getFreeSpacePointer = p.getFreeSpacePointer + p.tupleLength k - bytes.length
  getTupleSize : ∀ i < p.getTupleCount,
    q.getTupleSize i = if i = k then bytes.length else p.getTupleSize i
  getTupleOffsetAtSlot : ∀ i ∈ q.used, q.getTupleOffsetAtSlot i =
    if p.getTupleOffsetAtSlot i < p.getTupleOffsetAtSlot k + p.tupleLength k then
      p.getTupleOffsetAtSlot i + p.tupleLength k - bytes.length
    else p.getTupleOffsetAtSlot i
  own : q.data.slice (p.getTupleOffsetAtSlot k + p.tupleLength k - bytes.length) bytes.length =
    bytes
  below : ∀ a, p.getFreeSpacePointer ≤ a → a < p.getTupleOffsetAtSlot k →
    q.data (a + p.tupleLength k - bytes.length) = p.data a
  above : ∀ a, p.getTupleOffsetAtSlot k + p.tupleLength k ≤ a → q.data a = p.data a

/-- An update keeps the used slots, save for an empty row, which frees its own. -/
theorem Resized.mem_used (h : Resized bytes k p q) (hk : k ∈ p.used) :
    i ∈ q.used ↔ i ∈ p.used ∧ (i = k → 0 < bytes.length) := by
  show i < q.getTupleCount ∧ q.getTupleSize i ≠ 0 ↔ _
  rw [h.getTupleCount]
  by_cases hik : i = k
  · subst hik
    rw [h.getTupleSize i hk.1, if_pos rfl]
    exact ⟨fun hi => ⟨hk, fun _ => Nat.pos_of_ne_zero hi.2⟩,
      fun hi => ⟨hk.1, Nat.ne_of_gt (hi.2 rfl)⟩⟩
  · constructor
    · rintro ⟨hlt, hsize⟩
      rw [h.getTupleSize i hlt, if_neg hik] at hsize
      exact ⟨⟨hlt, hsize⟩, fun heq => absurd heq hik⟩
    · rintro ⟨hi, _⟩
      refine ⟨hi.1, ?_⟩
      rw [h.getTupleSize i hi.1, if_neg hik]
      exact hi.2

/-- The new row is shorter than the mask, as it fits the page. -/
theorem Resized.length_lt (h : Resized bytes k p q) (hp : p.Layout) (hk : k ∈ p.used) :
    bytes.length < DELETE_MASK := by
  have hin := hp.tiles.inside k hk
  have := h.room
  have := hp.pointer
  unfold directoryEnd SIZE_TABLE_PAGE_HEADER PAGE_SIZE DELETE_MASK at *
  omega

/-- Only the length of the updated row changes. -/
theorem Resized.tupleLength (h : Resized bytes k p q) (hp : p.Layout) (hk : k ∈ p.used)
    (hi : i ∈ p.used) : q.tupleLength i = if i = k then bytes.length else p.tupleLength i := by
  unfold TablePage.tupleLength
  rw [h.getTupleSize i hi.1]
  split
  · rw [unsetDeletedFlag_eq, Nat.mod_eq_of_lt (h.length_lt hp hk)]
  · rfl

/-- The update keeps the layout: the rows below the updated one have moved by the difference of the
lengths. -/
theorem Resized.layout (h : Resized bytes k p q) (hp : p.Layout) (hk : k ∈ p.used) :
    q.Layout := by
  have hlenk : q.tupleLength k = bytes.length := by rw [h.tupleLength hp hk hk, if_pos rfl]
  have hin := hp.tiles.inside k hk
  have hroom := h.room
  have hfsp := h.getFreeSpacePointer
  have hptr := hp.pointer
  refine ⟨?_, by omega, ?_⟩
  · rw [h.getTupleCount]
    omega
  · have htiles := hp.tiles.resize (t := q.used) q.getTupleOffsetAtSlot q.tupleLength hk
      (by omega) (fun i => by rw [h.mem_used hk, hlenk])
      (fun i hi hik => by rw [h.tupleLength hp hk hi, if_neg hik])
      (fun i hi => by rw [h.getTupleOffsetAtSlot i hi, hlenk])
    rw [hlenk, ← hfsp] at htiles
    exact htiles

/-- The slot `k` has the new tuple, and every other slot is as it was. -/
theorem Resized.view (h : Resized bytes k p q) (hp : p.Layout) (hk : k ∈ p.used) :
    q.view = Function.update p.view k (if bytes = [] then none else some (bytes, false)) := by
  have hink := hp.tiles.inside k hk
  have hroom := h.room
  funext i
  by_cases hik : i = k
  · subst hik
    rw [Function.update_self]
    by_cases hnil : bytes = []
    · subst hnil
      rw [if_pos rfl]
      exact view_of_not_mem (fun hi => Nat.lt_irrefl 0 (((h.mem_used hk).mp hi).2 rfl))
    · rw [if_neg hnil]
      have hpos : 0 < bytes.length := List.length_pos_iff.mpr hnil
      have hi : i ∈ q.used := (h.mem_used hk).mpr ⟨hk, fun _ => hpos⟩
      rw [view_of_mem hi, h.getTupleOffsetAtSlot i hi, if_pos (by omega), h.tupleLength hp hk hk,
        if_pos rfl, h.own, h.getTupleSize i hk.1, if_pos rfl,
        isDeleted_of_lt hpos (h.length_lt hp hk)]
  · rw [Function.update_of_ne hik]
    by_cases hi : i ∈ p.used
    · have hiq : i ∈ q.used := (h.mem_used hk).mpr ⟨hi, fun heq => absurd heq hik⟩
      have hin := hp.tiles.inside i hi
      rw [view_of_mem hiq, view_of_mem hi, h.tupleLength hp hk hi, if_neg hik,
        h.getTupleSize i hi.1, if_neg hik, h.getTupleOffsetAtSlot i hiq]
      congr 2
      rcases hp.tiles.disjoint i hi k hk hik with hbelow | habove
      · rw [if_pos (by omega)]
        refine Bytes.slice_congr (fun a ha => ?_)
        have hmoved := h.below (p.getTupleOffsetAtSlot i + a) (by omega) (by omega)
        rw [← hmoved]
        congr 1
        omega
      · rw [if_neg (by omega)]
        exact Bytes.slice_congr (fun a _ => h.above _ (by omega))
    · have hiq : i ∉ q.used := fun hmem => hi ((h.mem_used hk).mp hmem).1
      rw [view_of_not_mem hiq, view_of_not_mem hi]

/-- The page before the loop: the bytes have moved, but the offsets are the old ones. -/
structure Moved (bytes : List UInt8) (k : Nat) (p r : TablePage) : Prop where
  getTupleCount : r.getTupleCount = p.getTupleCount
  getFreeSpacePointer :
    r.getFreeSpacePointer = p.getFreeSpacePointer + p.tupleLength k - bytes.length
  getTupleSize : ∀ i < p.getTupleCount,
    r.getTupleSize i = if i = k then bytes.length else p.getTupleSize i
  getTupleOffsetAtSlot : ∀ i < p.getTupleCount, (i = k → 0 < bytes.length) →
    r.getTupleOffsetAtSlot i = p.getTupleOffsetAtSlot i
  own : r.data.slice (p.getTupleOffsetAtSlot k + p.tupleLength k - bytes.length) bytes.length =
    bytes
  below : ∀ a, p.getFreeSpacePointer ≤ a → a < p.getTupleOffsetAtSlot k →
    r.data (a + p.tupleLength k - bytes.length) = p.data a
  above : ∀ a, p.getTupleOffsetAtSlot k + p.tupleLength k ≤ a → r.data a = p.data a

/-- The loop gives each tuple its new offset. -/
theorem Moved.moveOffsets {r : TablePage} (h : Moved bytes k p r) (hp : p.Layout) (hk : k ∈ p.used)
    (hroom : directoryEnd p.getTupleCount + bytes.length ≤
      p.getFreeSpacePointer + p.tupleLength k) {bound : Nat}
    (hbound : ∀ i ∈ p.used, (i = k → 0 < bytes.length) → (p.getTupleOffsetAtSlot i < bound ↔
      p.getTupleOffsetAtSlot i < p.getTupleOffsetAtSlot k + p.tupleLength k))
    (hfit : bound ≤ PAGE_SIZE) :
    Resized bytes k p
      (r.moveOffsets bound bytes.length (p.tupleLength k) p.getTupleCount) := by
  have hin := hp.tiles.inside k hk
  have hptr := hp.pointer
  have hpage : PAGE_SIZE = 4096 := rfl
  have hm := moveOffsets_spec r bound bytes.length (p.tupleLength k) p.getTupleCount (by omega)
  generalize r.moveOffsets bound bytes.length (p.tupleLength k) p.getTupleCount = q at hm ⊢
  have hdata : ∀ a, directoryEnd p.getTupleCount ≤ a → q.data a = r.data a := hm.tuples
  refine ⟨hm.getTupleCount.trans h.getTupleCount, hroom,
    hm.getFreeSpacePointer.trans h.getFreeSpacePointer, fun i hi => ?_, fun i hi => ?_, ?_,
    fun a hlow hhigh => ?_, fun a ha => ?_⟩
  · rw [hm.getTupleSize, h.getTupleSize i hi]
  · obtain ⟨hlt, hsize⟩ := hi
    rw [hm.getTupleCount, h.getTupleCount] at hlt
    rw [hm.getTupleSize, h.getTupleSize i hlt] at hsize
    have hown : i = k → 0 < bytes.length := by
      intro hik
      rw [if_pos hik] at hsize
      exact Nat.pos_of_ne_zero hsize
    have hused : i ∈ p.used := by
      by_cases hik : i = k
      · exact hik ▸ hk
      · rw [if_neg hik] at hsize
        exact ⟨hlt, hsize⟩
    rw [hm.getTupleOffsetAtSlot, h.getTupleOffsetAtSlot i hlt hown, h.getTupleSize i hlt]
    refine if_congr ?_ rfl rfl
    rw [hbound i hused hown]
    exact ⟨fun hcond => hcond.2.2, fun hcond => ⟨hlt, hsize, hcond⟩⟩
  · refine Eq.trans (Bytes.slice_congr (fun i hi => ?_)) h.own
    exact hdata _ (by omega)
  · rw [hdata _ (by omega)]
    exact h.below a hlow hhigh
  · rw [hdata _ (by omega)]
    exact h.above a ha

end Resized

/-! ### The other operations -/

/-- The size of a live row is its length. -/
theorem Layout.tupleSize_eq (h : p.Layout) (hi : i ∈ p.used)
    (hlive : isDeleted (p.getTupleSize i) = false) : p.getTupleSize i = p.tupleLength i := by
  obtain ⟨_, _, ⟨hlen, _⟩ | ⟨_, hdeleted⟩⟩ := h.size_cases hi
  · exact hlen
  · rw [hlive] at hdeleted
    cases hdeleted

/-- A live row stands in a used slot. -/
theorem mem_used_of_live (hcount : ¬ p.getTupleCount ≤ i)
    (hlive : isDeleted (p.getTupleSize i) = false) : i ∈ p.used := by
  refine ⟨Nat.lt_of_not_le hcount, fun hzero => ?_⟩
  rw [hzero] at hlive
  cases hlive

/-- The three page ids are the same. -/
def SameIds (p q : TablePage) : Prop :=
  q.tablePageId = p.tablePageId ∧ q.prevPageId = p.prevPageId ∧ q.nextPageId = p.nextPageId

/-- The loop over the directory leaves the ids of the page alone. -/
theorem sameIds_moveOffsets (p : TablePage) (bound low high n : Nat) :
    SameIds p (p.moveOffsets bound low high n) := by
  induction n with
  | zero => exact ⟨rfl, rfl, rfl⟩
  | succ n ih =>
    unfold TablePage.moveOffsets
    dsimp only
    split
    · exact ih
    · exact ih

/-- `UpdateTuple` on a live tuple, if the new row fits. -/
theorem Layout.updateTuple_some (h : p.Layout) {row : Row} {k : Nat} (hk : k ∈ p.used)
    (hlive : isDeleted (p.getTupleSize k) = false)
    (hroom : directoryEnd p.getTupleCount + row.bytes.length ≤
      p.getFreeSpacePointer + p.tupleLength k) :
    ∃ q, p.updateTuple row k = some (true, q) ∧ Resized row.bytes k p q ∧ SameIds p q := by
  have hin := h.tiles.inside k hk
  have hptr := h.pointer
  have hdir := h.directory
  have hsize := h.tupleSize_eq hk hlive
  have hpage : PAGE_SIZE = 4096 := rfl
  have hcond : ¬ p.getFreeSpaceRemaining + p.tupleLength k < row.bytes.length := by
    rw [h.getFreeSpaceRemaining]
    omega
  unfold TablePage.updateTuple Row.getSerializedSize
  rw [if_neg (Nat.not_le_of_lt hk.1)]
  dsimp only
  rw [hlive, if_neg Bool.false_ne_true, hsize, if_neg hcond, if_neg (Nat.not_lt_of_le hin.2.1)]
  generalize hfsp' : p.getFreeSpacePointer + p.tupleLength k - row.bytes.length = fsp'
  -- the tuples below move, the pointer moves, and the row is written
  generalize hp1 : ({ p with
      data := p.data.move fsp' p.getFreeSpacePointer
        (p.getTupleOffsetAtSlot k - p.getFreeSpacePointer) } : TablePage) = p1
  have hsame1 : SameDirectory p.getTupleCount p p1 := by
    intro a ha
    rw [← hp1]
    exact Bytes.move_of_outside (by omega)
  generalize hp2 : p1.setFreeSpacePointer fsp' = p2
  have hdata2 : ∀ a, directoryEnd p.getTupleCount ≤ a → p2.data a = p1.data a :=
    hp2 ▸ sameTuples_setFreeSpacePointer
  generalize hp3 : ({ p2 with
      data := p2.data.blit (p.getTupleOffsetAtSlot k + p.tupleLength k - row.bytes.length)
        row.bytes } : TablePage) = p3
  have hsame3 : SameDirectory p.getTupleCount p2 p3 := by
    intro a ha
    rw [← hp3]
    exact Bytes.blit_of_outside (by omega)
  generalize hp4 : p3.setTupleSize k row.bytes.length = p4
  have hdata4 : ∀ a, directoryEnd p.getTupleCount ≤ a → p4.data a = p3.data a :=
    hp4 ▸ sameTuples_setTupleSize hk.1
  have hcount4 : p4.getTupleCount = p.getTupleCount := by
    rw [← hp4, getTupleCount_setTupleSize, hsame3.getTupleCount, ← hp2,
      getTupleCount_setFreeSpacePointer, hsame1.getTupleCount]
  have hmoved : Moved row.bytes k p p4 := by
    refine ⟨hcount4, ?_, fun i hi => ?_, fun i hi _ => ?_, ?_, fun a hlow hhigh => ?_,
      fun a ha => ?_⟩
    · rw [← hp4, getFreeSpacePointer_setTupleSize, hsame3.getFreeSpacePointer, ← hp2,
        getFreeSpacePointer_setFreeSpacePointer (by omega), hfsp']
    · rw [← hp4, getTupleSize_setTupleSize row.size_lt, hsame3.getTupleSize hi, ← hp2,
        getTupleSize_setFreeSpacePointer, hsame1.getTupleSize hi]
    · rw [← hp4, getTupleOffsetAtSlot_setTupleSize, hsame3.getTupleOffsetAtSlot hi, ← hp2,
        getTupleOffsetAtSlot_setFreeSpacePointer, hsame1.getTupleOffsetAtSlot hi]
    · refine Eq.trans (Bytes.slice_congr (fun i hi => hdata4 _ (by omega))) ?_
      rw [← hp3]
      exact Bytes.slice_blit_self
    · rw [hdata4 _ (by omega), ← hp3]
      refine (Bytes.blit_of_outside (by omega)).trans ?_
      rw [hdata2 _ (by omega), ← hp1]
      refine (Bytes.move_of_inside (by omega) (by omega)).trans (congrArg p.data ?_)
      omega
    · rw [hdata4 _ (by omega), ← hp3]
      refine (Bytes.blit_of_outside (by omega)).trans ?_
      rw [hdata2 _ (by omega), ← hp1]
      exact Bytes.move_of_outside (by omega)
  rw [hcount4]
  refine ⟨_, rfl, hmoved.moveOffsets h hk hroom (fun _ _ _ => Iff.rfl) hin.2.2, ?_⟩
  have hids := sameIds_moveOffsets p4 (p.getTupleOffsetAtSlot k + p.tupleLength k)
    row.bytes.length (p.tupleLength k) p.getTupleCount
  rw [← hp4, ← hp3, ← hp2, ← hp1] at hids ⊢
  exact hids

/-- The cases of `UpdateTuple`. -/
theorem Layout.updateTuple_cases (h : p.Layout) (row : Row) (k : Nat) :
    (p.updateTuple row k = some (false, p) ∧ (k ∉ p.used ∨ isDeleted (p.getTupleSize k) = true ∨
      p.getFreeSpacePointer + p.tupleLength k < directoryEnd p.getTupleCount + row.bytes.length)) ∨
      (k ∈ p.used ∧ isDeleted (p.getTupleSize k) = false ∧
        ∃ q, p.updateTuple row k = some (true, q) ∧ Resized row.bytes k p q ∧ SameIds p q) := by
  by_cases hcount : p.getTupleCount ≤ k
  · left
    refine ⟨?_, .inl (fun hk => Nat.not_lt_of_le hcount hk.1)⟩
    unfold TablePage.updateTuple
    rw [if_pos hcount]
  cases hlive : isDeleted (p.getTupleSize k) with
  | true =>
    left
    refine ⟨?_, .inr (.inl rfl)⟩
    unfold TablePage.updateTuple
    rw [if_neg hcount]
    dsimp only
    rw [hlive, if_pos rfl]
  | false =>
    have hk := mem_used_of_live hcount hlive
    by_cases hroom : directoryEnd p.getTupleCount + row.bytes.length ≤
        p.getFreeSpacePointer + p.tupleLength k
    · exact .inr ⟨hk, rfl, h.updateTuple_some hk hlive hroom⟩
    · left
      refine ⟨?_, .inr (.inr (Nat.lt_of_not_le hroom))⟩
      have hsize := h.tupleSize_eq hk hlive
      unfold TablePage.updateTuple Row.getSerializedSize
      rw [if_neg hcount]
      dsimp only
      rw [hlive, if_neg Bool.false_ne_true, hsize, if_pos]
      rw [h.getFreeSpaceRemaining]
      have hdir := h.directory
      omega

/-- `ApplyDelete` on a slot with a tuple. -/
theorem Layout.applyDelete_some (h : p.Layout) {k : Nat} (hk : k ∈ p.used) :
    ∃ q, p.applyDelete k = some q ∧ Resized [] k p q ∧ SameIds p q := by
  have hin := h.tiles.inside k hk
  have hptr := h.pointer
  have hdir := h.directory
  have hpage : PAGE_SIZE = 4096 := rfl
  have hlen : (if isDeleted (p.getTupleSize k) then unsetDeletedFlag (p.getTupleSize k)
      else p.getTupleSize k) = p.tupleLength k := by
    cases hlive : isDeleted (p.getTupleSize k) with
    | true =>
      rw [if_pos rfl]
      rfl
    | false => rw [if_neg Bool.false_ne_true, h.tupleSize_eq hk hlive]
  unfold TablePage.applyDelete
  rw [if_neg (Nat.not_le_of_lt hk.1)]
  dsimp only
  rw [hlen, if_neg (Nat.not_lt_of_le hin.2.1)]
  -- the tuples in front of the deleted one move up by its length
  generalize hp1 : ({ p with
      data := p.data.move (p.getFreeSpacePointer + p.tupleLength k) p.getFreeSpacePointer
        (p.getTupleOffsetAtSlot k - p.getFreeSpacePointer) } : TablePage) = p1
  have hsame1 : SameDirectory p.getTupleCount p p1 := by
    intro a ha
    rw [← hp1]
    exact Bytes.move_of_outside (by omega)
  generalize hp2 : p1.setFreeSpacePointer (p.getFreeSpacePointer + p.tupleLength k) = p2
  have hdata2 : ∀ a, directoryEnd p.getTupleCount ≤ a → p2.data a = p1.data a :=
    hp2 ▸ sameTuples_setFreeSpacePointer
  generalize hp4 : (p2.setTupleSize k 0).setTupleOffsetAtSlot k 0 = p4
  have hdata4 : ∀ a, directoryEnd p.getTupleCount ≤ a → p4.data a = p2.data a :=
    hp4 ▸ (sameTuples_setTupleSize hk.1).trans (sameTuples_setTupleOffsetAtSlot hk.1)
  have hcount4 : p4.getTupleCount = p.getTupleCount := by
    rw [← hp4, getTupleCount_setTupleOffsetAtSlot, getTupleCount_setTupleSize, ← hp2,
      getTupleCount_setFreeSpacePointer, hsame1.getTupleCount]
  have hmoved : Moved [] k p p4 := by
    refine ⟨hcount4, ?_, fun i hi => ?_, fun i hi hik => ?_, rfl, fun a hlow hhigh => ?_,
      fun a ha => ?_⟩
    · rw [← hp4, getFreeSpacePointer_setTupleOffsetAtSlot, getFreeSpacePointer_setTupleSize,
        ← hp2, getFreeSpacePointer_setFreeSpacePointer (by omega)]
      rfl
    · rw [← hp4, getTupleSize_setTupleOffsetAtSlot, getTupleSize_setTupleSize (by omega), ← hp2,
        getTupleSize_setFreeSpacePointer, hsame1.getTupleSize hi]
      rfl
    · rw [← hp4, getTupleOffsetAtSlot_setTupleOffsetAtSlot (by omega),
        if_neg (fun heq => Nat.lt_irrefl 0 (hik heq)), getTupleOffsetAtSlot_setTupleSize, ← hp2,
        getTupleOffsetAtSlot_setFreeSpacePointer, hsame1.getTupleOffsetAtSlot hi]
    · show p4.data (a + p.tupleLength k) = p.data a
      rw [hdata4 _ (by omega), hdata2 _ (by omega), ← hp1]
      refine (Bytes.move_of_inside (by omega) (by omega)).trans (congrArg p.data ?_)
      omega
    · rw [hdata4 _ (by omega), hdata2 _ (by omega), ← hp1]
      exact Bytes.move_of_outside (by omega)
  rw [hcount4]
  refine ⟨_, rfl, hmoved.moveOffsets h hk (by show _ + 0 ≤ _; omega) (fun i hi hik => ?_)
    (by omega), ?_⟩
  · -- a tuple below the end of the deleted one is below its beginning
    have hne : i ≠ k := fun heq => Nat.lt_irrefl 0 (hik heq)
    have := h.tiles.inside i hi
    have := h.tiles.disjoint i hi k hk hne
    omega
  · have hids := sameIds_moveOffsets p4 (p.getTupleOffsetAtSlot k) 0 (p.tupleLength k)
      p.getTupleCount
    rw [← hp4, ← hp2, ← hp1] at hids ⊢
    exact hids

/-- The delete flag of a tuple is set or taken away, and its length stays. -/
theorem Layout.setTupleSize (h : p.Layout) {k : Nat} (hk : k ∈ p.used) (hv : v < 2 ^ 32)
    (hlen : unsetDeletedFlag v = p.tupleLength k) :
    (p.setTupleSize k v).Layout ∧
      ∀ bytes flag, p.view k = some (bytes, flag) →
        (p.setTupleSize k v).view = Function.update p.view k (some (bytes, isDeleted v)) := by
  have hin := h.tiles.inside k hk
  have hdir := h.directory
  have hne : v ≠ 0 := by
    rintro rfl
    rw [show unsetDeletedFlag 0 = 0 from rfl] at hlen
    omega
  have hsize : ∀ i, (p.setTupleSize k v).getTupleSize i = if i = k then v else p.getTupleSize i :=
    fun i => getTupleSize_setTupleSize hv
  have hused : (p.setTupleSize k v).used = p.used := by
    ext i
    show i < (p.setTupleSize k v).getTupleCount ∧ _ ↔ _
    rw [getTupleCount_setTupleSize, hsize]
    by_cases hik : i = k
    · subst hik
      rw [if_pos rfl]
      exact ⟨fun _ => hk, fun _ => ⟨hk.1, hne⟩⟩
    · rw [if_neg hik]
      exact Iff.rfl
  have hlength : ∀ i, (p.setTupleSize k v).tupleLength i = p.tupleLength i := by
    intro i
    unfold tupleLength
    rw [hsize]
    split
    · next hik =>
      subst hik
      exact hlen
    · rfl
  have hdata : SameTuples p.getTupleCount p (p.setTupleSize k v) := sameTuples_setTupleSize hk.1
  have hslice : ∀ i ∈ p.used,
      (p.setTupleSize k v).data.slice (p.getTupleOffsetAtSlot i) (p.tupleLength i) =
        p.data.slice (p.getTupleOffsetAtSlot i) (p.tupleLength i) := by
    intro i hi
    have hini := h.tiles.inside i hi
    exact Bytes.slice_congr (fun a _ => hdata _ (by omega))
  refine ⟨⟨?_, ?_, ?_⟩, fun bytes flag hview => ?_⟩
  · rw [getTupleCount_setTupleSize, getFreeSpacePointer_setTupleSize]
    exact h.directory
  · rw [getFreeSpacePointer_setTupleSize]
    exact h.pointer
  · rw [getFreeSpacePointer_setTupleSize]
    exact h.tiles.congr hused (fun i _ => ⟨getTupleOffsetAtSlot_setTupleSize, hlength i⟩)
  · rw [view_of_mem hk, Option.some.injEq, Prod.mk.injEq] at hview
    funext i
    by_cases hik : i = k
    · subst hik
      rw [Function.update_self, view_of_mem (hused ▸ hk), getTupleOffsetAtSlot_setTupleSize,
        hlength, hslice i hk, hview.1, hsize, if_pos rfl]
    · rw [Function.update_of_ne hik]
      by_cases hi : i ∈ p.used
      · rw [view_of_mem (hused ▸ hi), view_of_mem hi, getTupleOffsetAtSlot_setTupleSize, hlength,
          hslice i hi, hsize, if_neg hik]
      · rw [view_of_not_mem (hused ▸ hi), view_of_not_mem hi]

/-- Marking and unmarking gives the size back. -/
theorem unsetDeletedFlag_setDeletedFlag (h : n < DELETE_MASK) :
    unsetDeletedFlag (setDeletedFlag n) = n := by
  rw [setDeletedFlag_of_lt h, unsetDeletedFlag_eq, Nat.add_mod_left, Nat.mod_eq_of_lt h]

/-- A marked row is recognised as such. -/
theorem isDeleted_setDeletedFlag (h : n < DELETE_MASK) : isDeleted (setDeletedFlag n) = true := by
  rw [setDeletedFlag_of_lt h]
  unfold isDeleted
  have := and_deleteMask_add h
  simp [this]

/-- A slot has a live tuple exactly if the map has one there. -/
theorem view_eq_live_iff {bytes : List UInt8} : p.view i = some (bytes, false) ↔
    i ∈ p.used ∧ isDeleted (p.getTupleSize i) = false ∧
      p.data.slice (p.getTupleOffsetAtSlot i) (p.tupleLength i) = bytes := by
  by_cases hi : i ∈ p.used
  · rw [view_of_mem hi, Option.some.injEq, Prod.mk.injEq]
    exact ⟨fun h => ⟨hi, h.2, h.1⟩, fun h => ⟨h.2.2, h.2.1⟩⟩
  · rw [view_of_not_mem hi]
    exact ⟨fun h => (nomatch h), fun h => absurd h.1 hi⟩

/-- The cases of `MarkDelete`. -/
theorem Layout.markDelete_cases (h : p.Layout) (k : Nat) :
    (p.markDelete k = (false, p) ∧ ∀ bytes, p.view k ≠ some (bytes, false)) ∨
      ∃ bytes q, p.view k = some (bytes, false) ∧ p.markDelete k = (true, q) ∧ q.Layout ∧
        q.view = Function.update p.view k (some (bytes, true)) ∧
        q.getTupleCount = p.getTupleCount ∧ q.getFreeSpacePointer = p.getFreeSpacePointer ∧
        SameIds p q := by
  by_cases hcount : p.getTupleCount ≤ k
  · left
    refine ⟨?_, fun bytes hview => Nat.not_lt_of_le hcount (view_eq_live_iff.mp hview).1.1⟩
    unfold TablePage.markDelete
    rw [if_pos hcount]
  cases hlive : isDeleted (p.getTupleSize k) with
  | true =>
    left
    refine ⟨?_, fun bytes hview => ?_⟩
    · unfold TablePage.markDelete
      rw [if_neg hcount]
      dsimp only
      rw [hlive, if_pos rfl]
    · have hnot := (view_eq_live_iff.mp hview).2.1
      rw [hlive] at hnot
      cases hnot
  | false =>
    right
    have hk := mem_used_of_live hcount hlive
    have hsize := h.tupleSize_eq hk hlive
    have hin := h.tiles.inside k hk
    have hlt : p.tupleLength k < DELETE_MASK := by
      unfold PAGE_SIZE DELETE_MASK at *
      omega
    have hflag : setDeletedFlag (p.tupleLength k) < 2 ^ 32 := by
      rw [setDeletedFlag_of_lt hlt]
      unfold DELETE_MASK at *
      omega
    obtain ⟨hlayout, hview⟩ := h.setTupleSize hk hflag (unsetDeletedFlag_setDeletedFlag hlt)
    have hold := view_eq_live_iff.mpr ⟨hk, hlive, rfl⟩
    refine ⟨_, _, hold, ?_, hlayout, ?_, getTupleCount_setTupleSize,
      getFreeSpacePointer_setTupleSize, ⟨rfl, rfl, rfl⟩⟩
    · unfold TablePage.markDelete
      rw [if_neg hcount]
      dsimp only
      rw [hlive, if_neg Bool.false_ne_true, hsize, if_pos hin.1]
    · rw [hview _ _ hold, isDeleted_setDeletedFlag hlt]

/-- The cases of `RollbackDelete` on a slot of the directory. -/
theorem Layout.rollbackDelete_cases (h : p.Layout) {k : Nat} (hcount : k < p.getTupleCount) :
    (p.view k = none ∧ p.rollbackDelete k = some p) ∨
      ∃ bytes flag q, p.view k = some (bytes, flag) ∧ p.rollbackDelete k = some q ∧ q.Layout ∧
        q.view = Function.update p.view k (some (bytes, false)) ∧
        q.getTupleCount = p.getTupleCount ∧ q.getFreeSpacePointer = p.getFreeSpacePointer ∧
        SameIds p q := by
  unfold TablePage.rollbackDelete
  rw [if_neg (Nat.not_le_of_lt hcount)]
  dsimp only
  by_cases hk : k ∈ p.used
  · right
    have hin := h.tiles.inside k hk
    have hlt : p.tupleLength k < DELETE_MASK := by
      unfold PAGE_SIZE DELETE_MASK at *
      omega
    have hlive := isDeleted_of_lt hin.1 hlt
    cases hflag : isDeleted (p.getTupleSize k) with
    | true =>
      have hunset : unsetDeletedFlag (unsetDeletedFlag (p.getTupleSize k)) = p.tupleLength k := by
        show unsetDeletedFlag (p.tupleLength k) = _
        rw [unsetDeletedFlag_eq, Nat.mod_eq_of_lt hlt]
      have hfit : unsetDeletedFlag (p.getTupleSize k) < 2 ^ 32 := by
        show p.tupleLength k < _
        unfold DELETE_MASK at hlt
        omega
      obtain ⟨hlayout, hview⟩ := h.setTupleSize hk hfit hunset
      refine ⟨_, true, _, (view_of_mem hk).trans (by rw [hflag]), by rw [if_pos rfl], hlayout, ?_,
        getTupleCount_setTupleSize, getFreeSpacePointer_setTupleSize, ⟨rfl, rfl, rfl⟩⟩
      rw [hview _ _ (view_of_mem hk)]
      exact congrArg (fun b => Function.update p.view k (some (_, b))) hlive
    | false =>
      refine ⟨_, false, p, (view_of_mem hk).trans (by rw [hflag]),
        by rw [if_neg Bool.false_ne_true], h, ?_, rfl, rfl, ⟨rfl, rfl, rfl⟩⟩
      rw [← hflag, ← view_of_mem hk, Function.update_eq_self]
  · left
    refine ⟨view_of_not_mem hk, ?_⟩
    have hzero : p.getTupleSize k = 0 := by
      by_contra hne
      exact hk ⟨hcount, hne⟩
    -- the flag of an empty slot is taken away from zero
    have hset : p.setTupleSize k (p.getTupleSize k) = p := by
      unfold TablePage.setTupleSize TablePage.getTupleSize
      rw [Bytes.set32_get32_self]
    rw [hzero] at hset ⊢
    rw [show isDeleted 0 = true from rfl, if_pos rfl]
    exact congrArg some hset

/-! ### Every operation -/

/-- The layout depends on the directory of the used slots only. -/
theorem Layout.of_directory (h : p.Layout) (hcount : q.getTupleCount = p.getTupleCount)
    (hfsp : q.getFreeSpacePointer = p.getFreeSpacePointer)
    (hsize : ∀ i < p.getTupleCount, q.getTupleSize i = p.getTupleSize i)
    (hoff : ∀ i ∈ p.used, q.getTupleOffsetAtSlot i = p.getTupleOffsetAtSlot i) : q.Layout := by
  have hused : q.used = p.used := by
    ext i
    show i < q.getTupleCount ∧ q.getTupleSize i ≠ 0 ↔ i < p.getTupleCount ∧ p.getTupleSize i ≠ 0
    rw [hcount]
    exact and_congr_right (fun hi => by rw [hsize i hi])
  refine ⟨?_, ?_, ?_⟩
  · rw [hcount, hfsp]
    exact h.directory
  · rw [hfsp]
    exact h.pointer
  · rw [hfsp]
    refine h.tiles.congr hused (fun i hi => ⟨hoff i hi, ?_⟩)
    unfold tupleLength
    rw [hsize i hi.1]

theorem SameIds.refl (p : TablePage) : SameIds p p := ⟨rfl, rfl, rfl⟩

/-- `ApplyDelete` on an empty slot moves nothing. -/
theorem Layout.applyDelete_empty (h : p.Layout) {k : Nat} (hcount : k < p.getTupleCount)
    (hk : k ∉ p.used) (hq : p.applyDelete k = some q) :
    q.Layout ∧ q.getTupleCount = p.getTupleCount ∧
      q.getFreeSpacePointer = p.getFreeSpacePointer ∧ SameIds p q := by
  have hdir := h.directory
  have hptr := h.pointer
  have hpage : PAGE_SIZE = 4096 := rfl
  have hzero : p.getTupleSize k = 0 := by
    by_contra hne
    exact hk ⟨hcount, hne⟩
  unfold TablePage.applyDelete at hq
  rw [if_neg (Nat.not_le_of_lt hcount)] at hq
  dsimp only at hq
  rw [hzero, show (if isDeleted 0 then unsetDeletedFlag 0 else 0) = 0 from rfl] at hq
  split at hq
  · exact nomatch hq
  generalize hp1 : ({ p with
      data := p.data.move (p.getFreeSpacePointer + 0) p.getFreeSpacePointer
        (p.getTupleOffsetAtSlot k - p.getFreeSpacePointer) } : TablePage) = p1 at hq
  have hsame1 : SameDirectory p.getTupleCount p p1 := by
    intro a ha
    rw [← hp1]
    exact Bytes.move_of_outside (by omega)
  generalize hp4 : ((p1.setFreeSpacePointer (p.getFreeSpacePointer + 0)).setTupleSize k 0
    ).setTupleOffsetAtSlot k 0 = p4 at hq
  obtain rfl := Option.some.inj hq
  by_cases hfit : p.getTupleOffsetAtSlot k + 0 ≤ 2 ^ 32
  · have hm := moveOffsets_spec p4 (p.getTupleOffsetAtSlot k) 0 0 p4.getTupleCount hfit
    have hcount' : (p4.moveOffsets (p.getTupleOffsetAtSlot k) 0 0 p4.getTupleCount).getTupleCount =
        p.getTupleCount := by
      rw [hm.getTupleCount, ← hp4, getTupleCount_setTupleOffsetAtSlot, getTupleCount_setTupleSize,
        getTupleCount_setFreeSpacePointer, hsame1.getTupleCount]
    have hfsp' : (p4.moveOffsets (p.getTupleOffsetAtSlot k) 0 0
        p4.getTupleCount).getFreeSpacePointer = p.getFreeSpacePointer := by
      rw [hm.getFreeSpacePointer, ← hp4, getFreeSpacePointer_setTupleOffsetAtSlot,
        getFreeSpacePointer_setTupleSize, getFreeSpacePointer_setFreeSpacePointer (by omega)]
      rfl
    refine ⟨h.of_directory hcount' hfsp' (fun i hi => ?_) (fun i hi => ?_), hcount', hfsp', ?_⟩
    · rw [hm.getTupleSize, ← hp4, getTupleSize_setTupleOffsetAtSlot,
        getTupleSize_setTupleSize (by omega), getTupleSize_setFreeSpacePointer,
        hsame1.getTupleSize hi]
      split
      · next hik => rw [hik, hzero]
      · rfl
    · have hik : i ≠ k := fun heq => hk (heq ▸ hi)
      rw [hm.getTupleOffsetAtSlot, Nat.add_zero, Nat.sub_zero, ite_self, ← hp4,
        getTupleOffsetAtSlot_setTupleOffsetAtSlot (by omega), if_neg hik,
        getTupleOffsetAtSlot_setTupleSize, getTupleOffsetAtSlot_setFreeSpacePointer,
        hsame1.getTupleOffsetAtSlot hi.1]
    · have hids := sameIds_moveOffsets p4 (p.getTupleOffsetAtSlot k) 0 0 p4.getTupleCount
      rw [← hp4, ← hp1] at hids ⊢
      exact hids
  · exact absurd (Nat.le_of_lt (Bytes.get32_lt _ _)) hfit

/-- Every operation keeps the layout and the ids of a page. -/
theorem Layout.step_keeps (h : p.Layout) {op : PageOp} {answer : Bool}
    (hstep : p.step op = some (answer, q)) : q.Layout ∧ SameIds p q := by
  cases op with
  | insertTuple row =>
    obtain ⟨_, rfl⟩ := Prod.mk.inj (Option.some.inj hstep)
    by_cases hroom : directoryEnd (p.getTupleCount + 1) + row.bytes.length ≤ p.getFreeSpacePointer
    · obtain ⟨q, heq, hins, hids⟩ := h.insertTuple_some hroom
      rw [heq]
      exact ⟨hins.layout h, hids⟩
    · rw [h.insertTuple_none (Nat.lt_of_not_le hroom)]
      exact ⟨h, .refl p⟩
  | markDelete k =>
    have hstep : p.markDelete k = (answer, q) := Option.some.inj hstep
    rcases h.markDelete_cases k with ⟨heq, _⟩ | ⟨_, r, _, heq, hlayout, _, _, _, hids⟩
    · obtain ⟨_, rfl⟩ := Prod.mk.inj (heq.symm.trans hstep)
      exact ⟨h, .refl p⟩
    · obtain ⟨_, rfl⟩ := Prod.mk.inj (heq.symm.trans hstep)
      exact ⟨hlayout, hids⟩
  | updateTuple row k =>
    have hstep : p.updateTuple row k = some (answer, q) := hstep
    rcases h.updateTuple_cases row k with ⟨heq, _⟩ | ⟨hk, _, r, heq, hres, hids⟩
    · obtain ⟨_, rfl⟩ := Prod.mk.inj (Option.some.inj (heq.symm.trans hstep))
      exact ⟨h, .refl p⟩
    · obtain ⟨_, rfl⟩ := Prod.mk.inj (Option.some.inj (heq.symm.trans hstep))
      exact ⟨hres.layout h hk, hids⟩
  | applyDelete k =>
    obtain ⟨r, hr, heq⟩ := Option.map_eq_some_iff.mp
      (show (p.applyDelete k).map (fun p => (true, p)) = some (answer, q) from hstep)
    obtain ⟨_, rfl⟩ := Prod.mk.inj heq
    by_cases hcount : p.getTupleCount ≤ k
    · unfold TablePage.applyDelete at hr
      rw [if_pos hcount] at hr
      exact nomatch hr
    by_cases hk : k ∈ p.used
    · obtain ⟨q, hq, hres, hids⟩ := h.applyDelete_some hk
      obtain rfl := Option.some.inj (hq.symm.trans hr)
      exact ⟨hres.layout h hk, hids⟩
    · obtain ⟨hlayout, -, -, hids⟩ := h.applyDelete_empty (Nat.lt_of_not_le hcount) hk hr
      exact ⟨hlayout, hids⟩
  | rollbackDelete k =>
    obtain ⟨r, hr, heq⟩ := Option.map_eq_some_iff.mp
      (show (p.rollbackDelete k).map (fun p => (true, p)) = some (answer, q) from hstep)
    obtain ⟨_, rfl⟩ := Prod.mk.inj heq
    by_cases hcount : p.getTupleCount ≤ k
    · unfold TablePage.rollbackDelete at hr
      rw [if_pos hcount] at hr
      exact nomatch hr
    rcases h.rollbackDelete_cases (Nat.lt_of_not_le hcount) with
      ⟨_, hq⟩ | ⟨_, _, q, _, hq, hlayout, _, _, _, hids⟩
    · obtain rfl := Option.some.inj (hq.symm.trans hr)
      exact ⟨h, .refl p⟩
    · obtain rfl := Option.some.inj (hq.symm.trans hr)
      exact ⟨hlayout, hids⟩

end TablePage

end DisMiniSql.MiniSql.Heap
