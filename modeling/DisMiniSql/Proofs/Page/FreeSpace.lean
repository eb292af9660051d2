import DisMiniSql.Proofs.Page.SlotMap

/-!
# `DisMiniSql.Proofs.Page.FreeSpace`: the free space that a table page reports

`GetFreeSpace` is what is left behind one more entry of the directory, in 32 bits. With a layout,
the other three computations of space are exact, and this one is exactly if there is room for an
entry (`Layout.spaceExact_iff`). A page without that room reports almost `2 ^ 32` bytes.

* `LeavesSlot`: the condition on an operation under which the room stays.
* `freeSpace_exact_iff`: a run keeps the report exact in every state if its operations meet the
  condition, and only then.
-/

set_option autoImplicit false

namespace DisMiniSql.MiniSql.Heap

open DisMiniSql.Lib (Bytes Steps)

namespace TablePage

variable {p q : TablePage} {k : Nat}

/-- The space that a page reports is the space that it has. `InsertTuple` succeeds for the rows that
fit in it, and no computation of space leaves the numbers of 32 bits. -/
structure SpaceExact (p : TablePage) : Prop where
  fits : ∀ row : Row, (p.insertTuple row).1.isSome = true ↔ row.getSerializedSize ≤ p.getFreeSpace
  freeSpace : (p.getFreeSpace : Int) =
    p.getFreeSpacePointer - SIZE_TABLE_PAGE_HEADER - SIZE_TUPLE * p.getTupleCount - SIZE_TUPLE
  remaining : (p.getFreeSpaceRemaining : Int) =
    p.getFreeSpacePointer - SIZE_TABLE_PAGE_HEADER - SIZE_TUPLE * p.getTupleCount
  insertCheck : ∀ row : Row, row.getSerializedSize + SIZE_TUPLE < 2 ^ 64
  updateCheck : ∀ k < p.getTupleCount, isDeleted (p.getTupleSize k) = false →
    p.getFreeSpaceRemaining + p.getTupleSize k < 2 ^ 32

/-- There is room for one more entry of the directory. -/
def HasSlot (p : TablePage) : Prop := directoryEnd (p.getTupleCount + 1) ≤ p.getFreeSpacePointer

/-- The operation leaves room for an entry. A row that fits and takes a new entry leaves room for
the next one, and an update that fits leaves room for one. -/
def LeavesSlot (p : TablePage) : PageOp → Prop
  | .insertTuple row =>
    p.freeSlot = p.getTupleCount →
      directoryEnd (p.getTupleCount + 1) + row.getSerializedSize ≤ p.getFreeSpacePointer →
        directoryEnd (p.getTupleCount + 2) + row.getSerializedSize ≤ p.getFreeSpacePointer
  | .updateTuple row slotNum =>
    slotNum < p.getTupleCount → isDeleted (p.getTupleSize slotNum) = false →
      directoryEnd p.getTupleCount + row.getSerializedSize ≤
          p.getFreeSpacePointer + p.getTupleSize slotNum →
        directoryEnd (p.getTupleCount + 1) + row.getSerializedSize ≤
          p.getFreeSpacePointer + p.getTupleSize slotNum
  | _ => True

/-- An operation leads to a page. -/
def Leads (p : TablePage) (op : PageOp) (q : TablePage) : Prop :=
  ∃ answer, p.step op = some (answer, q)

/-- `InsertTuple` succeeds when the row and an entry of the directory fit. -/
theorem Layout.insertTuple_isSome_iff (h : p.Layout) (row : Row) :
    (p.insertTuple row).1.isSome = true ↔
      directoryEnd (p.getTupleCount + 1) + row.getSerializedSize ≤ p.getFreeSpacePointer := by
  by_cases hroom : directoryEnd (p.getTupleCount + 1) + row.bytes.length ≤ p.getFreeSpacePointer
  · obtain ⟨q, heq, -⟩ := h.insertTuple_some hroom
    rw [heq]
    exact iff_of_true rfl hroom
  · rw [h.insertTuple_none (Nat.lt_of_not_le hroom)]
    exact iff_of_false Bool.false_ne_true hroom

/-- What the page reports with room for an entry. -/
theorem Layout.getFreeSpace_of_hasSlot (h : p.Layout) (hslot : p.HasSlot) :
    p.getFreeSpace = p.getFreeSpacePointer - directoryEnd (p.getTupleCount + 1) := by
  have hptr := h.pointer
  unfold HasSlot at hslot
  rw [TablePage.getFreeSpace, h.getFreeSpaceRemaining]
  unfold directoryEnd SIZE_TABLE_PAGE_HEADER SIZE_TUPLE PAGE_SIZE at *
  omega

/-- What it reports without. -/
theorem Layout.lt_getFreeSpace_of_not_hasSlot (h : p.Layout) (hslot : ¬ p.HasSlot) :
    PAGE_SIZE < p.getFreeSpace := by
  have hptr := h.pointer
  have hdir := h.directory
  unfold HasSlot at hslot
  rw [TablePage.getFreeSpace, h.getFreeSpaceRemaining]
  unfold directoryEnd SIZE_TABLE_PAGE_HEADER SIZE_TUPLE PAGE_SIZE at *
  omega

/-- A row of the least size. -/
def leastRow : Row := ⟨List.replicate 12 0, by decide, by decide⟩

/-- The report is exact exactly with room for an entry. -/
theorem Layout.spaceExact_iff (h : p.Layout) : p.SpaceExact ↔ p.HasSlot := by
  have hptr := h.pointer
  have hdir := h.directory
  constructor
  · intro hexact
    by_contra hslot
    -- a small row fits into what is reported, but not into the page
    have hlarge := h.lt_getFreeSpace_of_not_hasSlot hslot
    have hsome := (hexact.fits leastRow).mpr (by
      show 12 ≤ p.getFreeSpace
      unfold PAGE_SIZE at hlarge
      omega)
    have hroom := (h.insertTuple_isSome_iff leastRow).mp hsome
    exact hslot (Nat.le_trans (Nat.le_add_right _ _) hroom)
  · intro hslot
    have hspace := h.getFreeSpace_of_hasSlot hslot
    have hremaining := h.getFreeSpaceRemaining
    unfold HasSlot at hslot
    refine ⟨fun row => ?_, ?_, ?_, fun row => ?_, fun k hk hlive => ?_⟩
    · rw [h.insertTuple_isSome_iff, hspace]
      omega
    · rw [hspace]
      unfold directoryEnd SIZE_TABLE_PAGE_HEADER SIZE_TUPLE at *
      omega
    · rw [hremaining]
      unfold directoryEnd SIZE_TABLE_PAGE_HEADER SIZE_TUPLE at *
      omega
    · have hsize := row.size_lt
      unfold Row.getSerializedSize SIZE_TUPLE
      omega
    · have hused := mem_used_of_live (Nat.not_le_of_lt hk) hlive
      have hsize := h.tupleSize_eq hused hlive
      have hin := h.size_cases hused
      rw [hremaining, hsize]
      unfold PAGE_SIZE at *
      omega

/-- Where the pointer and the directory stay, the room for an entry stays. -/
theorem hasSlot_congr (hcount : q.getTupleCount = p.getTupleCount)
    (hptr : p.getFreeSpacePointer ≤ q.getFreeSpacePointer) (hslot : p.HasSlot) : q.HasSlot := by
  unfold HasSlot at *
  rw [hcount]
  exact Nat.le_trans hslot hptr

/-- An insert keeps room for one more directory entry exactly when it leaves one: it takes the bytes
of the row and, unless an empty slot is reused, a new entry. -/
theorem Layout.hasSlot_insertTuple (h : p.Layout) (hslot : p.HasSlot) (row : Row) :
    (p.insertTuple row).2.HasSlot ↔ p.LeavesSlot (.insertTuple row) := by
  by_cases hroom : directoryEnd (p.getTupleCount + 1) + row.bytes.length ≤ p.getFreeSpacePointer
  · obtain ⟨q, heq, hins, -⟩ := h.insertTuple_some hroom
    have hptr := hins.getFreeSpacePointer
    have hcount := hins.getTupleCount
    have hle := p.freeSlot_spec.2
    rw [heq]
    show directoryEnd (q.getTupleCount + 1) ≤ q.getFreeSpacePointer ↔ _
    rw [hcount]
    -- a new entry moves the end of the directory, a reused one does not
    by_cases hnew : p.freeSlot = p.getTupleCount
    · rw [hnew, max_eq_right (Nat.le_add_right _ 1)]
      constructor
      · intro hleft _ _
        show directoryEnd (p.getTupleCount + 1 + 1) + row.bytes.length ≤ p.getFreeSpacePointer
        omega
      · intro hleaves
        have hleft : directoryEnd (p.getTupleCount + 1 + 1) + row.bytes.length ≤
            p.getFreeSpacePointer := hleaves hnew hroom
        omega
    · -- an empty slot is taken again, and the directory stays
      rw [max_eq_left (by omega)]
      exact iff_of_true hins.room fun heq => absurd heq hnew
  · rw [h.insertTuple_none (Nat.lt_of_not_le hroom)]
    exact iff_of_true hslot fun _ hfits => absurd hfits hroom

/-- An update keeps room for one more directory entry exactly when the longer row leaves it. -/
theorem Layout.hasSlot_updateTuple (h : p.Layout) (hslot : p.HasSlot) {row : Row} {k : Nat}
    {answer : Bool} (hstep : p.updateTuple row k = some (answer, q)) :
    q.HasSlot ↔ p.LeavesSlot (.updateTuple row k) := by
  rcases h.updateTuple_cases row k with ⟨heq, hcase⟩ | ⟨hk, hlive, r, heq, hres, -⟩
  · obtain ⟨-, rfl⟩ := Prod.mk.inj (Option.some.inj (heq.symm.trans hstep))
    refine iff_of_true hslot fun hk hlive hfits => ?_
    have hused := mem_used_of_live (Nat.not_le_of_lt hk) hlive
    rw [h.tupleSize_eq hused hlive] at hfits
    -- refused: no such slot, a deleted row, or no room
    rcases hcase with hnot | hdeleted | hfull
    · exact absurd hused hnot
    · rw [hlive] at hdeleted
      exact absurd hdeleted Bool.false_ne_true
    · exact absurd hfits (Nat.not_le_of_lt hfull)
  · obtain ⟨-, rfl⟩ := Prod.mk.inj (Option.some.inj (heq.symm.trans hstep))
    have hroom := hres.room
    have hsize := h.tupleSize_eq hk hlive
    show directoryEnd (r.getTupleCount + 1) ≤ r.getFreeSpacePointer ↔ _
    rw [hres.getTupleCount, hres.getFreeSpacePointer]
    constructor
    · intro hleft _ _ _
      show directoryEnd (p.getTupleCount + 1) + row.bytes.length ≤
        p.getFreeSpacePointer + p.getTupleSize k
      omega
    · intro hleaves
      have hleft : directoryEnd (p.getTupleCount + 1) + row.bytes.length ≤
          p.getFreeSpacePointer + p.getTupleSize k :=
        hleaves hk.1 hlive (by rw [hsize]; exact hroom)
      omega

/-- An operation keeps the room for an entry exactly under its condition. -/
theorem Layout.hasSlot_iff (h : p.Layout) (hslot : p.HasSlot) {op : PageOp} (hstep : Leads p op q) :
    q.HasSlot ↔ p.LeavesSlot op := by
  obtain ⟨answer, hstep⟩ := hstep
  cases op with
  | insertTuple row =>
    obtain ⟨-, rfl⟩ := Prod.mk.inj (Option.some.inj hstep)
    exact h.hasSlot_insertTuple hslot row
  | markDelete k =>
    refine iff_of_true ?_ trivial
    have hstep : p.markDelete k = (answer, q) := Option.some.inj hstep
    rcases h.markDelete_cases k with ⟨heq, _⟩ | ⟨_, r, _, heq, _, _, hcount, hptr, _⟩
    · obtain ⟨-, rfl⟩ := Prod.mk.inj (heq.symm.trans hstep)
      exact hslot
    · obtain ⟨-, rfl⟩ := Prod.mk.inj (heq.symm.trans hstep)
      exact hasSlot_congr hcount (Nat.le_of_eq hptr.symm) hslot
  | updateTuple row k => exact h.hasSlot_updateTuple hslot hstep
  | applyDelete k =>
    refine iff_of_true ?_ trivial
    by_cases hin : p.getTupleCount ≤ k
    · rw [@step_of_behind _ (.applyDelete k) hin] at hstep
      exact nomatch hstep
    obtain ⟨r, hr, heq⟩ := Option.map_eq_some_iff.mp
      (show (p.applyDelete k).map (fun p => (true, p)) = some (answer, q) from hstep)
    obtain ⟨-, rfl⟩ := Prod.mk.inj heq
    by_cases hk : k ∈ p.used
    · obtain ⟨q, hq, hres, -⟩ := h.applyDelete_some hk
      obtain rfl := Option.some.inj (hq.symm.trans hr)
      refine hasSlot_congr hres.getTupleCount ?_ hslot
      rw [hres.getFreeSpacePointer, List.length_nil]
      omega
    · obtain ⟨-, hcount, hptr, -⟩ := h.applyDelete_empty (Nat.lt_of_not_le hin) hk hr
      exact hasSlot_congr hcount (Nat.le_of_eq hptr.symm) hslot
  | rollbackDelete k =>
    refine iff_of_true ?_ trivial
    by_cases hin : p.getTupleCount ≤ k
    · rw [@step_of_behind _ (.rollbackDelete k) hin] at hstep
      exact nomatch hstep
    obtain ⟨r, hr, heq⟩ := Option.map_eq_some_iff.mp
      (show (p.rollbackDelete k).map (fun p => (true, p)) = some (answer, q) from hstep)
    obtain ⟨-, rfl⟩ := Prod.mk.inj heq
    rcases h.rollbackDelete_cases (Nat.lt_of_not_le hin) with
      ⟨_, hq⟩ | ⟨_, _, q, _, hq, _, _, hcount, hptr, _⟩
    · obtain rfl := Option.some.inj (hq.symm.trans hr)
      exact hslot
    · obtain rfl := Option.some.inj (hq.symm.trans hr)
      exact hasSlot_congr hcount (Nat.le_of_eq hptr.symm) hslot

/-- In every run of operations on a new page, the page reports its space exactly in every state if
no operation takes the room for one more entry of the directory, and only then. -/
theorem freeSpace_exact_iff {pageId prevId : PageId} {data : Bytes} {ops : List PageOp}
    (hrun : Steps Leads (init pageId prevId data) ops p) :
    (∀ n q, Steps Leads (init pageId prevId data) (ops.take n) q → q.SpaceExact) ↔
      Steps (fun p op q => p.LeavesSlot op ∧ Leads p op q) (init pageId prevId data) ops p := by
  refine Steps.iff_forall_take (I := Layout) ?_ ?_ ?_ hrun (.init pageId prevId data) ?_
  · rintro p op q r ⟨answer, hq⟩ ⟨answer', hr⟩
    exact (Prod.mk.inj (Option.some.inj (hq.symm.trans hr))).2
  · rintro p op q h ⟨answer, hstep⟩
    exact (h.step_keeps hstep).1
  · intro p op q h hexact hstep
    have hlayout : q.Layout := by
      obtain ⟨answer, hstep⟩ := hstep
      exact (h.step_keeps hstep).1
    rw [hlayout.spaceExact_iff]
    exact h.hasSlot_iff (h.spaceExact_iff.mp hexact) hstep
  · rw [(Layout.init pageId prevId data).spaceExact_iff]
    unfold HasSlot
    rw [getTupleCount_init, getFreeSpacePointer_init]
    decide

/-- A small row on a new page. -/
theorem freeSpace_exact_iff_leastRow :
    (∀ n q, Steps Leads (init 0 INVALID_PAGE_ID fun _ => 0)
        (List.take n [.insertTuple leastRow]) q → q.SpaceExact) ↔
      Steps (fun p op q => p.LeavesSlot op ∧ Leads p op q) (init 0 INVALID_PAGE_ID fun _ => 0)
        [.insertTuple leastRow] ((init 0 INVALID_PAGE_ID fun _ => 0).insertTuple leastRow).2 :=
  freeSpace_exact_iff (.cons ⟨_, rfl⟩ (.nil _))

/-- The largest row fills a new page. -/
def largestRow : Row where
  bytes := List.replicate SIZE_MAX_ROW 0
  header := by rw [List.length_replicate]; decide
  size_lt := by rw [List.length_replicate]; decide

/-- Then the page reports almost `2 ^ 32` bytes, and the least row does not fit. -/
theorem full_page_reports_space :
    ((init 0 INVALID_PAGE_ID fun _ => 0).insertTuple largestRow).2.getFreeSpace = 2 ^ 32 - 8 ∧
      ((((init 0 INVALID_PAGE_ID fun _ => 0).insertTuple largestRow).2.insertTuple
        leastRow).1.isSome = false) := by
  decide +kernel

end TablePage

end DisMiniSql.MiniSql.Heap
