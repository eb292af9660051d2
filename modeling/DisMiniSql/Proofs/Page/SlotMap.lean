import DisMiniSql.Proofs.Page.TablePage

/-!
# `DisMiniSql.Proofs.Page.SlotMap`: a table page is a map of slots

For a caller, a table page is a map from the slot numbers to a tuple and its delete flag
(`SlotMap`). `SlotMap.Step` states what each operation may do to the map and which answer it gives.

`Layout.step` shows that each operation on a page does to the map `TablePage.view` what
`SlotMap.Step` states, and keeps the layout of the bytes: the tuples tile the end of the page, and
the directory ends before them. An operation stops the program only on a slot behind the directory.
-/

set_option autoImplicit false

namespace DisMiniSql.MiniSql.Heap

open DisMiniSql.Lib (Bytes Steps)

/-- The tuple in every slot and its delete flag. -/
abbrev SlotMap := Nat → Option (List UInt8 × Bool)

/-- The tuple that a reader gets. -/
def SlotMap.live (m : SlotMap) (slotNum : Nat) : Option (List UInt8) :=
  (m slotNum).bind (fun tuple => if tuple.2 then none else some tuple.1)

/-- What an operation does to the map, with the answer that it gives. -/
inductive SlotMap.Step : SlotMap → PageOp → Bool → SlotMap → Prop
  | inserted {m : SlotMap} {row : Row} {k : Nat} : m k = none →
      Step m (.insertTuple row) true (Function.update m k (some (row.bytes, false)))
  | notInserted {m : SlotMap} {row : Row} : Step m (.insertTuple row) false m
  | marked {m : SlotMap} {k : Nat} {bytes : List UInt8} : m k = some (bytes, false) →
      Step m (.markDelete k) true (Function.update m k (some (bytes, true)))
  | notMarked {m : SlotMap} {k : Nat} : m.live k = none → Step m (.markDelete k) false m
  | updated {m : SlotMap} {row : Row} {k : Nat} {bytes : List UInt8} :
      m k = some (bytes, false) →
      Step m (.updateTuple row k) true (Function.update m k (some (row.bytes, false)))
  | notUpdated {m : SlotMap} {row : Row} {k : Nat} : Step m (.updateTuple row k) false m
  | deleted {m : SlotMap} {k : Nat} {tuple : List UInt8 × Bool} : m k = some tuple →
      Step m (.applyDelete k) true (Function.update m k none)
  | rolledBack {m : SlotMap} {k : Nat} {tuple : List UInt8 × Bool} : m k = some tuple →
      Step m (.rollbackDelete k) true (Function.update m k (some (tuple.1, false)))
  | nothing {m : SlotMap} {k : Nat} : m k = none → Step m (.rollbackDelete k) true m

namespace TablePage

variable {p q : TablePage} {k : Nat}

/-- A tuple is deleted only from a slot whose size is not zero. -/
def Allowed (p : TablePage) : PageOp → Prop
  | .applyDelete slotNum => p.getTupleSize slotNum ≠ 0
  | _ => True

/-- An operation with the answer that the page gives. -/
def Next (p : TablePage) (a : PageOp × Bool) (q : TablePage) : Prop :=
  p.Allowed a.1 ∧ p.step a.1 = some (a.2, q)

/-- The slot of an operation is behind the directory. -/
def Behind (p : TablePage) : PageOp → Prop
  | .applyDelete slotNum => p.getTupleCount ≤ slotNum
  | .rollbackDelete slotNum => p.getTupleCount ≤ slotNum
  | _ => False

/-- What an operation leaves: a layout, the step of the map, and nothing if the answer is
`false`. -/
structure Refines (p : TablePage) (op : PageOp) (answer : Bool) (q : TablePage) : Prop where
  layout : q.Layout
  view : SlotMap.Step p.view op answer q.view
  unchanged : answer = false → q = p

/-- A slot without a live row is none in the map of live rows. -/
theorem live_view_eq_none (h : ∀ bytes, p.view k ≠ some (bytes, false)) :
    SlotMap.live p.view k = none := by
  unfold SlotMap.live
  cases hview : p.view k with
  | none => rfl
  | some tuple =>
    obtain ⟨bytes, flag⟩ := tuple
    cases flag with
    | false => exact absurd hview (h bytes)
    | true => rfl

/-- `InsertTuple` refines the insert of the map: it takes the first free slot, or reports that there
is no room and changes nothing. -/
theorem Layout.step_insertTuple (h : p.Layout) (row : Row) :
    ∃ answer q, p.step (.insertTuple row) = some (answer, q) ∧
      Refines p (.insertTuple row) answer q := by
  -- the test of the code, which asks for the row and one directory entry
  by_cases hroom : directoryEnd (p.getTupleCount + 1) + row.bytes.length ≤ p.getFreeSpacePointer
  · obtain ⟨q, heq, hins, _⟩ := h.insertTuple_some hroom
    have hempty : p.view p.freeSlot = none := view_of_not_mem hins.slot.1
    refine ⟨true, q, ?_, hins.layout h, ?_, fun hfalse => nomatch hfalse⟩
    · show some ((p.insertTuple row).1.isSome, (p.insertTuple row).2) = _
      rw [heq]
      rfl
    · rw [hins.view h]
      exact .inserted hempty
  · have heq := h.insertTuple_none (Nat.lt_of_not_le hroom)
    refine ⟨false, p, ?_, h, .notInserted, fun _ => rfl⟩
    show some ((p.insertTuple row).1.isSome, (p.insertTuple row).2) = _
    rw [heq]
    rfl

/-- `MarkDelete` refines the marking of a live row. -/
theorem Layout.step_markDelete (h : p.Layout) (k : Nat) :
    ∃ answer q, p.step (.markDelete k) = some (answer, q) ∧
      Refines p (.markDelete k) answer q := by
  rcases h.markDelete_cases k with ⟨heq, hnone⟩ | ⟨bytes, q, hview, heq, hlayout, hview', _⟩
  · exact ⟨false, p, congrArg some heq, h, .notMarked (live_view_eq_none hnone), fun _ => rfl⟩
  · refine ⟨true, q, congrArg some heq, hlayout, ?_, fun hfalse => nomatch hfalse⟩
    rw [hview']
    exact .marked hview

/-- `UpdateTuple` refines the replacement of a live row; without room it changes nothing. -/
theorem Layout.step_updateTuple (h : p.Layout) (row : Row) (k : Nat) :
    ∃ answer q, p.step (.updateTuple row k) = some (answer, q) ∧
      Refines p (.updateTuple row k) answer q := by
  rcases h.updateTuple_cases row k with ⟨heq, _⟩ | ⟨hk, hlive, q, heq, hres, _⟩
  · exact ⟨false, p, heq, h, .notUpdated, fun _ => rfl⟩
  · have hrow : row.bytes ≠ [] := by
      intro hnil
      have := row.header
      rw [hnil, List.length_nil] at this
      omega
    refine ⟨true, q, heq, hres.layout h hk, ?_, fun hfalse => nomatch hfalse⟩
    rw [hres.view h hk, if_neg hrow]
    exact .updated (view_eq_live_iff.mpr ⟨hk, hlive, rfl⟩)

/-- `ApplyDelete` refines the removal of a used slot. -/
theorem Layout.step_applyDelete (h : p.Layout) (hk : k ∈ p.used) :
    ∃ answer q, p.step (.applyDelete k) = some (answer, q) ∧
      Refines p (.applyDelete k) answer q := by
  obtain ⟨q, heq, hres, _⟩ := h.applyDelete_some hk
  refine ⟨true, q, ?_, hres.layout h hk, ?_, fun hfalse => nomatch hfalse⟩
  · show (p.applyDelete k).map _ = _
    rw [heq, Option.map_some]
  · rw [hres.view h hk, if_pos rfl]
    exact .deleted (view_of_mem hk)

/-- `RollbackDelete` refines taking the mark off again. -/
theorem Layout.step_rollbackDelete (h : p.Layout) (hcount : k < p.getTupleCount) :
    ∃ answer q, p.step (.rollbackDelete k) = some (answer, q) ∧
      Refines p (.rollbackDelete k) answer q := by
  rcases h.rollbackDelete_cases hcount with
    ⟨hview, heq⟩ | ⟨bytes, flag, q, hview, heq, hlayout, hview', _⟩
  · refine ⟨true, p, ?_, h, .nothing hview, fun hfalse => nomatch hfalse⟩
    show (p.rollbackDelete k).map _ = _
    rw [heq, Option.map_some]
  · refine ⟨true, q, ?_, hlayout, ?_, fun hfalse => nomatch hfalse⟩
    · show (p.rollbackDelete k).map _ = _
      rw [heq, Option.map_some]
    · rw [hview']
      exact .rolledBack hview

/-- A successful insert is a step of the page. -/
theorem next_insertTuple {row : Row} (h : (p.insertTuple row).1.isSome = true) :
    Next p (.insertTuple row, true) (p.insertTuple row).2 :=
  ⟨trivial, congrArg (fun b => some (b, (p.insertTuple row).2)) h⟩

/-- A successful mark is a step of the page. -/
theorem next_markDelete (h : (p.markDelete k).1 = true) :
    Next p (.markDelete k, true) (p.markDelete k).2 :=
  ⟨trivial, congrArg (fun b => some (b, (p.markDelete k).2)) h⟩

/-- An operation on a slot behind the directory stops the program. -/
theorem step_of_behind {op : PageOp} (h : p.Behind op) : p.step op = none := by
  cases op with
  | insertTuple row => exact h.elim
  | markDelete k => exact h.elim
  | updateTuple row k => exact h.elim
  | applyDelete k =>
    have hle : p.getTupleCount ≤ k := h
    show (p.applyDelete k).map _ = none
    unfold applyDelete
    rw [if_pos hle, Option.map_none]
  | rollbackDelete k =>
    have hle : p.getTupleCount ≤ k := h
    show (p.rollbackDelete k).map _ = none
    unfold rollbackDelete
    rw [if_pos hle, Option.map_none]

/-- Every other operation is a step of the map. -/
theorem Layout.step (h : p.Layout) {op : PageOp} (hallowed : p.Allowed op) (hin : ¬ p.Behind op) :
    ∃ answer q, p.step op = some (answer, q) ∧ Refines p op answer q := by
  cases op with
  | insertTuple row => exact h.step_insertTuple row
  | markDelete k => exact h.step_markDelete k
  | updateTuple row k => exact h.step_updateTuple row k
  | applyDelete k => exact h.step_applyDelete ⟨Nat.lt_of_not_le hin, hallowed⟩
  | rollbackDelete k => exact h.step_rollbackDelete (Nat.lt_of_not_le hin)

/-- Every step of a well laid out page refines the step of the map; one case for each operation. -/
theorem Layout.next (h : p.Layout) {a : PageOp × Bool} (hnext : Next p a q) :
    Refines p a.1 a.2 q := by
  by_cases hin : p.Behind a.1
  · rw [Next, step_of_behind hin] at hnext
    exact nomatch hnext.2
  · obtain ⟨answer, r, heq, href⟩ := h.step hnext.1 hin
    rw [hnext.2, Option.some.injEq, Prod.mk.injEq] at heq
    rw [heq.1, heq.2]
    exact href

/-- By induction over the operations, the page and the map take the same run. -/
theorem Layout.run {ops : List (PageOp × Bool)} (hrun : Steps Next p ops q) (h : p.Layout) :
    q.Layout ∧ Steps (fun m a m' => SlotMap.Step m a.1 a.2 m') p.view ops q.view := by
  induction hrun with
  | nil p => exact ⟨h, .nil _⟩
  | cons hnext _ ih =>
    have href := h.next hnext
    obtain ⟨hlayout, hsteps⟩ := ih href.layout
    exact ⟨hlayout, .cons href.view hsteps⟩

/-- A fresh page stands for the empty map. -/
theorem view_init (pageId prevId : PageId) (data : Bytes) :
    (init pageId prevId data).view = fun _ => none := by
  funext i
  refine view_of_not_mem ?_
  rw [used_init]
  exact Set.notMem_empty i

/-- Every run of operations on a new page is a run of the map with the same answers. A reader gets
the live tuples of the map, the tuples tile the end of the page, and the directory ends before them.
The next operation is a step of the map too, changes nothing if its answer is `false`, and stops the
program only behind the directory. -/
theorem tablePage_refines_slotMap {pageId prevId : PageId} {data : Bytes}
    {ops : List (PageOp × Bool)} {p : TablePage}
    (hrun : Steps Next (init pageId prevId data) ops p) :
    Steps (fun m a m' => SlotMap.Step m a.1 a.2 m') (fun _ => none) ops p.view ∧
      (∀ i, p.getTuple i = SlotMap.live p.view i) ∧ p.Layout ∧
      (∀ op answer q, Next p (op, answer) q →
        SlotMap.Step p.view op answer q.view ∧ (answer = false → q = p)) ∧
      ∀ op, p.Allowed op → (p.step op = none ↔ p.Behind op) := by
  obtain ⟨hlayout, hsteps⟩ := (Layout.init pageId prevId data).run hrun
  rw [view_init] at hsteps
  refine ⟨hsteps, hlayout.getTuple, hlayout, fun op answer q hnext => ?_, fun op hallowed => ?_⟩
  · have href := hlayout.next hnext
    exact ⟨href.view, href.unchanged⟩
  · refine ⟨fun hnone => ?_, step_of_behind⟩
    by_contra hin
    obtain ⟨answer, q, heq, _⟩ := hlayout.step hallowed hin
    rw [hnone] at heq
    exact nomatch heq

/-- A row is inserted and marked, and the reader finds nothing in its slot. -/
theorem tablePage_refines_slotMap_insert_mark :
    ∃ p, Steps Next (init 0 INVALID_PAGE_ID (fun _ => 0))
        [(.insertTuple ⟨List.replicate 12 7, by decide, by decide⟩, true), (.markDelete 0, true)]
        p ∧
      p.Layout ∧ p.getTuple 0 = SlotMap.live p.view 0 := by
  have hrun : Steps Next (init 0 INVALID_PAGE_ID (fun _ => 0))
      [(.insertTuple ⟨List.replicate 12 7, by decide, by decide⟩, true), (.markDelete 0, true)]
      (((init 0 INVALID_PAGE_ID (fun _ => 0)).insertTuple
        ⟨List.replicate 12 7, by decide, by decide⟩).2.markDelete 0).2 :=
    .cons (next_insertTuple (by decide +kernel))
      (.cons (next_markDelete (by decide +kernel)) (.nil _))
  obtain ⟨_, hread, hlayout, _⟩ := tablePage_refines_slotMap hrun
  exact ⟨_, hrun, hlayout, hread 0⟩

end TablePage

end DisMiniSql.MiniSql.Heap
