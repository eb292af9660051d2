import DisMiniSql.Proofs.Storage.HeapChain

/-!
# `DisMiniSql.Proofs.Storage.HeapUpdate`: what `UpdateTuple` answers

`TablePage::UpdateTuple` answers `true` for success, and `TableHeap::UpdateTuple` takes the number 0
for success. So its answer and the dirty flag of the page are the opposite of what was done.

`AllLayout` holds in every state of a session, also where the page list is broken.
-/

set_option autoImplicit false

namespace DisMiniSql.MiniSql.Heap

open DisMiniSql.Lib (Bytes)

namespace TableHeap

variable {h : TableHeap} {row : Row} {p : PageId} {page : TablePage} {rid : RowId}

/-- The bytes of every page are laid out, and no page has the invalid id. -/
structure AllLayout (h : TableHeap) : Prop where
  layout : ∀ p page, h.pages p = some page → page.Layout
  valid : h.pages INVALID_PAGE_ID = none

/-- A page of the heap has a valid id. -/
theorem AllLayout.ne_invalid (hall : h.AllLayout) (hp : h.pages p = some page) :
    p ≠ INVALID_PAGE_ID := by
  rintro rfl
  exact nomatch hall.valid.symm.trans hp

/-- Putting a well laid out page in place keeps all pages so. -/
theorem AllLayout.setPage (hall : h.AllLayout) (hp : p ≠ INVALID_PAGE_ID) (hlayout : page.Layout) :
    (h.setPage p page).AllLayout where
  layout q other hq := by
    by_cases hqp : q = p
    · subst hqp
      rw [pages_setPage_self] at hq
      exact Option.some.inj hq ▸ hlayout
    · rw [pages_setPage_of_ne hqp] at hq
      exact hall.layout q other hq
  valid := (pages_setPage_of_ne (Ne.symm hp)).trans hall.valid

/-- The layout is about the pages only. -/
theorem AllLayout.of_pages {h' : TableHeap} (hall : h.AllLayout) (hpages : h'.pages = h.pages) :
    h'.AllLayout := ⟨hpages ▸ hall.layout, hpages ▸ hall.valid⟩

/-- Writing a page back keeps the layout. -/
theorem AllLayout.writePage {page' : TablePage} (hall : h.AllLayout) (hp : h.pages p = some page)
    (hlayout : page'.Layout) : (h.writePage p page').AllLayout :=
  (hall.setPage (hall.ne_invalid hp) hlayout).of_pages rfl

/-- An insert keeps the layout of its page, whether it succeeds or not. -/
theorem layout_insertTuple (hlayout : page.Layout) (row : Row) :
    (page.insertTuple row).2.Layout := by
  have hstep : page.step (.insertTuple row) =
      some ((page.insertTuple row).1.isSome, (page.insertTuple row).2) := rfl
  exact (hlayout.step_keeps hstep).1

/-- Adding a well laid out page keeps the layout. -/
theorem AllLayout.addPage (hall : h.AllLayout) (hp : p ≠ INVALID_PAGE_ID)
    (hlayout : page.Layout) : (h.addPage p page).AllLayout :=
  (hall.setPage hp hlayout).of_pages rfl

/-- The new page of an insert and the link to it keep the layout. -/
theorem AllLayout.insertNewPage (hall : h.AllLayout) (row : Row) (truePage : Option PageId) :
    (h.insertNewPage row truePage).2.AllLayout := by
  have hvalid : h.allocator.pick h.live ≠ INVALID_PAGE_ID := by
    have hnonneg := h.allocator.pick_nonneg h.live
    intro heq
    rw [heq] at hnonneg
    exact absurd hnonneg (by decide)
  unfold TableHeap.insertNewPage
  dsimp only
  generalize hpage : ((TablePage.init (h.allocator.pick h.live)
    (truePage.getD INVALID_PAGE_ID) (fun _ => 0)).insertTuple row).2 = page
  have hlayout : page.Layout := hpage ▸ layout_insertTuple (TablePage.Layout.init _ _ _) row
  have hadded := hall.addPage hvalid hlayout
  cases truePage with
  | none => exact hadded
  | some t =>
    show AllLayout ((((h.addPage (h.allocator.pick h.live) page).pages t).map _).getD _)
    cases ht : (h.addPage (h.allocator.pick h.live) page).pages t with
    | none => exact hadded
    | some pageT =>
      exact hadded.setPage (hadded.ne_invalid ht) ((hadded.layout t pageT ht).setNextPageId _)

/-- The loop of `InsertTuple` keeps the layout, by induction on the fuel; the last page it tried may
be any. -/
theorem AllLayout.insertLoop (hall : h.AllLayout) (row : Row) (fuel : Nat) (next : PageId)
    (truePage : Option PageId) : (insertLoop row fuel h next truePage).2.AllLayout := by
  induction fuel generalizing h next truePage with
  | zero => exact hall
  | succ fuel ih =>
    unfold TableHeap.insertLoop insertStep
    by_cases hnext : next = INVALID_PAGE_ID
    · rw [if_pos hnext]
      exact hall.insertNewPage row truePage
    rw [if_neg hnext]
    cases hp : h.pages next with
    | none => exact hall
    | some page =>
      have hlayout := layout_insertTuple (hall.layout next page hp) row
      show AllLayout (Sum.elim id _ (h.triedPage row next _)).2
      generalize page.insertTuple row = inserted at hlayout ⊢
      obtain ⟨_ | slotNum, page'⟩ := inserted
      · have hmoved : (h.withMap (h.freespaceMap.getNext row.getSerializedSize).2).AllLayout :=
          hall.of_pages rfl
        exact ih hmoved _ _
      · exact hall.writePage hp hlayout

/-- An insert keeps the layout of all pages. -/
theorem AllLayout.insertTuple (hall : h.AllLayout) (row : Row) :
    (h.insertTuple row).2.AllLayout := by
  unfold TableHeap.insertTuple
  split
  · exact hall
  · have hmoved : (h.withMap (h.freespaceMap.getBegin row.getSerializedSize).2).AllLayout :=
      hall.of_pages rfl
    exact hmoved.insertLoop row _ _ _

/-- Every call of a session keeps it. -/
theorem AllLayout.next (hall : h.AllLayout) (call : HeapCall) : (h.next call).AllLayout := by
  have hcalls := calls_next h call
  generalize h.next call = h' at hcalls
  cases hcalls with
  | inserts row => exact hall.insertTuple row
  | keeps => exact hall
  | writes hp hstep => exact hall.writePage hp ((hall.layout _ _ hp).step_keeps hstep).1

/-- In every state of a session, the bytes of all pages are laid out. -/
theorem allLayout_session (allocator : Allocator) (live : List PageId) (calls : List HeapCall) :
    (calls.foldl next (create allocator live)).AllLayout := by
  have hsteps : ∀ (calls : List HeapCall) (h : TableHeap), h.AllLayout →
      (calls.foldl next h).AllLayout := by
    intro calls
    induction calls with
    | nil => exact fun h hall => hall
    | cons call calls ih => exact fun h hall => ih _ (hall.next call)
  obtain ⟨_, _, hs⟩ := good_create allocator live
  refine hsteps calls _ ⟨hs.layout, ?_⟩
  cases hinvalid : (create allocator live).pages INVALID_PAGE_ID with
  | none => rfl
  | some page => exact absurd ((hs.pages _).mpr ⟨page, hinvalid⟩) hs.valid

/-- The answer is `true` exactly if the stored tuple is the new one. Then the page is unpinned as
dirty, and otherwise no tuple has changed. -/
def Truthful (h : TableHeap) (row : Row) (rid : RowId) : Prop :=
  ∃ result, h.updateTuple row rid = some result ∧
    (result.answer = true ↔ result.heap.getTuple rid = some row.bytes) ∧
    (result.answer = true → result.unpinned = some true) ∧
    (result.answer = false → ∀ rid', result.heap.getTuple rid' = h.getTuple rid')

/-- A row is read from the page just written. -/
theorem getTuple_writePage : (h.writePage rid.pageId page).getTuple rid =
    page.getTuple rid.slotNum := by
  show ((h.setPage rid.pageId page).pages rid.pageId).bind _ = _
  rw [pages_setPage_self, Option.bind_some]

/-- The answer is the opposite of what was done. -/
theorem updateTuple_inverts (hall : h.AllLayout) (hlive : h.getTuple rid ≠ none) (row : Row) :
    ∃ result, h.updateTuple row rid = some result ∧
      (result.answer = true ↔ result.heap.getTuple rid ≠ some row.bytes) := by
  cases hp : h.pages rid.pageId with
  | none =>
    refine absurd ?_ hlive
    unfold getTuple
    rw [hp, Option.bind_none]
  | some page =>
    have hrid : rid ≠ INVALID_ROWID := fun heq => hall.ne_invalid hp (congrArg RowId.pageId heq)
    have hlayout := hall.layout _ _ hp
    have hread : h.getTuple rid = page.getTuple rid.slotNum := by
      unfold getTuple
      rw [hp, Option.bind_some]
    rw [hread] at hlive
    unfold updateTuple
    rw [if_neg hrid, hp]
    dsimp only
    rw [hread, if_neg hlive]
    obtain ⟨old, hold⟩ := Option.ne_none_iff_exists'.mp hlive
    obtain ⟨hk, hflag, hslice⟩ := TablePage.view_eq_live_iff.mp
      (hlayout.getTuple_eq_some_iff.mp hold)
    rcases hlayout.updateTuple_cases row rid.slotNum with
      ⟨heq, hcases⟩ | ⟨_, _, page', heq, hres, _⟩
    · refine ⟨_, congrArg (Option.map _) heq, fun _ => ?_, fun _ => rfl⟩
      -- the row does not fit, so it is longer than the tuple
      have hlong : page.tupleLength rid.slotNum < row.bytes.length := by
        have hdir := hlayout.directory
        rcases hcases with hnot | hdeleted | hroom
        · exact absurd hk hnot
        · exact nomatch hdeleted.symm.trans hflag
        · omega
      rw [getTuple_writePage, hold]
      intro hrow
      rw [← Option.some.inj hrow, ← hslice, Bytes.length_slice] at hlong
      exact Nat.lt_irrefl _ hlong
    · have hrow : row.bytes ≠ [] := List.ne_nil_of_length_pos
        (Nat.lt_of_lt_of_le (by decide) row.header)
      have hnew : page'.getTuple rid.slotNum = some row.bytes := by
        rw [(hres.layout hlayout hk).getTuple_eq_some_iff, hres.view hlayout hk, if_neg hrow,
          Function.update_self]
      refine ⟨_, congrArg (Option.map _) heq, fun hfalse =>
        (nomatch (show false = true from hfalse)), fun hne => absurd ?_ hne⟩
      rw [getTuple_writePage, hnew]

/-- A session never answers an `UpdateTuple` on a live tuple truthfully. -/
theorem updateTuple_not_truthful (allocator : Allocator) (live : List PageId)
    (calls : List HeapCall) (row : Row) {rid : RowId}
    (hlive : (calls.foldl next (create allocator live)).getTuple rid ≠ none) :
    ¬ (calls.foldl next (create allocator live)).Truthful row rid := by
  rintro ⟨result, hresult, hiff, _⟩
  obtain ⟨result', hresult', hinverts⟩ :=
    updateTuple_inverts (allLayout_session allocator live calls) hlive row
  obtain rfl := Option.some.inj (hresult.symm.trans hresult')
  by_cases hrow : result.heap.getTuple rid = some row.bytes
  · exact hinverts.mp (hiff.mpr hrow) hrow
  · exact hrow (hiff.mp (hinverts.mpr hrow))

/-- A row of the smallest size, filled with a byte. -/
def smallRow (b : UInt8) : Row := ⟨List.replicate 12 b, by rw [List.length_replicate],
  by rw [List.length_replicate]; omega⟩

/-- The failing input: one row, updated by another of the same length. -/
theorem updateTuple_not_truthful_one :
    ¬ ((create Allocator.increasing []).next (.insertTuple (smallRow 1))).Truthful (smallRow 2)
      ⟨0, 0⟩ :=
  updateTuple_not_truthful Allocator.increasing [] [.insertTuple (smallRow 1)] (smallRow 2)
    (by decide +kernel)

/-- The tuple is replaced, and the answer is `false`. -/
theorem updateTuple_answers_false :
    ¬ ∀ (allocator : Allocator) (live : List PageId) (calls : List HeapCall) (row : Row)
      (rid : RowId), (calls.foldl next (create allocator live)).getTuple rid ≠ none →
        (calls.foldl next (create allocator live)).Truthful row rid := by
  intro h
  obtain ⟨result, hresult, hiff, _⟩ := h Allocator.increasing [] [.insertTuple (smallRow 1)]
    (smallRow 2) ⟨0, 0⟩ (by decide +kernel)
  have hanswer : (updateTuple ([HeapCall.insertTuple (smallRow 1)].foldl next
      (create Allocator.increasing [])) (smallRow 2) ⟨0, 0⟩).map UpdateResult.answer =
        some false := by decide +kernel
  have hread : (updateTuple ([HeapCall.insertTuple (smallRow 1)].foldl next
      (create Allocator.increasing [])) (smallRow 2) ⟨0, 0⟩).map
        (fun result => result.heap.getTuple ⟨0, 0⟩) = some (some (smallRow 2).bytes) := by
    decide +kernel
  rw [hresult, Option.map_some, Option.some.injEq] at hanswer hread
  rw [hiff.mpr hread] at hanswer
  exact nomatch hanswer

end TableHeap

end DisMiniSql.MiniSql.Heap
