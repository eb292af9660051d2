import DisMiniSql.MiniSql.Storage.PagedHeap
import DisMiniSql.Proofs.Page.TablePage
import DisMiniSql.Proofs.Storage.FreeSpaceMap

/-!
# `DisMiniSql.Proofs.Storage.PagedHeap`: inserting into a heap

`insertTuple_cases` states what `TableHeap::InsertTuple` does: the row goes to the first page with
room that the map proposes, or all of them are full, and a new page is linked behind the last of
them.

`Linked` is a list of pages that `next_page_id` and `prev_page_id` join. `Linked.relink` is the
write of the new page: the list ends behind the page that it is linked to.
-/

set_option autoImplicit false

namespace DisMiniSql.MiniSql.Heap

open DisMiniSql.Lib (Steps)
open DisMiniSql.MiniSql.Heap.FreeSpaceMap (Shape answersFrom proposals enough)
open FreeSpaceMapPage (SIZE_MAX_PAIR)

namespace TablePage

variable {p : TablePage} {row : Row} {slotNum : Nat}

/-- A page without room for a row. -/
def Full (p : TablePage) (row : Row) : Prop :=
  p.getFreeSpaceRemaining < row.getSerializedSize + SIZE_TUPLE

instance (p : TablePage) (row : Row) : Decidable (p.Full row) :=
  inferInstanceAs (Decidable (_ < _))

/-- A full page takes no row and stays as it is. -/
theorem insertTuple_of_full (h : p.Full row) : p.insertTuple row = (none, p) := if_pos h

/-- A page with room takes the row into an empty slot. -/
theorem Layout.insertTuple_of_not_full (h : p.Layout) (hroom : ¬ p.Full row) :
    ∃ q, p.insertTuple row = (some p.freeSlot, q) ∧ q.Layout ∧ SameIds p q ∧
      p.view p.freeSlot = none ∧
        q.view = Function.update p.view p.freeSlot (some (row.bytes, false)) ∧
          q.getFreeSpaceRemaining + row.getSerializedSize =
            p.getFreeSpacePointer - directoryEnd (max p.getTupleCount (p.freeSlot + 1)) := by
  have hfit : directoryEnd (p.getTupleCount + 1) + row.bytes.length ≤ p.getFreeSpacePointer := by
    have hdir := h.directory
    unfold Full Row.getSerializedSize at hroom
    rw [h.getFreeSpaceRemaining] at hroom
    unfold directoryEnd SIZE_TUPLE at *
    omega
  obtain ⟨q, heq, hins, hids⟩ := h.insertTuple_some hfit
  refine ⟨q, heq, hins.layout h, hids, view_of_not_mem hins.slot.1, hins.view h, ?_⟩
  have hq := hins.layout h
  have hdir := hq.directory
  have hptr := hins.getFreeSpacePointer
  rw [hq.getFreeSpaceRemaining, ← hins.getTupleCount]
  unfold Row.getSerializedSize
  omega

/-- On a well laid out page an insert fails exactly when the page is full. -/
theorem Layout.full_iff (h : p.Layout) : (p.insertTuple row).1 = none ↔ p.Full row := by
  constructor
  · intro hnone
    by_contra hroom
    obtain ⟨q, heq, _⟩ := h.insertTuple_of_not_full hroom
    rw [heq] at hnone
    exact nomatch hnone
  · intro hfull
    rw [insertTuple_of_full hfull]

/-- The next pointer is no part of the layout. -/
theorem Layout.setNextPageId (h : p.Layout) (pageId : PageId) : (p.setNextPageId pageId).Layout :=
  ⟨h.directory, h.pointer, h.tiles⟩

/-- A row that is not too large fits on a new page. -/
theorem not_full_init (pageId prevId : PageId) (hsize : row.getSerializedSize ≤ SIZE_MAX_ROW) :
    ¬ (init pageId prevId (fun _ => 0)).Full row := by
  unfold Full
  rw [(Layout.init pageId prevId _).getFreeSpaceRemaining, getTupleCount_init,
    getFreeSpacePointer_init]
  have hmax : SIZE_MAX_ROW = 4064 := rfl
  have hpage : PAGE_SIZE = 4096 := rfl
  have hdir : directoryEnd 0 = 24 := rfl
  have htuple : SIZE_TUPLE = 8 := rfl
  omega

end TablePage

/-! ### Lists of pages -/

/-- The pages of the list are joined in both directions. The page before the first one is `prev`. -/
def Linked (pages : PageId → Option TablePage) : PageId → List PageId → Prop
  | _, [] => True
  | prev, p :: l =>
    (∃ page, pages p = some page ∧ page.tablePageId = p ∧ page.prevPageId = prev ∧
      page.nextPageId = l.headD INVALID_PAGE_ID) ∧ Linked pages p l

section Linked

variable {pages pages' : PageId → Option TablePage} {prev p q t new : PageId}
  {l before after : List PageId} {page page' : TablePage}

/-- The links are about the listed pages only. -/
theorem Linked.congr (h : Linked pages prev l) (hsame : ∀ p ∈ l, pages' p = pages p) :
    Linked pages' prev l := by
  induction l generalizing prev with
  | nil => trivial
  | cons p l ih =>
    obtain ⟨⟨page, hpage, hids⟩, hrest⟩ := h
    exact ⟨⟨page, (hsame p List.mem_cons_self).trans hpage, hids⟩,
      ih hrest (fun q hq => hsame q (List.mem_cons_of_mem p hq))⟩

/-- A write that keeps the ids of a page. -/
theorem Linked.update (h : Linked pages prev l) (hp : pages p = some page)
    (hids : TablePage.SameIds page page') :
    Linked (Function.update pages p (some page')) prev l := by
  induction l generalizing prev with
  | nil => trivial
  | cons q l ih =>
    obtain ⟨⟨other, hq, hid, hprev, hnext⟩, hrest⟩ := h
    refine ⟨?_, ih hrest⟩
    by_cases hqp : q = p
    · subst hqp
      obtain rfl := Option.some.inj (hp.symm.trans hq)
      exact ⟨page', Function.update_self .., hids.1.trans hid, hids.2.1.trans hprev,
        hids.2.2.trans hnext⟩
    · exact ⟨other, (Function.update_of_ne hqp ..).trans hq, hid, hprev, hnext⟩

/-- A page other than the first one is the successor of the page before it. -/
theorem Linked.exists_prev (h : Linked pages prev l) (hq : q ∈ l) (hhead : l.head? ≠ some q) :
    ∃ p pageP pageQ, pages p = some pageP ∧ pageP.nextPageId = q ∧ pages q = some pageQ ∧
      pageQ.prevPageId = p := by
  induction l generalizing prev with
  | nil => exact nomatch hq
  | cons p l ih =>
    obtain ⟨⟨pageP, hp, _, _, hnext⟩, hrest⟩ := h
    rcases List.mem_cons.mp hq with rfl | hmem
    · exact absurd rfl hhead
    by_cases hsecond : l.head? = some q
    · cases l with
      | nil => exact nomatch hmem
      | cons r l =>
        obtain rfl : r = q := Option.some.inj hsecond
        obtain ⟨⟨pageQ, hpageQ, _, hprevQ, _⟩, _⟩ := hrest
        exact ⟨p, pageP, pageQ, hp, hnext, hpageQ, hprevQ⟩
    · exact ih hrest hmem hsecond

/-- Each page points back to the one before it. -/
theorem Linked.prev_eq (h : Linked pages prev (before ++ p :: q :: after)) :
    ∃ page, pages q = some page ∧ page.prevPageId = p := by
  induction before generalizing prev with
  | nil =>
    obtain ⟨_, ⟨page, hpage, _, hprev, _⟩, _⟩ := h
    exact ⟨page, hpage, hprev⟩
  | cons r before ih => exact ih h.2

/-- The new page is linked behind the page `t`, and the pages that were behind it are no longer in
the list. -/
theorem Linked.relink (h : Linked pages prev (before ++ t :: after)) (ht : pages t = some page)
    (hnodup : (before ++ t :: after).Nodup) (hnew : new ∉ before ++ t :: after)
    (hpage' : page'.tablePageId = new ∧ page'.prevPageId = t ∧
      page'.nextPageId = INVALID_PAGE_ID) :
    Linked (Function.update (Function.update pages new (some page')) t
      (some (page.setNextPageId new))) prev (before ++ [t, new]) := by
  induction before generalizing prev with
  | nil =>
    obtain ⟨⟨own, hown, hid, hprev, _⟩, _⟩ := h
    obtain rfl := Option.some.inj (ht.symm.trans hown)
    have hne : new ≠ t := fun heq => hnew (heq ▸ List.mem_cons_self)
    refine ⟨⟨_, Function.update_self .., hid, hprev, rfl⟩,
      ⟨page', (Function.update_of_ne hne ..).trans (Function.update_self ..), hpage'⟩, trivial⟩
  | cons p before ih =>
    obtain ⟨⟨own, hown, hid, hprev, hnext⟩, hrest⟩ := h
    rw [List.cons_append, List.nodup_cons] at hnodup
    rw [List.cons_append, List.mem_cons, not_or] at hnew
    refine ⟨⟨own, ?_, hid, hprev, ?_⟩, ih hrest hnodup.2 hnew.2⟩
    · have hpt : p ≠ t := by
        rintro rfl
        exact hnodup.1 (List.mem_append_right _ List.mem_cons_self)
      rw [Function.update_of_ne hpt, Function.update_of_ne (Ne.symm hnew.1)]
      exact hown
    · rw [hnext]
      cases before with
      | nil => rfl
      | cons q before => rfl

end Linked

/-! ### The pages that are tried -/

namespace TableHeap

variable {h : TableHeap} {row : Row} {L : List PageId} {records : List (PageId × Nat)}

/-- The heap with the cursor of its map moved. -/
def withMap (h : TableHeap) (m : FreeSpaceMap) : TableHeap := { h with freespaceMap := m }

/-- Two maps have the same pages, and the cursor may differ. -/
def SameContent (m m' : FreeSpaceMap) : Prop :=
  m'.mapPages = m.mapPages ∧ m'.lastPageId = m.lastPageId

/-- The page has no room for the row. -/
def Rejects (h : TableHeap) (row : Row) (pageId : PageId) : Prop :=
  ∀ page, h.pages pageId = some page → (page.insertTuple row).1 = none

/-- The row is in the first page of the list that has room. -/
def InsertedAt (h : TableHeap) (row : Row) (L : List PageId) (m : FreeSpaceMap)
    (result : Option RowId × TableHeap) : Prop :=
  ∃ before p after page slotNum page', L = before ++ p :: after ∧
    (∀ q ∈ before, h.Rejects row q) ∧ h.pages p = some page ∧
      page.insertTuple row = (some slotNum, page') ∧
        result = (some ⟨p, slotNum⟩, (h.withMap m).writePage p page')

/-- The page an insert used is one of those it was offered. -/
theorem InsertedAt.exists_mem {m : FreeSpaceMap} {result : Option RowId × TableHeap}
    (hinserted : h.InsertedAt row L m result) :
    ∃ p page slotNum page', p ∈ L ∧ h.pages p = some page ∧
      page.insertTuple row = (some slotNum, page') ∧
        result = (some ⟨p, slotNum⟩, (h.withMap m).writePage p page') := by
  obtain ⟨before, p, after, page, slotNum, page', rfl, -, hpage, hinsert, heq⟩ := hinserted
  exact ⟨p, page, slotNum, page', List.mem_append_right _ List.mem_cons_self, hpage, hinsert, heq⟩

/-- The loop tries the pages that the map answers, and then takes a new one. -/
theorem insertLoop_cases (h : TableHeap) (row : Row) (L : List PageId) (fuel : Nat) (next : PageId)
    (truePage : Option PageId)
    (hanswers : ∀ n, answersFrom row.getSerializedSize (next, h.freespaceMap) n =
      (L[n]?).getD INVALID_PAGE_ID)
    (hvalid : ∀ p ∈ L, p ≠ INVALID_PAGE_ID ∧ ∃ page, h.pages p = some page)
    (hfuel : L.length < fuel) :
    ∃ m, SameContent h.freespaceMap m ∧
      (h.InsertedAt row L m (insertLoop row fuel h next truePage) ∨
        (∀ p ∈ L, h.Rejects row p) ∧ insertLoop row fuel h next truePage =
          (h.withMap m).insertNewPage row (L.getLast?.or truePage)) := by
  induction L generalizing h fuel next truePage with
  | nil =>
    have hnext : next = INVALID_PAGE_ID := hanswers 0
    obtain ⟨fuel, rfl⟩ := Nat.exists_eq_add_one_of_ne_zero (Nat.ne_of_gt hfuel)
    refine ⟨h.freespaceMap, ⟨rfl, rfl⟩, .inr ⟨fun p hp => absurd hp List.not_mem_nil, ?_⟩⟩
    unfold insertLoop insertStep
    rw [if_pos hnext]
    rfl
  | cons p L ih =>
    have hnext : next = p := hanswers 0
    subst hnext
    obtain ⟨fuel, rfl⟩ := Nat.exists_eq_add_one_of_ne_zero (Nat.ne_of_gt (Nat.zero_lt_of_lt hfuel))
    obtain ⟨hne, page, hpage⟩ := hvalid next List.mem_cons_self
    have hlater : ∀ n, answersFrom row.getSerializedSize
        (h.freespaceMap.getNext row.getSerializedSize) n = (L[n]?).getD INVALID_PAGE_ID := by
      intro n
      have hlater := hanswers (n + 1)
      rw [FreeSpaceMap.answersFrom_succ] at hlater
      exact hlater
    have hcontent := FreeSpaceMap.getNext_content h.freespaceMap row.getSerializedSize
    unfold insertLoop insertStep
    rw [if_neg hne, hpage]
    show ∃ m, _ ∧ (InsertedAt h row _ m (Sum.elim id _ (h.triedPage row next _)) ∨
      _ ∧ Sum.elim id _ (h.triedPage row next _) = _)
    generalize hinsert : page.insertTuple row = inserted
    obtain ⟨_ | slotNum, page'⟩ := inserted
    · -- the page rejects the row, and the loop goes on with the next answer
      unfold triedPage
      generalize h.freespaceMap.getNext row.getSerializedSize = found at hlater hcontent ⊢
      obtain ⟨answer, moved⟩ := found
      obtain ⟨m, hm, hcases⟩ := ih (h.withMap moved) fuel answer (some next) hlater
        (fun q hq => hvalid q (List.mem_cons_of_mem next hq)) (Nat.lt_of_succ_lt_succ hfuel)
      refine ⟨m, ⟨hm.1.trans hcontent.1, hm.2.trans hcontent.2⟩, ?_⟩
      have hfull : h.Rejects row next := by
        intro other hother
        rw [← Option.some.inj (hpage.symm.trans hother), hinsert]
      rcases hcases with ⟨before, q, after, page', slotNum, other, rfl, hbefore, hrest⟩ |
        ⟨hall, heq⟩
      · refine .inl ⟨next :: before, q, after, page', slotNum, other, rfl, ?_, hrest⟩
        exact List.forall_mem_cons.mpr ⟨hfull, hbefore⟩
      · have hlast : (next :: L).getLast?.or truePage = L.getLast?.or (some next) := by
          cases L with
          | nil => rfl
          | cons q L =>
            rw [List.getLast?_cons_cons, List.getLast?_eq_some_getLast (List.cons_ne_nil q L)]
            rfl
        refine .inr ⟨List.forall_mem_cons.mpr ⟨hfull, hall⟩, heq.trans ?_⟩
        rw [hlast]
        rfl
    · exact ⟨h.freespaceMap, ⟨rfl, rfl⟩, .inl ⟨[], next, L, page, slotNum, page', rfl,
        List.forall_mem_nil _, hpage, hinsert, rfl⟩⟩

/-- There is at most one proposal more than records. -/
theorem length_proposals (records : List (PageId × Nat)) (need : Nat) :
    (proposals records need).length ≤ records.length + 1 := by
  unfold proposals
  rw [List.length_append, List.length_map]
  have hfilter := List.length_filter_le (enough need) records
  split
  · rw [List.length_nil]
    omega
  · cases records.getLast?.map Prod.fst with
    | none => exact Nat.le_succ_of_le hfilter
    | some p => exact Nat.succ_le_succ hfilter

/-- Every proposal is a recorded page. -/
theorem mem_proposals {need : Nat} {p : PageId} (hp : p ∈ proposals records need) :
    p ∈ records.map Prod.fst := by
  unfold proposals at hp
  rcases List.mem_append.mp hp with hfound | hlast
  · obtain ⟨record, hrecord, rfl⟩ := List.mem_map.mp hfound
    exact List.mem_map_of_mem (List.mem_filter.mp hrecord).1
  · split at hlast
    · exact nomatch hlast
    · rw [← List.getLast?_map] at hlast
      exact List.mem_of_getLast? (Option.mem_toList.mp hlast)

/-- What `TableHeap::InsertTuple` does with a row that is not too large. -/
theorem insertTuple_cases (hs : Shape h.freespaceMap records)
    (hpages : ∀ p ∈ records.map Prod.fst, ∃ page, h.pages p = some page)
    (hsize : row.getSerializedSize ≤ TablePage.SIZE_MAX_ROW) :
    ∃ m, SameContent h.freespaceMap m ∧
      (h.InsertedAt row (proposals records row.getSerializedSize) m (h.insertTuple row) ∨
        (∀ p ∈ proposals records row.getSerializedSize, h.Rejects row p) ∧ h.insertTuple row =
          (h.withMap m).insertNewPage row (proposals records row.getSerializedSize).getLast?) := by
  have hcontent := FreeSpaceMap.getBegin_content h.freespaceMap row.getSerializedSize
  have hanswers : ∀ n, answersFrom row.getSerializedSize
      (h.freespaceMap.getBegin row.getSerializedSize) n =
        ((proposals records row.getSerializedSize)[n]?).getD INVALID_PAGE_ID :=
    hs.answer_eq row.getSerializedSize
  unfold insertTuple
  rw [if_neg (Nat.not_lt_of_le hsize)]
  dsimp only
  generalize h.freespaceMap.getBegin row.getSerializedSize = found at hcontent hanswers ⊢
  obtain ⟨answer, moved⟩ := found
  obtain ⟨m, hm, hcases⟩ := insertLoop_cases (h.withMap moved) row _
    ((h.freespaceMap.mapPages.flatMap FreeSpaceMapPage.pairs).length + 2) answer none hanswers
    (fun p hp => ⟨fun heq => hs.valid (heq ▸ mem_proposals hp), hpages p (mem_proposals hp)⟩)
    (by rw [hs.pairs]; exact Nat.lt_succ_of_le (length_proposals records _))
  rw [Option.or_none] at hcases
  exact ⟨m, ⟨hm.1.trans hcontent.1, hm.2.trans hcontent.2⟩, hcases⟩

/-! ### A new page -/

/-- A new page takes a row that is not too large. -/
theorem newPage_insertTuple (pageId prevId : PageId)
    (hsize : row.getSerializedSize ≤ TablePage.SIZE_MAX_ROW) :
    ∃ page, (TablePage.init pageId prevId (fun _ => 0)).insertTuple row = (some 0, page) ∧
      page.Layout ∧ page.tablePageId = pageId ∧ page.prevPageId = prevId ∧
        page.nextPageId = INVALID_PAGE_ID ∧ page.view 0 = some (row.bytes, false) ∧
          page.getFreeSpaceRemaining + row.getSerializedSize = TablePage.SIZE_MAX_ROW := by
  obtain ⟨page, heq, hlayout, hids, _, hview, hspace⟩ :=
    (TablePage.Layout.init pageId prevId (fun _ => 0)).insertTuple_of_not_full
      (TablePage.not_full_init pageId prevId hsize)
  have hslot : (TablePage.init pageId prevId (fun _ => 0)).freeSlot = 0 := by
    have hle := (TablePage.freeSlot_spec (TablePage.init pageId prevId (fun _ => 0))).2
    rw [TablePage.getTupleCount_init] at hle
    exact Nat.le_zero.mp hle
  rw [hslot] at heq hview hspace
  refine ⟨page, heq, hlayout, hids.1, hids.2.1, hids.2.2, ?_, ?_⟩
  · rw [hview, Function.update_self]
  · rw [TablePage.getTupleCount_init, TablePage.getFreeSpacePointer_init] at hspace
    exact hspace

/-- The new page with its row, and its pair in the map. -/
def addPage (h : TableHeap) (new : PageId) (page : TablePage) : TableHeap :=
  ({ h with live := new :: h.live }.setPage new page).setNewPair new page.getFreeSpace

/-- The new page is linked behind the page `t`. -/
theorem insertNewPage_some {new t : PageId} {page pageT : TablePage}
    (hnew : h.allocator.pick h.live = new)
    (hpage : (TablePage.init new t (fun _ => 0)).insertTuple row = (some 0, page))
    (ht : h.pages t = some pageT) (hne : t ≠ new) :
    h.insertNewPage row (some t) =
      (some ⟨new, 0⟩, (h.addPage new page).setPage t (pageT.setNextPageId new)) := by
  have ht' : (h.addPage new page).pages t = some pageT :=
    (Function.update_of_ne hne ..).trans ht
  unfold insertNewPage
  rw [hnew]
  simp only [Option.getD_some, hpage, Option.bind_some]
  show (_, (((h.addPage new page).pages t).map _).getD _) = _
  rw [ht', Option.map_some, Option.getD_some]
  rfl

/-- The new page is not linked. -/
theorem insertNewPage_none {new : PageId} {page : TablePage}
    (hnew : h.allocator.pick h.live = new)
    (hpage : (TablePage.init new INVALID_PAGE_ID (fun _ => 0)).insertTuple row = (some 0, page)) :
    h.insertNewPage row none = (some ⟨new, 0⟩, h.addPage new page) := by
  unfold insertNewPage
  rw [hnew]
  simp only [Option.getD_none, hpage, Option.bind_none, Option.getD_some]
  rfl

/-! ### Every call -/

/-- A call inserts a row, or writes the result of an operation on one page, or does nothing. -/
inductive Calls (h : TableHeap) : HeapCall → TableHeap → Prop
  | inserts (row : Row) : Calls h (.insertTuple row) (h.insertTuple row).2
  | keeps (call : HeapCall) : Calls h call h
  | writes {call : HeapCall} {p : PageId} {page page' : TablePage} {op : PageOp} {answer : Bool} :
      h.pages p = some page → page.step op = some (answer, page') →
      Calls h call (h.writePage p page')

/-- What `UpdateTuple` of the heap does to its page is one operation of the page. -/
theorem calls_updateTuple {rid : RowId} {result : UpdateResult}
    (hresult : h.updateTuple row rid = some result) :
    Calls h (.updateTuple row rid) result.heap := by
  unfold updateTuple at hresult
  -- a row that fits no page is refused before any page is fetched
  split at hresult
  · exact Option.some.inj hresult ▸ .keeps _
  cases hp : h.pages rid.pageId with
  | none =>
    rw [hp] at hresult
    exact Option.some.inj hresult ▸ .keeps _
  | some page =>
    rw [hp] at hresult
    dsimp only at hresult
    split at hresult
    · exact Option.some.inj hresult ▸ .keeps _
    · obtain ⟨updated, hupdated, rfl⟩ := Option.map_eq_some_iff.mp hresult
      have hstep : page.step (.updateTuple row rid.slotNum) = some (updated.1, updated.2) :=
        hupdated
      exact .writes hp hstep

/-- What `ApplyDelete` does to its page is one operation of the page. -/
theorem calls_applyDelete {rid : RowId} {h' : TableHeap} (hresult : h.applyDelete rid = some h') :
    Calls h (.applyDelete rid) h' := by
  unfold applyDelete at hresult
  cases hp : h.pages rid.pageId with
  | none =>
    rw [hp] at hresult
    exact Option.some.inj hresult ▸ .keeps _
  | some page =>
    rw [hp] at hresult
    obtain ⟨page', hpage', rfl⟩ := Option.map_eq_some_iff.mp hresult
    have hstep : page.step (.applyDelete rid.slotNum) = some (true, page') := by
      show (page.applyDelete rid.slotNum).map _ = _
      rw [hpage', Option.map_some]
    exact .writes hp hstep

/-- What `RollbackDelete` does to its page is one operation of the page. -/
theorem calls_rollbackDelete {rid : RowId} {h' : TableHeap}
    (hresult : h.rollbackDelete rid = some h') : Calls h (.rollbackDelete rid) h' := by
  unfold rollbackDelete at hresult
  cases hp : h.pages rid.pageId with
  | none =>
    rw [hp] at hresult
    exact nomatch hresult
  | some page =>
    rw [hp] at hresult
    obtain ⟨page', hpage', rfl⟩ := Option.map_eq_some_iff.mp hresult
    have hstep : page.step (.rollbackDelete rid.slotNum) = some (true, page') := by
      show (page.rollbackDelete rid.slotNum).map _ = _
      rw [hpage', Option.map_some]
    exact .writes hp hstep

theorem next_insertTuple : h.next (.insertTuple row) = (h.insertTuple row).2 := rfl

/-- The cases of one call of a session. -/
theorem calls_next (h : TableHeap) (call : HeapCall) : Calls h call (h.next call) := by
  cases call with
  | insertTuple row => exact .inserts row
  | markDelete rid =>
    show Calls h _ (h.markDelete rid).2
    unfold markDelete
    cases hp : h.pages rid.pageId with
    | none => exact .keeps _
    | some page =>
      have hstep : page.step (.markDelete rid.slotNum) =
        some ((page.markDelete rid.slotNum).1, (page.markDelete rid.slotNum).2) := rfl
      exact .writes hp hstep
  | updateTuple row rid =>
    show Calls h _ (((h.updateTuple row rid).map UpdateResult.heap).getD h)
    cases hresult : h.updateTuple row rid with
    | none => exact .keeps _
    | some result => exact calls_updateTuple hresult
  | applyDelete rid =>
    show Calls h _ ((h.applyDelete rid).getD h)
    cases hresult : h.applyDelete rid with
    | none => exact .keeps _
    | some h' => exact calls_applyDelete hresult
  | rollbackDelete rid =>
    show Calls h _ ((h.rollbackDelete rid).getD h)
    cases hresult : h.rollbackDelete rid with
    | none => exact .keeps _
    | some h' => exact calls_rollbackDelete hresult

/-! ### The ids of the pages -/

/-- Every page of the heap carries its own id, and the heap has a first page. -/
structure OwnIds (h : TableHeap) : Prop where
  page : ∀ p page, h.pages p = some page → page.Layout ∧ page.tablePageId = p
  first : h.firstPageId ≠ INVALID_PAGE_ID

variable {p : PageId} {page page' : TablePage}

/-- Putting a page with its own id in place. -/
theorem OwnIds.setPage (ho : h.OwnIds) (hpage : page.Layout ∧ page.tablePageId = p) :
    (h.setPage p page).OwnIds := by
  refine ⟨fun q other hq => ?_, ho.first⟩
  by_cases hqp : q = p
  · subst hqp
    have hself : (h.setPage q page).pages q = some page := Function.update_self ..
    obtain rfl := Option.some.inj (hself.symm.trans hq)
    exact hpage
  · have hne : (h.setPage p page).pages q = h.pages q := Function.update_of_ne hqp ..
    exact ho.page q other (hne.symm.trans hq)

/-- An operation on a page. -/
theorem OwnIds.step (ho : h.OwnIds) (hp : h.pages p = some page) {op : PageOp} {answer : Bool}
    (hstep : page.step op = some (answer, page')) : page'.Layout ∧ page'.tablePageId = p := by
  obtain ⟨hlayout, hid⟩ := ho.page p page hp
  obtain ⟨hlayout', hids⟩ := hlayout.step_keeps hstep
  exact ⟨hlayout', hids.1.trans hid⟩

/-- The map is no page of the heap. -/
theorem OwnIds.withMap (ho : h.OwnIds) (m : FreeSpaceMap) : (h.withMap m).OwnIds :=
  ⟨ho.page, ho.first⟩

/-- The new page of an insert carries its own id, and linking it changes no id. -/
theorem OwnIds.insertNewPage (ho : h.OwnIds) (row : Row) (truePage : Option PageId) :
    (h.insertNewPage row truePage).2.OwnIds := by
  unfold TableHeap.insertNewPage
  dsimp only
  generalize h.allocator.pick h.live = new
  have hnew : ((TablePage.init new (truePage.getD INVALID_PAGE_ID) (fun _ => 0)).insertTuple row
      ).2.Layout ∧
      ((TablePage.init new (truePage.getD INVALID_PAGE_ID) (fun _ => 0)).insertTuple row
      ).2.tablePageId = new := by
    have hop : (TablePage.init new (truePage.getD INVALID_PAGE_ID) (fun _ => 0)).step
        (.insertTuple row) = some ((_ : Bool), _) := rfl
    obtain ⟨hlayout, hids⟩ := (TablePage.Layout.init new (truePage.getD INVALID_PAGE_ID)
      (fun _ => 0)).step_keeps hop
    exact ⟨hlayout, hids.1⟩
  generalize (TablePage.init new (truePage.getD INVALID_PAGE_ID) (fun _ => 0)).insertTuple row =
    inserted at hnew ⊢
  have hadded : (({ h with live := new :: h.live }.setPage new inserted.2).setNewPair new
      inserted.2.getFreeSpace).OwnIds := by
    have hlive : ({ h with live := new :: h.live } : TableHeap).OwnIds := ⟨ho.page, ho.first⟩
    have hset := hlive.setPage hnew
    exact ⟨hset.page, hset.first⟩
  generalize ({ h with live := new :: h.live }.setPage new inserted.2).setNewPair new
    inserted.2.getFreeSpace = added at hadded ⊢
  -- with no page tried before, nothing is linked
  cases truePage with
  | none => exact hadded
  | some t =>
    rw [Option.bind_some]
    cases ht : added.pages t with
    | none => exact hadded
    | some page =>
      obtain ⟨hlayout, hid⟩ := hadded.page t page ht
      exact hadded.setPage ⟨hlayout.setNextPageId new, hid⟩

/-- By induction on the fuel, every page the loop writes keeps its id. -/
theorem OwnIds.insertLoop (row : Row) (fuel : Nat) (ho : h.OwnIds) (next : PageId)
    (truePage : Option PageId) : (insertLoop row fuel h next truePage).2.OwnIds := by
  induction fuel generalizing h next truePage with
  | zero => exact ho
  | succ fuel ih =>
    unfold TableHeap.insertLoop insertStep
    split
    · exact ho.insertNewPage row truePage
    · cases hp : h.pages next with
      | none => exact ho
      | some page =>
        dsimp only
        have hop : page.step (.insertTuple row) = some ((_ : Bool), _) := rfl
        have hstep := ho.step hp hop
        cases hinsert : page.insertTuple row with
        | mk answer page' =>
          rw [hinsert] at hstep
          cases answer with
          | some slotNum =>
            have hset := ho.setPage hstep
            exact ⟨hset.page, hset.first⟩
          | none => exact ih (ho.withMap (h.freespaceMap.getNext row.getSerializedSize).2) _ _

/-- Every call of a session keeps the ids. -/
theorem OwnIds.next (ho : h.OwnIds) (call : HeapCall) : (h.next call).OwnIds := by
  have hcalls := calls_next h call
  generalize h.next call = h' at hcalls ⊢
  cases hcalls with
  | inserts row =>
    unfold insertTuple
    split
    · exact ho
    · exact (ho.withMap _).insertLoop row _ _ _
  | keeps => exact ho
  | writes hp hstep =>
    have hset := ho.setPage (ho.step hp hstep)
    exact ⟨hset.page, hset.first⟩

/-- The first page of a new heap carries its id. -/
theorem ownIds_create (allocator : Allocator) (live : List PageId) :
    (create allocator live).OwnIds := by
  constructor
  · intro p page hp
    have hp : (if p = allocator.pick live then
        some (TablePage.init (allocator.pick live) INVALID_PAGE_ID (fun _ => 0)) else none) =
          some page := hp
    split at hp
    · next heq =>
      obtain rfl := Option.some.inj hp
      exact ⟨TablePage.Layout.init _ _ _, heq.symm⟩
    · exact nomatch hp
  · have hnonneg := allocator.pick_nonneg live
    intro hfirst
    have hfirst : allocator.pick live = INVALID_PAGE_ID := hfirst
    rw [hfirst] at hnonneg
    exact absurd hnonneg (by decide)

/-- The heaps of a session. -/
theorem ownIds_session (allocator : Allocator) (live : List PageId) (calls : List HeapCall) :
    (calls.foldl next (create allocator live)).OwnIds :=
  (Steps.foldl next (create allocator live) calls).invariant
    (fun _ call _ ho heq => heq ▸ ho.next call) (ownIds_create allocator live)

end TableHeap

end DisMiniSql.MiniSql.Heap
