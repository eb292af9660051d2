import DisMiniSql.MiniSql.Storage.TableHeap
import Mathlib.Data.List.Basic
import Mathlib.Data.List.Nodup
import Mathlib.Tactic.Linarith

/-!
# The rows of a table heap

Each operation of the heap changes the row of one row id at most. `insertTuple_spec`,
`markDelete_spec` and `updateTuple_cases` say which, as seen by `GetTuple`. A scan yields rows that
`GetTuple` yields (`mem_scan`), no row id twice (`nodup_scan`), and it ends before the bound on its
length does (`chain_enough`).

The last two rest on `Linked`: a page's successor is a page that was allocated later.
-/

set_option autoImplicit false

namespace DisMiniSql.MiniSql

variable {V : Type} {size : List V → Nat} {frames : Frames}

/-! ## One page -/

namespace TablePage

/-- Changing a slot changes the row of that slot alone. -/
theorem getTuple_set (p : TablePage V) {slotNum : Nat} {s : Slot V}
    (hs : p.slots[slotNum]? = some s)
    (s' : Slot V) (free : Nat) (i : Nat) :
    TablePage.getTuple { p with slots := p.slots.set slotNum s', freeSpacePointer := free } i =
      if i = slotNum then (if s'.deleted then none else some s'.row) else p.getTuple i := by
  have hlt : slotNum < p.slots.length := (List.getElem?_eq_some_iff.mp hs).1
  unfold getTuple
  by_cases hi : i = slotNum
  · subst hi
    simp [hlt]
  · simp [Ne.symm hi, hi]

variable {p : TablePage V}

/-- A row that can be read stands in its slot, unmarked. -/
theorem slot_of_getTuple {slotNum : Nat} {row : List V} (h : p.getTuple slotNum = some row) :
    p.slots[slotNum]? = some ⟨row, false⟩ := by
  unfold getTuple at h
  cases hs : p.slots[slotNum]? with
  | none => simp [hs] at h
  | some s =>
    simp only [hs] at h
    split at h
    · cases h
    · next hd =>
      cases s with
      | mk r d => simp_all

/-- An insert fills the slot behind the last. -/
theorem insertTuple_spec {p' : TablePage V} {row : List V} {n : Nat}
    (h : p.insertTuple size row = some (n, p')) :
    p.getTuple n = none ∧ p'.nextPageId = p.nextPageId ∧
      ∀ i, p'.getTuple i = if i = n then some row else p.getTuple i := by
  unfold insertTuple at h
  split at h
  · cases h
  · simp only [Option.some.injEq, Prod.mk.injEq] at h
    obtain ⟨rfl, rfl⟩ := h
    refine ⟨by simp [getTuple], rfl, fun i => ?_⟩
    unfold getTuple
    rcases Nat.lt_trichotomy i p.slots.length with hlt | heq | hgt
    · simp [List.getElem?_append_left hlt, Nat.ne_of_lt hlt]
    · simp [heq]
    · have hnone : (p.slots ++ [(⟨row, false⟩ : Slot V)])[i]? = none := by simp; omega
      simp [hnone, Nat.ne_of_gt hgt, List.getElem?_eq_none (Nat.le_of_lt hgt)]

/-- A deleted row is gone, and the others are as before. -/
theorem getTuple_markDelete (p : TablePage V) (slotNum i : Nat) :
    (p.markDelete slotNum).2.getTuple i = if i = slotNum then none else p.getTuple i := by
  unfold markDelete
  cases hrow : p.getTuple slotNum with
  | none =>
    dsimp only
    split
    · next hi => rw [hi, hrow]
    · rfl
  | some row => exact getTuple_set p (slot_of_getTuple hrow) ⟨row, true⟩ p.freeSpacePointer i

/-- Marking changes no link. -/
theorem nextPageId_markDelete (p : TablePage V) (slotNum : Nat) :
    (p.markDelete slotNum).2.nextPageId = p.nextPageId := by
  unfold markDelete
  split <;> rfl

/-- The page has room for `row` in the place of the row in `slotNum`. -/
def Fits (size : List V → Nat) (p : TablePage V) (oldRow row : List V) : Prop :=
  size row ≤ p.getFreeSpaceRemaining + size oldRow

instance (p : TablePage V) (oldRow row : List V) : Decidable (Fits size p oldRow row) :=
  inferInstanceAs (Decidable (_ ≤ _))

/-- An update that does not fit changes nothing. -/
theorem updateTuple_of_not_fits {slotNum : Nat} {oldRow row : List V}
    (hold : p.getTuple slotNum = some oldRow) (hfit : ¬ Fits size p oldRow row) :
    p.updateTuple size row slotNum = (false, p) := by
  simp only [updateTuple, hold]
  rw [if_pos (Nat.lt_of_not_le hfit)]

/-- An update that fits changes the row of its slot. -/
theorem updateTuple_of_fits {slotNum : Nat} {oldRow row : List V}
    (hold : p.getTuple slotNum = some oldRow) (hfit : Fits size p oldRow row) :
    (p.updateTuple size row slotNum).1 = true ∧
      (p.updateTuple size row slotNum).2.nextPageId = p.nextPageId ∧
      ∀ i, (p.updateTuple size row slotNum).2.getTuple i =
        if i = slotNum then some row else p.getTuple i := by
  simp only [updateTuple, hold]
  rw [if_neg (Nat.not_lt.mpr hfit)]
  exact ⟨rfl, rfl, fun i => getTuple_set p (slot_of_getTuple hold) ⟨row, false⟩ _ i⟩

/-- The rows of a page are those that `GetTuple` finds. -/
theorem mem_rows (p : TablePage V) (pageId : Nat) (r : RowId × List V) :
    r ∈ p.rows pageId ↔ r.1.pageId = pageId ∧ p.getTuple r.1.slotNum = some r.2 := by
  unfold rows getTuple
  rw [List.mem_filterMap]
  constructor
  · rintro ⟨⟨s, i⟩, hs, hr⟩
    have hs := List.mk_mem_zipIdx_iff_getElem?.mp hs
    dsimp only at hr
    split at hr
    · cases hr
    · next hd =>
      cases hr
      exact ⟨rfl, by simp [hs, hd]⟩
  · rintro ⟨hpage, hrow⟩
    cases hs : p.slots[r.1.slotNum]? with
    | none => simp [hs] at hrow
    | some s =>
      refine ⟨(s, r.1.slotNum), List.mk_mem_zipIdx_iff_getElem?.mpr hs, ?_⟩
      simp only [hs] at hrow
      split at hrow
      · cases hrow
      · next hd =>
        rw [if_neg hd]
        exact congrArg some (Prod.ext (by rw [← hpage]) (Option.some.inj hrow))

/-- No row id stands twice on a page. -/
theorem nodup_rows (p : TablePage V) (pageId : Nat) : ((p.rows pageId).map Prod.fst).Nodup := by
  have hids : (p.rows pageId).map Prod.fst =
      (p.slots.zipIdx.filter (fun s => !s.1.deleted)).map (fun s => RowId.mk pageId s.2) := by
    unfold rows
    induction p.slots.zipIdx with
    | nil => rfl
    | cons s ss ih =>
      cases hd : s.1.deleted with
      | true => simp [hd, ih]
      | false => simp [hd, ih]
  have hall : (p.slots.zipIdx.map (fun s => RowId.mk pageId s.2)).Nodup := by
    have hnumbers : (p.slots.zipIdx.map Prod.snd).Nodup := by
      rw [List.zipIdx_map_snd]
      exact List.nodup_range'
    rw [show (fun s : Slot V × Nat => RowId.mk pageId s.2) = RowId.mk pageId ∘ Prod.snd from rfl,
      ← List.map_map]
    exact hnumbers.map (fun i j hij => (RowId.mk.inj hij).2)
  rw [hids]
  exact hall.sublist (List.filter_sublist.map _)

end TablePage

/-! ## The heap -/

namespace TableHeap

variable {h : TableHeap V}

/-- A page whose successor stays the same and in which only the row of `slotNum` changes. -/
theorem getTuple_setPage {page page' : TablePage V} {pageId slotNum : Nat} {v : Option (List V)}
    (hpage : h.pages[pageId]? = some page)
    (hrow : ∀ i, page'.getTuple i = if i = slotNum then v else page.getTuple i) (r : RowId) :
    (h.setPage pageId page').getTuple r = if r = ⟨pageId, slotNum⟩ then v else h.getTuple r := by
  have hlt : pageId < h.pages.length := (List.getElem?_eq_some_iff.mp hpage).1
  unfold getTuple setPage
  by_cases hp : r.pageId = pageId
  · rw [hp, List.getElem?_set_self hlt, hpage, Option.bind_some, Option.bind_some, hrow]
    have hiff : r = ⟨pageId, slotNum⟩ ↔ r.slotNum = slotNum := by
      cases r with
      | mk q i => simp_all
    simp only [hiff]
  · have hne : r ≠ ⟨pageId, slotNum⟩ := fun heq => hp (by rw [heq])
    rw [List.getElem?_set_ne (Ne.symm hp), if_neg hne]

/-- Each page's successor is a page that was allocated later. -/
def Linked (pages : List (TablePage V)) : Prop :=
  ∀ p page q, pages[p]? = some page → page.nextPageId = some q → p < q ∧ q < pages.length

/-- A new heap is one page without a successor. -/
theorem linked_create : Linked (create (V := V)).pages := by
  intro p page q hpage hnext
  have hp : p = 0 := by
    have := (List.getElem?_eq_some_iff.mp hpage).1
    simp [create] at this
    exact this
  subst hp
  simp only [create, List.getElem?_cons_zero, Option.some.injEq] at hpage
  subst hpage
  cases hnext

/-- Changing a page that keeps its successor keeps the links. -/
theorem Linked.setPage {page page' : TablePage V} {pageId : Nat} (hl : Linked h.pages)
    (hpage : h.pages[pageId]? = some page) (hnext : page'.nextPageId = page.nextPageId) :
    Linked (h.setPage pageId page').pages := by
  intro p q r hq hr
  show p < r ∧ r < (h.pages.set pageId page').length
  rw [List.length_set]
  have hq : (h.pages.set pageId page')[p]? = some q := hq
  by_cases hp : p = pageId
  · subst hp
    rw [List.getElem?_set_self (List.getElem?_eq_some_iff.mp hpage).1] at hq
    cases hq
    exact hl p page r hpage (hnext ▸ hr)
  · rw [List.getElem?_set_ne (Ne.symm hp)] at hq
    exact hl p q r hq hr

/-! ## Inserting -/

/-- What an insert that succeeds makes of the heap. -/
structure Inserted (h : TableHeap V) (row : List V) (rid : RowId) (h' : TableHeap V) : Prop where
  free : h.getTuple rid = none
  getTuple : ∀ r, h'.getTuple r = if r = rid then some row else h.getTuple r
  linked : Linked h.pages → Linked h'.pages

variable {pages : List (TablePage V)}

/-- A new page linked behind the last keeps the pages in order. -/
theorem linked_modify (hl : Linked pages) (truePage : Nat) (page : TablePage V)
    (hnew : page.nextPageId = none) :
    Linked (pages.modify truePage (fun p => { p with nextPageId := some pages.length }) ++
      [page]) := by
  intro p q r hq hr
  rw [List.length_append, List.length_modify, List.length_singleton]
  -- a page of before, or the new one
  rcases Nat.lt_or_ge p pages.length with hlt | hge
  · rw [List.getElem?_append_left (by simpa using hlt), List.getElem?_modify] at hq
    cases hpage : pages[p]? with
    | none => simp [hpage] at hq
    | some old =>
      simp only [hpage, Option.map_eq_map, Option.map_some, Option.some.injEq] at hq
      split at hq
      · subst hq
        cases hr
        exact ⟨hlt, Nat.lt_succ_self _⟩
      · subst hq
        have := hl p old r hpage hr
        exact ⟨this.1, by omega⟩
  · rw [List.getElem?_append_right (by simpa using hge), List.length_modify] at hq
    have hp : p - pages.length = 0 := by
      have := (List.getElem?_eq_some_iff.mp hq).1
      simpa using this
    rw [hp, List.getElem?_cons_zero] at hq
    cases hq
    rw [hnew] at hr
    cases hr

variable {h' : TableHeap V}

/-- A row put on a new page can be read there; all others are where they were. -/
theorem insertNewPage_spec {row : List V} {truePage : Option Nat} {rid : RowId}
    (hins : h.insertNewPage size row truePage = some (rid, h')) : Inserted h row rid h' := by
  unfold insertNewPage at hins
  rw [Option.bind_eq_bind, Option.bind_eq_some_iff] at hins
  obtain ⟨⟨slotNum, page⟩, hpage, hins⟩ := hins
  simp only [Option.some.injEq, Prod.mk.injEq] at hins
  obtain ⟨rfl, rfl⟩ := hins
  obtain ⟨_, hnext, hrow⟩ := TablePage.insertTuple_spec hpage
  refine ⟨by simp [getTuple], fun r => ?_, fun hl => linked_modify hl _ page hnext⟩
  unfold getTuple
  -- the row asked for is on an old page, on the new one, or on none
  rcases Nat.lt_trichotomy r.pageId h.pages.length with hlt | heq | hgt
  · have hne : r ≠ ⟨h.pages.length, slotNum⟩ := fun heq => by simp [heq] at hlt
    rw [List.getElem?_append_left (by simpa using hlt), List.getElem?_modify, if_neg hne]
    cases h.pages[r.pageId]? with
    | none => rfl
    | some old =>
      simp only [Option.map_eq_map, Option.map_some, Option.bind_some]
      split <;> rfl
  · have hold : h.pages[r.pageId]? = none := by simp [heq]
    have hnew : (h.pages.modify (truePage.getD h.pages.length)
        (fun p => { p with nextPageId := some h.pages.length }) ++ [page])[r.pageId]? =
        some page := by simp [heq]
    have hiff : r = ⟨h.pages.length, slotNum⟩ ↔ r.slotNum = slotNum := by
      cases r with
      | mk q i => simp_all
    rw [hnew, hold, Option.bind_some, hrow, Option.bind_none]
    simp only [hiff]
    rfl
  · have hne : r ≠ ⟨h.pages.length, slotNum⟩ := fun heq => by simp [heq] at hgt
    have hold : h.pages[r.pageId]? = none := by simp; omega
    have hnew : (h.pages.modify (truePage.getD h.pages.length)
        (fun p => { p with nextPageId := some h.pages.length }) ++ [page])[r.pageId]? =
        none := by simp; omega
    rw [hnew, hold, if_neg hne]

/-- The loop of an insert tries the pages in turn and changes one. -/
theorem insertLoop_spec {row : List V} (pageIds : List Nat) :
    ∀ (truePage : Option Nat) (rid : RowId) (h' : TableHeap V),
      h.insertLoop size frames row pageIds truePage = some (rid, h') → Inserted h row rid h' := by
  induction pageIds with
  | nil =>
    intro truePage rid h' hins
    rw [insertLoop] at hins
    split at hins
    · exact insertNewPage_spec hins
    · cases hins
  | cons pageId pageIds ih =>
    intro truePage rid h' hins
    rw [insertLoop] at hins
    split at hins
    · rw [Option.bind_eq_bind, Option.bind_eq_some_iff] at hins
      obtain ⟨page, hpage, hins⟩ := hins
      cases htuple : page.insertTuple size row with
      | none =>
        simp only [htuple] at hins
        exact ih _ _ _ hins
      | some r =>
        obtain ⟨slotNum, page'⟩ := r
        simp only [htuple, Option.some.injEq, Prod.mk.injEq] at hins
        obtain ⟨rfl, rfl⟩ := hins
        obtain ⟨hfree, hnext, hrow⟩ := TablePage.insertTuple_spec htuple
        exact ⟨by simp [getTuple, hpage, hfree], getTuple_setPage hpage hrow,
          fun hl => hl.setPage hpage hnext⟩
    · cases hins

/-- A successful insert adds its row and changes no other, whichever page it ends on. -/
theorem insertTuple_spec {row : List V} {rid : RowId}
    (hins : h.insertTuple size frames row = some (rid, h')) : Inserted h row rid h' := by
  unfold insertTuple at hins
  split at hins
  · cases hins
  · exact insertLoop_spec _ _ _ _ hins

/-! ## Deleting and updating -/

/-- A delete whose page is there removes the row; otherwise it answers `false`. -/
theorem markDelete_spec (h : TableHeap V) (frames : Frames) (rid : RowId) :
    ((h.markDelete frames rid).1 = false → (h.markDelete frames rid).2 = h) ∧
    ((h.markDelete frames rid).1 = true →
      ∀ r, (h.markDelete frames rid).2.getTuple r = if r = rid then none else h.getTuple r) ∧
    (Linked h.pages → Linked (h.markDelete frames rid).2.pages) := by
  unfold markDelete
  cases hpage : h.pages[rid.pageId]? with
  | none => exact ⟨fun _ => rfl, fun hfalse => (by cases hfalse), id⟩
  | some page =>
    dsimp only
    split
    · refine ⟨fun hfalse => (by cases hfalse), fun _ => ?_, fun hl => ?_⟩
      · exact getTuple_setPage hpage (page.getTuple_markDelete rid.slotNum)
      · exact hl.setPage hpage (page.nextPageId_markDelete rid.slotNum)
    · exact ⟨fun _ => rfl, fun hfalse => (by cases hfalse), id⟩

/-- The page of `rid` has room for `row` in the place of the row of `rid`. -/
def fits (size : List V → Nat) (h : TableHeap V) (row : List V) (rid : RowId) : Bool :=
  (h.pages[rid.pageId]?).any (fun page =>
    (page.getTuple rid.slotNum).any (fun oldRow => decide (TablePage.Fits size page oldRow row)))

/-- Whether a row fits depends on the pages only. -/
theorem fits_congr (hpages : h'.pages = h.pages) (row : List V) (rid : RowId) :
    h'.fits size row rid = h.fits size row rid := by
  unfold fits
  rw [hpages]

/-- What `UpdateTuple` answers on a row that is there, and what it does. A page that cannot be
fetched: `false`, and nothing changes. A row that fits: `false`, and it is the new row. A row that
does not fit: `true`, and the rows are as before. -/
theorem updateTuple_cases (size : List V → Nat) (frames : Frames) {rid : RowId} {src : List V}
    (hsrc : h.getTuple rid = some src) (row : List V) :
    (frames.fetch rid.pageId = false ∧ h.updateTuple size frames row rid = (false, h)) ∨
    (frames.fetch rid.pageId = true ∧ h.fits size row rid = true ∧
      (h.updateTuple size frames row rid).1 = false ∧
      (∀ r, (h.updateTuple size frames row rid).2.getTuple r =
        if r = rid then some row else h.getTuple r) ∧
      (Linked h.pages → Linked (h.updateTuple size frames row rid).2.pages)) ∨
    (frames.fetch rid.pageId = true ∧ h.fits size row rid = false ∧
      (h.updateTuple size frames row rid).1 = true ∧
      (h.updateTuple size frames row rid).2.pages = h.pages) := by
  unfold getTuple at hsrc
  rw [Option.bind_eq_some_iff] at hsrc
  obtain ⟨page, hpage, hold⟩ := hsrc
  have hfits : h.fits size row rid = decide (TablePage.Fits size page src row) := by
    simp [fits, hpage, hold]
  cases hfetch : frames.fetch rid.pageId with
  | false => exact .inl ⟨rfl, by simp [updateTuple, hpage, hfetch]⟩
  | true =>
    right
    rw [hfits]
    by_cases hfit : TablePage.Fits size page src row
    · obtain ⟨htrue, hnext, hrow⟩ := TablePage.updateTuple_of_fits hold hfit
      have heq : h.updateTuple size frames row rid =
          (false, h.setPage rid.pageId (page.updateTuple size row rid.slotNum).2) := by
        simp [updateTuple, hpage, hfetch, hold, htrue]
      rw [heq]
      exact .inl ⟨rfl, decide_eq_true hfit, rfl, getTuple_setPage hpage hrow,
        fun hl => hl.setPage hpage hnext⟩
    · have heq : h.updateTuple size frames row rid = (true, h.setPage rid.pageId page) := by
        simp [updateTuple, hpage, hfetch, hold, TablePage.updateTuple_of_not_fits hold hfit]
      rw [heq]
      refine .inr ⟨rfl, decide_eq_false hfit, rfl, ?_⟩
      show h.pages.set rid.pageId page = h.pages
      obtain ⟨hlt, hget⟩ := List.getElem?_eq_some_iff.mp hpage
      rw [← hget, List.set_getElem_self]

/-! ## Scanning -/

/-- Rows are about the pages only. -/
theorem getTuple_congr (hpages : h'.pages = h.pages) (r : RowId) :
    h'.getTuple r = h.getTuple r := by
  unfold getTuple
  rw [hpages]

/-- The pages of a chain stand in ascending order. -/
theorem chain_sorted (hl : Linked pages) (fuel : Nat) :
    ∀ p, (chain pages fuel p).Pairwise (· < ·) ∧ ∀ q ∈ chain pages fuel p, p ≤ q := by
  induction fuel with
  | zero => exact fun p => ⟨.nil, fun q hq => absurd hq List.not_mem_nil⟩
  | succ fuel ih =>
    intro p
    rw [chain]
    cases hpage : pages[p]? with
    | none => exact ⟨.nil, fun q hq => absurd hq List.not_mem_nil⟩
    | some page =>
      dsimp only
      cases hnext : page.nextPageId with
      | none => simp
      | some n =>
        have hlt := (hl p page n hpage hnext).1
        obtain ⟨hsorted, hle⟩ := ih n
        refine ⟨List.pairwise_cons.mpr ⟨fun q hq => ?_, hsorted⟩, ?_⟩
        · exact Nat.lt_of_lt_of_le hlt (hle q hq)
        · rw [List.forall_mem_cons]
          exact ⟨Nat.le_refl p, fun q hq => Nat.le_trans (Nat.le_of_lt hlt) (hle q hq)⟩

/-- The walk along the pages ends before its bound: one page of fuel for each page is enough. -/
theorem chain_enough (hl : Linked pages) (fuel : Nat) :
    ∀ p, pages.length - p ≤ fuel → chain pages (fuel + 1) p = chain pages fuel p := by
  induction fuel with
  | zero =>
    intro p hp
    have hnone : pages[p]? = none := by simp; omega
    simp [chain, hnone]
  | succ fuel ih =>
    intro p hp
    rw [chain, chain]
    cases hpage : pages[p]? with
    | none => rfl
    | some page =>
      dsimp only
      cases hnext : page.nextPageId with
      | none => rfl
      | some n =>
        have hlt := (hl p page n hpage hnext).1
        have hp' := (List.getElem?_eq_some_iff.mp hpage).1
        rw [Option.map_some, Option.map_some, Option.getD_some, Option.getD_some,
          ih n (by omega)]

/-- The rows of the page `pageId`, none for a page that is not there. -/
def pageRows (pages : List (TablePage V)) (pageId : Nat) : List (RowId × List V) :=
  ((pages[pageId]?).map (fun page => page.rows pageId)).getD []

/-- The rows of a page are those that can be read there. -/
theorem mem_pageRows (pageId : Nat) (r : RowId × List V) :
    r ∈ pageRows h.pages pageId ↔ r.1.pageId = pageId ∧ h.getTuple r.1 = some r.2 := by
  unfold pageRows getTuple
  cases hpage : h.pages[pageId]? with
  | none =>
    simp only [Option.map_none, Option.getD_none, List.not_mem_nil, false_iff]
    rintro ⟨rfl, hrow⟩
    simp [hpage] at hrow
  | some page =>
    rw [Option.map_some, Option.getD_some, TablePage.mem_rows]
    refine and_congr_right fun heq => ?_
    rw [heq, hpage, Option.bind_some]

/-- No row id occurs twice. -/
theorem nodup_pageRows (pages : List (TablePage V)) (pageId : Nat) :
    ((pageRows pages pageId).map Prod.fst).Nodup := by
  unfold pageRows
  cases pages[pageId]? with
  | none => exact .nil
  | some page => exact page.nodup_rows pageId

/-- A scan is empty, or it yields the rows of the pages along the chain. -/
theorem scan_cases (h : TableHeap V) :
    h.scan = [] ∨ h.scan = (chain h.pages h.pages.length 0).flatMap (pageRows h.pages) := by
  unfold scan
  cases h.pages[0]? with
  | none => exact .inl rfl
  | some first =>
    dsimp only
    split
    · exact .inl rfl
    · exact .inr rfl

/-- A scan yields rows that are there. -/
theorem mem_scan {r : RowId × List V} (hr : r ∈ h.scan) : h.getTuple r.1 = some r.2 := by
  rcases scan_cases h with heq | heq
  · rw [heq] at hr
    cases hr
  · rw [heq, List.mem_flatMap] at hr
    obtain ⟨pageId, _, hmem⟩ := hr
    exact ((mem_pageRows pageId r).mp hmem).2

/-- A scan yields no row id twice. -/
theorem nodup_scan (hl : Linked h.pages) : (h.scan.map Prod.fst).Nodup := by
  rcases scan_cases h with heq | heq
  · rw [heq]
    exact .nil
  · rw [heq, List.map_flatMap, List.nodup_flatMap]
    refine ⟨fun pageId _ => nodup_pageRows h.pages pageId, ?_⟩
    refine ((chain_sorted hl _ 0).1).imp ?_
    -- The row ids of different pages differ by the page.
    intro p q hlt rid hp hq
    obtain ⟨r, hr, rfl⟩ := List.mem_map.mp hp
    obtain ⟨r', hr', heq'⟩ := List.mem_map.mp hq
    have hpage := ((mem_pageRows p r).mp hr).1
    have hpage' := ((mem_pageRows q r').mp hr').1
    rw [heq', hpage] at hpage'
    omega

end TableHeap

end DisMiniSql.MiniSql
