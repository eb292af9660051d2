import DisMiniSql.MiniSql.Storage.TableIterator
import DisMiniSql.Proofs.Storage.HeapChain

/-!
# `DisMiniSql.Proofs.Storage.TableScan`: the rows of a scan

`liveTuples` are the live tuples of a list of pages, in the order of the list and of the slots. From
any live tuple on, the iterator visits the rest of them (`scanFrom_eq`), also over pages without a
live tuple. Only `Begin` stops at the first page: `scan_eq_iff`.
-/

set_option autoImplicit false

namespace DisMiniSql.MiniSql.Heap

namespace TablePage

variable {page : TablePage} {s i n : Nat}

/-- The live slots of a page from the slot `s` on. -/
def liveSlots (page : TablePage) (s : Nat) : List Nat :=
  (List.range' s (page.getTupleCount - s)).filter (fun i => !isDeleted (page.getTupleSize i))

/-- Behind the last slot there is none. -/
theorem liveSlots_of_le (h : page.getTupleCount ≤ s) : page.liveSlots s = [] := by
  unfold liveSlots
  rw [Nat.sub_eq_zero_of_le h]
  rfl

/-- A slot is passed over when its row is marked or gone. -/
theorem liveSlots_of_lt (h : s < page.getTupleCount) : page.liveSlots s =
    if isDeleted (page.getTupleSize s) then page.liveSlots (s + 1)
    else s :: page.liveSlots (s + 1) := by
  unfold liveSlots
  have hcount : page.getTupleCount - s = (page.getTupleCount - (s + 1)) + 1 := by omega
  rw [hcount, List.range'_succ, List.filter_cons]
  cases isDeleted (page.getTupleSize s) with
  | true => rfl
  | false => rfl

/-- `GetFirstTupleRid` finds the first live slot. -/
theorem getFirstTupleRid_eq (page : TablePage) :
    page.getFirstTupleRid = (page.liveSlots 0).head? := by
  unfold getFirstTupleRid liveSlots
  rw [Nat.sub_zero, List.head?_filter, List.range_eq_range']

/-- Behind the first live slot are the live slots from the next one on. -/
theorem liveSlots_tail {rest : List Nat} (h : page.liveSlots s = i :: rest) :
    i < page.getTupleCount ∧ isDeleted (page.getTupleSize i) = false ∧
      rest = page.liveSlots (i + 1) := by
  induction hn : page.getTupleCount - s generalizing s with
  | zero =>
    rw [liveSlots_of_le (Nat.le_of_sub_eq_zero hn)] at h
    exact nomatch h
  | succ n ih =>
    have hlt : s < page.getTupleCount := by omega
    rw [liveSlots_of_lt hlt] at h
    cases hdeleted : isDeleted (page.getTupleSize s) with
    | true =>
      rw [hdeleted, if_pos rfl] at h
      exact ih h (by omega)
    | false =>
      rw [hdeleted, if_neg Bool.false_ne_true] at h
      obtain ⟨rfl, rfl⟩ := List.cons.inj h
      exact ⟨hlt, hdeleted, rfl⟩

end TablePage

namespace TableHeap

variable {h : TableHeap} {p : PageId} {page : TablePage} {l : List PageId} {s : Nat}
  {it : TableIterator}

/-- The pages of the list follow each other by `next_page_id`, and the last one has no
successor. -/
def Follows (pages : PageId → Option TablePage) : List PageId → Prop
  | [] => True
  | p :: l =>
    (p ≠ INVALID_PAGE_ID ∧ ∃ page, pages p = some page ∧ page.tablePageId = p ∧
      page.nextPageId = l.headD INVALID_PAGE_ID) ∧ Follows pages l

/-- The tuples of the live slots of a page from the slot `s` on. -/
def tuplesFrom (h : TableHeap) (p : PageId) (s : Nat) : List (RowId × Option (List UInt8)) :=
  ((h.pages p).map (fun page =>
    (page.liveSlots s).map (fun i => ((⟨p, i⟩ : RowId), page.getTuple i)))).getD []

/-- The live tuples of a list of pages. -/
def liveTuples (h : TableHeap) (l : List PageId) : List (RowId × Option (List UInt8)) :=
  l.flatMap (fun p => h.tuplesFrom p 0)

/-- The rows of a page from a slot on. -/
theorem tuplesFrom_eq (hp : h.pages p = some page) :
    h.tuplesFrom p s = (page.liveSlots s).map (fun i => ((⟨p, i⟩ : RowId), page.getTuple i)) := by
  unfold tuplesFrom
  rw [hp, Option.map_some, Option.getD_some]

/-- What the iterator has still to visit: nothing, or its own tuple and those behind it. -/
inductive Visits (h : TableHeap) : TableIterator → List (RowId × Option (List UInt8)) → Prop
  | over {it : TableIterator} : it.rowId = INVALID_ROWID → Visits h it []
  | tuple {it : TableIterator} {p : PageId} {s : Nat} {l : List PageId} :
      it.page = some p → it.rid = ⟨p, s⟩ → it.rowId = ⟨p, s⟩ → Follows h.pages (p :: l) →
      Visits h it ((⟨p, s⟩, it.row) :: (h.tuplesFrom p (s + 1) ++ h.liveTuples l))

/-- One turn of the loop that moves the iterator: the next live slot of the page, else the next
page, else the end. -/
theorem moveLoop_succ (hp : h.pages p = some page) (firstSlot : Bool) (slotNum fuel : Nat)
    (hs : s = if firstSlot then slotNum else slotNum + 1) :
    h.moveLoop it (fuel + 1) firstSlot p ⟨p, slotNum⟩ =
      if s < page.getTupleCount then
        if TablePage.isDeleted (page.getTupleSize s) then h.moveLoop it fuel false p ⟨p, s⟩
        else some ⟨some p, ⟨p, s⟩, ⟨p, s⟩, (h.getTuple ⟨p, s⟩).or it.row⟩
      else if page.nextPageId = INVALID_PAGE_ID then
        some ⟨none, INVALID_ROWID, INVALID_ROWID, it.row⟩
      else h.moveLoop it fuel true page.nextPageId ⟨page.nextPageId, 0⟩ := by
  have hrid : (if firstSlot then (⟨p, slotNum⟩ : RowId) else ⟨p, slotNum + 1⟩) = ⟨p, s⟩ := by
    rw [hs]
    -- at the start of a page slot 0 is tried, later the slot behind the current one
    cases firstSlot with
    | true => rfl
    | false => rfl
  rw [moveLoop, hp, Option.bind_some]
  dsimp only
  rw [hrid]

/-- A row of the heap is a row of its page. -/
theorem getTuple_eq_page (hp : h.pages p = some page) (s : Nat) :
    h.getTuple ⟨p, s⟩ = page.getTuple s := by
  unfold getTuple
  rw [hp, Option.bind_some]

/-- The loop on a page goes to its next live tuple, or behind its last slot. -/
theorem moveLoop_page (hl : Follows h.pages (p :: l)) (hp : h.pages p = some page)
    (hbehind : ∃ n next, (∀ fuel ≥ n, (if page.nextPageId = INVALID_PAGE_ID then
        some ⟨none, INVALID_ROWID, INVALID_ROWID, it.row⟩
      else h.moveLoop it fuel true page.nextPageId ⟨page.nextPageId, 0⟩) = some next) ∧
        h.Visits next (h.liveTuples l))
    (firstSlot : Bool) (slotNum : Nat) (hs : s = if firstSlot then slotNum else slotNum + 1) :
    ∃ n next, (∀ fuel ≥ n, h.moveLoop it fuel firstSlot p ⟨p, slotNum⟩ = some next) ∧
      h.Visits next (h.tuplesFrom p s ++ h.liveTuples l) := by
  have hstep : ∀ fuel, h.moveLoop it (fuel + 1) firstSlot p ⟨p, slotNum⟩ = _ :=
    fun fuel => moveLoop_succ hp firstSlot slotNum fuel hs
  induction hn : page.getTupleCount - s generalizing firstSlot slotNum s with
  | zero =>
    have hge : ¬ s < page.getTupleCount := Nat.not_lt_of_le (Nat.le_of_sub_eq_zero hn)
    obtain ⟨n, next, hfuel, hvisits⟩ := hbehind
    refine ⟨n + 1, next, fun fuel hle => ?_, ?_⟩
    · obtain ⟨fuel, rfl⟩ : ∃ k, fuel = k + 1 := ⟨fuel - 1, by omega⟩
      rw [hstep, if_neg hge]
      exact hfuel fuel (Nat.le_of_succ_le_succ hle)
    · rw [tuplesFrom_eq hp, TablePage.liveSlots_of_le (Nat.le_of_not_lt hge)]
      exact hvisits
  | succ k ih =>
    have hlt : s < page.getTupleCount := by omega
    rw [tuplesFrom_eq hp, TablePage.liveSlots_of_lt hlt]
    cases hdeleted : TablePage.isDeleted (page.getTupleSize s) with
    | true =>
      obtain ⟨n, next, hfuel, hvisits⟩ := ih (s := s + 1) false s rfl
        (fun fuel => moveLoop_succ hp false s fuel rfl) (by omega)
      refine ⟨n + 1, next, fun fuel hle => ?_, ?_⟩
      · obtain ⟨fuel, rfl⟩ : ∃ k, fuel = k + 1 := ⟨fuel - 1, by omega⟩
        rw [hstep, if_pos hlt, hdeleted, if_pos rfl]
        exact hfuel fuel (Nat.le_of_succ_le_succ hle)
      · rw [if_pos rfl, ← tuplesFrom_eq hp]
        exact hvisits
    | false =>
      refine ⟨1, ⟨some p, ⟨p, s⟩, ⟨p, s⟩, (h.getTuple ⟨p, s⟩).or it.row⟩, fun fuel hle => ?_, ?_⟩
      · obtain ⟨fuel, rfl⟩ : ∃ k, fuel = k + 1 := ⟨fuel - 1, by omega⟩
        rw [hstep, if_pos hlt, hdeleted, if_neg Bool.false_ne_true]
      · have hread : page.getTuple s = some (page.data.slice (page.getTupleOffsetAtSlot s)
            (page.getTupleSize s)) := by
          unfold TablePage.getTuple
          rw [if_neg (Nat.not_le_of_lt hlt)]
          dsimp only
          rw [hdeleted, if_neg Bool.false_ne_true]
        have hrow : (h.getTuple ⟨p, s⟩).or it.row = page.getTuple s := by
          rw [getTuple_eq_page hp, hread, Option.some_or]
        rw [if_neg Bool.false_ne_true, List.map_cons, ← tuplesFrom_eq hp, ← hrow]
        exact .tuple rfl rfl rfl hl

/-- The loop goes to the next live tuple, over any number of pages. -/
theorem moveLoop_visits (hl : Follows h.pages (p :: l)) (firstSlot : Bool) (slotNum : Nat)
    (hs : s = if firstSlot then slotNum else slotNum + 1) :
    ∃ n next, (∀ fuel ≥ n, h.moveLoop it fuel firstSlot p ⟨p, slotNum⟩ = some next) ∧
      h.Visits next (h.tuplesFrom p s ++ h.liveTuples l) := by
  induction l generalizing p firstSlot slotNum s with
  | nil =>
    obtain ⟨_, page, hp, _, hnext⟩ := hl.1
    have hover : h.Visits ⟨none, INVALID_ROWID, INVALID_ROWID, it.row⟩ (h.liveTuples []) :=
      .over rfl
    exact moveLoop_page hl hp ⟨0, _, fun fuel _ => if_pos hnext, hover⟩ firstSlot slotNum hs
  | cons q l ih =>
    obtain ⟨_, page, hp, _, hnext⟩ := hl.1
    have hq : page.nextPageId = q := hnext
    obtain ⟨n, next, hfuel, hvisits⟩ := ih hl.2 true 0 rfl
    refine moveLoop_page hl hp ⟨n, next, fun fuel hle => ?_, hvisits⟩ firstSlot slotNum hs
    rw [hq, if_neg hl.2.1.1]
    exact hfuel fuel hle

/-- From any iterator on, the scan visits what is left. -/
theorem scanFrom_eq {rows : List (RowId × Option (List UInt8))} (hv : h.Visits it rows) :
    ∃ n, ∀ fuel ≥ n, ∀ steps ≥ n, h.scanFrom fuel steps it = some rows := by
  induction rows generalizing it with
  | nil =>
    refine ⟨1, fun fuel _ steps hsteps => ?_⟩
    obtain ⟨steps, rfl⟩ : ∃ k, steps = k + 1 := ⟨steps - 1, by omega⟩
    obtain ⟨hrid⟩ := hv
    exact if_pos hrid
  | cons row rows ih =>
    cases hv with
    | @tuple p s l hpage hrid hrowId hl =>
      obtain ⟨n, next, hfuel, hvisits⟩ := moveLoop_visits hl false s rfl
      obtain ⟨m, hm⟩ := ih hvisits
      refine ⟨max n m + 1, fun fuel hle steps hsteps => ?_⟩
      obtain ⟨steps, rfl⟩ : ∃ k, steps = k + 1 := ⟨steps - 1, by omega⟩
      have hmove : h.moveToNextTuple fuel it = some next := by
        unfold moveToNextTuple
        rw [hpage, hrid]
        exact hfuel fuel (by omega)
      have hne : it.rowId ≠ endIterator.rowId := by
        rw [hrowId]
        exact fun heq => hl.1.1 (congrArg RowId.pageId heq)
      unfold scanFrom
      rw [if_neg hne, hmove, Option.bind_some, hm fuel (by omega) steps (by omega), hrowId]
      rfl

/-! ### From `Begin` on -/

/-- A first page without a live row makes `Begin` return the end iterator. -/
theorem begin_of_none (hp : h.pages h.firstPageId = some page) (hnone : page.liveSlots 0 = []) :
    h.begin = endIterator := by
  unfold begin
  rw [hp]
  dsimp only
  rw [TablePage.getFirstTupleRid_eq, hnone]
  rfl

/-- `Begin` is on the first live tuple of the first page. -/
theorem begin_visits (hl : Follows h.pages (h.firstPageId :: l))
    (hp : h.pages h.firstPageId = some page) (hsome : page.liveSlots 0 ≠ []) :
    h.Visits h.begin (h.liveTuples (h.firstPageId :: l)) := by
  obtain ⟨slotNum, rest, hslots⟩ := List.exists_cons_of_ne_nil hsome
  obtain ⟨_, _, rfl⟩ := TablePage.liveSlots_tail hslots
  obtain ⟨_, other, hother, hid, _⟩ := hl.1
  obtain rfl := Option.some.inj (hp.symm.trans hother)
  have hbegin : h.begin = ⟨some h.firstPageId, ⟨h.firstPageId, slotNum⟩, ⟨h.firstPageId, slotNum⟩,
      h.getTuple ⟨h.firstPageId, slotNum⟩⟩ := by
    unfold begin
    rw [hp]
    dsimp only
    rw [TablePage.getFirstTupleRid_eq, hslots, hid, hp]
    rfl
  have hrows : h.liveTuples (h.firstPageId :: l) =
      (⟨h.firstPageId, slotNum⟩, h.getTuple ⟨h.firstPageId, slotNum⟩) ::
        (h.tuplesFrom h.firstPageId (slotNum + 1) ++ h.liveTuples l) := by
    show h.tuplesFrom h.firstPageId 0 ++ h.liveTuples l = _
    rw [tuplesFrom_eq hp, hslots, List.map_cons, ← tuplesFrom_eq hp, getTuple_eq_page hp,
      List.cons_append]
  rw [hbegin, hrows]
  exact .tuple rfl rfl rfl hl

/-- All live tuples of the list, or nothing if the first page has none. -/
theorem scan_eq (hfirst : l.head? = some h.firstPageId) (hl : Follows h.pages l) :
    ∃ n, ∀ fuel ≥ n, h.scan fuel =
      some (if h.liveTuples [h.firstPageId] = [] then [] else h.liveTuples l) := by
  obtain ⟨l, rfl⟩ := List.head?_eq_some_iff.mp hfirst
  obtain ⟨_, page, hp, _⟩ := hl.1
  have hpage : h.liveTuples [h.firstPageId] = [] ↔ page.liveSlots 0 = [] := by
    show h.tuplesFrom h.firstPageId 0 ++ [] = [] ↔ _
    rw [List.append_nil, tuplesFrom_eq hp, List.map_eq_nil_iff]
  by_cases hnone : page.liveSlots 0 = []
  · rw [if_pos (hpage.mpr hnone)]
    refine ⟨1, fun fuel hle => ?_⟩
    obtain ⟨fuel, rfl⟩ : ∃ k, fuel = k + 1 := ⟨fuel - 1, by omega⟩
    unfold scan
    rw [begin_of_none hp hnone]
    exact if_pos rfl
  · rw [if_neg (fun heq => hnone (hpage.mp heq))]
    obtain ⟨n, hn⟩ := scanFrom_eq (begin_visits hl hp hnone)
    exact ⟨n, fun fuel hle => hn fuel hle fuel hle⟩

/-- A scan ends and visits exactly the live tuples of the page list, in its order, if and only if
the first page has a live tuple or no page has one. -/
theorem tableScan_complete_iff (hfirst : l.head? = some h.firstPageId)
    (hl : Follows h.pages l) :
    (∃ n, ∀ fuel ≥ n, h.scan fuel = some (h.liveTuples l)) ↔
      h.liveTuples [h.firstPageId] ≠ [] ∨ h.liveTuples l = [] := by
  obtain ⟨m, hm⟩ := scan_eq hfirst hl
  constructor
  · rintro ⟨n, hn⟩
    have hscan := hn (max n m) (Nat.le_max_left n m)
    rw [hm (max n m) (Nat.le_max_right n m), Option.some.injEq] at hscan
    by_cases hnone : h.liveTuples [h.firstPageId] = []
    · rw [if_pos hnone] at hscan
      exact .inr hscan.symm
    · exact .inl hnone
  · intro hor
    refine ⟨m, fun fuel hle => (hm fuel hle).trans (congrArg some ?_)⟩
    split
    · next hnone => exact (hor.resolve_left (not_not_intro hnone)).symm
    · rfl

/-- A heap of two pages. The only tuple of the first one is deleted. -/
def emptiedHeap : TableHeap :=
  [HeapCall.insertTuple bigRow, .insertTuple wideRow, .markDelete ⟨0, 0⟩].foldl next
    (create Allocator.increasing [])

/-- The chain of the failing input. -/
theorem emptiedHeap_follows : Follows emptiedHeap.pages [0, 2] := by
  have h0 : (emptiedHeap.pages 0).map (fun page => (page.tablePageId, page.nextPageId)) =
      some (0, 2) := by decide +kernel
  have h2 : (emptiedHeap.pages 2).map (fun page => (page.tablePageId, page.nextPageId)) =
      some (2, INVALID_PAGE_ID) := by decide +kernel
  obtain ⟨page0, hpage0, hids0⟩ := Option.map_eq_some_iff.mp h0
  obtain ⟨page2, hpage2, hids2⟩ := Option.map_eq_some_iff.mp h2
  obtain ⟨hid0, hnext0⟩ := Prod.mk.inj hids0
  obtain ⟨hid2, hnext2⟩ := Prod.mk.inj hids2
  exact ⟨⟨by decide, page0, hpage0, hid0, hnext0⟩, ⟨by decide, page2, hpage2, hid2, hnext2⟩,
    trivial⟩

/-- The equivalence at the failing input. -/
theorem tableScan_complete_iff_emptied :
    (∃ n, ∀ fuel ≥ n, emptiedHeap.scan fuel = some (emptiedHeap.liveTuples [0, 2])) ↔
      emptiedHeap.liveTuples [emptiedHeap.firstPageId] ≠ [] ∨
        emptiedHeap.liveTuples [0, 2] = [] :=
  tableScan_complete_iff (by decide +kernel) emptiedHeap_follows

/-- The tuple of the second page is not visited. -/
theorem tableScan_misses_tuple :
    ¬ ∀ (h : TableHeap) (l : List PageId), l.head? = some h.firstPageId → Follows h.pages l →
      ∃ n, ∀ fuel ≥ n, h.scan fuel = some (h.liveTuples l) := by
  intro h
  have hfirst : [0, 2].head? = some emptiedHeap.firstPageId := by decide +kernel
  obtain ⟨n, hn⟩ := h emptiedHeap [0, 2] hfirst emptiedHeap_follows
  obtain ⟨m, hm⟩ := scan_eq hfirst emptiedHeap_follows
  have hnone : emptiedHeap.liveTuples [emptiedHeap.firstPageId] = [] := by decide +kernel
  have hsome : emptiedHeap.liveTuples [0, 2] ≠ [] := by decide +kernel
  have hscan := hn (max n m) (Nat.le_max_left n m)
  rw [hm (max n m) (Nat.le_max_right n m), if_pos hnone, Option.some.injEq] at hscan
  exact hsome hscan.symm

end TableHeap

end DisMiniSql.MiniSql.Heap
