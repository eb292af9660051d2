import DisMiniSql.Proofs.Storage.TableScan

/-!
# `DisMiniSql.Proofs.Storage.HeapReopen`: rows across a reopen

A session inserts rows and opens the heap again by its first page. `Visible` is what it should keep:
each row whose insert has answered `true` is on the page list, and a scan has it.

The constructor of the free space map makes its first page empty. The next row then goes to a new
page that no page is linked to. `heap_reopen_iff` shows that a session loses a row exactly if it
inserts one where the map has no record, or where the last page is skipped.
-/

set_option autoImplicit false

namespace DisMiniSql.MiniSql.Heap

open DisMiniSql.Lib (Guarded)
open DisMiniSql.MiniSql.Heap.FreeSpaceMap (proposals SkipsLast)

/-- The new row is in a slot that was empty. -/
theorem TablePage.Layout.view_insertTuple {page page' : TablePage} {row : Row} {slotNum : Nat}
    (hlayout : page.Layout) (hinsert : page.insertTuple row = (some slotNum, page')) :
    page.view slotNum = none ∧
      page'.view = Function.update page.view slotNum (some (row.bytes, false)) := by
  have hroom : ¬ page.Full row := by
    intro hfull
    rw [TablePage.insertTuple_of_full hfull] at hinsert
    exact nomatch (Prod.mk.inj hinsert).1
  obtain ⟨other, heq, _, _, hfree, hview, _⟩ := hlayout.insertTuple_of_not_full hroom
  obtain ⟨hslot, rfl⟩ := Prod.mk.inj (hinsert.symm.trans heq)
  obtain rfl := Option.some.inj hslot
  exact ⟨hfree, hview⟩

section Linked

variable {pages : PageId → Option TablePage} {prev p : PageId} {l : List PageId}
  {page : TablePage}

/-- The successor of a page of the list is in the list. -/
theorem Linked.next_mem (h : Linked pages prev l) (hp : p ∈ l) (hpage : pages p = some page)
    (hnext : page.nextPageId ≠ INVALID_PAGE_ID) : page.nextPageId ∈ l := by
  induction l generalizing prev with
  | nil => exact nomatch hp
  | cons q l ih =>
    obtain ⟨⟨other, hother, _, _, hhead⟩, hrest⟩ := h
    rcases List.mem_cons.mp hp with rfl | hmem
    · obtain rfl := Option.some.inj (hpage.symm.trans hother)
      cases l with
      | nil => exact absurd hhead hnext
      | cons r l =>
        have heq : page.nextPageId = r := hhead
        rw [heq]
        simp
    · exact List.mem_cons_of_mem q (ih hrest hmem)

/-- A linked list of pages is what the next pointers reach. -/
theorem Linked.follows (h : Linked pages prev l) (hvalid : INVALID_PAGE_ID ∉ l) :
    TableHeap.Follows pages l := by
  induction l generalizing prev with
  | nil => trivial
  | cons q l ih =>
    obtain ⟨⟨page, hpage, hid, _, hnext⟩, hrest⟩ := h
    rw [List.mem_cons, not_or] at hvalid
    exact ⟨⟨Ne.symm hvalid.1, page, hpage, hid, hnext⟩, ih hrest hvalid.2⟩

end Linked

namespace TableHeap

variable {h : TableHeap} {row : Row} {l : List PageId} {records : List (PageId × Nat)}
  {p q : PageId} {page page' : TablePage} {rid : RowId}

/-- The pages on the list from the first page on. -/
inductive OnChain (h : TableHeap) : PageId → Prop
  | first : OnChain h h.firstPageId
  | next {p : PageId} {page : TablePage} : OnChain h p → h.pages p = some page →
      page.nextPageId ≠ INVALID_PAGE_ID → OnChain h page.nextPageId

/-- The slot has the row. -/
def Holds (h : TableHeap) (rid : RowId) (row : Row) : Prop :=
  ∃ page, h.pages rid.pageId = some page ∧ page.view rid.slotNum = some (row.bytes, false)

/-- Every page on the chain is one of the list. -/
theorem OnChain.mem {prev : PageId} (hp : h.OnChain p) (hl : Linked h.pages prev l)
    (hfirst : l.head? = some h.firstPageId) : p ∈ l := by
  induction hp with
  | first => exact List.mem_of_head? hfirst
  | next _ hpage hnext ih => exact hl.next_mem ih hpage hnext

/-- Every page behind a page on the chain is on it. -/
theorem Follows.onChain (hl : Follows h.pages (p :: l)) (hp : h.OnChain p) (hq : q ∈ p :: l) :
    h.OnChain q := by
  induction l generalizing p with
  | nil => exact List.mem_singleton.mp hq ▸ hp
  | cons r l ih =>
    rcases List.mem_cons.mp hq with rfl | hmem
    · exact hp
    · obtain ⟨⟨_, page, hpage, _, hnext⟩, hrest⟩ := hl
      have heq : page.nextPageId = r := hnext
      have hr : h.OnChain page.nextPageId := .next hp hpage (heq ▸ hrest.1.1)
      exact ih hrest (heq ▸ hr) hmem

/-- A page list has exactly the pages that the first page leads to. -/
theorem Sound.onChain_iff (hs : h.Sound l) : h.OnChain p ↔ p ∈ l := by
  refine ⟨fun hp => hp.mem hs.linked hs.first, fun hp => ?_⟩
  have hfollows := hs.linked.follows hs.valid
  obtain ⟨rest, rfl⟩ := List.head?_eq_some_iff.mp hs.first
  exact hfollows.onChain .first hp

/-- A row in a slot is a live tuple. -/
theorem Holds.mem_tuplesFrom (hr : h.Holds rid row) (hs : h.Sound l) :
    (rid, some row.bytes) ∈ h.tuplesFrom rid.pageId 0 := by
  obtain ⟨page, hpage, hview⟩ := hr
  obtain ⟨hused, hlive, _⟩ := TablePage.view_eq_live_iff.mp hview
  rw [tuplesFrom_eq hpage]
  refine List.mem_map.mpr ⟨rid.slotNum, ?_, ?_⟩
  · unfold TablePage.liveSlots
    rw [List.mem_filter, List.mem_range']
    exact ⟨⟨rid.slotNum, by rw [Nat.sub_zero]; exact hused.1, by omega⟩, by rw [hlive]; rfl⟩
  · rw [((hs.layout _ _ hpage).getTuple_eq_some_iff).mpr hview]

/-- The map of a reopened heap has no record. -/
theorem MapOk.reopen (hm : h.MapOk records) : h.reopen.MapOk [] where
  shape := (FreeSpaceMap.Built.new _).shape
  live id hid := by
    have hid : id = h.freespaceMap.getFirstPageId := List.mem_singleton.mp hid
    have hfilled := hm.shape.filled
    refine hm.live id ?_
    unfold FreeSpaceMap.getFirstPageId at hid
    cases hpages : h.freespaceMap.mapPages with
    | nil =>
      rw [hpages] at hfilled
      exact hfilled.elim
    | cons first rest =>
      rw [hpages] at hid
      rw [hid]
      simp

/-- A row on another page, or another row of a page with a new row, stays. -/
theorem Holds.insert {row' : Row} {slotNum : Nat} (hr : h.Holds rid row') (hs : h.Sound l)
    (hp : h.pages p = some page) (hinsert : page.insertTuple row = (some slotNum, page')) :
    (h.setPage p page').Holds rid row' := by
  obtain ⟨hfree, hview⟩ := (hs.layout p page hp).view_insertTuple hinsert
  obtain ⟨own, hown, hrow⟩ := hr
  by_cases hpage : rid.pageId = p
  · rw [hpage, hp] at hown
    obtain rfl := Option.some.inj hown
    have hne : rid.slotNum ≠ slotNum := by
      intro heq
      rw [heq, hfree] at hrow
      exact nomatch hrow
    refine ⟨page', hpage ▸ pages_setPage_self, ?_⟩
    rw [hview, Function.update_of_ne hne]
    exact hrow
  · exact ⟨own, (pages_setPage_of_ne hpage).trans hown, hrow⟩

/-- A new page behind the page `t` keeps the rows of the others. -/
theorem Holds.link {new t : PageId} {pageT : TablePage} (hr : h.Holds rid row)
    (hnew : rid.pageId ≠ new) (ht : h.pages t = some pageT) :
    ((h.addPage new page).setPage t (pageT.setNextPageId new)).Holds rid row := by
  obtain ⟨own, hown, hrow⟩ := hr
  unfold Holds
  rw [pages_link]
  by_cases hpage : rid.pageId = t
  · rw [hpage, ht] at hown
    obtain rfl := Option.some.inj hown
    exact ⟨_, if_pos hpage, hrow⟩
  · rw [if_neg hpage, if_neg hnew]
    exact ⟨own, hown, hrow⟩

end TableHeap

/-! ### A session -/

/-- A call of a session. -/
inductive SessionCall
  | insertTuple (row : Row)
  | reopen

/-- A heap and the rows whose insert has answered `true`. -/
structure Session where
  heap : TableHeap
  stored : List (RowId × Row)

namespace Session

open DisMiniSql.MiniSql.Heap.TableHeap

/-- One call of a session. -/
def next (s : Session) : SessionCall → Session
  | .insertTuple row =>
    ⟨(s.heap.insertTuple row).2,
      s.stored ++ ((s.heap.insertTuple row).1.map (fun rid => (rid, row))).toList⟩
  | .reopen => { s with heap := s.heap.reopen }

/-- Each stored row is on the page list and in the rows of a scan. -/
def Visible (s : Session) : Prop :=
  ∀ x ∈ s.stored, s.heap.OnChain x.1.pageId ∧
    ∃ n, ∀ fuel ≥ n, ∃ rows, s.heap.scan fuel = some rows ∧ (x.1, some x.2.bytes) ∈ rows

/-- The call does not insert a row where the free space map has no record, or behind a page that is
not the last one. -/
def Safe (s : Session) : SessionCall → Prop
  | .insertTuple row =>
    row.getSerializedSize ≤ TablePage.SIZE_MAX_ROW →
      s.heap.records ≠ [] ∧ ¬ s.heap.SkipsTail row
  | .reopen => True

/-- The state of a session without a lost row. -/
structure Kept (s : Session) (l : List PageId) (records : List (PageId × Nat)) : Prop where
  map : s.heap.MapOk records
  sound : s.heap.Sound l
  listed : records.map Prod.fst = l ∨ records = []
  holds : ∀ x ∈ s.stored, s.heap.Holds x.1 x.2
  /-- Each page has a stored row, or the heap is new. -/
  occupied : (∀ p ∈ l, ∃ x ∈ s.stored, x.1.pageId = p) ∨
    s.stored = [] ∧ l = [s.heap.firstPageId] ∧
      ∃ page, s.heap.pages s.heap.firstPageId = some page ∧
        ∀ row : Row, row.getSerializedSize ≤ TablePage.SIZE_MAX_ROW → ¬ page.Full row

variable {s : Session} {l : List PageId} {records : List (PageId × Nat)} {row : Row}

/-- A row that fits no page changes nothing. -/
theorem next_insertTuple_large (hsize : ¬ row.getSerializedSize ≤ TablePage.SIZE_MAX_ROW) :
    s.next (.insertTuple row) = s := by
  show (⟨(s.heap.insertTuple row).2, _⟩ : Session) = s
  rw [insertTuple_of_large hsize, Option.map_none, Option.toList_none, List.append_nil]

/-- A successful insert stores its row. -/
theorem next_insertTuple_some {rid : RowId} {h : TableHeap}
    (heq : s.heap.insertTuple row = (some rid, h)) :
    s.next (.insertTuple row) = ⟨h, s.stored ++ [(rid, row)]⟩ := by
  show (⟨(s.heap.insertTuple row).2, _⟩ : Session) = _
  rw [heq]
  rfl

/-- A stored row stands on a page of the chain. -/
theorem Kept.mem_of_stored (hk : s.Kept l records) {x : RowId × Row} (hx : x ∈ s.stored) :
    x.1.pageId ∈ l := by
  obtain ⟨page, hpage, _⟩ := hk.holds x hx
  exact (hk.sound.pages _).mpr ⟨page, hpage⟩

/-- Under the invariant all stored rows are on the chain, and the first page shows one unless
nothing is stored. -/
theorem Kept.visible (hk : s.Kept l records) : s.Visible := by
  intro x hx
  have hmem := hk.mem_of_stored hx
  refine ⟨hk.sound.onChain_iff.mpr hmem, ?_⟩
  obtain ⟨n, hn⟩ := scan_eq hk.sound.first (hk.sound.linked.follows hk.sound.valid)
  have hfirst : s.heap.liveTuples [s.heap.firstPageId] ≠ [] := by
    -- either every page holds a row, or nothing is stored
    rcases hk.occupied with hall | ⟨hnone, _⟩
    · obtain ⟨y, hy, hpage⟩ := hall _ (List.mem_of_head? hk.sound.first)
      have htuple := (hk.holds y hy).mem_tuplesFrom hk.sound
      rw [hpage] at htuple
      exact List.ne_nil_of_mem (List.mem_flatMap.mpr ⟨_, List.mem_singleton.mpr rfl, htuple⟩)
    · rw [hnone] at hx
      exact nomatch hx
  refine ⟨n, fun fuel hfuel => ⟨_, hn fuel hfuel, ?_⟩⟩
  rw [if_neg hfirst]
  exact List.mem_flatMap.mpr ⟨_, hmem, (hk.holds x hx).mem_tuplesFrom hk.sound⟩

/-- A row on a page that is there. -/
theorem Kept.insertedAt (hk : s.Kept (records.map Prod.fst) records) {m : FreeSpaceMap}
    (hsame : SameContent s.heap.freespaceMap m)
    (hinserted : s.heap.InsertedAt row (proposals records row.getSerializedSize) m
      (s.heap.insertTuple row)) :
    ∃ l records', (s.next (.insertTuple row)).Kept l records' := by
  obtain ⟨p, page, slotNum, page', hp, hpage, hinsert, heq⟩ := hinserted.exists_mem
  have hstep : page.step (.insertTuple row) = some (true, page') := by
    show some ((page.insertTuple row).1.isSome, (page.insertTuple row).2) = _
    rw [hinsert]
    rfl
  obtain ⟨hlayout, hids⟩ := (hk.sound.layout p page hpage).step_keeps hstep
  have hm : (s.heap.withMap m).MapOk records := hk.map.of_content hsame (fun _ hlive => hlive)
  have hs : (s.heap.withMap m).Sound (records.map Prod.fst) :=
    hk.sound.of_pages rfl rfl (fun _ hlive => hlive)
  rw [next_insertTuple_some heq]
  refine ⟨_, _, hm.writePage p page', hs.writePage hpage hids hlayout,
    .inl (FreeSpaceMap.setRecord_pages ..), ?_, .inl (fun q hq => ?_)⟩
  · intro x hx
    rcases List.mem_append.mp hx with hold | hnew
    · exact (hk.holds x hold).insert hk.sound hpage hinsert
    · obtain ⟨_, hview⟩ := (hk.sound.layout p page hpage).view_insertTuple hinsert
      rw [List.mem_singleton.mp hnew]
      exact ⟨page', pages_setPage_self, by rw [hview, Function.update_self]⟩
  · rcases hk.occupied with hall | ⟨_, hlist, _⟩
    · obtain ⟨x, hx, hxq⟩ := hall q hq
      exact ⟨x, List.mem_append_left _ hx, hxq⟩
    · have hpq : p = q := by
        have hpl := mem_proposals hp
        rw [hlist, List.mem_singleton] at hpl hq
        exact hpl.trans hq.symm
      exact ⟨_, List.mem_append_right _ (List.mem_singleton.mpr rfl), hpq⟩

/-- A row on a new page behind the last one. -/
theorem Kept.grows (hk : s.Kept (records.map Prod.fst) records)
    (hsize : row.getSerializedSize ≤ TablePage.SIZE_MAX_ROW)
    (hskip : ¬ SkipsLast records row.getSerializedSize)
    (hall : ∀ p ∈ proposals records row.getSerializedSize, s.heap.Rejects row p) :
    ∃ l records', (s.next (.insertTuple row)).Kept l records' := by
  obtain ⟨m, new, page, t, pageT, hsame, ht, heq, hinsert, hm, hs⟩ :=
    insertTuple_grows hk.map hk.sound hsize hskip hall
  have hfresh : new ∉ records.map Prod.fst := fun hin =>
    List.disjoint_of_nodup_append hs.nodup hin (List.mem_singleton.mpr rfl)
  rw [heq] at hm hs
  rw [next_insertTuple_some heq]
  refine ⟨_, _, hm, hs, .inl (List.map_append ..), ?_, .inl (fun q hq => ?_)⟩
  · intro x hx
    rcases List.mem_append.mp hx with hold | hnew
    · have hx : (s.heap.withMap m).Holds x.1 x.2 := hk.holds x hold
      exact hx.link (fun heq => hfresh (heq ▸ hk.mem_of_stored hold)) ht
    · obtain ⟨_, hview⟩ := (TablePage.Layout.init new t (fun _ => 0)).view_insertTuple hinsert
      have hne : new ≠ t := fun heq => hfresh ((hk.sound.pages new).mpr ⟨pageT, heq ▸ ht⟩)
      rw [List.mem_singleton.mp hnew]
      refine ⟨page, ?_, by rw [hview, Function.update_self]⟩
      rw [pages_link, if_neg hne, if_pos rfl]
  · rcases List.mem_append.mp hq with hold | hnew
    · rcases hk.occupied with hocc | ⟨_, hlist, page, hpage, hroom⟩
      · obtain ⟨x, hx, hxq⟩ := hocc q hold
        exact ⟨x, List.mem_append_left _ hx, hxq⟩
      · -- the first page has room, and it is proposed
        have hlast := FreeSpaceMap.proposals_getLast hskip
        rw [← List.getLast?_map, hlist] at hlast
        have hnone := hall _ (List.mem_of_getLast? hlast) page hpage
        exact absurd (((hk.sound.layout _ _ hpage).full_iff).mp hnone) (hroom row hsize)
    · exact ⟨_, List.mem_append_right _ (List.mem_singleton.mpr rfl),
        (List.mem_singleton.mp hnew).symm⟩

/-- A safe call loses no row. -/
theorem Kept.next (hk : s.Kept l records) {call : SessionCall} (hsafe : s.Safe call) :
    ∃ l records', (s.next call).Kept l records' := by
  cases call with
  | reopen =>
    exact ⟨l, [], hk.map.reopen, hk.sound.of_pages rfl rfl (fun _ hlive => hlive), .inr rfl,
      hk.holds, hk.occupied⟩
  | insertTuple row =>
    by_cases hsize : row.getSerializedSize ≤ TablePage.SIZE_MAX_ROW
    swap
    · rw [next_insertTuple_large hsize]
      exact ⟨l, records, hk⟩
    obtain ⟨hne, hskips⟩ := hsafe hsize
    have hrecords : s.heap.records = records := hk.map.shape.pairs
    obtain rfl := hk.listed.resolve_right (hrecords ▸ hne)
    obtain ⟨m, hsame, hinserted | ⟨hall, _⟩⟩ :=
      insertTuple_cases hk.map.shape (fun p hp => (hk.sound.pages p).mp hp) hsize
    · exact hk.insertedAt hsame hinserted
    · exact hk.grows hsize
        (fun hskip => hskips (skipsTail_of_rejects hk.map hk.sound hsize hskip hall)) hall

/-- Where the map has no record, the page of the row is on no list. -/
theorem Kept.lost_of_empty (hk : s.Kept l records)
    (hsize : row.getSerializedSize ≤ TablePage.SIZE_MAX_ROW) (hempty : s.heap.records = []) :
    ¬ (s.next (.insertTuple row)).Visible := by
  obtain rfl : records = [] := hk.map.shape.pairs.symm.trans hempty
  obtain ⟨m, _, hinserted | ⟨_, heq⟩⟩ :=
    insertTuple_cases hk.map.shape (fun p hp => nomatch hp) hsize
  · obtain ⟨p, _, _, _, hp, _⟩ := hinserted.exists_mem
    exact nomatch hp
  obtain ⟨hfresh, _⟩ := hk.sound.fresh
  generalize hnew : s.heap.allocator.pick s.heap.live = new at hfresh
  obtain ⟨page, hpage, _⟩ := newPage_insertTuple new INVALID_PAGE_ID hsize
  have hnone : (proposals [] row.getSerializedSize).getLast? = none := rfl
  rw [hnone, insertNewPage_none (h := s.heap.withMap m) hnew hpage] at heq
  rw [next_insertTuple_some heq]
  intro hvisible
  obtain ⟨hchain, _⟩ := hvisible (⟨new, 0⟩, row)
    (List.mem_append_right _ (List.mem_singleton.mpr rfl))
  have hlinked : Linked ((s.heap.withMap m).addPage new page).pages INVALID_PAGE_ID l :=
    hk.sound.linked.congr (fun p hp => pages_setPage_of_ne (fun heq => hfresh (heq ▸ hp)))
  exact hfresh (hchain.mem hlinked hk.sound.first)

/-- Where the last page is skipped, the rows of the pages behind the new page are on no list. -/
theorem Kept.lost_of_skips (hk : s.Kept l records) (hskip : s.heap.SkipsTail row) :
    ¬ (s.next (.insertTuple row)).Visible := by
  have hrecords : s.heap.records = records := hk.map.shape.pairs
  have hne : records ≠ [] := by
    rintro rfl
    have hany := hskip.2.1.1
    rw [hrecords] at hany
    exact nomatch hany
  obtain rfl := hk.listed.resolve_right hne
  obtain ⟨before, t, q, after, new, page, pageT, m, _, hsplit, hnew, ht, hid, hprev, hnext, heq⟩ :=
    hskip.insertTuple_eq hk.map hk.sound
  have hlinked := hk.sound.linked
  have hnodup := hk.sound.nodup
  have hfirst := hk.sound.first
  obtain ⟨hfresh, _⟩ := hk.sound.fresh
  rw [hnew] at hfresh
  rw [hsplit] at hlinked hnodup hfirst hfresh
  have hrelinked := hlinked.relink ht hnodup hfresh ⟨hid, hprev, hnext⟩
  rw [next_insertTuple_some heq]
  intro hvisible
  have hocc : ∃ x ∈ s.stored, x.1.pageId = q := by
    rcases hk.occupied with hall | ⟨_, hlist, _⟩
    · exact hall q (by rw [hsplit]; simp)
    · have hlength := congrArg List.length (hsplit.symm.trans hlist)
      rw [List.length_append, List.length_cons, List.length_cons, List.length_singleton] at hlength
      omega
  obtain ⟨x, hx, rfl⟩ := hocc
  obtain ⟨hchain, _⟩ := hvisible x (List.mem_append_left _ hx)
  have hmem : x.1.pageId ∈ before ++ [t, new] := by
    refine hchain.mem hrelinked (Eq.trans ?_ hfirst)
    cases before with
    | nil => rfl
    | cons p before => rfl
  have hq : x.1.pageId ∉ before ++ [t] := fun hin => by
    have hlist : before ++ t :: x.1.pageId :: after = (before ++ [t]) ++ x.1.pageId :: after := by
      simp
    rw [hlist] at hnodup
    exact List.disjoint_of_nodup_append hnodup hin List.mem_cons_self
  have hqn : x.1.pageId ≠ new := fun heq => hfresh (heq ▸ by simp)
  simp only [List.mem_append, List.mem_cons, List.not_mem_nil, or_false, not_or] at hmem hq
  rcases hmem with hin | hin | hin
  · exact hq.1 hin
  · exact hq.2 hin
  · exact hqn hin

/-- A new heap with nothing stored. -/
theorem kept_create (allocator : Allocator) (live : List PageId) :
    ∃ l records, (⟨create allocator live, []⟩ : Session).Kept l records := by
  obtain ⟨records, hm, hs⟩ := good_create allocator live
  have hpages : ∀ p, (create allocator live).pages p =
      if p = allocator.pick live then
        some (TablePage.init (allocator.pick live) INVALID_PAGE_ID (fun _ => 0))
      else none := fun _ => rfl
  have hfirst : (create allocator live).firstPageId = allocator.pick live := rfl
  have hlist : records.map Prod.fst = [(create allocator live).firstPageId] := by
    have hall : ∀ p ∈ records.map Prod.fst, p = allocator.pick live := by
      intro p hp
      obtain ⟨page, hpage⟩ := (hs.pages p).mp hp
      by_contra hne
      rw [hpages, if_neg hne] at hpage
      exact nomatch hpage
    obtain ⟨rest, hrest⟩ := List.head?_eq_some_iff.mp hs.first
    have hnodup := hs.nodup
    rw [hrest] at hall hnodup
    cases rest with
    | nil => exact hrest
    | cons q rest =>
      have hq := hall q (by simp)
      rw [hq, hfirst] at hnodup
      exact absurd List.mem_cons_self (List.nodup_cons.mp hnodup).1
  have hroom : ∃ page,
      (create allocator live).pages (create allocator live).firstPageId = some page ∧
        ∀ row : Row, row.getSerializedSize ≤ TablePage.SIZE_MAX_ROW → ¬ page.Full row := by
    refine ⟨_, ?_, fun row hsize => TablePage.not_full_init (allocator.pick live)
      INVALID_PAGE_ID hsize⟩
    rw [hpages, if_pos hfirst]
  exact ⟨_, records, hm, hs, .inl rfl, fun x hx => (nomatch hx), .inr ⟨rfl, hlist, hroom⟩⟩

/-- A session keeps each stored row on the page list and in a scan, in every state, exactly if it
inserts no row where the free space map has no record or where the last page is skipped. -/
theorem heap_reopen_iff (allocator : Allocator) (live : List PageId) (calls : List SessionCall) :
    (∀ n, ((calls.take n).foldl next ⟨create allocator live, []⟩).Visible) ↔
      Guarded Safe next ⟨create allocator live, []⟩ calls := by
  refine Guarded.iff_forall_take_of (J := fun s => ∃ l records, s.Kept l records)
    (fun _ ⟨_, _, hk⟩ => hk.visible) (fun _ _ ⟨_, _, hk⟩ hsafe => hk.next hsafe)
    (fun s call ⟨l, records, hk⟩ hvisible => ?_) calls _ (kept_create allocator live)
  cases call with
  | insertTuple row =>
    exact fun hsize => ⟨fun hempty => hk.lost_of_empty hsize hempty hvisible,
      fun hskip => hk.lost_of_skips hskip hvisible⟩
  | reopen => trivial

/-- A row, a reopen, and a second row: the second row is on a page that is not on the list. -/
theorem heap_reopen_loses_row :
    ¬ ∀ (allocator : Allocator) (live : List PageId) (calls : List SessionCall) (n : Nat),
      ((calls.take n).foldl next ⟨create allocator live, []⟩).Visible := by
  intro h
  obtain ⟨_, _, hk⟩ := kept_create Allocator.increasing []
  have hsafe : Safe ⟨create Allocator.increasing [], []⟩ (.insertTuple wideRow) := by
    intro _
    refine ⟨by decide +kernel, ?_⟩
    rintro ⟨_, hskip, _⟩
    exact absurd hskip (by decide +kernel)
  obtain ⟨_, _, hk⟩ := hk.next hsafe
  obtain ⟨_, _, hk⟩ := @Kept.next _ _ _ hk .reopen trivial
  have hsize : wideRow.getSerializedSize ≤ TablePage.SIZE_MAX_ROW := by
    rw [getSerializedSize_wideRow]
    decide
  exact hk.lost_of_empty hsize rfl
    (h Allocator.increasing [] [.insertTuple wideRow, .reopen, .insertTuple wideRow] 3)

end Session

end DisMiniSql.MiniSql.Heap
