import Mathlib.Algebra.GroupWithZero.Nat
import Mathlib.Data.List.Nodup
import Mathlib.Data.List.TakeWhile
import DisMiniSql.MiniSql.Page.PageStore
import DisMiniSql.MiniSql.Storage.FreeSpaceMap

/-!
# `DisMiniSql.Proofs.Storage.FreeSpaceMap`: the pages that the free space map proposes

`Built m records` says which data pages the calls have recorded in the map, in the order of
`SetNewPair`, and with which free space. `Built.shape` shows that the pages of the map have these
records, and that every page but the last is full.

So the inner index of a record is the remainder of its place by `SIZE_MAX_PAIR`, and two records
have the same one exactly if the number of records between them is a multiple of `SIZE_MAX_PAIR`.
`GetNext` takes the two for the same record. `Built.answer_eq` states all its answers.
-/

set_option autoImplicit false

namespace DisMiniSql.MiniSql.Heap

open FreeSpaceMapPage (SIZE_MAX_PAIR)

namespace FreeSpaceMapPage

variable {page : FreeSpaceMapPage} {test : PageId × Nat → Bool} {s i : Nat}

/-- A search that finds nothing has tested every pair from its start. -/
theorem findPair_none (h : page.findPair test s = none) :
    ∀ pair ∈ page.pairs.drop s, test pair = false := by
  unfold findPair at h
  rw [Option.map_eq_none_iff, List.findIdx?_eq_none_iff] at h
  exact h

/-- A search that finds a pair has refused those before it. -/
theorem findPair_some (h : page.findPair test s = some i) :
    ∃ skipped pair, page.pairs[i]? = some pair ∧ test pair = true ∧
      page.pairs.drop s = skipped ++ pair :: page.pairs.drop (i + 1) ∧
        ∀ pair ∈ skipped, test pair = false := by
  unfold findPair at h
  obtain ⟨t, ht, rfl⟩ := Option.map_eq_some_iff.mp h
  obtain ⟨hlt, htest, hbefore⟩ := List.findIdx?_eq_some_iff_getElem.mp ht
  have hget : page.pairs[s + t]? = some (page.pairs.drop s)[t] := by
    rw [← List.getElem?_drop, List.getElem?_eq_getElem hlt]
  refine ⟨(page.pairs.drop s).take t, (page.pairs.drop s)[t], hget, htest, ?_, ?_⟩
  · have hsplit := List.take_append_drop t (page.pairs.drop s)
    rw [List.drop_eq_getElem_cons hlt, List.drop_drop] at hsplit
    rw [show s + t + 1 = s + (t + 1) by omega]
    exact hsplit.symm
  · intro pair hpair
    obtain ⟨j, hj, rfl⟩ := List.mem_take_iff_getElem.mp hpair
    exact Bool.eq_false_iff.mpr (hbefore j (by omega))

end FreeSpaceMapPage

namespace FreeSpaceMap

variable {m : FreeSpaceMap} {page : FreeSpaceMapPage} {pages : List FreeSpaceMapPage}
  {records : List (PageId × Nat)} {test : PageId × Nat → Bool} {s i need : Nat}

/-- The pairs from the pair `s` of the first page on. -/
def pairsFrom (s : Nat) : List FreeSpaceMapPage → List (PageId × Nat)
  | [] => []
  | page :: pages => page.pairs.drop s ++ pages.flatMap FreeSpaceMapPage.pairs

/-- From the start, the pairs of all pages one after the other. -/
theorem pairsFrom_zero : pairsFrom 0 pages = pages.flatMap FreeSpaceMapPage.pairs := by
  cases pages with
  | nil => rfl
  | cons page pages => rfl

/-- The search over the pages fails only when no pair passes, by induction on the pages. -/
theorem search_none (h : search test s pages = none) :
    ∀ pair ∈ pairsFrom s pages, test pair = false := by
  induction pages generalizing s with
  | nil => exact fun _ hmem => nomatch hmem
  | cons page pages ih =>
    unfold search at h
    cases hfind : page.findPair test s with
    | some i =>
      rw [hfind] at h
      exact nomatch h
    | none =>
      rw [hfind] at h
      intro pair hpair
      rcases List.mem_append.mp hpair with hhere | hlater
      · exact FreeSpaceMapPage.findPair_none hfind pair hhere
      · exact ih h pair (pairsFrom_zero ▸ hlater)

/-- The search ends on the first pair from the pair `s` on. -/
theorem search_some (h : search test s pages = some (page, i)) :
    ∃ before after skipped pair, pages = before ++ page :: after ∧ page.pairs[i]? = some pair ∧
      test pair = true ∧ pairsFrom s pages = skipped ++ pair :: pairsFrom (i + 1) (page :: after) ∧
        ∀ pair ∈ skipped, test pair = false := by
  induction pages generalizing s with
  | nil => exact nomatch h
  | cons first pages ih =>
    unfold search at h
    cases hfind : first.findPair test s with
    | some j =>
      rw [hfind] at h
      obtain ⟨rfl, rfl⟩ := Prod.mk.inj (Option.some.inj h)
      obtain ⟨skipped, pair, hget, htest, hdrop, hskipped⟩ := FreeSpaceMapPage.findPair_some hfind
      refine ⟨[], pages, skipped, pair, rfl, hget, htest, ?_, hskipped⟩
      show first.pairs.drop s ++ _ = skipped ++ pair :: (first.pairs.drop (j + 1) ++ _)
      rw [hdrop, List.append_assoc, List.cons_append]
    | none =>
      rw [hfind] at h
      obtain ⟨before, after, skipped, pair, rfl, hget, htest, hfrom, hskipped⟩ := ih h
      refine ⟨first :: before, after, first.pairs.drop s ++ skipped, pair, rfl, hget, htest, ?_, ?_⟩
      · rw [pairsFrom_zero] at hfrom
        show first.pairs.drop s ++ _ = _
        rw [hfrom, List.append_assoc]
      · intro x hx
        rcases List.mem_append.mp hx with hhere | hlater
        · exact FreeSpaceMapPage.findPair_none hfind x hhere
        · exact hskipped x hlater

/-! ### What the calls have recorded -/

/-- The records after `SetFreeSpace`. -/
def setRecord (records : List (PageId × Nat)) (pageId : PageId) (freeSpace : Nat) :
    List (PageId × Nat) :=
  records.map (fun record => if record.1 = pageId then (pageId, freeSpace) else record)

/-- The calls have built the map, and have recorded these data pages in this order. A new pair is
for a page that has none, and its map page is new too. -/
inductive Built : FreeSpaceMap → List (PageId × Nat) → Prop
  | new (firstMapPageId : PageId) : Built (FreeSpaceMap.new firstMapPageId) []
  | setNewPair {m : FreeSpaceMap} {records : List (PageId × Nat)} (newPageId pageId : PageId)
      (freeSpace : Nat) : Built m records → newPageId ∉ m.mapPages.map FreeSpaceMapPage.pageId →
      pageId ∉ records.map Prod.fst → pageId ≠ INVALID_PAGE_ID →
      Built (m.setNewPair newPageId pageId freeSpace) (records ++ [(pageId, freeSpace)])
  | setFreeSpace {m : FreeSpaceMap} {records : List (PageId × Nat)} (pageId : PageId)
      (freeSpace : Nat) : Built m records →
      Built (m.setFreeSpace pageId freeSpace).2 (setRecord records pageId freeSpace)
  | getBegin {m : FreeSpaceMap} {records : List (PageId × Nat)} (needSpace : Nat) :
      Built m records → Built (m.getBegin needSpace).2 records
  | getNext {m : FreeSpaceMap} {records : List (PageId × Nat)} (needSpace : Nat) :
      Built m records → Built (m.getNext needSpace).2 records

/-- How many pairs the pages of a map may have: every page but the last is full, and only the first
one may be empty. -/
def Filled : List Nat → Prop
  | [] => False
  | [count] => count ≤ SIZE_MAX_PAIR
  | count :: next :: counts => count = SIZE_MAX_PAIR ∧ 0 < next ∧ Filled (next :: counts)

/-- The pages of the map hold the records. -/
structure Shape (m : FreeSpaceMap) (records : List (PageId × Nat)) : Prop where
  filled : Filled (m.mapPages.map FreeSpaceMapPage.getPairCount)
  ids : (m.mapPages.map FreeSpaceMapPage.pageId).Nodup
  pairs : m.mapPages.flatMap FreeSpaceMapPage.pairs = records
  pages : (records.map Prod.fst).Nodup
  valid : INVALID_PAGE_ID ∉ records.map Prod.fst
  last : m.lastPageId = (records.getLast?.map Prod.fst).getD INVALID_PAGE_ID

/-- The new pair stands behind the others. -/
theorem addPair_pairs (newPageId pageId : PageId) (freeSpace : Nat)
    (h : Filled (pages.map FreeSpaceMapPage.getPairCount)) :
    (addPair newPageId pageId freeSpace pages).flatMap FreeSpaceMapPage.pairs =
      pages.flatMap FreeSpaceMapPage.pairs ++ [(pageId, freeSpace)] := by
  induction pages with
  | nil => exact h.elim
  | cons page pages ih =>
    unfold addPair
    cases pages with
    | nil =>
      split
      · simp [FreeSpaceMapPage.newPair]
      · simp [addPair, FreeSpaceMapPage.newPair, FreeSpaceMapPage.init]
    | cons next pages =>
      have hfull : ¬ page.getPairCount < SIZE_MAX_PAIR := Nat.not_lt_of_le (Nat.le_of_eq h.1.symm)
      rw [if_neg hfull, List.flatMap_cons, ih h.2.2, List.flatMap_cons (x := page),
        List.append_assoc]

/-- A new pair goes to the last page, or to a page behind it when that is full, so all pages before
the last stay full. -/
theorem addPair_filled (newPageId pageId : PageId) (freeSpace : Nat)
    (h : Filled (pages.map FreeSpaceMapPage.getPairCount)) :
    Filled ((addPair newPageId pageId freeSpace pages).map FreeSpaceMapPage.getPairCount) := by
  have hnew : ∀ page : FreeSpaceMapPage,
      (page.newPair pageId freeSpace).getPairCount = page.getPairCount + 1 :=
    fun page => List.length_append
  induction pages with
  | nil => exact h.elim
  | cons page pages ih =>
    unfold addPair
    cases pages with
    | nil =>
      split
      · next hlt =>
        show (page.newPair pageId freeSpace).getPairCount ≤ SIZE_MAX_PAIR
        rw [hnew]
        exact hlt
      · next hge =>
        exact ⟨Nat.le_antisymm h (Nat.le_of_not_lt hge), Nat.one_pos,
          (by decide : 1 ≤ SIZE_MAX_PAIR)⟩
    | cons next pages =>
      -- a page before the last is full, so the search for room goes on
      have hfull : ¬ page.getPairCount < SIZE_MAX_PAIR := Nat.not_lt_of_le (Nat.le_of_eq h.1.symm)
      have hrest := ih h.2.2
      rw [if_neg hfull]
      unfold addPair at hrest ⊢
      split
      · next hlt =>
        rw [if_pos hlt] at hrest
        refine ⟨h.1, ?_, hrest⟩
        rw [hnew]
        exact Nat.succ_pos _
      · next hge =>
        rw [if_neg hge] at hrest
        exact ⟨h.1, h.2.1, hrest⟩

/-- The ids of the pages of the map, with the new page if one was needed. -/
theorem addPair_ids (newPageId pageId : PageId) (freeSpace : Nat)
    (hnew : newPageId ∉ pages.map FreeSpaceMapPage.pageId)
    (hids : (pages.map FreeSpaceMapPage.pageId).Nodup) :
    ((addPair newPageId pageId freeSpace pages).map FreeSpaceMapPage.pageId).Nodup ∧
      ∀ id ∈ (addPair newPageId pageId freeSpace pages).map FreeSpaceMapPage.pageId,
        id = newPageId ∨ id ∈ pages.map FreeSpaceMapPage.pageId := by
  induction pages with
  | nil => exact ⟨List.nodup_singleton _, fun id hid => .inl (List.mem_singleton.mp hid)⟩
  | cons page pages ih =>
    rw [List.map_cons, List.mem_cons, not_or] at hnew
    rw [List.map_cons, List.nodup_cons] at hids
    unfold addPair
    split
    · exact ⟨List.nodup_cons.mpr hids, fun id hid => .inr hid⟩
    · obtain ⟨hnodup, hmem⟩ := ih hnew.2 hids.2
      refine ⟨List.nodup_cons.mpr ⟨fun hin => ?_, hnodup⟩, fun id hid => ?_⟩
      · rcases hmem _ hin with heq | hin
        · exact hnew.1 heq.symm
        · exact hids.1 hin
      · rcases List.mem_cons.mp hid with rfl | hin
        · exact .inr List.mem_cons_self
        · exact (hmem id hin).imp_right (List.mem_cons_of_mem _)

/-- If a page has room, there is no new page. -/
theorem addPair_ids_of_room (newPageId pageId : PageId) (freeSpace : Nat)
    (hroom : (pages.all (fun page => decide (SIZE_MAX_PAIR ≤ page.getPairCount))) = false) :
    (addPair newPageId pageId freeSpace pages).map FreeSpaceMapPage.pageId =
      pages.map FreeSpaceMapPage.pageId := by
  induction pages with
  | nil => exact nomatch hroom
  | cons page pages ih =>
    unfold addPair
    by_cases hlt : page.getPairCount < SIZE_MAX_PAIR
    · rw [if_pos hlt]
      rfl
    · rw [List.all_cons, decide_eq_true (Nat.le_of_not_lt hlt), Bool.true_and] at hroom
      rw [if_neg hlt, List.map_cons, ih hroom, List.map_cons]

/-- Setting a record that is not there changes nothing. -/
theorem setRecord_of_not_mem {pageId : PageId} (freeSpace : Nat)
    (h : pageId ∉ records.map Prod.fst) : setRecord records pageId freeSpace = records := by
  refine (List.map_congr_left (fun record hrecord => ?_)).trans (List.map_id _)
  refine if_neg (fun heq => h ?_)
  rw [← heq]
  exact List.mem_map_of_mem hrecord

/-- Only one record has the id. -/
theorem setRecord_append {before after : List (PageId × Nat)} {pair : PageId × Nat}
    (freeSpace : Nat) (h : ((before ++ pair :: after).map Prod.fst).Nodup) :
    setRecord (before ++ pair :: after) pair.1 freeSpace =
      before ++ (pair.1, freeSpace) :: after := by
  rw [List.map_append, List.map_cons, List.nodup_middle, List.nodup_cons, List.mem_append,
    not_or] at h
  have hbefore := setRecord_of_not_mem freeSpace h.1.1
  have hafter := setRecord_of_not_mem freeSpace h.1.2
  unfold setRecord at hbefore hafter ⊢
  rw [List.map_append, List.map_cons, hbefore, hafter, if_pos rfl]

/-- A `SetFreeSpace` for a page that is not there. -/
theorem setPair_none {pageId : PageId} {freeSpace : Nat}
    (h : setPair pageId freeSpace pages = none) :
    pageId ∉ (pages.flatMap FreeSpaceMapPage.pairs).map Prod.fst := by
  induction pages with
  | nil => exact List.not_mem_nil
  | cons page pages ih =>
    unfold setPair at h
    cases hfind : page.findPair (fun pair => pair.1 == pageId) 0 with
    | some i =>
      rw [hfind] at h
      exact nomatch h
    | none =>
      rw [hfind] at h
      rw [List.flatMap_cons, List.map_append, List.mem_append, not_or]
      refine ⟨fun hin => ?_, ih (Option.map_eq_none_iff.mp h)⟩
      obtain ⟨pair, hpair, heq⟩ := List.mem_map.mp hin
      have := FreeSpaceMapPage.findPair_none hfind pair hpair
      simp [heq] at this

/-- A `SetFreeSpace` on the pages of the map is one on the records. -/
theorem setPair_some {pageId : PageId} {freeSpace : Nat} {found : PageId × List FreeSpaceMapPage}
    (hpages : ((pages.flatMap FreeSpaceMapPage.pairs).map Prod.fst).Nodup)
    (h : setPair pageId freeSpace pages = some found) :
    found.2.flatMap FreeSpaceMapPage.pairs =
        setRecord (pages.flatMap FreeSpaceMapPage.pairs) pageId freeSpace ∧
      found.2.map FreeSpaceMapPage.pageId = pages.map FreeSpaceMapPage.pageId ∧
        found.2.map FreeSpaceMapPage.getPairCount = pages.map FreeSpaceMapPage.getPairCount := by
  induction pages generalizing found with
  | nil => exact nomatch h
  | cons page pages ih =>
    unfold setPair at h
    cases hfind : page.findPair (fun pair => pair.1 == pageId) 0 with
    | none =>
      rw [hfind] at h
      obtain ⟨found, hfound, rfl⟩ := Option.map_eq_some_iff.mp h
      rw [List.flatMap_cons, List.map_append] at hpages
      obtain ⟨hpairs, hids, hcounts⟩ := ih (List.Nodup.of_append_right hpages) hfound
      have hnot : pageId ∉ page.pairs.map Prod.fst := by
        intro hin
        obtain ⟨pair, hpair, heq⟩ := List.mem_map.mp hin
        have := FreeSpaceMapPage.findPair_none hfind pair hpair
        simp [heq] at this
      refine ⟨?_, congrArg (page.pageId :: ·) hids, congrArg (page.getPairCount :: ·) hcounts⟩
      have hhere := setRecord_of_not_mem freeSpace hnot
      unfold setRecord at hpairs hhere ⊢
      rw [List.flatMap_cons, List.flatMap_cons, hpairs, List.map_append, hhere]
    | some i =>
      rw [hfind] at h
      obtain rfl := Option.some.inj h
      obtain ⟨skipped, pair, hget, htest, hsplit, hskipped⟩ := FreeSpaceMapPage.findPair_some hfind
      rw [List.drop_zero] at hsplit
      obtain ⟨hi, hpair⟩ := List.getElem?_eq_some_iff.mp hget
      obtain rfl : pair.1 = pageId := eq_of_beq htest
      have hlength : skipped.length = i := by
        have := congrArg List.length hsplit
        rw [List.length_append, List.length_cons, List.length_drop] at this
        omega
      have hpairs : (page.setFreeSpace i freeSpace).pairs =
          skipped ++ (pair.1, freeSpace) :: page.pairs.drop (i + 1) := by
        have htake : page.pairs.take i = skipped := by
          rw [hsplit, ← hlength, List.take_left]
        show page.pairs.modify i _ = _
        rw [List.modify_eq_take_cons_drop hi, htake, hpair]
      have hall : (page :: pages).flatMap FreeSpaceMapPage.pairs = skipped ++ pair ::
          (page.pairs.drop (i + 1) ++ pages.flatMap FreeSpaceMapPage.pairs) := by
        rw [List.flatMap_cons]
        conv_lhs => rw [hsplit]
        rw [List.append_assoc, List.cons_append]
      refine ⟨?_, rfl, congrArg (· :: pages.map FreeSpaceMapPage.getPairCount) ?_⟩
      · rw [hall] at hpages ⊢
        rw [setRecord_append freeSpace hpages, List.flatMap_cons, hpairs, List.append_assoc,
          List.cons_append]
      · exact List.length_modify _ _ _

/-- The walk over the map changes only the cursor. -/
theorem settle_content (m : FreeSpaceMap) (found : Option (FreeSpaceMapPage × Nat)) :
    (m.settle found).2.mapPages = m.mapPages ∧ (m.settle found).2.lastPageId = m.lastPageId := by
  cases found with
  | some found => exact ⟨rfl, rfl⟩
  | none =>
    unfold settle
    cases m.mapPages.getLast? with
    | none => exact ⟨rfl, rfl⟩
    | some page =>
      rw [Option.map_some, Option.getD_some]
      unfold settleLast
      by_cases hlast : m.internalIndex = page.lastIndex
      · rw [if_pos hlast]
        exact ⟨rfl, rfl⟩
      · rw [if_neg hlast]
        exact ⟨rfl, rfl⟩

/-- A walk does not change what the map records: its start. -/
theorem getBegin_content (m : FreeSpaceMap) (need : Nat) :
    (m.getBegin need).2.mapPages = m.mapPages ∧ (m.getBegin need).2.lastPageId = m.lastPageId :=
  settle_content _ _

/-- And its step. -/
theorem getNext_content (m : FreeSpaceMap) (need : Nat) :
    (m.getNext need).2.mapPages = m.mapPages ∧ (m.getNext need).2.lastPageId = m.lastPageId := by
  unfold getNext
  split
  · exact ⟨rfl, rfl⟩
  · exact settle_content _ _

/-- The shape is about the content alone, not the cursor. -/
theorem Shape.of_content {m' : FreeSpaceMap} (h : Shape m records)
    (hsame : m'.mapPages = m.mapPages ∧ m'.lastPageId = m.lastPageId) : Shape m' records := by
  obtain ⟨hpages, hlast⟩ := hsame
  exact ⟨hpages ▸ h.filled, hpages ▸ h.ids, hpages ▸ h.pairs, h.pages, h.valid, hlast ▸ h.last⟩

/-- A new pair is recorded at the end. -/
theorem Shape.setNewPair (h : Shape m records) {newPageId pageId : PageId} (freeSpace : Nat)
    (hnew : newPageId ∉ m.mapPages.map FreeSpaceMapPage.pageId)
    (hpage : pageId ∉ records.map Prod.fst) (hvalid : pageId ≠ INVALID_PAGE_ID) :
    Shape (m.setNewPair newPageId pageId freeSpace) (records ++ [(pageId, freeSpace)]) where
  filled := addPair_filled newPageId pageId freeSpace h.filled
  ids := (addPair_ids newPageId pageId freeSpace hnew h.ids).1
  pairs := (addPair_pairs newPageId pageId freeSpace h.filled).trans (congrArg (· ++ _) h.pairs)
  pages := by
    rw [List.map_append]
    exact List.nodup_append_comm.mp (List.nodup_cons.mpr ⟨hpage, h.pages⟩)
  valid := by
    rw [List.map_append, List.mem_append, not_or]
    exact ⟨h.valid, fun hin => hvalid (List.mem_singleton.mp hin).symm⟩
  last := by
    rw [List.getLast?_concat]
    rfl

/-- Setting a record changes its value only. -/
theorem setRecord_pages (records : List (PageId × Nat)) (pageId : PageId) (freeSpace : Nat) :
    (setRecord records pageId freeSpace).map Prod.fst = records.map Prod.fst := by
  unfold setRecord
  rw [List.map_map]
  refine List.map_congr_left (fun record _ => ?_)
  show (if record.1 = pageId then (pageId, freeSpace) else record).1 = record.1
  split
  · next heq => exact heq.symm
  · rfl

/-- `SetFreeSpace` adds no page to the map. -/
theorem setFreeSpace_ids (h : Shape m records) (pageId : PageId) (freeSpace : Nat) :
    (m.setFreeSpace pageId freeSpace).2.mapPages.map FreeSpaceMapPage.pageId =
      m.mapPages.map FreeSpaceMapPage.pageId := by
  have hpages := h.pages
  rw [← h.pairs] at hpages
  unfold FreeSpaceMap.setFreeSpace
  cases hset : setPair pageId freeSpace m.mapPages with
  | none => rfl
  | some found => exact (setPair_some hpages hset).2.1

/-- `SetFreeSpace` changes the record of its page, and does nothing for a page that has none. -/
theorem Shape.setFreeSpace (h : Shape m records) (pageId : PageId) (freeSpace : Nat) :
    Shape (m.setFreeSpace pageId freeSpace).2 (setRecord records pageId freeSpace) := by
  have hpages := h.pages
  have hlast : m.lastPageId =
      ((setRecord records pageId freeSpace).getLast?.map Prod.fst).getD INVALID_PAGE_ID := by
    rw [h.last, ← List.getLast?_map, ← List.getLast?_map, setRecord_pages]
  rw [← h.pairs] at hpages
  unfold FreeSpaceMap.setFreeSpace
  cases hset : setPair pageId freeSpace m.mapPages with
  | none =>
    have hnot := setPair_none hset
    rw [h.pairs] at hnot
    rw [setRecord_of_not_mem freeSpace hnot]
    exact h
  | some found =>
    obtain ⟨hpairs, hids, hcounts⟩ := setPair_some hpages hset
    rw [h.pairs] at hpairs
    exact {
      filled := hcounts ▸ h.filled
      ids := hids ▸ h.ids
      pairs := hpairs
      pages := (setRecord_pages records pageId freeSpace).symm ▸ h.pages
      valid := (setRecord_pages records pageId freeSpace).symm ▸ h.valid
      last := hlast }

/-- Every map built by the two operations has the shape. -/
theorem Built.shape (h : Built m records) : Shape m records := by
  induction h with
  | new firstMapPageId =>
    exact ⟨Nat.zero_le _, List.nodup_singleton _, rfl, List.nodup_nil, List.not_mem_nil, rfl⟩
  | setNewPair newPageId pageId freeSpace _ hnew hpage hvalid ih =>
    exact ih.setNewPair freeSpace hnew hpage hvalid
  | setFreeSpace pageId freeSpace _ ih => exact ih.setFreeSpace pageId freeSpace
  | getBegin needSpace _ ih => exact ih.of_content (getBegin_content _ needSpace)
  | getNext needSpace _ ih => exact ih.of_content (getNext_content _ needSpace)

/-! ### The walk -/

/-- The number of records behind the last one with enough space, or of all records. -/
def behind (need : Nat) (records : List (PageId × Nat)) : Nat :=
  (records.reverse.takeWhile (fun record => !enough need record)).length

/-- Where no record has enough space, all lie behind. -/
theorem behind_of_none (h : ∀ record ∈ records, enough need record = false) :
    behind need records = records.length := by
  unfold behind
  rw [List.takeWhile_eq_self_iff.mpr, List.length_reverse]
  intro record hrecord
  rw [h record (List.mem_reverse.mp hrecord)]
  rfl

/-- The records behind the last one with enough space. -/
theorem behind_append {skipped : List (PageId × Nat)} {record : PageId × Nat}
    (h : enough need record = true) :
    behind need (skipped ++ record :: records) = behind need records := by
  unfold behind
  rw [List.reverse_append, List.reverse_cons, List.append_assoc, List.singleton_append,
    List.takeWhile_append, List.takeWhile_cons, h, Bool.not_true, if_neg Bool.false_ne_true,
    List.append_nil]
  split
  · next hall => exact hall.symm
  · rfl

/-- The records up to the last one with enough space, and those behind it. -/
theorem exists_last_enough (hany : records.any (enough need) = true) :
    ∃ before record rest, records = before ++ record :: rest ∧ enough need record = true ∧
      (∀ other ∈ rest, enough need other = false) ∧ behind need records = rest.length := by
  obtain ⟨before, record, rest, heq, hrecord, hrest⟩ : ∃ before record rest,
      records = before ++ record :: rest ∧ enough need record = true ∧
        ∀ other ∈ rest, enough need other = false := by
    induction records with
    | nil => exact nomatch hany
    | cons first records ih =>
      cases hlater : records.any (enough need) with
      | true =>
        obtain ⟨before, record, rest, rfl, hrecord, hrest⟩ := ih hlater
        exact ⟨first :: before, record, rest, rfl, hrecord, hrest⟩
      | false =>
        rw [List.any_cons, hlater, Bool.or_false] at hany
        exact ⟨[], first, records, rfl, hany, fun other hother =>
          Bool.eq_false_iff.mpr (List.any_eq_false.mp hlater other hother)⟩
  refine ⟨before, record, rest, heq, hrecord, hrest, ?_⟩
  rw [heq, behind_append hrecord, behind_of_none hrest]

/-- The records fill all pages but the last. -/
theorem Filled.sum {count : Nat} {counts : List Nat} (h : Filled (count :: counts)) :
    ∃ n last, (count :: counts).getLast? = some last ∧
      (count :: counts).sum = n * SIZE_MAX_PAIR + last ∧ last ≤ SIZE_MAX_PAIR ∧
        (counts ≠ [] → 0 < last) := by
  induction counts generalizing count with
  | nil => exact ⟨0, count, rfl, by simp, h, fun hne => absurd rfl hne⟩
  | cons next counts ih =>
    obtain ⟨n, last, hlast, hsum, hle, hpos⟩ := ih h.2.2
    refine ⟨n + 1, last, ?_, ?_, hle, fun _ => ?_⟩
    · rw [List.getLast?_cons_cons, hlast]
    · rw [List.sum_cons, hsum, h.1, Nat.succ_mul]
      omega
    · rcases counts with _ | ⟨third, counts⟩
      · rw [List.getLast?_singleton, Option.some.injEq] at hlast
        exact hlast ▸ h.2.1
      · exact hpos (List.cons_ne_nil _ _)

/-- The pages from a point on are filled as all were. -/
theorem Filled.of_append {before counts : List Nat} (h : Filled (before ++ counts))
    (hne : counts ≠ []) : Filled counts := by
  induction before with
  | nil => exact h
  | cons count before ih =>
    refine ih ?_
    rcases before with _ | ⟨next, before⟩
    · rcases counts with _ | ⟨next, counts⟩
      · exact absurd rfl hne
      · exact h.2.2
    · exact h.2.2

/-- No page holds more pairs than fit. -/
theorem Filled.head_le {count : Nat} {counts : List Nat} (h : Filled (count :: counts)) :
    count ≤ SIZE_MAX_PAIR := by
  rcases counts with _ | ⟨next, counts⟩
  · exact h
  · exact Nat.le_of_eq h.1

/-- The number of pairs from a place on. -/
theorem length_pairsFrom (s : Nat) (page : FreeSpaceMapPage) (pages : List FreeSpaceMapPage) :
    (pairsFrom s (page :: pages)).length =
      page.getPairCount - s + (pages.map FreeSpaceMapPage.getPairCount).sum := by
  show (page.pairs.drop s ++ _).length = _
  rw [List.length_append, List.length_drop, List.length_flatMap]
  rfl

/-- The cursor is on the pair `i` of a page. -/
structure Cursor (m : FreeSpaceMap) (page : FreeSpaceMapPage) (after : List FreeSpaceMapPage)
    (i : Nat) : Prop where
  pages : ∃ before, m.mapPages = before ++ page :: after
  pageIndex : m.pageIndex = page.pageId
  internalIndex : m.internalIndex = i
  inside : i < page.getPairCount

section Cursor

variable {after : List FreeSpaceMapPage}

/-- The pages from the cursor on are filled. -/
theorem Cursor.filled (hc : Cursor m page after i) (hs : Shape m records) :
    Filled ((page :: after).map FreeSpaceMapPage.getPairCount) := by
  obtain ⟨before, hpages⟩ := hc.pages
  have hfilled := hs.filled
  rw [hpages, List.map_append] at hfilled
  exact hfilled.of_append (List.cons_ne_nil _ _)

/-- The inner index of the cursor is that of the last pair exactly if a multiple of `SIZE_MAX_PAIR`
pairs stand behind it. -/
theorem Cursor.lastIndex (hc : Cursor m page after i) (hs : Shape m records) :
    ∃ last, m.mapPages.getLast? = some last ∧ 0 < last.getPairCount ∧
      (m.internalIndex = last.lastIndex ↔
        (pairsFrom (i + 1) (page :: after)).length % SIZE_MAX_PAIR = 0) := by
  obtain ⟨n, last, hlast, hsum, hle, hpos⟩ := (hc.filled hs).sum
  obtain ⟨before, hpages⟩ := hc.pages
  rw [← List.map_cons, List.getLast?_map] at hlast
  obtain ⟨lastPage, hlastPage, rfl⟩ := Option.map_eq_some_iff.mp hlast
  have hin := hc.inside
  have hhead := (hc.filled hs).head_le
  have hlastPos : 0 < lastPage.getPairCount := by
    cases after with
    | nil =>
      rw [List.getLast?_singleton, Option.some.injEq] at hlastPage
      exact hlastPage ▸ Nat.lt_of_le_of_lt (Nat.zero_le i) hin
    | cons next after => exact hpos (by simp)
  refine ⟨lastPage, ?_, hlastPos, ?_⟩
  · rw [hpages, List.getLast?_append, hlastPage]
    rfl
  · have hcap : SIZE_MAX_PAIR = 510 := rfl
    rw [List.sum_cons, hcap] at hsum
    rw [hcap] at hhead hle ⊢
    rw [length_pairsFrom, hc.internalIndex, FreeSpaceMapPage.lastIndex,
      if_neg (Nat.ne_of_gt hlastPos)]
    omega

/-- `FetchPage(page_index)` gives the page of the cursor. -/
theorem Cursor.dropWhile (hc : Cursor m page after i) (hs : Shape m records) :
    m.mapPages.dropWhile (fun page => page.pageId != m.pageIndex) = page :: after := by
  obtain ⟨before, hpages⟩ := hc.pages
  have hids := hs.ids
  rw [hpages, List.map_append, List.map_cons, List.nodup_middle, List.nodup_cons, List.mem_append,
    not_or] at hids
  rw [hpages, hc.pageIndex, List.dropWhile_append_of_pos, List.dropWhile_cons_of_neg]
  · simp
  · intro other hother
    refine bne_iff_ne.mpr (fun heq => hids.1.1 ?_)
    rw [← heq]
    exact List.mem_map_of_mem hother

/-- `GetNext` searches from the slot behind the cursor. -/
theorem Cursor.getNext_eq (hc : Cursor m page after i) (hs : Shape m records) (need : Nat) :
    m.getNext need = m.settle (search (enough need) (i + 1) (page :: after)) := by
  have hin := hc.inside
  have hhead := (hc.filled hs).head_le
  have hcap : SIZE_MAX_PAIR = 510 := rfl
  unfold getNext
  rw [hc.dropWhile hs, hc.internalIndex, Nat.mod_eq_of_lt (by omega)]

/-- The walk is over if the cursor has the inner index of the last pair. -/
theorem Cursor.getNext_stop (hc : Cursor m page after i) (hs : Shape m records)
    (hsearch : search (enough need) (i + 1) (page :: after) = none)
    (hzero : (pairsFrom (i + 1) (page :: after)).length % SIZE_MAX_PAIR = 0) :
    m.getNext need = (INVALID_PAGE_ID, m) := by
  obtain ⟨last, hlast, _, hiff⟩ := hc.lastIndex hs
  rw [hc.getNext_eq hs, hsearch]
  unfold settle
  rw [hlast, Option.map_some, Option.getD_some, settleLast, if_pos (hiff.mpr hzero)]

/-- Otherwise the cursor moves to the last pair. -/
theorem settle_last (hs : Shape m records) {last : FreeSpaceMapPage}
    (hlast : m.mapPages.getLast? = some last) (hpos : 0 < last.getPairCount)
    (hne : m.internalIndex ≠ last.lastIndex) :
    ∃ m', m.settle none = (m.lastPageId, m') ∧ Cursor m' last [] (last.getPairCount - 1) ∧
      Shape m' records := by
  refine ⟨{ m with internalIndex := last.lastIndex, pageIndex := last.pageId }, ?_,
    ⟨List.getLast?_eq_some_iff.mp hlast, rfl, ?_, Nat.sub_one_lt (Nat.ne_of_gt hpos)⟩,
    hs.of_content ⟨rfl, rfl⟩⟩
  · unfold settle
    rw [hlast, Option.map_some, Option.getD_some, settleLast, if_neg hne]
  · exact if_neg (Nat.ne_of_gt hpos)

/-- One more answer is the answers of the next call. -/
theorem answersFrom_succ (result : PageId × FreeSpaceMap) (need n : Nat) :
    answersFrom need result (n + 1) = answersFrom need (result.2.getNext need) n := rfl

/-- A walk that is over stays so. -/
theorem answersFrom_stuck {first : PageId} (h : m.getNext need = (INVALID_PAGE_ID, m)) (n : Nat) :
    answersFrom need (first, m) n = (([first][n]?).getD INVALID_PAGE_ID) := by
  induction n generalizing first with
  | zero => rfl
  | succ n ih =>
    rw [answersFrom_succ, h, ih]
    cases n with
    | zero => rfl
    | succ n => rfl

/-- At the last record of the map every further call answers that there is no page. -/
theorem Cursor.answersFrom_last (first : PageId) (hc : Cursor m page [] i) (hs : Shape m records)
    (hi : page.getPairCount = i + 1) (n : Nat) :
    answersFrom need (first, m) n = (([first][n]?).getD INVALID_PAGE_ID) := by
  have hrest : pairsFrom (i + 1) [page] = [] := by
    show page.pairs.drop (i + 1) ++ [] = []
    rw [List.append_nil, List.drop_eq_nil_iff]
    exact Nat.le_of_eq hi
  refine answersFrom_stuck (hc.getNext_stop hs ?_ ?_) n
  · cases hsearch : search (enough need) (i + 1) [page] with
    | none => rfl
    | some found =>
      obtain ⟨_, _, skipped, pair, _, _, _, hfrom, _⟩ := search_some hsearch
      rw [hrest] at hfrom
      exact absurd hfrom.symm (List.append_ne_nil_of_right_ne_nil _ (List.cons_ne_nil _ _))
  · rw [hrest]
    rfl

/-- The cursor moves to the next pair with enough space. -/
theorem settle_some (hs : Shape m records) {pages : List FreeSpaceMapPage}
    (hpages : ∃ before, m.mapPages = before ++ pages)
    (hsearch : search (enough need) s pages = some (page, i)) :
    ∃ m' after pair, m.settle (some (page, i)) = (pair.1, m') ∧ Cursor m' page after i ∧
      Shape m' records ∧
        (pairsFrom s pages).filter (enough need) =
          pair :: (pairsFrom (i + 1) (page :: after)).filter (enough need) ∧
        behind need (pairsFrom s pages) = behind need (pairsFrom (i + 1) (page :: after)) ∧
        (pairsFrom (i + 1) (page :: after)).length < (pairsFrom s pages).length := by
  obtain ⟨before, after, skipped, pair, rfl, hget, htest, hfrom, hskipped⟩ := search_some hsearch
  obtain ⟨hin, _⟩ := List.getElem?_eq_some_iff.mp hget
  obtain ⟨front, hpages⟩ := hpages
  refine ⟨{ m with internalIndex := i, pageIndex := page.pageId }, after, pair, ?_,
    ⟨⟨front ++ before, ?_⟩, rfl, rfl, hin⟩, hs.of_content ⟨rfl, rfl⟩, ?_, ?_, ?_⟩
  · show (page.getSpacePageId i, _) = _
    unfold FreeSpaceMapPage.getSpacePageId
    rw [hget]
    rfl
  · rw [List.append_assoc]
    exact hpages
  · rw [hfrom, List.filter_append, List.filter_cons_of_pos htest, List.filter_eq_nil_iff.mpr,
      List.nil_append]
    exact fun x hx => Bool.eq_false_iff.mp (hskipped x hx)
  · rw [hfrom, behind_append htest]
  · rw [hfrom, List.length_append, List.length_cons]
    omega

/-- The answers behind the pair of the cursor: the pages with enough space, and at the end the last
data page, unless the cursor is then on a pair with the inner index of the last one. -/
theorem Cursor.answersFrom_eq (first : PageId) (hc : Cursor m page after i) (hs : Shape m records)
    (n : Nat) :
    answersFrom need (first, m) n = ((first ::
      (((pairsFrom (i + 1) (page :: after)).filter (enough need)).map Prod.fst ++
        if behind need (pairsFrom (i + 1) (page :: after)) % SIZE_MAX_PAIR = 0 then []
        else [m.lastPageId]))[n]?).getD INVALID_PAGE_ID := by
  induction hlen : (pairsFrom (i + 1) (page :: after)).length using Nat.strong_induction_on
    generalizing m page after i first n with
  | _ length ih =>
  have hnext := hc.getNext_eq hs need
  cases hsearch : search (enough need) (i + 1) (page :: after) with
  | none =>
    have hnone := search_none hsearch
    have hfilter : (pairsFrom (i + 1) (page :: after)).filter (enough need) = [] :=
      List.filter_eq_nil_iff.mpr (fun pair hpair => Bool.eq_false_iff.mp (hnone pair hpair))
    rw [hfilter, behind_of_none hnone]
    by_cases hzero : (pairsFrom (i + 1) (page :: after)).length % SIZE_MAX_PAIR = 0
    · rw [if_pos hzero]
      exact answersFrom_stuck (hc.getNext_stop hs hsearch hzero) n
    · rw [if_neg hzero]
      obtain ⟨last, hlast, hpos, hiff⟩ := hc.lastIndex hs
      obtain ⟨m', hsettle, hc', hs'⟩ := settle_last hs hlast hpos (fun hend => hzero (hiff.mp hend))
      cases n with
      | zero => rfl
      | succ n =>
        rw [answersFrom_succ, hnext, hsearch, hsettle, hc'.answersFrom_last _ hs'
          (Nat.sub_add_cancel hpos).symm n]
        rfl
  | some found =>
    obtain ⟨m', after', pair, hsettle, hc', hs', hfilter, hbehind, hlt⟩ :=
      settle_some hs hc.pages hsearch
    cases n with
    | zero => rfl
    | succ n =>
      rw [answersFrom_succ, hnext, hsearch, hsettle, ih _ (hlen ▸ hlt) pair.1 hc' hs' n rfl,
        hfilter, hbehind, hs'.last, hs.last]
      rfl

end Cursor

/-! ### All answers -/

/-- The pages that the map proposes: those with enough space, and at the end the last one, unless a
multiple of `SIZE_MAX_PAIR` records stand behind the last page with enough space. -/
def proposals (records : List (PageId × Nat)) (need : Nat) : List PageId :=
  (records.filter (enough need)).map Prod.fst ++
    if records.any (enough need) ∧ behind need records % SIZE_MAX_PAIR = 0 then []
    else (records.getLast?.map Prod.fst).toList

/-- If there are records, the last page of the map has some of them. -/
theorem Shape.getLast_pos (hs : Shape m records) (hne : records ≠ []) :
    ∃ last, m.mapPages.getLast? = some last ∧ 0 < last.getPairCount ∧
      last.getPairCount ≤ SIZE_MAX_PAIR := by
  have hfilled := hs.filled
  have hpairs := hs.pairs
  cases hpages : m.mapPages with
  | nil =>
    rw [hpages] at hfilled
    exact hfilled.elim
  | cons page pages =>
    rw [hpages] at hfilled hpairs
    obtain ⟨n, count, hlast, _, hle, hpos⟩ := Filled.sum hfilled
    rw [← List.map_cons, List.getLast?_map] at hlast
    obtain ⟨last, hlastPage, rfl⟩ := Option.map_eq_some_iff.mp hlast
    refine ⟨last, hlastPage, ?_, hle⟩
    cases pages with
    | cons next pages => exact hpos (by simp)
    | nil =>
      rw [List.getLast?_singleton, Option.some.injEq] at hlastPage
      rw [List.flatMap_cons, List.flatMap_nil, List.append_nil] at hpairs
      refine List.length_pos_iff.mpr (fun hnil => hne ?_)
      rw [← hpairs, hlastPage, hnil]

/-- Without a pair with enough space, an empty map answers nothing. -/
theorem Shape.getBegin_nil (hs : Shape m []) (need n : Nat) :
    m.answer need n = INVALID_PAGE_ID := by
  have hpairs : ∀ page ∈ m.mapPages, page.pairs = [] := List.flatMap_eq_nil_iff.mp hs.pairs
  have hsearch : ∀ s pages, (∀ page ∈ pages, page ∈ m.mapPages) →
      search (enough need) s pages = none := by
    intro s pages hsub
    cases hsearch : search (enough need) s pages with
    | none => rfl
    | some found =>
      obtain ⟨_, _, _, _, heq, hget, _, _, _⟩ := search_some hsearch
      rw [hpairs found.1 (hsub _ (by rw [heq]; simp))] at hget
      exact nomatch hget
  have hstop : ∀ m' : FreeSpaceMap, m'.mapPages = m.mapPages → m'.internalIndex = 2 ^ 32 - 1 →
      m'.settle none = (INVALID_PAGE_ID, m') := by
    intro m' hpages hindex
    unfold settle
    cases hlast : m'.mapPages.getLast? with
    | none => rfl
    | some last =>
      have hcount : last.getPairCount = 0 := by
        rw [hpages] at hlast
        show last.pairs.length = 0
        rw [hpairs last (List.mem_of_getLast? hlast), List.length_nil]
      rw [Option.map_some, Option.getD_some, settleLast, FreeSpaceMapPage.lastIndex, if_pos hcount,
        if_pos hindex]
  have hend := hstop { m with internalIndex := 2 ^ 32 - 1, pageIndex := INVALID_PAGE_ID } rfl rfl
  unfold answer getBegin
  rw [hsearch 0 m.mapPages (fun page hpage => hpage), hend, answersFrom_stuck]
  · cases n with
    | zero => rfl
    | succ n => rfl
  · unfold getNext
    split
    · rfl
    · next page pages hdrop =>
      rw [hsearch _ (page :: pages) (fun other hother => ?_), hend]
      have hsub := List.dropWhile_sublist
        (l := m.mapPages) (fun page => page.pageId != INVALID_PAGE_ID)
      exact hsub.subset (hdrop ▸ hother)

/-- The answers of a walk are the proposals of the records, one after the other, then none: the
records with enough space and, unless the end test of `GetNext` skips it, the last record of the
map. -/
theorem Shape.answer_eq (hs : Shape m records) (need n : Nat) :
    m.answer need n = ((proposals records need)[n]?).getD INVALID_PAGE_ID := by
  -- an empty map: no page of it is ever read
  by_cases hnil : records = []
  · subst hnil
    rw [hs.getBegin_nil]
    rfl
  have hbegin : Shape { m with internalIndex := 2 ^ 32 - 1, pageIndex := INVALID_PAGE_ID }
      records := hs.of_content ⟨rfl, rfl⟩
  have hfrom : pairsFrom 0 m.mapPages = records := pairsFrom_zero.trans hs.pairs
  have hlastPage : (records.getLast?.map Prod.fst).toList = [m.lastPageId] := by
    rw [hs.last, List.getLast?_eq_some_getLast hnil]
    rfl
  unfold answer getBegin proposals
  rw [hlastPage]
  -- either `GetBegin` finds a record and the walk goes on behind it, or it stays before the first
  cases hsearch : search (enough need) 0 m.mapPages with
  | none =>
    have hnone := search_none hsearch
    rw [hfrom] at hnone
    have hany : ¬ (records.any (enough need) = true ∧ behind need records % SIZE_MAX_PAIR = 0) := by
      rintro ⟨hany, _⟩
      obtain ⟨record, hrecord, henough⟩ := List.any_eq_true.mp hany
      rw [hnone record hrecord] at henough
      exact nomatch henough
    rw [if_neg hany, List.filter_eq_nil_iff.mpr
      (fun record hrecord => Bool.eq_false_iff.mp (hnone record hrecord))]
    obtain ⟨last, hlast, hpos, hle⟩ := hs.getLast_pos hnil
    have hne : (2 ^ 32 - 1 : Nat) ≠ last.lastIndex := by
      have hcap : SIZE_MAX_PAIR = 510 := rfl
      rw [FreeSpaceMapPage.lastIndex, if_neg (Nat.ne_of_gt hpos)]
      omega
    obtain ⟨m', hsettle, hc, hs'⟩ := settle_last hbegin hlast hpos hne
    rw [hsettle]
    exact hc.answersFrom_last _ hs' (Nat.sub_add_cancel hpos).symm n
  | some found =>
    obtain ⟨m', after, pair, hsettle, hc, hs', hfilter, hbehind, _⟩ :=
      settle_some hbegin ⟨[], rfl⟩ hsearch
    rw [hfrom] at hfilter hbehind
    have hmem : pair ∈ records.filter (enough need) := hfilter ▸ List.mem_cons_self
    have hany : records.any (enough need) = true :=
      List.any_eq_true.mpr ⟨pair, (List.mem_filter.mp hmem).1, (List.mem_filter.mp hmem).2⟩
    rw [hsettle, hc.answersFrom_eq pair.1 hs' n, hfilter, hbehind, hany, hs'.last, hs.last]
    simp only [true_and]
    rfl

/-- Nothing lies behind exactly when the last record has enough space. -/
theorem behind_eq_zero_iff (hne : records ≠ []) :
    behind need records = 0 ↔ enough need (records.getLast hne) = true := by
  have hsplit := List.dropLast_append_getLast hne
  generalize records.getLast hne = last at hsplit ⊢
  unfold behind
  rw [← hsplit, List.reverse_append, List.reverse_singleton, List.singleton_append,
    List.takeWhile_cons]
  cases enough need last with
  | true => simp
  | false => simp

/-- What the enumeration is for: the pages with enough space in the order of the map, and then the
last one, if it is not among them. -/
def candidates (records : List (PageId × Nat)) (need : Nat) : List PageId :=
  (records.filter (enough need)).map Prod.fst ++
    ((records.getLast?.filter (fun record => !enough need record)).map Prod.fst).toList

/-- Behind the last page with enough space stand as many records as fill some pages of the map. -/
def SkipsLast (records : List (PageId × Nat)) (need : Nat) : Prop :=
  records.any (enough need) = true ∧ 0 < behind need records ∧
    behind need records % SIZE_MAX_PAIR = 0

instance (records : List (PageId × Nat)) (need : Nat) : Decidable (SkipsLast records need) :=
  inferInstanceAs (Decidable (_ ∧ _ ∧ _))

/-- When the last record has not enough space, it is proposed behind the others. -/
theorem candidates_eq_of_last (hne : records ≠ [])
    (hlast : enough need (records.getLast hne) = false) :
    candidates records need =
      (records.filter (enough need)).map Prod.fst ++ [(records.getLast hne).1] := by
  unfold candidates
  rw [List.getLast?_eq_some_getLast hne, Option.filter_some, hlast]
  rfl

/-- The map proposes the candidates, but for the last page if that is skipped. -/
theorem proposals_eq (records : List (PageId × Nat)) (need : Nat) :
    proposals records need =
      if SkipsLast records need then (records.filter (enough need)).map Prod.fst
      else candidates records need := by
  by_cases hne : records = []
  · subst hne
    rfl
  cases hlast : enough need (records.getLast hne) with
  | true =>
    have hzero := (behind_eq_zero_iff hne).mpr hlast
    have hany : records.any (enough need) = true :=
      List.any_eq_true.mpr ⟨_, List.getLast_mem hne, hlast⟩
    have hskip : ¬ SkipsLast records need := fun h => Nat.ne_of_gt h.2.1 hzero
    unfold proposals candidates
    rw [if_neg hskip, if_pos ⟨hany, by rw [hzero]; rfl⟩, List.getLast?_eq_some_getLast hne,
      Option.filter_some, hlast]
    rfl
  | false =>
    have hpos : 0 < behind need records := Nat.pos_of_ne_zero
      (fun hzero => Bool.eq_false_iff.mp hlast ((behind_eq_zero_iff hne).mp hzero))
    rw [candidates_eq_of_last hne hlast]
    unfold proposals
    by_cases hskip : SkipsLast records need
    · rw [if_pos hskip, if_pos ⟨hskip.1, hskip.2.2⟩, List.append_nil]
    · rw [if_neg hskip, if_neg (fun h => hskip ⟨h.1, hpos, h.2⟩),
        List.getLast?_eq_some_getLast hne]
      rfl

/-- If the last page is not skipped, it is the last one that the map proposes. -/
theorem proposals_getLast (hskip : ¬ SkipsLast records need) :
    (proposals records need).getLast? = records.getLast?.map Prod.fst := by
  rw [proposals_eq, if_neg hskip]
  by_cases hne : records = []
  · subst hne
    rfl
  cases hlast : enough need (records.getLast hne) with
  | false =>
    rw [candidates_eq_of_last hne hlast, List.getLast?_concat, List.getLast?_eq_some_getLast hne]
    rfl
  | true =>
    have hsplit := List.dropLast_append_getLast hne
    unfold candidates
    rw [List.getLast?_eq_some_getLast hne, Option.filter_some, hlast]
    generalize records.getLast hne = last at hsplit hlast ⊢
    rw [← hsplit, List.filter_append, List.filter_cons_of_pos hlast, List.filter_nil,
      List.map_append]
    show (_ ++ [last.1] ++ []).getLast? = _
    rw [List.append_nil, List.getLast?_concat]
    rfl

/-- The answers are the candidates and then `INVALID_PAGE_ID` exactly if the last page is not
skipped. -/
theorem freeSpaceMap_enumerates_iff (h : Built m records) (need : Nat) :
    (∀ n, m.answer need n = ((candidates records need)[n]?).getD INVALID_PAGE_ID) ↔
      ¬ SkipsLast records need := by
  have hs := h.shape
  constructor
  · intro hall hskip
    have hne : records ≠ [] := by
      rintro rfl
      exact nomatch hskip.1
    have hlast : enough need (records.getLast hne) = false := Bool.eq_false_iff.mpr
      (fun hlast => Nat.ne_of_gt hskip.2.1 ((behind_eq_zero_iff hne).mpr hlast))
    -- the answer behind the pages with enough space
    have hend := hall ((records.filter (enough need)).map Prod.fst).length
    rw [hs.answer_eq, proposals_eq, if_pos hskip, candidates_eq_of_last hne hlast,
      List.getElem?_eq_none (Nat.le_refl _), List.getElem?_concat_length] at hend
    have hinvalid : INVALID_PAGE_ID = (records.getLast hne).1 := hend
    refine hs.valid ?_
    rw [hinvalid]
    exact List.mem_map_of_mem (List.getLast_mem hne)
  · intro hskip n
    rw [hs.answer_eq, proposals_eq, if_neg hskip]

/-- Two pages of the heap are in the map, and both are proposed. -/
theorem freeSpaceMap_enumerates_iff_two :
    (∀ n, (((new 100).setNewPair 101 0 8).setNewPair 101 2 16).answer 8 n =
      ((candidates [(0, 8), (2, 16)] 8)[n]?).getD INVALID_PAGE_ID) ↔
        ¬ SkipsLast [(0, 8), (2, 16)] 8 :=
  freeSpaceMap_enumerates_iff (.setNewPair 101 2 16 (.setNewPair 101 0 8 (.new 100) (by decide)
    (by decide) (by decide)) (by decide) (by decide) (by decide)) 8

/-- The first of `n` pages has 8 bytes left, and the others have nothing. -/
def firstWithSpace (n : Nat) : List (PageId × Nat) :=
  (List.range n).map (fun i : Nat => ((i : PageId), if i = 0 then 8 else 0))

/-- The maps of the failing input can be built by the operations of the map. -/
theorem exists_built_firstWithSpace (n : Nat) : ∃ m, Built m (firstWithSpace n) := by
  induction n with
  | zero => exact ⟨_, .new 0⟩
  | succ n ih =>
    obtain ⟨m, hm⟩ := ih
    have hfresh : (n : PageId) ∉ (firstWithSpace n).map Prod.fst := by
      intro hmem
      obtain ⟨record, hrecord, heq⟩ := List.mem_map.mp hmem
      obtain ⟨i, hi, rfl⟩ := List.mem_map.mp hrecord
      have hlt := List.mem_range.mp hi
      have heq' : (i : Int) = n := heq
      omega
    have hnext : firstWithSpace (n + 1) =
        firstWithSpace n ++ [((n : PageId), if n = 0 then 8 else 0)] := by
      unfold firstWithSpace
      rw [List.range_succ, List.map_append]
      rfl
    have hvalid : (n : Int) ≠ -1 := by omega
    rw [hnext]
    exact ⟨_, .setNewPair (Allocator.increasing.pick _) n _ hm (Allocator.increasing.pick_fresh _)
      hfresh hvalid⟩

/-- With 511 pages, the last one has the inner index of the first. -/
theorem freeSpaceMap_skips_last :
    ¬ ∀ m records, Built m records → ∀ need n,
      m.answer need n = ((candidates records need)[n]?).getD INVALID_PAGE_ID := by
  intro h
  obtain ⟨m, hm⟩ := exists_built_firstWithSpace 511
  have hanswer := hm.shape.answer_eq 8 1
  rw [h m _ hm 8 1] at hanswer
  exact absurd hanswer (by decide +kernel)

end FreeSpaceMap

end DisMiniSql.MiniSql.Heap
