import DisMiniSql.MiniSql.Storage.TableHeap
import DisMiniSql.Proofs.Storage.TableScan

/-!
# `DisMiniSql.Proofs.Storage.PageRefinement`: slots and bytes of a page

`MiniSql.Storage.TableHeap` has the rows of a heap in the slots of numbered pages, and
`MiniSql.Storage.PagedHeap` has the bytes. The executors run on the first. This module is about one
page and about the free space map, and `HeapRefinement` puts the pages together:

* `TablePage.OnBytes` says that the bytes of a page hold the slots of another. Each call of a page
  answers the same on both and keeps it (`OnBytes.insertTuple`, `OnBytes.markDelete`,
  `OnBytes.updateTuple`, `OnBytes.getTuple`, `OnBytes.rows`).
* `FreeSpaceMap.map_candidates` shows that the list of pairs proposes the pages that `GetBegin` and
  `GetNext` answer on the pages of the map.

`enc` writes a row. Its length is the size that the heap of slots works with.
-/

set_option autoImplicit false

namespace DisMiniSql.MiniSql

variable {V : Type} {enc : List V → Heap.Row}

/-- `Row::GetSerializedSize` of a row that `enc` writes. -/
def encodedSize (enc : List V → Heap.Row) (row : List V) : Nat := (enc row).getSerializedSize

/-! ## Page ids -/

/-- The id of the page `n`, if the pages have these ids. -/
def pageIdOf (ids : List PageId) (n : Nat) : PageId := (ids[n]?).getD INVALID_PAGE_ID

/-- A row id with the id of its page. -/
def RowId.onPages (ids : List PageId) (rid : RowId) : Heap.RowId :=
  ⟨pageIdOf ids rid.pageId, rid.slotNum⟩

/-- The link to the page with a number, or to none. -/
def Named (ids : List PageId) : Option Nat → PageId → Prop
  | none, pageId => pageId = INVALID_PAGE_ID
  | some n, pageId => n < ids.length ∧ pageId = pageIdOf ids n

section PageIds

variable {ids ids' : List PageId} {n k : Nat} {new : PageId}

/-- Every place of the heap has an id of the list. -/
theorem pageIdOf_mem (hn : n < ids.length) : pageIdOf ids n ∈ ids := by
  unfold pageIdOf
  rw [List.getElem?_eq_getElem hn]
  exact List.getElem_mem hn

/-- Behind the last page there is no id. -/
theorem pageIdOf_of_le (hn : ids.length ≤ n) : pageIdOf ids n = INVALID_PAGE_ID := by
  unfold pageIdOf
  rw [List.getElem?_eq_none hn]
  rfl

/-- Different places have different ids. -/
theorem pageIdOf_inj (hnodup : ids.Nodup) (hk : k < ids.length) (hn : n < ids.length)
    (heq : pageIdOf ids k = pageIdOf ids n) : k = n := by
  unfold pageIdOf at heq
  rw [List.getElem?_eq_getElem hk, List.getElem?_eq_getElem hn] at heq
  exact (List.Nodup.getElem_inj_iff hnodup).mp heq

/-- The pages that were there keep their ids. -/
theorem pageIdOf_extended (hpre : ids <+: ids') (hn : n < ids.length) :
    pageIdOf ids' n = pageIdOf ids n := by
  obtain ⟨later, rfl⟩ := hpre
  unfold pageIdOf
  rw [List.getElem?_append_left hn]

/-- The id added last belongs to the place behind the others. -/
theorem pageIdOf_length : pageIdOf (ids ++ [new]) ids.length = new := by
  unfold pageIdOf
  rw [List.getElem?_concat_length]
  rfl

/-- A name stays right when pages are added behind. -/
theorem Named.mono {next : Option Nat} {pageId : PageId} (hpre : ids <+: ids')
    (hnamed : Named ids next pageId) : Named ids' next pageId := by
  cases next with
  | none => exact hnamed
  | some n =>
    obtain ⟨hn, rfl⟩ := hnamed
    exact ⟨Nat.lt_of_lt_of_le hn hpre.length_le, (pageIdOf_extended hpre hn).symm⟩

end PageIds

/-! ## Pages -/

/-- The bytes of the page `q` hold the slots of `p`: as many slots, the same free space pointer, and
in each slot the bytes of its row with its delete flag. -/
structure TablePage.OnBytes (enc : List V → Heap.Row) (p : TablePage V) (q : Heap.TablePage) :
    Prop where
  layout : q.Layout
  count : q.getTupleCount = p.slots.length
  pointer : q.getFreeSpacePointer = p.freeSpacePointer
  view : ∀ i slot, p.slots[i]? = some slot → q.view i = some ((enc slot.row).bytes, slot.deleted)

namespace TablePage.OnBytes

variable {p : TablePage V} {q : Heap.TablePage} {row : List V} {k : Nat}

/-- Behind the slots there is nothing. -/
theorem view_none (h : p.OnBytes enc q) (hk : p.slots[k]? = none) : q.view k = none := by
  refine Heap.TablePage.view_of_not_mem fun hused => ?_
  have hlt : k < q.getTupleCount := hused.1
  rw [h.count] at hlt
  exact absurd (List.getElem?_eq_none_iff.mp hk) (Nat.not_le_of_lt hlt)

/-- A reader finds the bytes of the row that the slot has. -/
theorem getTuple (h : p.OnBytes enc q) (k : Nat) :
    q.getTuple k = (p.getTuple k).map fun row => (enc row).bytes := by
  rw [h.layout.getTuple k]
  unfold TablePage.getTuple
  cases hk : p.slots[k]? with
  | none =>
    rw [h.view_none hk]
    rfl
  | some slot =>
    rw [h.view k slot hk]
    obtain ⟨row, deleted⟩ := slot
    cases deleted with
    | true => rfl
    | false => rfl

/-- The two accounts of the space agree, since the directory ends before the rows begin. -/
theorem getFreeSpaceRemaining (h : p.OnBytes enc q) :
    q.getFreeSpaceRemaining = p.getFreeSpaceRemaining := by
  rw [h.layout.getFreeSpaceRemaining, h.pointer, h.count]
  unfold TablePage.getFreeSpaceRemaining Heap.TablePage.directoryEnd
  show p.freeSpacePointer - (24 + 8 * p.slots.length) = p.freeSpacePointer - 24 - 8 * p.slots.length
  omega

/-- So does the free space that the map gets, also where it wraps. -/
theorem getFreeSpace (h : p.OnBytes enc q) : q.getFreeSpace = p.getFreeSpace := by
  have hdir := h.layout.directory
  have hptr := h.layout.pointer
  rw [h.count, h.pointer] at hdir
  rw [h.pointer] at hptr
  have hdir : 24 + 8 * p.slots.length ≤ p.freeSpacePointer := hdir
  have hptr : p.freeSpacePointer ≤ 4096 := hptr
  unfold Heap.TablePage.getFreeSpace
  rw [h.getFreeSpaceRemaining]
  show (p.freeSpacePointer - 24 - 8 * p.slots.length + 2 ^ 32 - 8) % 2 ^ 32 =
    (p.freeSpacePointer + 2 ^ 32 - 24 - 8 * p.slots.length - 8) % 2 ^ 32
  congr 1
  omega

/-- A new page has no slots on either side. -/
theorem init (pageId prevId : PageId) (data : Lib.Bytes) :
    (TablePage.init : TablePage V).OnBytes enc (Heap.TablePage.init pageId prevId data) where
  layout := .init pageId prevId data
  count := Heap.TablePage.getTupleCount_init pageId prevId data
  pointer := Heap.TablePage.getFreeSpacePointer_init pageId prevId data
  view i slot hslot := by simp [TablePage.init] at hslot

/-- The link to the next page is not one of the bytes here. -/
theorem setNextPageId (h : p.OnBytes enc q) (next : Option Nat) (pageId : PageId) :
    ({ p with nextPageId := next } : TablePage V).OnBytes enc (q.setNextPageId pageId) :=
  ⟨h.layout.setNextPageId pageId, h.count, h.pointer, h.view⟩

/-- Every slot has a row, so a new row goes behind the last one. -/
theorem freeSlot (h : p.OnBytes enc q) : q.freeSlot = p.slots.length := by
  obtain ⟨hfree, hle⟩ := q.freeSlot_spec
  rw [h.count] at hle
  by_contra hne
  have hlt : q.freeSlot < p.slots.length := lt_of_le_of_ne hle hne
  have hview := h.view q.freeSlot _ (List.getElem?_eq_getElem hlt)
  rw [Heap.TablePage.view_of_not_mem hfree] at hview
  cases hview

/-- `InsertTuple` on both pages: both have no room, or both take the row into one slot. -/
theorem insertTuple (h : p.OnBytes enc q) (row : List V) :
    (p.insertTuple (encodedSize enc) row = none ∧ q.insertTuple (enc row) = (none, q)) ∨
      ∃ n p' q', p.insertTuple (encodedSize enc) row = some (n, p') ∧
        q.insertTuple (enc row) = (some n, q') ∧ p'.OnBytes enc q' ∧
          Heap.TablePage.SameIds q q' ∧ p'.nextPageId = p.nextPageId := by
  have hspace := h.getFreeSpaceRemaining
  unfold TablePage.insertTuple
  by_cases hroom : p.getFreeSpaceRemaining < encodedSize enc row + TablePage.SIZE_TUPLE
  · left
    refine ⟨if_pos hroom, Heap.TablePage.insertTuple_of_full ?_⟩
    unfold Heap.TablePage.Full
    rw [hspace]
    exact hroom
  · right
    have hfit : Heap.TablePage.directoryEnd (q.getTupleCount + 1) + (enc row).bytes.length ≤
        q.getFreeSpacePointer := by
      have hdir := h.layout.directory
      have hroom : ¬ p.freeSpacePointer - 24 - 8 * p.slots.length <
        (enc row).bytes.length + 8 := hroom
      rw [h.count, h.pointer] at hdir ⊢
      have hdir : 24 + 8 * p.slots.length ≤ p.freeSpacePointer := hdir
      show 24 + 8 * (p.slots.length + 1) + (enc row).bytes.length ≤ p.freeSpacePointer
      omega
    obtain ⟨q', heq, hins, hids⟩ := h.layout.insertTuple_some hfit
    rw [h.freeSlot] at heq hins
    refine ⟨p.slots.length, _, q', if_neg hroom, heq, ⟨hins.layout h.layout, ?_, ?_, ?_⟩, hids, rfl⟩
    · rw [hins.getTupleCount, h.count, List.length_append, List.length_singleton]
      omega
    · have hpointer := hins.getFreeSpacePointer
      rw [h.pointer] at hpointer
      show q'.getFreeSpacePointer = p.freeSpacePointer - (enc row).bytes.length
      omega
    · intro i slot hslot
      rw [hins.view h.layout]
      -- the new slot is the last one
      by_cases hi : i = p.slots.length
      · subst hi
        rw [List.getElem?_concat_length] at hslot
        cases hslot
        rw [Function.update_self]
      · rw [Function.update_of_ne hi]
        have hlt : i < p.slots.length := by
          have hlt := (List.getElem?_eq_some_iff.mp hslot).1
          rw [List.length_append, List.length_singleton] at hlt
          omega
        rw [List.getElem?_append_left hlt] at hslot
        exact h.view i slot hslot

/-- A slot that is written: the other ones stay. -/
theorem view_set (h : p.OnBytes enc q) {q' : Heap.TablePage} (written : Slot V)
    (hview : q'.view = Function.update q.view k (some ((enc written.row).bytes, written.deleted)))
    {i : Nat} {slot : Slot V} (hslot : (p.slots.set k written)[i]? = some slot) :
    q'.view i = some ((enc slot.row).bytes, slot.deleted) := by
  rw [hview]
  by_cases hi : i = k
  · subst hi
    have hlt := (List.getElem?_eq_some_iff.mp hslot).1
    rw [List.length_set] at hlt
    rw [List.getElem?_set_self hlt] at hslot
    cases hslot
    rw [Function.update_self]
  · rw [List.getElem?_set_ne (Ne.symm hi)] at hslot
    rw [Function.update_of_ne hi]
    exact h.view i slot hslot

/-- A live slot, and what the bytes have there. -/
theorem live (h : p.OnBytes enc q) (hrow : p.getTuple k = some row) :
    q.view k = some ((enc row).bytes, false) := by
  refine h.layout.getTuple_eq_some_iff.mp ?_
  rw [h.getTuple, hrow]
  rfl

/-- A slot without a row shows no live one in its bytes either. -/
theorem not_live (h : p.OnBytes enc q) (hrow : p.getTuple k = none) (bytes : List UInt8) :
    q.view k ≠ some (bytes, false) := by
  intro hview
  have hsome := h.layout.getTuple_eq_some_iff.mpr hview
  rw [h.getTuple, hrow] at hsome
  cases hsome

/-- `MarkDelete` on both pages answers the same and sets one flag. -/
theorem markDelete (h : p.OnBytes enc q) (k : Nat) :
    ∃ q', q.markDelete k = ((p.markDelete k).1, q') ∧ (p.markDelete k).2.OnBytes enc q' ∧
      Heap.TablePage.SameIds q q' ∧ (p.markDelete k).2.nextPageId = p.nextPageId := by
  unfold TablePage.markDelete
  cases hrow : p.getTuple k with
  | none =>
    obtain ⟨heq, -⟩ | ⟨bytes, _, hview, -⟩ := h.layout.markDelete_cases k
    · exact ⟨q, heq, h, .refl q, rfl⟩
    · exact absurd hview (h.not_live hrow bytes)
  | some row =>
    obtain ⟨-, hnone⟩ | ⟨bytes, q', hview, heq, hlayout, hview', hcount, hpointer, hids⟩ :=
      h.layout.markDelete_cases k
    · exact absurd (h.live hrow) (hnone _)
    · obtain rfl : (enc row).bytes = bytes :=
        congrArg Prod.fst (Option.some.inj ((h.live hrow).symm.trans hview))
      refine ⟨q', heq, ⟨hlayout, ?_, hpointer.trans h.pointer, ?_⟩, hids, rfl⟩
      · rw [hcount, h.count, List.length_set]
      · exact fun i slot hslot => h.view_set ⟨row, true⟩ hview' hslot

/-- `UpdateTuple` on both pages: the answer, and the row if it fits. -/
theorem updateTuple (h : p.OnBytes enc q) (row : List V) (k : Nat) :
    ∃ q', q.updateTuple (enc row) k = some ((p.updateTuple (encodedSize enc) row k).1, q') ∧
      (p.updateTuple (encodedSize enc) row k).2.OnBytes enc q' ∧ Heap.TablePage.SameIds q q' ∧
        (p.updateTuple (encodedSize enc) row k).2.nextPageId = p.nextPageId := by
  unfold TablePage.updateTuple
  cases hrow : p.getTuple k with
  | none =>
    obtain ⟨heq, -⟩ | ⟨hk, hlive, -⟩ := h.layout.updateTuple_cases (enc row) k
    · exact ⟨q, heq, h, .refl q, rfl⟩
    · exact absurd (Heap.TablePage.view_eq_live_iff.mpr ⟨hk, hlive, rfl⟩) (h.not_live hrow _)
  | some oldRow =>
    have hview := h.live hrow
    obtain ⟨hk, hlive, hslice⟩ := Heap.TablePage.view_eq_live_iff.mp hview
    -- the old row takes as many bytes as its slot says
    have hlength : q.tupleLength k = encodedSize enc oldRow := by
      rw [encodedSize, Heap.Row.getSerializedSize, ← hslice, Lib.Bytes.length_slice]
    have hdir := h.layout.directory
    have hinside := h.layout.tiles.inside k hk
    rw [h.count, h.pointer] at hdir
    have hdir : 24 + 8 * p.slots.length ≤ p.freeSpacePointer := hdir
    have hspace : p.getFreeSpaceRemaining = p.freeSpacePointer - 24 - 8 * p.slots.length := rfl
    have hend : Heap.TablePage.directoryEnd p.slots.length = 24 + 8 * p.slots.length := rfl
    have hsize : encodedSize enc row = (enc row).bytes.length := rfl
    obtain ⟨heq, hwhy⟩ | ⟨-, -, q', heq, hres, hids⟩ := h.layout.updateTuple_cases (enc row) k
    · have hroom : p.getFreeSpaceRemaining + encodedSize enc oldRow < encodedSize enc row := by
        obtain hnot | hdeleted | hroom := hwhy
        · exact absurd hk hnot
        · rw [hlive] at hdeleted
          cases hdeleted
        · rw [h.count, h.pointer, hlength] at hroom
          omega
      dsimp only
      rw [if_pos hroom]
      exact ⟨q, heq, h, .refl q, rfl⟩
    · have hroom : ¬ p.getFreeSpaceRemaining + encodedSize enc oldRow < encodedSize enc row := by
        have hroom := hres.room
        rw [h.count, h.pointer, hlength] at hroom
        omega
      have hne : (enc row).bytes ≠ [] := by
        intro hnil
        have hheader := (enc row).header
        rw [hnil] at hheader
        exact absurd hheader (by decide)
      have hview' := hres.view h.layout hk
      rw [if_neg hne] at hview'
      dsimp only
      rw [if_neg hroom]
      refine ⟨q', heq, ⟨hres.layout h.layout hk, ?_, ?_, ?_⟩, hids, rfl⟩
      · rw [hres.getTupleCount, h.count, List.length_set]
      · rw [hres.getFreeSpacePointer, h.pointer, hlength]
        rfl
      · exact fun i slot hslot => h.view_set ⟨row, false⟩ hview' hslot

/-- The delete flag is the one of the size. -/
theorem isDeleted (h : p.OnBytes enc q) {i : Nat} {slot : Slot V}
    (hslot : p.slots[i]? = some slot) :
    Heap.TablePage.isDeleted (q.getTupleSize i) = slot.deleted := by
  have hview := h.view i slot hslot
  unfold Heap.TablePage.view at hview
  split at hview
  · exact (Prod.mk.inj (Option.some.inj hview)).2
  · cases hview

/-- The live slots are those of the rows. -/
theorem rows (h : p.OnBytes enc q) (n : Nat) (ids : List PageId) :
    (q.liveSlots 0).map (fun i => ((⟨pageIdOf ids n, i⟩ : Heap.RowId), q.getTuple i)) =
      (p.rows n).map (fun r => (r.1.onPages ids, some (enc r.2).bytes)) := by
  unfold Heap.TablePage.liveSlots TablePage.rows
  rw [Nat.sub_zero, h.count, ← List.zipIdx_map_snd 0 p.slots, List.filter_map, List.map_map,
    List.map_filterMap, ← List.filterMap_eq_map', List.filterMap_filter]
  refine List.filterMap_congr fun s hs => ?_
  have hslot : p.slots[s.2]? = some s.1 := List.mem_zipIdx_iff_getElem?.mp hs
  have hrow : p.getTuple s.2 = if s.1.deleted then none else some s.1.row := by
    unfold TablePage.getTuple
    rw [hslot]
  simp only [Function.comp_apply, h.isDeleted hslot, h.getTuple, hrow]
  cases s.1.deleted with
  | true => rfl
  | false => rfl


end TablePage.OnBytes

/-! ## The free space map -/

namespace FreeSpaceMap

variable {m : FreeSpaceMap} {name : Nat → PageId} {n : Nat}

/-- The pairs of the map, with `name` for the ids of the pages. -/
def records (name : Nat → PageId) (m : FreeSpaceMap) : List (PageId × Nat) :=
  m.pairs.map (Prod.map name id)

/-- The pairs with enough space are the same ones. -/
theorem map_found (m : FreeSpaceMap) (name : Nat → PageId) (need : Nat) :
    (m.pairs.zipIdx.filter (fun pair => decide (need ≤ pair.1.2))).map
        (fun pair => name pair.1.1) =
      ((m.records name).filter (Heap.FreeSpaceMap.enough need)).map Prod.fst := by
  have hfst := List.filter_map (f := Prod.fst) (p := fun pair : Nat × Nat => decide (need ≤ pair.2))
    (l := m.pairs.zipIdx)
  rw [List.zipIdx_map_fst] at hfst
  unfold records
  rw [List.filter_map, List.map_map]
  show _ = List.map _ (m.pairs.filter fun pair => decide (need ≤ pair.2))
  rw [hfst, List.map_map]
  rfl

/-- The cursor of `GetNext` and the walk over the pairs end at the same place. -/
theorem atLast_iff (m : FreeSpaceMap) (name : Nat → PageId) (need : Nat) :
    (m.pairs.zipIdx.filter (fun pair => decide (need ≤ pair.1.2))).getLast?.map
        (fun pair => pair.2 % SIZE_MAX_PAIR) = some ((m.pairs.length - 1) % SIZE_MAX_PAIR) ↔
      (m.records name).any (Heap.FreeSpaceMap.enough need) = true ∧
        Heap.FreeSpaceMap.behind need (m.records name) % Heap.FreeSpaceMapPage.SIZE_MAX_PAIR =
          0 := by
  cases hany : (m.records name).any (Heap.FreeSpaceMap.enough need) with
  | false =>
    have hnone : m.pairs.zipIdx.filter (fun pair => decide (need ≤ pair.1.2)) = [] := by
      have hmap := map_found m name need
      rw [List.filter_eq_nil_iff.mpr (fun record hrecord => List.any_eq_false.mp hany record
        hrecord)] at hmap
      exact List.map_eq_nil_iff.mp hmap
    rw [hnone]
    simp
  | true =>
    obtain ⟨before, record, rest, hsplit, hrecord, hrest, hbehind⟩ :=
      Heap.FreeSpaceMap.exists_last_enough hany
    obtain ⟨before', tail, hpairs, -, htail⟩ := List.map_eq_append_iff.mp hsplit
    obtain ⟨pair, rest', rfl, rfl, rfl⟩ := List.map_eq_cons_iff.mp htail
    have hnone : (rest'.zipIdx (before'.length + 1)).filter
        (fun pair => decide (need ≤ pair.1.2)) = [] := by
      refine List.filter_eq_nil_iff.mpr fun other hother => ?_
      have hmem : other.1 ∈ rest' := by
        rw [← List.zipIdx_map_fst (before'.length + 1) rest']
        exact List.mem_map_of_mem hother
      exact Bool.eq_false_iff.mp (hrest _ (List.mem_map_of_mem hmem))
    have hlast : m.pairs.zipIdx.filter (fun pair => decide (need ≤ pair.1.2)) =
        before'.zipIdx.filter (fun pair => decide (need ≤ pair.1.2)) ++
          [(pair, before'.length)] := by
      have henough : decide (need ≤ pair.2) = true := hrecord
      rw [hpairs, List.zipIdx_append, List.filter_append, List.zipIdx_cons, Nat.zero_add,
        List.filter_cons, if_pos henough, hnone]
    have hlength : m.pairs.length = before'.length + 1 + rest'.length := by
      rw [hpairs, List.length_append, List.length_cons]
      omega
    rw [hlast, List.getLast?_concat, hbehind, hlength, List.length_map]
    simp only [Option.map_some, Option.some.injEq, true_and]
    show before'.length % 510 = (before'.length + 1 + rest'.length - 1) % 510 ↔
      rest'.length % 510 = 0
    omega

/-- Both maps propose the same pages. -/
theorem map_candidates (name : Nat → PageId) (need : Nat)
    (hlast : m.lastPageId = m.pairs.getLast?.map Prod.fst) :
    (m.candidates need).map name = Heap.FreeSpaceMap.proposals (m.records name) need := by
  unfold candidates Heap.FreeSpaceMap.proposals
  dsimp only
  rw [List.map_append, List.map_map]
  refine congrArg₂ List.append (map_found m name need) ?_
  by_cases hat : (m.records name).any (Heap.FreeSpaceMap.enough need) = true ∧
      Heap.FreeSpaceMap.behind need (m.records name) % Heap.FreeSpaceMapPage.SIZE_MAX_PAIR = 0
  · rw [if_pos ((atLast_iff m name need).mpr hat), if_pos hat, List.map_nil]
  · rw [if_neg (fun hthere => hat ((atLast_iff m name need).mp hthere)), if_neg hat, hlast]
    unfold records
    rw [List.getLast?_map]
    cases m.pairs.getLast? with
    | none => rfl
    | some pair => rfl

/-- The first pair of a page is the only one. -/
theorem setFreeSpace_pairs (hnodup : (m.pairs.map Prod.fst).Nodup) (n freeSpace : Nat) :
    (m.setFreeSpace n freeSpace).pairs =
      m.pairs.map (fun pair => if pair.1 = n then (n, freeSpace) else pair) := by
  unfold setFreeSpace
  dsimp only
  generalize m.pairs = pairs at hnodup ⊢
  induction pairs with
  | nil => rfl
  | cons pair pairs ih =>
    rw [List.map_cons, List.nodup_cons] at hnodup
    rw [List.findIdx_cons, List.map_cons]
    by_cases hpair : pair.1 = n
    · subst hpair
      rw [if_pos rfl, BEq.rfl, cond_true, List.modify_zero_cons]
      have hrest : pairs.map
          (fun other => if other.1 = pair.1 then (pair.1, freeSpace) else other) = pairs := by
        refine (List.map_congr_left fun other hother => if_neg fun heq => ?_).trans (List.map_id _)
        have hmem : other.1 ∈ pairs.map Prod.fst := List.mem_map_of_mem hother
        exact hnodup.1 (heq ▸ hmem)
      rw [hrest]
    · rw [if_neg hpair, beq_eq_false_iff_ne.mpr hpair, cond_false, List.modify_succ_cons,
        ih hnodup.2]

/-- Setting free space changes no page of the map. -/
theorem setFreeSpace_fst (hnodup : (m.pairs.map Prod.fst).Nodup) (n freeSpace : Nat) :
    (m.setFreeSpace n freeSpace).pairs.map Prod.fst = m.pairs.map Prod.fst := by
  rw [setFreeSpace_pairs hnodup, List.map_map]
  refine List.map_congr_left fun pair _ => ?_
  by_cases hpair : pair.1 = n
  · simp [hpair]
  · simp [hpair]

/-- The record of one page is written. -/
theorem records_setFreeSpace (hnodup : (m.pairs.map Prod.fst).Nodup)
    (hname : ∀ k ∈ m.pairs.map Prod.fst, name k = name n → k = n) (freeSpace : Nat) :
    (m.setFreeSpace n freeSpace).records name =
      Heap.FreeSpaceMap.setRecord (m.records name) (name n) freeSpace := by
  unfold records Heap.FreeSpaceMap.setRecord
  rw [setFreeSpace_pairs hnodup, List.map_map, List.map_map]
  refine List.map_congr_left fun pair hpair => ?_
  have hmem : pair.1 ∈ m.pairs.map Prod.fst := List.mem_map_of_mem hpair
  by_cases hn : pair.1 = n
  · subst hn
    simp
  · have hne : name pair.1 ≠ name n := fun heq => hn (hname _ hmem heq)
    simp [hn, hne]

end FreeSpaceMap

end DisMiniSql.MiniSql
