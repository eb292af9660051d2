import Mathlib.Data.List.Nodup
import DisMiniSql.MiniSql.Page.IndexRootsPage

/-!
# `DisMiniSql.Proofs.Page.IndexRootsSlots`: `IndexRootsPage` and the map of the roots

`Distinct` is the invariant: no index has two entries. With it `FindIndex` splits the entries at
the only one of the index, and each call does to the entries what it does to the map. Nothing but
the capacity can go wrong: `Insert` never looks at `MAX_INDEX_COUNT`, and from there on it writes
behind the page. `refines_map_iff` says that a run is one of the map, within the page, exactly when
every `Insert` of an absent id comes while a slot is free.
-/

set_option autoImplicit false

namespace DisMiniSql.MiniSql.IndexRootsPage.Slots

open Lib (Guarded)

variable {r : Slots} {indexId : IndexId} {i : Nat}

/-- No index has two entries. -/
def Distinct (r : Slots) : Prop := (r.entries.map Prod.fst).Nodup

/-! ### `FindIndex` -/

/-- A fresh roots page lists nothing, whatever its memory holds. -/
@[simp] theorem entries_init (roots : Nat → IndexId × PageId) : (init roots).entries = [] := rfl

@[simp] theorem map_init (roots : Nat → IndexId × PageId) : (init roots).map = fun _ => none := rfl

/-- And no index stands in it twice. -/
theorem distinct_init (roots : Nat → IndexId × PageId) : (init roots).Distinct := by
  simp [Distinct]

/-- An absent index has no entry. -/
theorem map_eq_none (h : r.findIndex indexId = none) : r.map indexId = none := by
  show r.entries.lookup indexId = none
  rw [List.lookup_eq_none_iff]
  intro e he
  obtain ⟨j, hj, rfl⟩ := Lib.mem_slots.mp he
  have hne : ¬(r.roots j).1 = indexId := by simpa using List.find?_range_eq_none.mp h j hj
  simpa using fun heq => hne heq.symm

/-- The slot of an index splits the entries. -/
theorem entries_split (h : r.findIndex indexId = some i) :
    ∃ front back, r.entries = front ++ (indexId, (r.roots i).2) :: back ∧ front.length = i := by
  obtain ⟨hid, hi, -⟩ := List.find?_range_eq_some.mp h
  have hlt : i < r.count := List.mem_range.mp hi
  have hentry : r.roots i = (indexId, (r.roots i).2) := Prod.ext (by simpa using hid) rfl
  refine ⟨r.entries.take i, r.entries.drop (i + 1), ?_, ?_⟩
  · rw [← hentry]
    exact Lib.slots_split r.roots hlt
  · simp [entries, Nat.le_of_lt hlt]

variable {front back : List (IndexId × PageId)} {e : IndexId × PageId}

/-- The entries but one have different indexes, and not that of the one. -/
theorem Distinct.split (h : r.Distinct) (hsplit : r.entries = front ++ e :: back) :
    e.1 ∉ (front ++ back).map Prod.fst ∧ ((front ++ back).map Prod.fst).Nodup := by
  have hkeys : r.entries.map Prod.fst = front.map Prod.fst ++ e.1 :: back.map Prod.fst := by
    simp [hsplit]
  rw [Distinct, hkeys, List.nodup_middle, List.nodup_cons, ← List.map_append] at h
  exact h

/-- An index that no entry has is not found. -/
theorem lookup_eq_none {l : List (IndexId × PageId)} (h : indexId ∉ l.map Prod.fst) :
    l.lookup indexId = none := by
  rw [List.lookup_eq_none_iff]
  intro e he
  have hne : indexId ≠ e.1 := fun heq => h (heq ▸ List.mem_map_of_mem he)
  simpa using hne

/-- No entry in front of or behind the one of an index is of the index. -/
theorem Distinct.lookup_eq_none {rootId : PageId} (h : r.Distinct)
    (hsplit : r.entries = front ++ (indexId, rootId) :: back) :
    front.lookup indexId = none ∧ back.lookup indexId = none := by
  obtain ⟨hnot, -⟩ := h.split hsplit
  rw [List.map_append, List.mem_append, not_or] at hnot
  exact ⟨Slots.lookup_eq_none hnot.1, Slots.lookup_eq_none hnot.2⟩

/-- The slot `FindIndex` returns holds the root of the index. -/
theorem map_of_findIndex (h : r.Distinct) (hfind : r.findIndex indexId = some i) :
    r.map indexId = some (r.roots i).2 := by
  obtain ⟨front, back, hsplit, -⟩ := entries_split hfind
  show r.entries.lookup indexId = _
  simp [hsplit, List.lookup_append, (h.lookup_eq_none hsplit).1]

/-! ### The calls on the entries -/

/-- `Insert` of an absent index adds its entry behind the others. -/
theorem entries_push (rootId : PageId) :
    (r.push (indexId, rootId)).entries = r.entries ++ [(indexId, rootId)] := by
  show Lib.slots (Lib.setSlot r.roots r.count _) (r.count + 1) = _
  rw [Lib.slots_succ, Lib.slots_setSlot_of_le _ (Nat.le_refl _)]
  simp [entries, Lib.setSlot]

/-- `Delete` closes the gap of the entry. -/
theorem entries_close (hsplit : r.entries = front ++ e :: back) :
    (r.close front.length).entries = front ++ back :=
  Lib.slots_erase hsplit

/-- `Update` changes the root of the entry. -/
theorem entries_setRoot (hsplit : r.entries = front ++ e :: back) (rootId : PageId) :
    (r.setRoot front.length rootId).entries = front ++ (e.1, rootId) :: back := by
  rw [setRoot, Lib.slots_mid hsplit]
  exact Lib.slots_setSlot hsplit _

/-- A lookup in the entries with another one in the middle. -/
theorem lookup_middle (front back : List (IndexId × PageId)) (rootId : PageId) (other : IndexId)
    (hfront : front.lookup indexId = none) :
    (front ++ (indexId, rootId) :: back).lookup other =
      if other = indexId then some rootId else (front ++ back).lookup other := by
  by_cases h : other = indexId
  · simp [h, List.lookup_append, hfront]
  · have hbeq : (other == indexId) = false := by simpa using h
    simp [h, hbeq, List.lookup_append, List.lookup_cons]

/-! ### The calls on the map -/

/-- An entry behind the last one adds its index to the map. -/
theorem map_push (h : r.findIndex indexId = none) (rootId : PageId) :
    (r.push (indexId, rootId)).map =
      Function.update r.map indexId (some rootId) := by
  funext other
  have habsent : r.entries.lookup indexId = none := map_eq_none h
  show List.lookup other (entries _) = _
  rw [entries_push, lookup_middle r.entries [] rootId other habsent, List.append_nil,
    Function.update_apply]
  rfl

/-- Moving the later entries down by one removes the index and keeps the others. -/
theorem map_close (h : r.Distinct) (hfind : r.findIndex indexId = some i) :
    (r.close i).map =
      Function.update r.map indexId none := by
  obtain ⟨front, back, hsplit, rfl⟩ := entries_split hfind
  obtain ⟨hfront, hback⟩ := h.lookup_eq_none hsplit
  funext other
  show List.lookup other (entries _) = _
  rw [entries_close hsplit, Function.update_apply]
  by_cases heq : other = indexId
  · simp [heq, List.lookup_append, hfront, hback]
  · rw [if_neg heq]
    show _ = r.entries.lookup other
    rw [hsplit, lookup_middle front back _ other hfront, if_neg heq]

/-- Overwriting the root in a slot changes the value of its index. -/
theorem map_setRoot (h : r.Distinct) (hfind : r.findIndex indexId = some i) (rootId : PageId) :
    (r.setRoot i rootId).map =
      Function.update r.map indexId (some rootId) := by
  obtain ⟨front, back, hsplit, rfl⟩ := entries_split hfind
  obtain ⟨hfront, -⟩ := h.lookup_eq_none hsplit
  funext other
  show List.lookup other (entries _) = _
  rw [entries_setRoot hsplit, lookup_middle front back _ other hfront, Function.update_apply]
  by_cases heq : other = indexId
  · simp [heq]
  · rw [if_neg heq, if_neg heq]
    show _ = r.entries.lookup other
    rw [hsplit, lookup_middle front back _ other hfront, if_neg heq]

/-! ### The invariant of a run -/

/-- The states that calls within the capacity reach. -/
structure Valid (r : Slots) : Prop where
  distinct : r.Distinct
  count : r.count ≤ MAX_INDEX_COUNT

/-- The fresh page starts the induction. -/
theorem valid_init (roots : Nat → IndexId × PageId) : (init roots).Valid :=
  ⟨distinct_init roots, Nat.zero_le _⟩

/-- A found slot lies below the count. -/
theorem count_lt (h : r.findIndex indexId = some i) : i < r.count := by
  obtain ⟨-, hi, -⟩ := List.find?_range_eq_some.mp h
  exact List.mem_range.mp hi

/-- A call that makes of the page another one of the states, as the map does. -/
theorem keepsMap_of_call {c : Call} {t : Slots} (hcall : r.call c = ((r.map.call c).1, t))
    (hmap : t.map = (r.map.call c).2) (h : t.Valid)
    (hout : ∀ i, MAX_INDEX_COUNT ≤ i → t.roots i = r.roots i) :
    KeepsMap r c ∧ (r.step c).Valid := by
  have hstep : r.step c = t := by simp [step, hcall]
  constructor
  · constructor
    · rw [hcall]
    · rw [hstep, hmap]
    · rw [hstep]
      exact h.count
    · rwa [hstep]
  · rwa [hstep]

/-- A call that leaves the page and the map alone. -/
theorem Valid.unchanged {c : Call} (h : r.Valid) (hcall : r.call c = ((r.map.call c).1, r))
    (hmap : r.map = (r.map.call c).2) : KeepsMap r c ∧ (r.step c).Valid :=
  keepsMap_of_call hcall hmap h fun _ _ => rfl

/-- `Insert` within the capacity. -/
theorem Valid.insert (h : r.Valid) {rootId : PageId} (hroom : HasRoom r (.insert indexId rootId)) :
    KeepsMap r (.insert indexId rootId) ∧ (r.step (.insert indexId rootId)).Valid := by
  cases hfind : r.findIndex indexId with
  | some i =>
    have hmap := map_of_findIndex h.distinct hfind
    apply h.unchanged <;> simp [call, Slots.insert, RootMap.call, hfind, hmap]
  | none =>
    have hlt : r.count < MAX_INDEX_COUNT := hroom hfind
    have habsent := map_eq_none hfind
    apply keepsMap_of_call (t := r.push (indexId, rootId))
    · simp [call, Slots.insert, RootMap.call, hfind, habsent]
    · simp [RootMap.call, habsent, map_push hfind]
    · refine ⟨?_, hlt⟩
      have hnot : indexId ∉ r.entries.map Prod.fst := by
        intro hmem
        obtain ⟨e, he, rfl⟩ := List.mem_map.mp hmem
        simpa using List.lookup_eq_none_iff.mp habsent e he
      rw [Distinct, entries_push, List.map_append, List.nodup_append_comm]
      exact List.nodup_cons.mpr ⟨hnot, h.distinct⟩
    · intro i hi
      have hne : i ≠ r.count := by omega
      simp [push, Lib.setSlot, hne]

/-- `Delete`. -/
theorem Valid.delete (h : r.Valid) :
    KeepsMap r (.delete indexId) ∧ (r.step (.delete indexId)).Valid := by
  cases hfind : r.findIndex indexId with
  | none =>
    have hmap := map_eq_none hfind
    apply h.unchanged <;> simp [call, Slots.delete, RootMap.call, hfind, hmap]
  | some i =>
    have hlt := count_lt hfind
    have hcount := h.count
    have hmap := map_of_findIndex h.distinct hfind
    apply keepsMap_of_call (t := r.close i)
    · simp [call, Slots.delete, RootMap.call, hfind, hmap]
    · simp [RootMap.call, hmap, map_close h.distinct hfind]
    · obtain ⟨front, back, hsplit, rfl⟩ := entries_split hfind
      refine ⟨?_, Nat.le_trans (Nat.sub_le _ _) hcount⟩
      rw [Distinct, entries_close hsplit]
      exact (h.distinct.split hsplit).2
    · intro j hj
      -- the loop ends before the last entry
      show Lib.shiftDown r.roots i _ j = _
      rw [Lib.shiftDown_apply, if_neg (by omega)]

/-- `Update`. -/
theorem Valid.update (h : r.Valid) {rootId : PageId} :
    KeepsMap r (.update indexId rootId) ∧ (r.step (.update indexId rootId)).Valid := by
  cases hfind : r.findIndex indexId with
  | none =>
    have hmap := map_eq_none hfind
    apply h.unchanged <;> simp [call, Slots.update, RootMap.call, hfind, hmap]
  | some i =>
    have hlt := count_lt hfind
    have hcount := h.count
    have hmap := map_of_findIndex h.distinct hfind
    apply keepsMap_of_call (t := r.setRoot i rootId)
    · simp [call, Slots.update, RootMap.call, hfind, hmap]
    · simp [RootMap.call, hmap, map_setRoot h.distinct hfind]
    · obtain ⟨front, back, hsplit, rfl⟩ := entries_split hfind
      refine ⟨?_, hcount⟩
      have hkeys : (front ++ (indexId, rootId) :: back).map Prod.fst = r.entries.map Prod.fst := by
        simp [hsplit]
      rw [Distinct, entries_setRoot hsplit, hkeys]
      exact h.distinct
    · intro j hj
      have hne : j ≠ i := by omega
      simp [setRoot, Lib.setSlot, hne]

/-- `GetRootId`. -/
theorem Valid.getRootId (h : r.Valid) :
    KeepsMap r (.getRootId indexId) ∧ (r.step (.getRootId indexId)).Valid := by
  refine h.unchanged ?_ rfl
  cases hfind : r.findIndex indexId with
  | none => simp [call, Slots.getRootId, RootMap.call, hfind, map_eq_none hfind]
  | some i => simp [call, Slots.getRootId, RootMap.call, hfind, map_of_findIndex h.distinct hfind]

/-- A call within the capacity does to the page what it does to the map. -/
theorem Valid.call {c : Call} (h : r.Valid) (hroom : HasRoom r c) :
    KeepsMap r c ∧ (r.step c).Valid := by
  cases c with
  | insert indexId rootId => exact h.insert hroom
  | delete indexId => exact h.delete
  | update indexId rootId => exact h.update
  | getRootId indexId => exact h.getRootId

/-- A call beyond the capacity counts more entries than fit. -/
theorem hasRoom_of_keepsMap {c : Call} (h : KeepsMap r c) : HasRoom r c := by
  cases c with
  | insert indexId rootId =>
    intro hfind
    have hcount := h.count
    simp only [step, Slots.call, Slots.insert, hfind] at hcount
    exact hcount
  | delete indexId => trivial
  | update indexId rootId => trivial
  | getRootId indexId => trivial

/-- Along the calls the page is the map exactly as long as every insert finds a free slot. -/
theorem Valid.keepsMap_iff_hasRoom (h : r.Valid) (calls : List Call) :
    Guarded KeepsMap step r calls ↔ Guarded HasRoom step r calls :=
  Guarded.iff_guarded_of (fun _ _ hr hroom => hr.call hroom)
    (fun _ _ _ hkeeps => hasRoom_of_keepsMap hkeeps) calls r h

/-- For every sequence of calls with any ids, whatever the memory of the page holds before `Init`:
the map of the page is empty at first, and every call is one of the map and stays within the page,
exactly if every `Insert` of an absent id comes while less than `MAX_INDEX_COUNT` entries are
there. -/
theorem refines_map_iff (roots : Nat → IndexId × PageId) (calls : List Call) :
    (init roots).map = (fun _ => none) ∧
      (Guarded KeepsMap step (init roots) calls ↔ Guarded HasRoom step (init roots) calls) :=
  ⟨map_init roots, (valid_init roots).keepsMap_iff_hasRoom calls⟩

/-! ### One index too many -/

/-- `n` calls that insert different ids. -/
def inserts (n : Nat) : List Call := (List.range n).map fun i => .insert i i

/-- They fill the first `n` slots, without a look at `MAX_INDEX_COUNT`. -/
theorem foldl_inserts (roots : Nat → IndexId × PageId) (n : Nat) :
    ((inserts n).foldl step (init roots)).count = n ∧
      ∀ i, i < n → (((inserts n).foldl step (init roots)).roots i).1 = i := by
  induction n with
  | zero => exact ⟨rfl, fun i hi => absurd hi (Nat.not_lt_zero i)⟩
  | succ n ih =>
    have hinserts : inserts (n + 1) = inserts n ++ [.insert n n] := by
      simp [inserts, List.range_succ]
    rw [hinserts, List.foldl_append]
    generalize (inserts n).foldl step (init roots) = r at ih
    obtain ⟨hcount, hroots⟩ := ih
    have hfind : r.findIndex n = none := by
      rw [findIndex, List.find?_range_eq_none]
      intro i hi
      have hne : i ≠ n := by omega
      simp [hroots i (by omega), hne]
    simp only [List.foldl_cons, List.foldl_nil, step, Slots.call, Slots.insert, hfind, push]
    refine ⟨by simp [hcount], fun i hi => ?_⟩
    show (Lib.setSlot r.roots r.count (n, (n : PageId)) i).1 = i
    rw [Lib.setSlot, hcount]
    by_cases heq : i = n
    · simp [heq]
    · simp [heq, hroots i (by omega)]

/-- 512 different indexes: the last `Insert` succeeds and writes behind the page. -/
theorem insert_overflows : ¬ Guarded KeepsMap step (init fun _ => (0, 0)) (inserts 512) := by
  rw [(valid_init _).keepsMap_iff_hasRoom]
  have hinserts : inserts 512 = inserts 511 ++ [.insert 511 511] := by
    simp [inserts, List.range_succ (n := 511)]
  rw [hinserts, Guarded.append]
  intro h
  obtain ⟨hcount, hroots⟩ := foldl_inserts (fun _ => (0, 0)) 511
  have hlt := h.2.1
  generalize (inserts 511).foldl step (init fun _ => (0, 0)) = r at hcount hroots hlt
  have hfind : r.findIndex 511 = none := by
    rw [findIndex, List.find?_range_eq_none]
    intro i hi
    have hne : i ≠ 511 := by omega
    simp [hroots i (by omega), hne]
  have hroom : r.count < MAX_INDEX_COUNT := hlt hfind
  rw [hcount] at hroom
  exact absurd hroom (by decide)

/-! ### The page as a list of entries -/

/-- The search on the slots is the search on the bytes of the page. -/
theorem findIndex_toPage (r : Slots) (indexId : IndexId) :
    r.toPage.findIndex indexId = r.findIndex indexId := by
  show (Lib.slots r.roots r.count).findIdx? _ = _
  rw [Lib.slots, List.findIdx?_map]
  cases hfind : r.findIndex indexId with
  | none =>
    rw [List.findIdx?_eq_none_iff]
    intro i hi
    simpa using List.find?_range_eq_none.mp hfind i (List.mem_range.mp hi)
  | some i =>
    obtain ⟨hid, hi, hbefore⟩ := List.find?_range_eq_some.mp hfind
    rw [List.findIdx?_eq_some_iff_getElem]
    refine ⟨by simpa using hi, by simpa using hid, fun j hj => ?_⟩
    simpa using hbefore j hj

/-- `Insert` on the slots is `insert` on the list of the entries. -/
theorem toPage_insert (r : Slots) (indexId : IndexId) (rootId : PageId) :
    (r.insert indexId rootId).map id toPage = r.toPage.insert indexId rootId := by
  rw [Slots.insert, IndexRootsPage.insert, findIndex_toPage]
  cases r.findIndex indexId with
  | some i => rfl
  | none =>
    have hentries : (r.push (indexId, rootId)).entries = r.entries ++ [(indexId, rootId)] :=
      entries_push rootId
    simp [toPage, hentries]

/-- `Update` on the slots is `update` on the list of the entries. -/
theorem toPage_update (r : Slots) (indexId : IndexId) (rootId : PageId) :
    (r.update indexId rootId).map id toPage = r.toPage.update indexId rootId := by
  rw [Slots.update, IndexRootsPage.update, findIndex_toPage]
  cases hfind : r.findIndex indexId with
  | none => rfl
  | some i =>
    obtain ⟨front, back, hsplit, rfl⟩ := entries_split hfind
    have hentries := entries_setRoot hsplit rootId
    simp [toPage, hentries, hsplit]

/-- `GetRootId` on the slots is `getRootId` on the list of the entries. -/
theorem getRootId_toPage (r : Slots) (indexId : IndexId) :
    r.toPage.getRootId indexId = r.getRootId indexId := by
  rw [IndexRootsPage.getRootId, findIndex_toPage, Slots.getRootId]
  cases hfind : r.findIndex indexId with
  | none => rfl
  | some i =>
    obtain ⟨front, back, hsplit, rfl⟩ := entries_split hfind
    simp [toPage, hsplit]

end DisMiniSql.MiniSql.IndexRootsPage.Slots
