import DisMiniSql.MiniSql.Page.BPlusTreeLeafPage

/-!
# `DisMiniSql.Proofs.Page.LeafPage`: what the methods of a leaf page do to its records

The records of a leaf page are the list `LeafPage.pairs`. The binary searches need its keys to
increase strictly (`LeafPage.Sorted`).

* `keyIndex_spec`: `KeyIndex` is the number of keys below the given one.
* `lookup_eq_some_iff`: `Lookup` finds exactly the records of the page.
* `insert_pairs`, `remove_pairs`: the page after `Insert` and `RemoveAndDeleteRecord`.
* the `move*_pairs` theorems: which records the methods that move them leave where.
-/

set_option autoImplicit false

namespace DisMiniSql.MiniSql.LeafPage

open DisMiniSql.Lib

variable {κ ν : Type}

/-- The keys of the page increase strictly. -/
def Sorted [LinearOrder κ] (p : LeafPage κ ν) : Prop :=
  (p.pairs.map Prod.fst).Pairwise (· < ·)

/-- The list of pairs is as long as the page says. -/
@[simp] theorem length_pairs (p : LeafPage κ ν) : p.pairs.length = p.size :=
  length_slots _ _

/-- A pair of the list stands in a slot below the size. -/
theorem mem_pairs {p : LeafPage κ ν} {e : κ × ν} :
    e ∈ p.pairs ↔ ∃ i, i < p.size ∧ p.data i = e :=
  mem_slots

/-- The key in slot 0 is that of the first record. -/
theorem keyAt_zero {p : LeafPage κ ν} {e : κ × ν} {r : List (κ × ν)}
    (h : p.pairs = e :: r) : p.keyAt 0 = e.1 := by
  have hd : p.data 0 = e := slots_mid (l := []) h
  rw [keyAt, hd]

section Search
variable [LinearOrder κ]

variable {p : LeafPage κ ν}

/-- In a sorted leaf later slots hold larger keys. -/
theorem Sorted.keyAt_lt (h : p.Sorted) {i j : Nat} (hij : i < j) (hj : j < p.size) :
    p.keyAt i < p.keyAt j := by
  have hp := List.pairwise_iff_getElem.mp h i j
    (by simpa using Nat.lt_trans hij hj) (by simpa using hj) hij
  simpa [pairs, keyAt] using hp

/-- The loop of `KeyIndex` closes in on the number of keys below the given one. -/
theorem keyIndexLoop_spec (hs : p.Sorted) (key : κ) :
    ∀ (fuel left right : Nat), right - left ≤ fuel → left ≤ right → right ≤ p.size →
      (∀ j, j < left → p.keyAt j < key) →
      (∀ j, right ≤ j → j < p.size → key ≤ p.keyAt j) →
      p.keyIndexLoop key fuel left right ≤ p.size ∧
        (∀ j, j < p.keyIndexLoop key fuel left right → p.keyAt j < key) ∧
        ∀ j, p.keyIndexLoop key fuel left right ≤ j → j < p.size → key ≤ p.keyAt j := by
  intro fuel
  induction fuel with
  | zero =>
    intro left right hfuel hle hsize hlo hhi
    have heq : left = right := by omega
    exact ⟨hsize, heq ▸ hlo, hhi⟩
  | succ fuel ih =>
    intro left right hfuel hle hsize hlo hhi
    rw [keyIndexLoop]
    by_cases hlt : left < right
    · rw [if_pos hlt]
      by_cases hmid : p.keyAt ((left + right) / 2) < key
      · rw [if_pos hmid]
        refine ih _ _ (by omega) (by omega) hsize ?_ hhi
        intro j hj
        rcases Nat.lt_or_eq_of_le (show j ≤ (left + right) / 2 by omega) with hj | rfl
        · exact lt_trans (hs.keyAt_lt hj (by omega)) hmid
        · exact hmid
      · rw [if_neg hmid]
        refine ih _ _ (by omega) (by omega) (by omega) hlo ?_
        intro j hj hjs
        rcases Nat.lt_or_eq_of_le hj with hj | rfl
        · exact le_of_lt (lt_of_le_of_lt (not_lt.mp hmid) (hs.keyAt_lt hj hjs))
        · exact not_lt.mp hmid
    · rw [if_neg hlt]
      have heq : left = right := by omega
      exact ⟨hsize, heq ▸ hlo, hhi⟩

/-- `KeyIndex` is the number of keys below the given one. -/
theorem keyIndex_spec (hs : p.Sorted) (key : κ) :
    p.keyIndex key ≤ p.size ∧ (∀ j, j < p.keyIndex key → p.keyAt j < key) ∧
      ∀ j, p.keyIndex key ≤ j → j < p.size → key ≤ p.keyAt j :=
  keyIndexLoop_spec hs key p.size 0 p.size (by omega) (by omega) (Nat.le_refl _)
    (fun j hj => absurd hj (Nat.not_lt_zero j)) (fun j hj hj' => absurd hj (by omega))

/-- `KeyIndex` splits the records. -/
theorem exists_keyIndex_split (hs : p.Sorted) (key : κ) :
    ∃ l r, p.pairs = l ++ r ∧ l.length = p.keyIndex key ∧ (∀ e ∈ l, e.1 < key) ∧
      ∀ e ∈ r, key ≤ e.1 := by
  obtain ⟨hle, hlo, hhi⟩ := keyIndex_spec hs key
  refine ⟨p.pairs.take (p.keyIndex key), p.pairs.drop (p.keyIndex key),
    (List.take_append_drop _ _).symm, by simp [Nat.min_eq_left hle], ?_, ?_⟩
  · intro e he
    obtain ⟨i, hi, rfl⟩ := List.mem_iff_getElem.mp he
    rw [List.length_take, length_pairs] at hi
    simpa [pairs, keyAt] using hlo i (by omega)
  · intro e he
    obtain ⟨i, hi, rfl⟩ := List.mem_iff_getElem.mp he
    rw [List.length_drop, length_pairs] at hi
    simpa [pairs, keyAt] using hhi (p.keyIndex key + i) (by omega) (by omega)

/-- The loop of `Lookup` finds the key when it is between its bounds. -/
theorem lookupLoop_spec (hs : p.Sorted) (key : κ) :
    ∀ (fuel : Nat) (left right : Int), right - left < fuel → 0 ≤ left → right < p.size →
      (∀ j : Nat, j < p.size → p.keyAt j = key → left ≤ j ∧ (j : Int) ≤ right) →
      ∀ v, p.lookupLoop key fuel left right = some v ↔ (key, v) ∈ p.pairs := by
  intro fuel
  induction fuel with
  | zero =>
    intro left right hfuel hl hr hin v
    simp only [lookupLoop, reduceCtorEq, false_iff]
    intro hmem
    obtain ⟨j, hj, hd⟩ := mem_pairs.mp hmem
    have hb := hin j hj (by rw [keyAt, hd])
    omega
  | succ fuel ih =>
    intro left right hfuel hl hr hin v
    rw [lookupLoop]
    by_cases hle : left ≤ right
    · rw [if_pos hle]
      obtain ⟨mid, hmid⟩ : ∃ mid : Nat, mid = ((left + right) / 2).toNat := ⟨_, rfl⟩
      have hmid' : (mid : Int) = (left + right) / 2 := by omega
      have hmlt : mid < p.size := by omega
      rw [← hmid]
      by_cases heq : p.keyAt mid = key
      · rw [if_pos heq]
        have hmem : (key, p.valueAt mid) ∈ p.pairs := mem_pairs.mpr ⟨mid, hmlt, by rw [← heq]; rfl⟩
        constructor
        · rintro ⟨rfl⟩
          exact hmem
        · intro hv
          obtain ⟨j, hj, hd⟩ := mem_pairs.mp hv
          have hkj : p.keyAt j = key := by rw [keyAt, hd]
          -- The keys increase strictly, so the slot with this key is the one found.
          rcases Nat.lt_trichotomy j mid with hlt | rfl | hlt
          · exact absurd (hs.keyAt_lt hlt hmlt) (by rw [hkj, heq]; exact lt_irrefl _)
          · rw [valueAt, hd]
          · exact absurd (hs.keyAt_lt hlt hj) (by rw [hkj, heq]; exact lt_irrefl _)
      · rw [if_neg heq]
        by_cases hlt : p.keyAt mid < key
        · rw [if_pos hlt]
          refine ih _ _ (by omega) (by omega) hr ?_ v
          intro j hj hk
          refine ⟨?_, (hin j hj hk).2⟩
          rcases Nat.lt_or_ge mid j with hmj | hmj
          · omega
          · rcases Nat.lt_or_eq_of_le hmj with hjm | rfl
            · exact absurd (lt_trans (hs.keyAt_lt hjm hmlt) hlt) (by rw [hk]; exact lt_irrefl _)
            · exact absurd hk heq
        · rw [if_neg hlt]
          refine ih _ _ (by omega) hl (by omega) ?_ v
          intro j hj hk
          refine ⟨(hin j hj hk).1, ?_⟩
          rcases Nat.lt_or_ge j mid with hmj | hmj
          · omega
          · rcases Nat.lt_or_eq_of_le hmj with hjm | rfl
            · exact absurd (hs.keyAt_lt hjm hj) (by rw [hk]; exact hlt)
            · exact absurd hk heq
    · rw [if_neg hle]
      simp only [reduceCtorEq, false_iff]
      intro hmem
      obtain ⟨j, hj, hd⟩ := mem_pairs.mp hmem
      have hb := hin j hj (by rw [keyAt, hd])
      omega

/-- `Lookup` finds exactly the records of the page. -/
theorem lookup_eq_some_iff (hs : p.Sorted) (key : κ) (v : ν) :
    p.lookup key = some v ↔ (key, v) ∈ p.pairs :=
  lookupLoop_spec hs key p.size 0 (p.size - 1) (by omega) (by omega) (by omega)
    (fun j hj _ => by omega) v

/-- `Lookup` fails exactly on the keys that are not in the page. -/
theorem lookup_isSome_iff (hs : p.Sorted) (key : κ) :
    (p.lookup key).isSome ↔ key ∈ p.pairs.map Prod.fst := by
  rw [Option.isSome_iff_exists]
  simp only [lookup_eq_some_iff hs, List.mem_map, Prod.exists, exists_and_right, exists_eq_right]

/-- The page after `Insert`. -/
theorem insert_pairs (hs : p.Sorted) (key : κ) (value : ν) :
    ∃ l r, p.pairs = l ++ r ∧ (∀ e ∈ l, e.1 < key) ∧ (∀ e ∈ r, key ≤ e.1) ∧
      (p.insert key value).pairs = l ++ (key, value) :: r := by
  obtain ⟨l, r, hsplit, hlen, hlo, hhi⟩ := exists_keyIndex_split hs key
  refine ⟨l, r, hsplit, hlo, hhi, ?_⟩
  show slots (setSlot (shiftUp p.data (p.keyIndex key) p.size) (p.keyIndex key) (key, value))
    (p.size + 1) = _
  rw [← hlen]
  exact slots_insert hsplit _

/-- The page after `RemoveAndDeleteRecord`: the record of the key is gone, and the last record
leaves its key in slot 0. -/
theorem remove_pairs (hs : p.Sorted) (key : κ) :
    (key ∉ p.pairs.map Prod.fst ∧ p.removeAndDeleteRecord key = p) ∨
    ∃ l v r data, p.pairs = l ++ (key, v) :: r ∧
      p.removeAndDeleteRecord key = { p with data := data, size := p.size - 1 } ∧
      slots data (p.size - 1) = l ++ r ∧ (l ++ r = [] → (data 0).1 = key) := by
  obtain ⟨l, r, hsplit, hlen, hlo, hhi⟩ := exists_keyIndex_split hs key
  unfold removeAndDeleteRecord
  by_cases hfound : p.keyIndex key < p.size ∧ p.keyAt (p.keyIndex key) = key
  · right
    obtain ⟨hlt, hkey⟩ := hfound
    cases r with
    | nil =>
      have := congrArg List.length hsplit
      simp at this
      omega
    | cons e r =>
      have hd : p.data l.length = e := slots_mid hsplit
      have he : e = (key, e.2) := by rw [← hkey, ← hlen, keyAt, hd]
      refine ⟨l, e.2, r, shiftDown p.data (p.keyIndex key) (p.size - 1 - p.keyIndex key),
        he ▸ hsplit, if_pos ⟨hlt, hkey⟩, ?_, ?_⟩
      · -- the records behind it move down by one slot
        rw [← hlen]
        exact slots_erase hsplit
      · -- the last record stays readable in slot 0
        intro hnil
        obtain ⟨rfl, rfl⟩ := List.append_eq_nil_iff.mp hnil
        have hsize : p.size = 1 := by
          have := congrArg List.length hsplit
          simpa using this
        rw [← hlen, hsize]
        show (p.data 0).1 = key
        rw [show p.data 0 = e from hd, he]
  · left
    refine ⟨?_, if_neg hfound⟩
    rw [hsplit, List.map_append, List.mem_append]
    rintro (hmem | hmem)
    · obtain ⟨e, he, rfl⟩ := List.mem_map.mp hmem
      exact lt_irrefl _ (hlo e he)
    · -- The first record that is not below the key would be the one `KeyIndex` points at.
      obtain ⟨e, he, hek⟩ := List.mem_map.mp hmem
      cases r with
      | nil => cases he
      | cons e' r =>
        have hd : p.data l.length = e' := slots_mid hsplit
        have hlt : p.keyIndex key < p.size := by
          have := congrArg List.length hsplit
          simp at this
          omega
        refine hfound ⟨hlt, le_antisymm ?_ ?_⟩
        · rw [← hlen, keyAt, hd, ← hek]
          rcases List.mem_cons.mp he with rfl | he'
          · exact le_refl _
          · have hs' := hs
            rw [Sorted, hsplit, List.map_append, List.pairwise_append, List.map_cons,
              List.pairwise_cons] at hs'
            exact le_of_lt (hs'.2.1.1 _ (List.mem_map_of_mem he'))
        · rw [← hlen, keyAt, hd]
          exact hhi e' (by simp)

end Search

/-! ### Moving records -/

/-- The two pages after `MoveHalfTo`. -/
theorem moveHalfTo_pairs (p recipient : LeafPage κ ν) :
    (p.moveHalfTo recipient).1.pairs = p.pairs.take (p.size - p.size / 2) ∧
      (p.moveHalfTo recipient).2.pairs
        = recipient.pairs ++ p.pairs.drop (p.size - p.size / 2) := by
  refine ⟨slots_take _ (Nat.sub_le _ _), ?_⟩
  have hsum : p.size - p.size / 2 + p.size / 2 = p.size := by omega
  have hcopy := slots_copyN recipient.data recipient.size p.data (p.size - p.size / 2) (p.size / 2)
  rw [hsum] at hcopy
  exact hcopy

/-- The recipient after `MoveAllTo`. -/
theorem moveAllTo_pairs (p recipient : LeafPage κ ν) :
    (p.moveAllTo recipient).2.pairs = recipient.pairs ++ p.pairs := by
  have hcopy := slots_copyN recipient.data recipient.size p.data 0 p.size
  rw [Nat.zero_add] at hcopy
  exact hcopy

/-- The two pages after `MoveFirstToEndOf`. -/
theorem moveFirstToEndOf_pairs {p r : LeafPage κ ν} {e : κ × ν} {rest : List (κ × ν)}
    (h : p.pairs = e :: rest) :
    (p.moveFirstToEndOf r).1.pairs = rest ∧
      (p.moveFirstToEndOf r).2.pairs = r.pairs ++ [e] := by
  have hd : p.data 0 = e := slots_mid (l := []) h
  constructor
  · exact slots_erase (l := []) h
  · show slots (setSlot r.data r.size _) (r.size + 1) = _
    rw [slots_succ, slots_setSlot_of_le _ (Nat.le_refl _)]
    simp only [setSlot, if_true, keyAt, valueAt, hd]
    rfl

/-- The two pages after `MoveLastToFrontOf`. -/
theorem moveLastToFrontOf_pairs {p r : LeafPage κ ν} {e : κ × ν} {rest : List (κ × ν)}
    (h : p.pairs = rest ++ [e]) :
    (p.moveLastToFrontOf r).1.pairs = rest ∧
      (p.moveLastToFrontOf r).2.pairs = e :: r.pairs := by
  have hd : p.data rest.length = e := slots_mid h
  have hsize : p.size = rest.length + 1 := by
    rw [← length_pairs, h]
    simp
  constructor
  · show slots p.data (p.size - 1) = rest
    rw [slots_take p.data (Nat.sub_le p.size 1), hsize]
    have h' : slots p.data (rest.length + 1) = rest ++ [e] := hsize ▸ h
    rw [h']
    simp
  · show slots (setSlot (shiftUp r.data 0 r.size) 0 _) (r.size + 1) = _
    rw [hsize]
    simp only [keyAt, valueAt, Nat.add_sub_cancel, hd]
    exact slots_insert (l := []) rfl _

end DisMiniSql.MiniSql.LeafPage
