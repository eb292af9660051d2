import DisMiniSql.MiniSql.Page.BPlusTreeInternalPage

/-!
# `DisMiniSql.Proofs.Page.InternalPage`: what the methods of an internal page do to its children

The children of an internal page are the list `InternalPage.pairs`, each with the key in front
of it.

* `lookup_spec`: `Lookup` returns a child between whose separators the key is. This needs no
  order of the separators.
* `findValue_spec`: the slot of a child.
* `insertNodeAfter_pairs`, `setKeyAt_pairs`, `remove_pairs`, and the `move*_pairs` theorems: the
  children afterwards.
-/

set_option autoImplicit false

namespace DisMiniSql.MiniSql.InternalPage

open DisMiniSql.Lib

variable {κ ν : Type}

/-- The list of pairs is as long as the page says. -/
@[simp] theorem length_pairs (p : InternalPage κ) : p.pairs.length = p.size :=
  length_slots _ _

/-- The slot behind a prefix of the children. -/
theorem data_mid {p : InternalPage κ} {l r : List (κ × PageId)} {e : κ × PageId}
    (h : p.pairs = l ++ e :: r) : p.data l.length = e :=
  slots_mid h

/-- The key in slot 0 is that of the first child. -/
theorem keyAt_zero {p : InternalPage κ} {e : κ × PageId} {r : List (κ × PageId)}
    (h : p.pairs = e :: r) : p.keyAt 0 = e.1 := by
  have hd : p.data 0 = e := slots_mid (l := []) h
  rw [keyAt, hd]

section Search
variable [LinearOrder κ]

/-- The loop of `Lookup` keeps the key between the separators of its bounds. -/
theorem lookupLoop_spec (p : InternalPage κ) (key : κ) :
    ∀ (fuel : Nat) (left right : Int), right - left < fuel → 1 ≤ left → left ≤ right + 1 →
      right + 1 < p.size → p.keyAt left.toNat ≤ key → key < p.keyAt (right + 1).toNat →
      ∃ i, i < p.size ∧ p.lookupLoop key fuel left right = p.valueAt i ∧
        p.keyAt i ≤ key ∧ key < p.keyAt (i + 1) := by
  intro fuel
  induction fuel with
  | zero =>
    intro left right hfuel h1 hle hsize hlo hhi
    have heq : left = right + 1 := by omega
    exact absurd (heq ▸ hlo) (not_le.mpr hhi)
  | succ fuel ih =>
    intro left right hfuel h1 hle hsize hlo hhi
    rw [lookupLoop]
    by_cases hlr : left ≤ right
    · rw [if_pos hlr]
      obtain ⟨mid, hmid⟩ : ∃ mid : Nat, mid = ((left + right) / 2).toNat := ⟨_, rfl⟩
      have hmid' : (mid : Int) = (left + right) / 2 := by omega
      rw [← hmid]
      by_cases hfound : p.keyAt mid ≤ key ∧ key < p.keyAt (mid + 1)
      · rw [if_pos hfound]
        exact ⟨mid, by omega, rfl, hfound⟩
      · rw [if_neg hfound]
        by_cases hlt : key < p.keyAt mid
        · rw [if_pos hlt]
          refine ih _ _ (by omega) h1 (by omega) (by omega) hlo ?_
          rwa [show ((mid : Int) - 1 + 1).toNat = mid by omega]
        · rw [if_neg hlt]
          refine ih _ _ (by omega) (by omega) (by omega) hsize ?_ hhi
          rw [show ((mid : Int) + 1).toNat = mid + 1 by omega]
          exact not_lt.mp fun h => hfound ⟨not_lt.mp hlt, h⟩
    · -- The bounds have crossed, so the same separator is on both sides of the key.
      have heq : left = right + 1 := by omega
      exact absurd (heq ▸ hlo) (not_le.mpr hhi)

/-- `Lookup` returns a child between whose separators the key is. -/
theorem lookup_spec (p : InternalPage κ) (key : κ) (hsize : 2 ≤ p.size) :
    ∃ l e r, p.pairs = l ++ e :: r ∧ p.lookup key = e.2 ∧ (l ≠ [] → e.1 ≤ key) ∧
      ∀ e' ∈ r.head?, key < e'.1 := by
  have hindex : ∃ i, i < p.size ∧ p.lookup key = p.valueAt i ∧ (i ≠ 0 → p.keyAt i ≤ key) ∧
      (i + 1 < p.size → key < p.keyAt (i + 1)) := by
    unfold lookup
    by_cases hfirst : key < p.keyAt 1
    · rw [if_pos hfirst]
      exact ⟨0, by omega, rfl, fun h => absurd rfl h, fun _ => hfirst⟩
    · rw [if_neg hfirst]
      by_cases hlast : p.keyAt (p.size - 1) ≤ key
      · rw [if_pos hlast]
        exact ⟨p.size - 1, by omega, rfl, fun _ => hlast, fun h => absurd h (by omega)⟩
      · rw [if_neg hlast]
        obtain ⟨i, hi, heq, hlo, hhi⟩ := lookupLoop_spec p key p.size 1 (p.size - 2)
          (by omega) (by omega) (by omega) (by omega) (not_lt.mp hfirst)
          (by rw [show ((p.size : Int) - 2 + 1).toNat = p.size - 1 by omega]
              exact not_le.mp hlast)
        exact ⟨i, hi, heq, fun _ => hlo, fun _ => hhi⟩
  obtain ⟨i, hi, heq, hlo, hhi⟩ := hindex
  refine ⟨p.pairs.take i, p.data i, p.pairs.drop (i + 1), slots_split _ hi, heq, ?_, ?_⟩
  · intro hne
    exact hlo fun h0 => hne (by simp [h0])
  · intro e' he'
    rw [List.head?_drop] at he'
    obtain ⟨hlt, rfl⟩ := List.getElem?_eq_some_iff.mp (Option.mem_def.mp he')
    rw [length_pairs] at hlt
    have hk := hhi hlt
    simpa [pairs, keyAt] using hk

end Search

variable {r l : List (κ × PageId)} {p : InternalPage κ}

/-- The slot of a child. -/
theorem findValue_spec {k : κ} {v : PageId} (h : p.pairs = l ++ (k, v) :: r)
    (hl : v ∉ l.map Prod.snd) :
    p.findValue v = some l.length := by
  have hsize : l.length < p.size := by
    rw [← length_pairs, h]
    simp
  rw [findValue, List.find?_range_eq_some]
  refine ⟨by simp [valueAt, data_mid h], by simpa using hsize, ?_⟩
  intro j hj
  have hdj : p.data j ∈ l := by
    have hjp : j < p.pairs.length := by rw [length_pairs]; omega
    have hget : p.pairs[j] = p.data j := getElem_slots _ _ _ _
    rw [← hget]
    simp only [h]
    rw [List.getElem_append_left hj]
    exact List.getElem_mem hj
  have hne : (p.data j).2 ≠ v := by
    rintro rfl
    exact hl (List.mem_map_of_mem hdj)
  simp [valueAt, hne]

/-- The children after `InsertNodeAfter`. -/
theorem insertNodeAfter_pairs {k : κ} {v : PageId} (h : p.pairs = l ++ (k, v) :: r)
    (hl : v ∉ l.map Prod.snd) (newKey : κ) (newValue : PageId) :
    (p.insertNodeAfter v newKey newValue).pairs = l ++ (k, v) :: (newKey, newValue) :: r := by
  have hindex : (p.valueIndex v + 1).toNat = (l ++ [(k, v)]).length := by
    rw [valueIndex, findValue_spec h hl]
    simp
  have hsplit : slots p.data p.size = (l ++ [(k, v)]) ++ r := by
    rw [List.append_assoc]
    exact h
  show slots (setSlot (shiftUp p.data (p.valueIndex v + 1).toNat p.size)
    (p.valueIndex v + 1).toNat (newKey, newValue)) (p.size + 1) = _
  rw [hindex, slots_insert hsplit]
  simp

/-- The children after `SetKeyAt`. -/
theorem setKeyAt_pairs {k : κ} {v : PageId} (h : p.pairs = l ++ (k, v) :: r) (key : κ) :
    (p.setKeyAt l.length key).pairs = l ++ (key, v) :: r := by
  show slots (setSlot p.data l.length (key, (p.data l.length).2)) p.size = _
  rw [data_mid h]
  exact slots_setSlot h _

/-- The children after `Remove`, which takes the slot before the one that goes. -/
theorem remove_pairs {e : κ × PageId} (h : p.pairs = l ++ e :: r) {i : Int}
    (hindex : i + 1 = l.length) :
    (p.remove i).pairs = l ++ r := by
  show slots (shiftDown p.data (i + 1).toNat (p.size - 1 - (i + 1).toNat)) (p.size - 1) = _
  rw [hindex, Int.toNat_natCast]
  exact slots_erase h

/-! ### Moving children -/

/-- The children that `CopyNFrom` gets from a page, and those it gives a new parent. -/
theorem copyNFrom_eq (p src : InternalPage κ) {i n : Nat} (h : i + n = src.size)
    (bpm : PageStore κ ν) :
    (p.copyNFrom src.data i n bpm).1.pairs = p.pairs ++ src.pairs.drop i ∧
      (p.copyNFrom src.data i n bpm).2
        = bpm.adopt p.pageId ((src.pairs.drop i).map Prod.snd) := by
  have hcopy := slots_copyN p.data p.size src.data i n
  rw [h] at hcopy
  refine ⟨hcopy, ?_⟩
  show bpm.adopt p.pageId ((slots (fun j => src.data (i + j)) n).map Prod.snd) = _
  rw [slots_drop, h]
  rfl

/-- `MoveHalfTo`: the second half of the children goes to the recipient. -/
theorem moveHalfTo_pairs {as bs : List (κ × PageId)} (h : p.pairs = as ++ bs)
    (hlen : as.length = p.size - p.size / 2) (recipient : InternalPage κ) (bpm : PageStore κ ν) :
    (p.moveHalfTo recipient bpm).1.pairs = as ∧
      (p.moveHalfTo recipient bpm).2.1.pairs = recipient.pairs ++ bs ∧
      (p.moveHalfTo recipient bpm).2.2 = bpm.adopt recipient.pageId (bs.map Prod.snd) := by
  obtain ⟨hcopy, hadopt⟩ := recipient.copyNFrom_eq p (i := p.size - p.size / 2)
    (n := p.size / 2) (by omega) bpm
  have hdrop : p.pairs.drop (p.size - p.size / 2) = bs := by
    rw [h, ← hlen, List.drop_left]
  rw [hdrop] at hcopy hadopt
  refine ⟨?_, hcopy, hadopt⟩
  show slots p.data (p.size - p.size / 2) = as
  rw [slots_take p.data (Nat.sub_le p.size _), ← hlen]
  show p.pairs.take as.length = as
  rw [h, List.take_left]

/-- `MoveAllTo`: all children go to the recipient, the first one with its own key. -/
theorem moveAllTo_pairs (p recipient : InternalPage κ) (middleKey : κ) (bpm : PageStore κ ν) :
    (p.moveAllTo recipient middleKey bpm).2.1.pairs = recipient.pairs ++ p.pairs ∧
      (p.moveAllTo recipient middleKey bpm).2.2
        = bpm.adopt recipient.pageId (p.pairs.map Prod.snd) :=
  recipient.copyNFrom_eq p (Nat.zero_add p.size) bpm

/-- `MoveFirstToEndOf`: the first child goes, with the key of the parent in front of it. -/
theorem moveFirstToEndOf_pairs {r : InternalPage κ} {e : κ × PageId} {rest : List (κ × PageId)}
    (h : p.pairs = e :: rest) (middleKey : κ) (bpm : PageStore κ ν) :
    (p.moveFirstToEndOf r middleKey bpm).1.pairs = rest ∧
      (p.moveFirstToEndOf r middleKey bpm).2.1.pairs
        = r.pairs ++ [(middleKey, e.2)] ∧
      (p.moveFirstToEndOf r middleKey bpm).2.2 = bpm.setParent r.pageId e.2 := by
  have hd : p.data 0 = e := slots_mid (l := []) h
  refine ⟨remove_pairs (l := []) h rfl, ?_, ?_⟩
  · show slots (setSlot r.data r.size _) (r.size + 1) = _
    rw [slots_succ, slots_setSlot_of_le _ (Nat.le_refl _)]
    simp only [setSlot, if_true, valueAt, hd]
    rfl
  · show bpm.setParent r.pageId (p.valueAt 0) = _
    rw [valueAt, hd]

/-- `MoveLastToFrontOf`: the last child goes with its own key, and the key that was in slot 0 of
the recipient becomes a separator. -/
theorem moveLastToFrontOf_pairs {r : InternalPage κ} {e : κ × PageId} {rest : List (κ × PageId)}
    (h : p.pairs = rest ++ [e]) (hrest : rest ≠ []) (middleKey : κ) (bpm : PageStore κ ν) :
    (p.moveLastToFrontOf r middleKey bpm).1.pairs = rest ∧
      (p.moveLastToFrontOf r middleKey bpm).2.1.pairs = e :: r.pairs ∧
      (p.moveLastToFrontOf r middleKey bpm).2.2 = bpm.setParent r.pageId e.2 := by
  have hd : p.data rest.length = e := slots_mid h
  have hsize : p.size = rest.length + 1 := by
    rw [← length_pairs, h]
    simp
  have hpos : 0 < rest.length := List.length_pos_iff.mpr hrest
  have hd' : p.data (p.size - 1) = e := by rw [hsize]; exact hd
  refine ⟨?_, ?_, ?_⟩
  · have := remove_pairs (i := (p.size : Int) - 2) h (by omega)
    rwa [List.append_nil] at this
  · have hins := slots_insert (d := r.data) (n := r.size) (l := []) rfl e
    refine Eq.trans ?_ hins
    apply slots_congr
    intro i _
    show (InternalPage.setKeyAt (InternalPage.setValueAt _ 0 (p.valueAt (p.size - 1))) 0
      (p.keyAt (p.size - 1))).data i = _
    simp only [setKeyAt, setValueAt, valueAt, keyAt, hd', setSlot, List.length_nil]
    by_cases hi : i = 0
    · simp [hi]
    · simp [hi]
  · show bpm.setParent r.pageId (p.valueAt (p.size - 1)) = _
    rw [valueAt, hd']

end DisMiniSql.MiniSql.InternalPage
