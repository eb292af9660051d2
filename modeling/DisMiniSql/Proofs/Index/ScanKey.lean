import DisMiniSql.MiniSql.Index.BPlusTreeIndex
import DisMiniSql.Proofs.Index.Search
import Mathlib.Data.List.Nodup
import Mathlib.Order.Basic

/-!
# `DisMiniSql.Proofs.Index.ScanKey`: which entries `ScanKey` finds

`compareKeys` ranks an entry against the key of a scan. `Ordered` says that the entries ascend and
that `FindLeafPage` leads to the leaf of a key. Then the two binary searches of a leaf page find
where the rank turns (`keyIndex_spec`, `lookup_spec`), and `mem_scanKey_some` says which entries a
scan returns:

* `=` and `<>` those whose rank is zero, or not zero;
* `<`, `<=`, `>`, `>=` those whose rank has the sign, unless the key falls into a `Gap` between two
  leaves. There `Begin(key)` is `End()`: `>` and `>=` find nothing, `<` and `<=` find every entry;
* `is` and `not` find nothing.

The rank of every entry against a null is zero, so a scan for a null stops where the searches
happen to stop: `mem_scanKey_none`.

`Represents.exists_index` says that the leaves of a tree that the pages represent are `Ordered`.
-/

set_option autoImplicit false

namespace DisMiniSql.MiniSql

variable {α : Type} [LinearOrder α]

/-! ### The rank of an entry -/

/-- Two keys that are not NULL compare as their values. -/
theorem compareKeys_some (a b : α) :
    compareKeys (some a) (some b) = if a < b then -1 else if b < a then 1 else 0 := by
  simp [compareKeys, compareFields]

/-- A NULL compares equal to everything. -/
@[simp] theorem compareKeys_none_left (b : Option α) : compareKeys none b = 0 := by
  simp [compareKeys, compareFields]

/-- On either side. -/
@[simp] theorem compareKeys_none_right (a : Option α) : compareKeys a none = 0 := by
  cases a <;> simp [compareKeys, compareFields]

/-- Equal values. -/
theorem compareKeys_some_eq_zero (a b : α) : compareKeys (some a) (some b) = 0 ↔ a = b := by
  rw [compareKeys_some]
  rcases lt_trichotomy a b with hlt | heq | hgt
  · simp [hlt, ne_of_lt hlt]
  · simp [heq]
  · simp [hgt, not_lt_of_gt hgt, ne_of_gt hgt]

/-- Smaller values. -/
theorem compareKeys_some_neg (a b : α) : compareKeys (some a) (some b) < 0 ↔ a < b := by
  rw [compareKeys_some]
  rcases lt_trichotomy a b with hlt | heq | hgt
  · simp [hlt]
  · simp [heq]
  · simp [hgt, not_lt_of_gt hgt]

/-- Larger values. -/
theorem compareKeys_some_pos (a b : α) : 0 < compareKeys (some a) (some b) ↔ b < a := by
  rw [compareKeys_some]
  rcases lt_trichotomy a b with hlt | heq | hgt
  · simp [hlt, not_lt_of_gt hlt]
  · simp [heq]
  · simp [hgt, not_lt_of_gt hgt]

/-- Only values that are there have a rank below zero. -/
theorem some_of_compareKeys_neg {a b : Option α} (h : compareKeys a b < 0) :
    ∃ x y, a = some x ∧ b = some y ∧ x < y := by
  cases a with
  | none => simp at h
  | some x =>
    cases b with
    | none => simp at h
    | some y => exact ⟨x, y, rfl, rfl, (compareKeys_some_neg x y).mp h⟩

/-- A later entry is not below a key that an earlier one reaches. -/
theorem compareKeys_nonneg_of_neg {a b : Option α} {k : α} (hab : compareKeys a b < 0)
    (ha : 0 ≤ compareKeys a (some k)) : 0 < compareKeys b (some k) := by
  obtain ⟨x, y, rfl, rfl, hxy⟩ := some_of_compareKeys_neg hab
  have hkx : k ≤ x := by
    rcases lt_or_ge x k with hlt | hge
    · have := (compareKeys_some_neg x k).mpr hlt
      omega
    · exact hge
  exact (compareKeys_some_pos y k).mpr (lt_of_le_of_lt hkx hxy)

/-! ### The searches of a leaf page -/

namespace LeafEntries

variable {leaf : LeafEntries α} {key : Option α}

/-- Behind an entry whose rank is not below zero, no rank is below or at zero. -/
def Rising (leaf : LeafEntries α) (key : Option α) : Prop :=
  leaf.Pairwise (fun x y => 0 ≤ compareKeys x.1 key → 0 < compareKeys y.1 key)

omit [LinearOrder α] in
/-- The key of an entry of the leaf. -/
theorem keyAt_of_lt {i : Nat} (hi : i < leaf.length) : keyAt leaf i = leaf[i].1 := by
  simp [keyAt, hi]

/-- In a rising leaf, what comes behind a key not below the one sought is above it. -/
theorem Rising.pos (hr : Rising leaf key) {i j : Nat} (hj : j < leaf.length) (hij : i < j)
    (hi : 0 ≤ compareKeys (keyAt leaf i) key) : 0 < compareKeys (keyAt leaf j) key := by
  have hlt : i < leaf.length := Nat.lt_trans hij hj
  rw [keyAt_of_lt hlt] at hi
  rw [keyAt_of_lt hj]
  exact List.pairwise_iff_getElem.mp hr i j hlt hj hij hi

/-- The invariant of the loop: the ranks before `left` are below zero, those from `right` on are
not. -/
theorem keyIndexLoop_spec (hr : Rising leaf key) (fuel : Nat) :
    ∀ left right, right - left ≤ fuel → left ≤ right → right ≤ leaf.length →
      (∀ i, i < left → compareKeys (keyAt leaf i) key < 0) →
      (∀ i, right ≤ i → i < leaf.length → 0 ≤ compareKeys (keyAt leaf i) key) →
      keyIndexLoop leaf key fuel left right ≤ leaf.length ∧
      (∀ i, i < keyIndexLoop leaf key fuel left right → compareKeys (keyAt leaf i) key < 0) ∧
      (∀ i, keyIndexLoop leaf key fuel left right ≤ i → i < leaf.length →
        0 ≤ compareKeys (keyAt leaf i) key) := by
  induction fuel with
  | zero =>
    intro left right hfuel hle hlen hbelow habove
    have heq : left = right := by omega
    subst heq
    exact ⟨hlen, hbelow, habove⟩
  | succ fuel ih =>
    intro left right hfuel hle hlen hbelow habove
    rw [keyIndexLoop]
    by_cases hlt : left < right
    · rw [if_pos hlt]
      dsimp only
      by_cases hneg : compareKeys (keyAt leaf ((left + right) / 2)) key < 0
      · rw [if_pos hneg]
        refine ih _ _ (by omega) (by omega) hlen ?_ habove
        intro i hi
        -- an entry before one whose rank is below zero has a rank below zero
        by_contra hge
        rcases Nat.lt_or_ge i ((left + right) / 2) with hmid | hmid
        · have := hr.pos (by omega) hmid (by omega)
          omega
        · have : i = (left + right) / 2 := by omega
          subst this
          exact hge hneg
      · rw [if_neg hneg]
        refine ih _ _ (by omega) (by omega) (by omega) hbelow ?_
        intro i hi hilen
        rcases Nat.lt_or_ge ((left + right) / 2) i with hmid | hmid
        · exact Int.le_of_lt (hr.pos hilen hmid (by omega))
        · have : i = (left + right) / 2 := by omega
          subst this
          omega
    · rw [if_neg hlt]
      have heq : left = right := by omega
      subst heq
      exact ⟨hlen, hbelow, habove⟩

/-- `KeyIndex` parts the entries by their rank. -/
theorem keyIndex_spec (hr : Rising leaf key) :
    leaf.keyIndex key ≤ leaf.length ∧
    (∀ x ∈ leaf.take (leaf.keyIndex key), compareKeys x.1 key < 0) ∧
    (∀ x ∈ leaf.drop (leaf.keyIndex key), 0 ≤ compareKeys x.1 key) := by
  obtain ⟨hlen, hbelow, habove⟩ := keyIndexLoop_spec hr leaf.length 0 leaf.length (by omega)
    (Nat.zero_le _) (Nat.le_refl _) (fun i hi => absurd hi (Nat.not_lt_zero i))
    (fun i hi hlt => absurd hlt (Nat.not_lt.mpr hi))
  refine ⟨hlen, ?_, ?_⟩
  · intro x hx
    obtain ⟨i, hi, rfl⟩ := List.mem_take_iff_getElem.mp hx
    have hi' : i < leaf.length := by omega
    have := hbelow i (by unfold keyIndex at hi; omega)
    rwa [keyAt_of_lt hi'] at this
  · intro x hx
    obtain ⟨i, hi, rfl⟩ := List.mem_drop_iff_getElem.mp hx
    have hi' : leaf.keyIndex key + i < leaf.length := by omega
    have := habove (leaf.keyIndex key + i) (Nat.le_add_right _ _) hi'
    rwa [keyAt_of_lt hi'] at this

/-- The invariant of the loop: no entry outside of `left` and `right` has rank zero. -/
theorem lookupLoop_spec (hr : Rising leaf key) (fuel : Nat) :
    ∀ left right, right - left ≤ fuel → right ≤ leaf.length →
      (∀ i, i < left → i < leaf.length → compareKeys (keyAt leaf i) key ≠ 0) →
      (∀ i, right ≤ i → i < leaf.length → compareKeys (keyAt leaf i) key ≠ 0) →
      (∀ rid, lookupLoop leaf key fuel left right = some rid →
        ∃ x ∈ leaf, compareKeys x.1 key = 0 ∧ x.2 = rid) ∧
      (lookupLoop leaf key fuel left right = none →
        ∀ i, i < leaf.length → compareKeys (keyAt leaf i) key ≠ 0) := by
  induction fuel with
  | zero =>
    intro left right hfuel hlen hbelow habove
    refine ⟨fun rid h => (by cases h), fun _ i hi => ?_⟩
    rcases Nat.lt_or_ge i left with hlt | hge
    · exact hbelow i hlt hi
    · exact habove i (by omega) hi
  | succ fuel ih =>
    intro left right hfuel hlen hbelow habove
    rw [lookupLoop]
    by_cases hlt : left < right
    · rw [if_pos hlt]
      dsimp only
      have hindex : (left + (right - 1)) / 2 < leaf.length := by omega
      by_cases hzero : compareKeys (keyAt leaf ((left + (right - 1)) / 2)) key = 0
      · rw [if_pos hzero, List.getElem?_eq_getElem hindex]
        refine ⟨fun rid h => ?_, fun h => (by cases h)⟩
        rw [keyAt_of_lt hindex] at hzero
        exact ⟨_, List.getElem_mem hindex, hzero, by simpa using h⟩
      · rw [if_neg hzero]
        by_cases hneg : compareKeys (keyAt leaf ((left + (right - 1)) / 2)) key < 0
        · rw [if_pos hneg]
          refine ih _ _ (by omega) hlen ?_ habove
          intro i hi hilen hi0
          rcases Nat.lt_or_ge i ((left + (right - 1)) / 2) with hmid | hmid
          · have := hr.pos hindex hmid (by omega)
            omega
          · have : i = (left + (right - 1)) / 2 := by omega
            subst this
            exact hzero hi0
        · rw [if_neg hneg]
          refine ih _ _ (by omega) (by omega) hbelow ?_
          intro i hi hilen hi0
          rcases Nat.lt_or_ge ((left + (right - 1)) / 2) i with hmid | hmid
          · have := hr.pos hilen hmid (by omega)
            omega
          · have : i = (left + (right - 1)) / 2 := by omega
            subst this
            exact hzero hi0
    · rw [if_neg hlt]
      refine ⟨fun rid h => (by cases h), fun _ i hi => ?_⟩
      rcases Nat.lt_or_ge i left with hil | hil
      · exact hbelow i hil hi
      · exact habove i (by omega) hi

/-- `Lookup` finds an entry of rank zero if there is one. -/
theorem lookup_spec (hr : Rising leaf key) :
    (∀ rid, leaf.lookup key = some rid → ∃ x ∈ leaf, compareKeys x.1 key = 0 ∧ x.2 = rid) ∧
    (leaf.lookup key = none → ∀ x ∈ leaf, compareKeys x.1 key ≠ 0) := by
  obtain ⟨hsome, hnone⟩ := lookupLoop_spec hr leaf.length 0 leaf.length (by omega)
    (Nat.le_refl _) (fun i hi => absurd hi (Nat.not_lt_zero i))
    (fun i hi hlt => absurd hlt (Nat.not_lt.mpr hi))
  refine ⟨hsome, fun h x hx => ?_⟩
  obtain ⟨i, hi, rfl⟩ := List.getElem_of_mem hx
  have := hnone h i hi
  rwa [keyAt_of_lt hi] at this

/-- A null stops `KeyIndex` at the first entry. -/
theorem keyIndexLoop_none (leaf : LeafEntries α) (fuel : Nat) :
    ∀ left right, right - left ≤ fuel → left ≤ right →
      keyIndexLoop leaf none fuel left right = left := by
  induction fuel with
  | zero =>
    intro left right hfuel hle
    rw [keyIndexLoop]
    omega
  | succ fuel ih =>
    intro left right hfuel hle
    rw [keyIndexLoop]
    by_cases hlt : left < right
    · rw [if_pos hlt]
      dsimp only
      rw [compareKeys_none_right, if_neg (by decide)]
      exact ih _ _ (by omega) (by omega)
    · rw [if_neg hlt]
      omega

/-- The search for NULL ends at the first entry, which compares equal. -/
theorem keyIndex_none (leaf : LeafEntries α) : leaf.keyIndex none = 0 :=
  keyIndexLoop_none leaf leaf.length 0 leaf.length (by omega) (Nat.zero_le _)

/-- A null stops `Lookup` in the middle. -/
theorem lookup_none (leaf : LeafEntries α) :
    leaf.lookup none = (leaf[(leaf.length - 1) / 2]?).map Prod.snd := by
  unfold lookup
  cases hlen : leaf.length with
  | zero =>
    have : leaf = [] := List.length_eq_zero_iff.mp hlen
    subst this
    rfl
  | succ n =>
    rw [lookupLoop, if_pos (Nat.succ_pos n)]
    dsimp only
    rw [compareKeys_none_right, if_pos rfl]
    simp

end LeafEntries

/-! ### The leaves -/

namespace BPlusTreeIndex

variable {i : BPlusTreeIndex α}

/-- The entries ascend along the leaves, no leaf is empty, and `FindLeafPage` leads to a leaf
between smaller and larger entries. -/
structure Ordered (i : BPlusTreeIndex α) : Prop where
  nonempty : ∀ leaf ∈ i.leaves, leaf ≠ []
  sorted : i.items.Pairwise (fun x y => compareKeys x.1 y.1 < 0)
  found : ∀ key, i.leaves ≠ [] → i.leafOf key < i.leaves.length
  before : ∀ k, ∀ x ∈ (i.leaves.take (i.leafOf (some k))).flatten, compareKeys x.1 (some k) < 0
  after : ∀ k, ∀ x ∈ (i.leaves.drop (i.leafOf (some k) + 1)).flatten,
    0 < compareKeys x.1 (some k)

/-- Every entry of the leaf of `k` is below `k`, and another leaf follows. -/
def Gap (i : BPlusTreeIndex α) (k : α) : Prop :=
  i.leafOf (some k) + 1 < i.leaves.length ∧
    ∀ leaf, i.findLeafPage (some k) = some leaf → ∀ x ∈ leaf, compareKeys x.1 (some k) < 0

/-- The number of entries before the leaf of a key. -/
def entriesBefore (i : BPlusTreeIndex α) (key : Option α) : Nat :=
  (i.leaves.take (i.leafOf key)).flatten.length

/-- A tree is empty, or it has a leaf for the key. -/
theorem Ordered.leaf_cases (ho : i.Ordered) (key : Option α) :
    (i.leaves = [] ∧ i.findLeafPage key = none) ∨
    ∃ leaf, i.findLeafPage key = some leaf ∧ leaf ≠ [] := by
  by_cases hleaves : i.leaves = []
  · exact .inl ⟨hleaves, by simp [findLeafPage, hleaves]⟩
  · have hlt := ho.found key hleaves
    refine .inr ⟨i.leaves[i.leafOf key], ?_, ho.nonempty _ (List.getElem_mem hlt)⟩
    simp [findLeafPage, hlt]

omit [LinearOrder α] in
/-- The entries of the index: those before the leaf of the key, the leaf, those behind. -/
theorem items_split {key : Option α} {leaf : LeafEntries α}
    (hleaf : i.findLeafPage key = some leaf) :
    i.items = (i.leaves.take (i.leafOf key)).flatten ++
      (leaf ++ (i.leaves.drop (i.leafOf key + 1)).flatten) := by
  obtain ⟨hlt, hget⟩ := List.getElem?_eq_some_iff.mp hleaf
  have hsplit : i.leaves = i.leaves.take (i.leafOf key) ++
      (leaf :: i.leaves.drop (i.leafOf key + 1)) := by
    rw [← hget, ← List.drop_eq_getElem_cons hlt, List.take_append_drop]
  have hflat := congrArg List.flatten hsplit
  rw [List.flatten_append, List.flatten_cons] at hflat
  exact hflat

/-- Every leaf of an ordered index is rising. -/
theorem Ordered.rising (ho : i.Ordered) {k : α} {leaf : LeafEntries α}
    (hleaf : i.findLeafPage (some k) = some leaf) : leaf.Rising (some k) := by
  have hsorted := ho.sorted
  rw [items_split hleaf] at hsorted
  have hleafSorted := (List.pairwise_append.mp (List.pairwise_append.mp hsorted).2.1).1
  exact hleafSorted.imp (fun hxy hx => compareKeys_nonneg_of_neg hxy hx)

variable {x y : Option α × RowId}

/-- At most one entry has rank zero. -/
theorem Ordered.eq_of_zero (ho : i.Ordered) {k : α} (hx : x ∈ i.items) (hy : y ∈ i.items)
    (hx0 : compareKeys x.1 (some k) = 0) (hy0 : compareKeys y.1 (some k) = 0) : x = y := by
  obtain ⟨m, hm, rfl⟩ := List.getElem_of_mem hx
  obtain ⟨n, hn, rfl⟩ := List.getElem_of_mem hy
  have hsorted := List.pairwise_iff_getElem.mp ho.sorted
  rcases Nat.lt_trichotomy m n with hlt | rfl | hgt
  · have := compareKeys_nonneg_of_neg (hsorted m n hm hn hlt) (Int.le_of_eq hx0.symm)
    omega
  · rfl
  · have := compareKeys_nonneg_of_neg (hsorted n m hn hm hgt) (Int.le_of_eq hy0.symm)
    omega

/-- `GetValue` finds the entry of rank zero. -/
theorem Ordered.getValue_eq_some (ho : i.Ordered) (k : α) (rid : RowId) :
    i.getValue (some k) = some rid ↔ ∃ v, (v, rid) ∈ i.items ∧ compareKeys v (some k) = 0 := by
  rcases ho.leaf_cases (some k) with ⟨hleaves, hnone⟩ | ⟨leaf, hleaf, _⟩
  · simp [getValue, hnone, items, hleaves]
  · have hget : i.getValue (some k) = leaf.lookup (some k) := by simp [getValue, hleaf]
    obtain ⟨hsome, hnone⟩ := LeafEntries.lookup_spec (ho.rising hleaf)
    rw [hget]
    constructor
    · intro h
      obtain ⟨⟨v, rid'⟩, hx, hx0, rfl⟩ := hsome rid h
      refine ⟨v, ?_, hx0⟩
      rw [items_split hleaf]
      exact List.mem_append_right _ (List.mem_append_left _ hx)
    · rintro ⟨v, hv, hv0⟩
      -- the leaves before and after hold no entry of rank zero
      have hmem : (v, rid) ∈ leaf := by
        have hv' := hv
        rw [items_split hleaf, List.mem_append, List.mem_append] at hv'
        rcases hv' with hbefore | hin | hafter
        · exact absurd hv0 (Int.ne_of_lt (ho.before k _ hbefore))
        · exact hin
        · exact absurd hv0 (Int.ne_of_gt (ho.after k _ hafter))
      cases hlook : leaf.lookup (some k) with
      | none => exact absurd hv0 (hnone hlook _ hmem)
      | some rid' =>
        obtain ⟨x, hx, hx0, rfl⟩ := hsome rid' hlook
        have hx' : x ∈ i.items := by
          rw [items_split hleaf]
          exact List.mem_append_right _ (List.mem_append_left _ hx)
        rw [ho.eq_of_zero hx' hv hx0 hv0]

/-- What `Begin(key)` says: the key is in a gap, or behind every entry, or the iterator parts the
entries by their rank. -/
theorem Ordered.beginAt_cases (ho : i.Ordered) (k : α) :
    (i.beginAt (some k) = none ∧ i.Gap k ∧ ∀ x ∈ i.items, compareKeys x.1 (some k) ≠ 0) ∨
    (i.beginAt (some k) = none ∧ ¬ i.Gap k ∧ ∀ x ∈ i.items, compareKeys x.1 (some k) < 0) ∨
    ∃ n, i.beginAt (some k) = some n ∧ ¬ i.Gap k ∧
      (∀ x ∈ i.items.take n, compareKeys x.1 (some k) < 0) ∧
      ∀ x ∈ i.items.drop n, 0 ≤ compareKeys x.1 (some k) := by
  rcases ho.leaf_cases (some k) with ⟨hleaves, hnone⟩ | ⟨leaf, hleaf, hne⟩
  · refine .inr (.inl ⟨by simp [beginAt, hnone], ?_, by simp [items, hleaves]⟩)
    intro hgap
    have := hgap.1
    simp [hleaves] at this
  · obtain ⟨hle, hbelow, habove⟩ := LeafEntries.keyIndex_spec (ho.rising hleaf)
    have hbegin : i.beginAt (some k) = if leaf.keyIndex (some k) = leaf.length then none
        else some ((i.leaves.take (i.leafOf (some k))).flatten.length +
          leaf.keyIndex (some k)) := by
      simp only [beginAt, hleaf]
    by_cases hend : leaf.keyIndex (some k) = leaf.length
    · rw [if_pos hend] at hbegin
      have hall : ∀ x ∈ leaf, compareKeys x.1 (some k) < 0 := by
        rw [hend, List.take_length] at hbelow
        exact hbelow
      by_cases hnext : i.leafOf (some k) + 1 < i.leaves.length
      · -- behind the last entry of a leaf, with more leaves to come: the gap
        refine .inl ⟨hbegin, ⟨hnext, fun leaf' hleaf' => ?_⟩, fun x hx => ?_⟩
        · rw [hleaf] at hleaf'
          cases hleaf'
          exact hall
        · rw [items_split hleaf, List.mem_append, List.mem_append] at hx
          rcases hx with hbefore | hin | hafter
          · exact Int.ne_of_lt (ho.before k x hbefore)
          · exact Int.ne_of_lt (hall x hin)
          · exact Int.ne_of_gt (ho.after k x hafter)
      · -- behind the last entry of all
        refine .inr (.inl ⟨hbegin, fun hgap => hnext hgap.1, fun x hx => ?_⟩)
        rw [items_split hleaf, List.drop_of_length_le (by omega), List.flatten_nil,
          List.append_nil, List.mem_append] at hx
        rcases hx with hbefore | hin
        · exact ho.before k x hbefore
        · exact hall x hin
    · rw [if_neg hend] at hbegin
      refine .inr (.inr ⟨_, hbegin, ?_, ?_, ?_⟩)
      · intro hgap
        have hlt : leaf.keyIndex (some k) < leaf.length := by omega
        have hmem : leaf[leaf.keyIndex (some k)] ∈ leaf.drop (leaf.keyIndex (some k)) :=
          List.mem_drop_iff_getElem.mpr ⟨0, by omega, by simp⟩
        have := habove _ hmem
        have := hgap.2 leaf hleaf _ (List.getElem_mem hlt)
        omega
      · intro x hx
        rw [items_split hleaf, List.take_length_add_append, List.mem_append] at hx
        rcases hx with hbefore | hin
        · exact ho.before k x hbefore
        · rw [List.take_append_of_le_length hle] at hin
          exact hbelow x hin
      · intro x hx
        rw [items_split hleaf, List.drop_length_add_append,
          List.drop_append_of_le_length hle, List.mem_append] at hx
        rcases hx with hin | hafter
        · exact habove x hin
        · exact Int.le_of_lt (ho.after k x hafter)

/-! ### The scans -/

/-- The entries that a scan for `k` finds, by their rank. -/
def FindsValue (i : BPlusTreeIndex α) (compareOperator : ComparisonType) (k : α)
    (v : Option α) : Prop :=
  match compareOperator with
  | .eq => compareKeys v (some k) = 0
  | .ne => compareKeys v (some k) ≠ 0
  | .lt => i.Gap k ∨ compareKeys v (some k) < 0
  | .le => i.Gap k ∨ compareKeys v (some k) ≤ 0
  | .gt => ¬ i.Gap k ∧ 0 < compareKeys v (some k)
  | .ge => ¬ i.Gap k ∧ 0 ≤ compareKeys v (some k)
  | .is => False
  | .not => False

variable {l : LeafEntries α}

omit [LinearOrder α] in
/-- A row id of a list of entries. -/
theorem mem_map_snd {rid : RowId} :
    rid ∈ l.map Prod.snd ↔ ∃ v, (v, rid) ∈ l := by
  simp

/-- An iterator that parts the entries by their rank has the larger ones behind it, and those of
rank zero. -/
theorem mem_drop_of_parts {k : α} {n : Nat} (hbelow : ∀ x ∈ l.take n, compareKeys x.1 (some k) < 0)
    (habove : ∀ x ∈ l.drop n, 0 ≤ compareKeys x.1 (some k)) (x : Option α × RowId) :
    (x ∈ l.drop n ↔ x ∈ l ∧ 0 ≤ compareKeys x.1 (some k)) ∧
      (x ∈ l.take n ↔ x ∈ l ∧ compareKeys x.1 (some k) < 0) := by
  have hmem : x ∈ l ↔ x ∈ l.take n ∨ x ∈ l.drop n := by
    rw [← List.mem_append, List.take_append_drop]
  refine ⟨⟨fun hx => ⟨hmem.mpr (.inr hx), habove x hx⟩, ?_⟩,
    ⟨fun hx => ⟨hmem.mpr (.inl hx), hbelow x hx⟩, ?_⟩⟩
  · rintro ⟨hx, hrank⟩
    rcases hmem.mp hx with htake | hdrop
    · have := hbelow x htake
      omega
    · exact hdrop
  · rintro ⟨hx, hrank⟩
    rcases hmem.mp hx with htake | hdrop
    · exact htake
    · have := habove x hdrop
      omega

/-- `>` steps over the entry of rank zero. -/
theorem Ordered.mem_drop_succ (ho : i.Ordered) {k : α} {n : Nat}
    (hbelow : ∀ x ∈ i.items.take n, compareKeys x.1 (some k) < 0)
    (habove : ∀ x ∈ i.items.drop n, 0 ≤ compareKeys x.1 (some k)) (hy : y ∈ i.items)
    (hy0 : compareKeys y.1 (some k) = 0) (x : Option α × RowId) :
    x ∈ i.items.drop (n + 1) ↔ x ∈ i.items ∧ 0 < compareKeys x.1 (some k) := by
  have hydrop : y ∈ i.items.drop n :=
    ((mem_drop_of_parts hbelow habove y).1).mpr ⟨hy, Int.le_of_eq hy0.symm⟩
  have hdrop : ∃ z, i.items.drop n = z :: i.items.drop (n + 1) := by
    cases hd : i.items.drop n with
    | nil => rw [hd] at hydrop; cases hydrop
    | cons z zs =>
      refine ⟨z, ?_⟩
      rw [← List.drop_drop, hd]
      rfl
  obtain ⟨z, hz⟩ := hdrop
  have hsorted : (z :: i.items.drop (n + 1)).Pairwise (fun x y => compareKeys x.1 y.1 < 0) := by
    rw [← hz]
    exact ho.sorted.sublist (List.drop_sublist n _)
  have hz0 : 0 ≤ compareKeys z.1 (some k) := habove z (by rw [hz]; exact List.mem_cons_self)
  have hpos : ∀ x ∈ i.items.drop (n + 1), 0 < compareKeys x.1 (some k) := fun x hx =>
    compareKeys_nonneg_of_neg ((List.pairwise_cons.mp hsorted).1 x hx) hz0
  constructor
  · intro hx
    exact ⟨List.mem_of_mem_drop hx, hpos x hx⟩
  · rintro ⟨hx, hrank⟩
    have hxdrop := ((mem_drop_of_parts hbelow habove x).1).mpr ⟨hx, Int.le_of_lt hrank⟩
    rw [hz, List.mem_cons] at hxdrop hydrop
    rcases hxdrop with rfl | hx
    · -- the entry of rank zero would stand behind `x`
      rcases hydrop with rfl | hy
      · omega
      · have := hpos y hy
        omega
    · exact hx

/-- The entries from `Begin()` to `Begin(key)`. -/
theorem Ordered.mem_itemsTo (ho : i.Ordered) (k : α) (x : Option α × RowId) :
    x ∈ i.itemsTo (i.beginAt (some k)) ↔
      x ∈ i.items ∧ (i.Gap k ∨ compareKeys x.1 (some k) < 0) := by
  rcases ho.beginAt_cases k with ⟨hb, hgap, _⟩ | ⟨hb, hgap, hall⟩ | ⟨n, hb, hgap, hbelow, habove⟩
  · rw [hb]
    exact (and_iff_left (.inl hgap)).symm
  · rw [hb]
    exact (and_iff_left_of_imp (fun hx => .inr (hall x hx))).symm
  · rw [hb]
    show x ∈ i.items.take n ↔ _
    rw [(mem_drop_of_parts hbelow habove x).2, or_iff_right hgap]

/-- The entries from `Begin(key)` to `End()`. -/
theorem Ordered.mem_itemsFrom (ho : i.Ordered) (k : α) (x : Option α × RowId) :
    x ∈ i.itemsFrom (i.beginAt (some k)) ↔
      x ∈ i.items ∧ (¬ i.Gap k ∧ 0 ≤ compareKeys x.1 (some k)) := by
  rcases ho.beginAt_cases k with ⟨hb, hgap, _⟩ | ⟨hb, hgap, hall⟩ | ⟨n, hb, hgap, hbelow, habove⟩
  · simp [hb, itemsFrom, hgap]
  · rw [hb]
    refine ⟨fun hx => absurd hx List.not_mem_nil, fun hx => ?_⟩
    have := hall x hx.1
    have := hx.2.2
    omega
  · rw [hb, and_iff_right hgap]
    exact (mem_drop_of_parts hbelow habove x).1

/-- The entries from `Begin(key)` to `End()`, less the entry of the key itself. -/
theorem Ordered.mem_itemsFrom_next (ho : i.Ordered) (k : α) (x : Option α × RowId) :
    x ∈ i.itemsFrom (if (i.getValue (some k)).isSome
        then (i.beginAt (some k)).map (fun n => n + 1) else i.beginAt (some k)) ↔
      x ∈ i.items ∧ (¬ i.Gap k ∧ 0 < compareKeys x.1 (some k)) := by
  cases hget : i.getValue (some k) with
  | none =>
    rw [Option.isSome_none, if_neg Bool.false_ne_true, ho.mem_itemsFrom]
    refine and_congr_right (fun hx => and_congr_right (fun _ => ?_))
    have hne : compareKeys x.1 (some k) ≠ 0 := by
      intro hx0
      rw [(ho.getValue_eq_some k x.2).mpr ⟨x.1, hx, hx0⟩] at hget
      cases hget
    exact ⟨fun h => by omega, fun h => by omega⟩
  | some rid =>
    obtain ⟨v, hv, hv0⟩ := (ho.getValue_eq_some k rid).mp hget
    rw [Option.isSome_some, if_pos rfl]
    rcases ho.beginAt_cases k with ⟨_, _, hne⟩ | ⟨_, _, hall⟩ | ⟨n, hb, hgap, hbelow, habove⟩
    · exact absurd hv0 (hne _ hv)
    · exact absurd hv0 (Int.ne_of_lt (hall _ hv))
    · rw [hb, and_iff_right hgap]
      exact ho.mem_drop_succ hbelow habove hv hv0 x

/-- The row ids of all entries, less that of the entry of the key. -/
theorem Ordered.mem_ne (ho : i.Ordered) (hnodup : (i.items.map Prod.snd).Nodup) (k : α)
    (rid : RowId) :
    rid ∈ i.scanKey (some k) .ne ↔ ∃ v, (v, rid) ∈ i.items ∧ compareKeys v (some k) ≠ 0 := by
  unfold scanKey
  dsimp only
  cases hget : i.getValue (some k) with
  | none =>
    dsimp only
    rw [mem_map_snd]
    refine exists_congr (fun v => (and_iff_left_of_imp ?_).symm)
    intro hv hv0
    rw [(ho.getValue_eq_some k rid).mpr ⟨v, hv, hv0⟩] at hget
    cases hget
  | some rid' =>
    obtain ⟨v', hv', hv0'⟩ := (ho.getValue_eq_some k rid').mp hget
    dsimp only
    rw [hnodup.mem_erase_iff, mem_map_snd]
    constructor
    · rintro ⟨hne, v, hv⟩
      refine ⟨v, hv, fun hv0 => hne ?_⟩
      exact congrArg Prod.snd (ho.eq_of_zero hv hv' hv0 hv0')
    · rintro ⟨v, hv, hv0⟩
      refine ⟨?_, v, hv⟩
      rintro rfl
      have heq := List.inj_on_of_nodup_map hnodup hv hv' rfl
      cases heq
      exact hv0 hv0'

/-- Which row ids a scan for a value returns. -/
theorem Ordered.mem_scanKey_some (ho : i.Ordered) (hnodup : (i.items.map Prod.snd).Nodup)
    (compareOperator : ComparisonType) (k : α) (rid : RowId) :
    rid ∈ i.scanKey (some k) compareOperator ↔
      ∃ v, (v, rid) ∈ i.items ∧ i.FindsValue compareOperator k v := by
  cases compareOperator with
  | eq =>
    show rid ∈ (i.getValue (some k)).toList ↔ _
    rw [Option.mem_toList]
    exact ho.getValue_eq_some k rid
  | ne => exact ho.mem_ne hnodup k rid
  | lt => exact mem_map_snd.trans (exists_congr (fun v => ho.mem_itemsTo k (v, rid)))
  | le =>
    show rid ∈ (i.itemsTo (i.beginAt (some k))).map Prod.snd ++ (i.getValue (some k)).toList ↔ _
    rw [List.mem_append, mem_map_snd, Option.mem_toList, ho.getValue_eq_some k rid, ← exists_or]
    refine exists_congr (fun v => ?_)
    rw [ho.mem_itemsTo, ← and_or_left, or_assoc, ← Int.le_iff_lt_or_eq]
    rfl
  | gt => exact mem_map_snd.trans (exists_congr (fun v => ho.mem_itemsFrom_next k (v, rid)))
  | ge => exact mem_map_snd.trans (exists_congr (fun v => ho.mem_itemsFrom k (v, rid)))
  | is => simp [scanKey, FindsValue]
  | not => simp [scanKey, FindsValue]

/-- The place at which `Lookup` stops for a null. -/
def nullMiddle (i : BPlusTreeIndex α) : Nat :=
  i.entriesBefore none + ((i.findLeafPage none).getD []).length.pred / 2

/-- The entries that a scan for a null finds, by their places. -/
def FindsNull (i : BPlusTreeIndex α) (compareOperator : ComparisonType) (place : Nat) : Prop :=
  match compareOperator with
  | .eq => place = i.nullMiddle
  | .ne => place ≠ i.nullMiddle
  | .lt => place < i.entriesBefore none
  | .le => place < i.entriesBefore none ∨ place = i.nullMiddle
  | .gt => i.entriesBefore none < place
  | .ge => i.entriesBefore none ≤ place
  | .is => False
  | .not => False

omit [LinearOrder α] in
/-- The entries from a place on. -/
theorem mem_drop_iff_place {n : Nat} :
    x ∈ l.drop n ↔ ∃ place, l[place]? = some x ∧ n ≤ place := by
  rw [List.mem_iff_getElem?]
  constructor
  · rintro ⟨m, hm⟩
    exact ⟨n + m, by rwa [List.getElem?_drop] at hm, Nat.le_add_right n m⟩
  · rintro ⟨place, hplace, hle⟩
    exact ⟨place - n, by rw [List.getElem?_drop, Nat.add_sub_cancel' hle, hplace]⟩

omit [LinearOrder α] in
/-- The entries before a place. -/
theorem mem_take_iff_place {n : Nat} :
    x ∈ l.take n ↔ ∃ place, l[place]? = some x ∧ place < n := by
  rw [List.mem_iff_getElem?]
  refine exists_congr (fun place => ?_)
  rw [List.getElem?_take]
  by_cases hlt : place < n
  · simp [hlt]
  · simp [hlt]

/-- Where the searches stop for a null. -/
theorem Ordered.stops_null (ho : i.Ordered) (hne : i.items ≠ []) :
    i.beginAt none = some (i.entriesBefore none) ∧
      ∃ x, i.items[i.nullMiddle]? = some x ∧ i.getValue none = some x.2 := by
  rcases ho.leaf_cases none with ⟨hleaves, _⟩ | ⟨leaf, hleaf, hleafne⟩
  · exact absurd (by simp [items, hleaves]) hne
  · have hlen : 0 < leaf.length := List.length_pos_iff.mpr hleafne
    have hmid : (leaf.length - 1) / 2 < leaf.length := by omega
    refine ⟨?_, leaf[(leaf.length - 1) / 2], ?_, ?_⟩
    · simp only [beginAt, hleaf, LeafEntries.keyIndex_none, entriesBefore]
      rw [if_neg (by omega), Nat.add_zero]
    · have hplace : i.nullMiddle = (i.leaves.take (i.leafOf none)).flatten.length +
          (leaf.length - 1) / 2 := by
        simp [nullMiddle, entriesBefore, hleaf]
      rw [items_split hleaf, hplace, List.getElem?_append_right (Nat.le_add_right _ _),
        Nat.add_sub_cancel_left, List.getElem?_append_left hmid, List.getElem?_eq_getElem hmid]
    · simp [getValue, hleaf, LeafEntries.lookup_none, hmid]

omit [LinearOrder α] in
/-- A row id stands in one place only. -/
theorem eq_place (hnodup : (i.items.map Prod.snd).Nodup) {p q : Nat} (hp : i.items[p]? = some x)
    (hq : i.items[q]? = some y) (hxy : x.2 = y.2) : p = q := by
  obtain ⟨hplt, hpx⟩ := List.getElem?_eq_some_iff.mp hp
  obtain ⟨hqlt, hqy⟩ := List.getElem?_eq_some_iff.mp hq
  refine (List.getElem?_inj (by simpa using hplt) hnodup).mp ?_
  simp [hp, hq, hxy]

/-- A scan of an empty index finds nothing. -/
theorem Ordered.scanKey_empty (ho : i.Ordered) (hempty : i.items = []) (key : Option α)
    (compareOperator : ComparisonType) : i.scanKey key compareOperator = [] := by
  have hnone : i.findLeafPage key = none := by
    rcases ho.leaf_cases key with ⟨_, hnone⟩ | ⟨leaf, hleaf, hne⟩
    · exact hnone
    · rw [items_split hleaf, List.append_eq_nil_iff, List.append_eq_nil_iff] at hempty
      exact absurd hempty.2.1 hne
  cases compareOperator <;>
    simp [scanKey, getValue, beginAt, hnone, itemsFrom, itemsTo, hempty]

/-- Which row ids a scan for a null returns. -/
theorem Ordered.mem_scanKey_none (ho : i.Ordered) (hnodup : (i.items.map Prod.snd).Nodup)
    (compareOperator : ComparisonType) (rid : RowId) :
    rid ∈ i.scanKey none compareOperator ↔
      ∃ v place, i.items[place]? = some (v, rid) ∧ i.FindsNull compareOperator place := by
  by_cases hne : i.items = []
  · simp [ho.scanKey_empty hne, hne]
  · obtain ⟨hbegin, x, hx, hget⟩ := ho.stops_null hne
    have hvalue : rid ∈ (i.getValue none).toList ↔
        ∃ v place, i.items[place]? = some (v, rid) ∧ place = i.nullMiddle := by
      rw [hget]
      constructor
      · intro h
        have : x.2 = rid := by simpa [eq_comm] using h
        exact ⟨x.1, i.nullMiddle, by rw [hx, ← this], rfl⟩
      · rintro ⟨v, place, hplace, rfl⟩
        rw [hx] at hplace
        cases hplace
        simp
    cases compareOperator with
    | eq => exact hvalue
    | ne =>
      simp only [scanKey, hget]
      rw [hnodup.mem_erase_iff, mem_map_snd]
      constructor
      · rintro ⟨hrid, v, hv⟩
        obtain ⟨place, hplace⟩ := List.mem_iff_getElem?.mp hv
        refine ⟨v, place, hplace, fun hmid => hrid ?_⟩
        rw [hmid, hx] at hplace
        cases hplace
        rfl
      · rintro ⟨v, place, hplace, hmid⟩
        exact ⟨fun hrid => hmid (eq_place hnodup hplace hx hrid), v,
          List.mem_iff_getElem?.mpr ⟨place, hplace⟩⟩
    | lt =>
      show rid ∈ (i.itemsTo (i.beginAt none)).map Prod.snd ↔ _
      rw [hbegin, mem_map_snd]
      exact exists_congr (fun v => mem_take_iff_place)
    | le =>
      show rid ∈ (i.itemsTo (i.beginAt none)).map Prod.snd ++ (i.getValue none).toList ↔ _
      rw [hbegin, List.mem_append, mem_map_snd, hvalue, ← exists_or]
      refine exists_congr (fun v => ?_)
      show (v, rid) ∈ i.items.take _ ∨ _ ↔ _
      rw [mem_take_iff_place, ← exists_or]
      exact exists_congr (fun place => and_or_left.symm)
    | gt =>
      show rid ∈ (i.itemsFrom (if (i.getValue none).isSome
        then (i.beginAt none).map (fun n => n + 1) else i.beginAt none)).map Prod.snd ↔ _
      rw [hbegin, hget, mem_map_snd]
      exact exists_congr (fun v => mem_drop_iff_place)
    | ge =>
      show rid ∈ (i.itemsFrom (i.beginAt none)).map Prod.snd ↔ _
      rw [hbegin, mem_map_snd]
      exact exists_congr (fun v => mem_drop_iff_place)
    | is => simp [scanKey, FindsNull]
    | not => simp [scanKey, FindsNull]

/-- The entries that a scan finds. -/
def Finds (i : BPlusTreeIndex α) (compareOperator : ComparisonType) (key v : Option α)
    (rid : RowId) : Prop :=
  match key with
  | some k => i.FindsValue compareOperator k v
  | none => ∃ place, i.items[place]? = some (v, rid) ∧ i.FindsNull compareOperator place

/-- Which row ids a scan returns. -/
theorem Ordered.mem_scanKey (ho : i.Ordered) (hnodup : (i.items.map Prod.snd).Nodup)
    (compareOperator : ComparisonType) (key : Option α) (rid : RowId) :
    rid ∈ i.scanKey key compareOperator ↔
      ∃ v, (v, rid) ∈ i.items ∧ i.Finds compareOperator key v rid := by
  cases key with
  | some k => exact ho.mem_scanKey_some hnodup compareOperator k rid
  | none =>
    rw [ho.mem_scanKey_none hnodup]
    refine exists_congr (fun v => (and_iff_right_of_imp ?_).symm)
    rintro ⟨place, hplace, _⟩
    exact List.mem_iff_getElem?.mpr ⟨place, hplace⟩

end BPlusTreeIndex

/-! ### The leaves of the pages -/

open DisMiniSql.Lib

/-- A record of a leaf page, as an entry of an index without nulls. -/
def entryOf (e : α × RowId) : Option α × RowId := (some e.1, e.2)

/-- The index of some leaves, where `place` says which of them a key leads to. -/
def indexOf (leaves : List (Leaf PageId α RowId)) (place : α → Nat) : BPlusTreeIndex α where
  leaves := leaves.map (fun leaf => leaf.entries.map entryOf)
  leafOf := fun key => (key.map place).getD 0

omit [LinearOrder α] in
/-- The entries of the leaves, as the index of the planner sees them. -/
theorem flatten_entryOf (leaves : List (Leaf PageId α RowId)) :
    (leaves.map (fun leaf => leaf.entries.map entryOf)).flatten =
      (leaves.flatMap Leaf.entries).map entryOf := by
  rw [List.map_flatMap, List.flatMap_def]

/-- The leaves of a represented tree are an index, and its `FindLeafPage` is that of the pages. -/
theorem Represents.exists_index {lm im : Nat} {t : BPlusTree α RowId}
    {T : (h : Nat) × STree PageId α RowId h} (hr : Represents lm im t T)
    (hfull : ∀ l ∈ T.2.leaves, l.entries ≠ []) :
    ∃ i : BPlusTreeIndex α, i.Ordered ∧ i.items = T.2.pairs.map entryOf ∧
      ∀ k, ∃ id page, t.findLeafPage k = some (some (id, page)) ∧
        i.findLeafPage (some k) = some (page.pairs.map entryOf) := by
  -- the leaf to which the search for each key leads
  choose c l page hplug hadm hshow hfind using fun k => hr.findLeafPage k
  have hleaves : ∀ k, T.2.leaves = (c k).leavesPre ++ (l k :: (c k).leavesPost) := by
    intro k
    have := Ctx.leaves_plug (c k) (.leaf (l k))
    rw [hplug k] at this
    exact this
  have htake : ∀ k, (T.2.leaves.map (fun leaf => leaf.entries.map entryOf)).take
      (c k).leavesPre.length = (c k).leavesPre.map (fun leaf => leaf.entries.map entryOf) := by
    intro k
    rw [hleaves k, ← List.map_take, List.take_left]
  have hdrop : ∀ k, (T.2.leaves.map (fun leaf => leaf.entries.map entryOf)).drop
      ((c k).leavesPre.length + 1) =
        (c k).leavesPost.map (fun leaf => leaf.entries.map entryOf) := by
    intro k
    rw [hleaves k, ← List.map_drop, List.drop_length_add_append]
    rfl
  refine ⟨indexOf T.2.leaves (fun k => (c k).leavesPre.length), ?_,
    flatten_entryOf T.2.leaves, ?_⟩
  · refine ⟨?_, ?_, ?_, ?_, ?_⟩
    · intro leaf hleaf
      obtain ⟨l', hl', rfl⟩ := List.mem_map.mp hleaf
      exact fun hnil => hfull l' hl' (List.map_eq_nil_iff.mp hnil)
    · have hkeys := STree.keys_pairwise hr.ordered
      rw [STree.keys, List.pairwise_map] at hkeys
      show ((T.2.leaves.map (fun leaf => leaf.entries.map entryOf)).flatten).Pairwise _
      rw [flatten_entryOf, List.pairwise_map]
      exact hkeys.imp (fun hlt => (compareKeys_some_neg _ _).mpr hlt)
    · intro key hne
      cases key with
      | none => exact List.length_pos_iff.mpr hne
      | some k =>
        show (c k).leavesPre.length < (T.2.leaves.map _).length
        rw [hleaves k]
        simp
    · intro k x hx
      have hx : x ∈ ((T.2.leaves.map (fun leaf => leaf.entries.map entryOf)).take
        (c k).leavesPre.length).flatten := hx
      rw [htake k, flatten_entryOf] at hx
      obtain ⟨e, he, rfl⟩ := List.mem_map.mp hx
      have hitem : keyItem e.1 ∈ (c k).pre :=
        (c k).recordItems_leavesPre_sublist.subset (List.mem_map.mpr ⟨e, he, rfl⟩)
      exact (compareKeys_some_neg _ _).mpr (keyItem_lt_keyItem.mp ((hadm k).1 _ hitem))
    · intro k x hx
      have hx : x ∈ ((T.2.leaves.map (fun leaf => leaf.entries.map entryOf)).drop
        ((c k).leavesPre.length + 1)).flatten := hx
      rw [hdrop k, flatten_entryOf] at hx
      obtain ⟨e, he, rfl⟩ := List.mem_map.mp hx
      have hitem : keyItem e.1 ∈ (c k).post :=
        (c k).recordItems_leavesPost_sublist.subset (List.mem_map.mpr ⟨e, he, rfl⟩)
      exact (compareKeys_some_pos _ _).mpr (keyItem_lt_keyItem.mp ((hadm k).2 _ hitem))
  · intro k
    refine ⟨(l k).id, page k, hfind k, ?_⟩
    obtain ⟨-, -, -, -, -, hpairs⟩ := hshow k
    show (T.2.leaves.map (fun leaf => leaf.entries.map entryOf))[(c k).leavesPre.length]? = _
    rw [hleaves k, hpairs, List.getElem?_map, List.getElem?_append_right (Nat.le_refl _),
      Nat.sub_self]
    rfl

end DisMiniSql.MiniSql
