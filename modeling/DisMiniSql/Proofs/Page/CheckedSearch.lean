import DisMiniSql.MiniSql.Page.CheckedSearch
import DisMiniSql.Proofs.Page.InternalPage
import DisMiniSql.Proofs.Page.LeafPage

/-!
# `DisMiniSql.Proofs.Page.CheckedSearch`: the searches end, and read slots in use

The theorems `checked*_eq` say that a search with its reads written out has a result, and that it is
that of the search without them. What the result is then follows from what is known of the latter.
`node_searches_correct` states it for both kinds of pages.
-/

set_option autoImplicit false

namespace DisMiniSql.MiniSql

variable {κ ν : Type}

namespace LeafPage

variable {p : LeafPage κ ν} {key : κ}

/-- Reading a slot below the size succeeds. -/
theorem readKey_eq {i : Nat} (h : i < p.size) : p.readKey i = some (p.keyAt i) := by
  simp [readKey, h]

variable [LinearOrder κ]

/-! ### The reads -/

/-- Induction on the fuel, with the bounds of the search free: the middle lies below `right`, so
below the size, and the read of it succeeds. -/
theorem checkedKeyIndexLoop_eq (p : LeafPage κ ν) (key : κ) (fuel left right : Nat)
    (hfuel : right - left ≤ fuel) (hright : right ≤ p.size) :
    p.checkedKeyIndexLoop key (fuel + 1) left right =
      some (p.keyIndexLoop key fuel left right) := by
  induction fuel generalizing left right with
  | zero =>
    have hnot : ¬ left < right := by omega
    simp [checkedKeyIndexLoop, keyIndexLoop, hnot]
  | succ fuel ih =>
    rw [checkedKeyIndexLoop, keyIndexLoop]
    by_cases hlt : left < right
    · rw [if_pos hlt, if_pos hlt]
      -- the middle is a slot in use
      have hread : p.readKey ((left + right) / 2 : Nat) = some (p.keyAt ((left + right) / 2)) :=
        readKey_eq (by omega)
      simp only [hread, Option.bind_eq_bind, Option.bind_some]
      by_cases hmid : p.keyAt ((left + right) / 2) < key
      · rw [if_pos hmid, if_pos hmid]
        exact ih _ _ (by omega) hright
      · rw [if_neg hmid, if_neg hmid]
        exact ih _ _ (by omega) (by omega)
    · rw [if_neg hlt, if_neg hlt]

/-- `KeyIndex` never reads a slot outside the page. -/
theorem checkedKeyIndex_eq (p : LeafPage κ ν) (key : κ) :
    p.checkedKeyIndex key = some (p.keyIndex key) :=
  checkedKeyIndexLoop_eq p key p.size 0 p.size (Nat.sub_le _ _) (Nat.le_refl _)

/-- The same for the loop of `Lookup`, whose right bound is included: `right < size` is kept, and
the interval shrinks on both sides. -/
theorem checkedLookupLoop_eq (p : LeafPage κ ν) (key : κ) (fuel : Nat) (left right : Int)
    (hfuel : right - left < fuel) (hleft : 0 ≤ left) (hright : right < p.size) :
    p.checkedLookupLoop key (fuel + 1) left right = some (p.lookupLoop key fuel left right) := by
  induction fuel generalizing left right with
  | zero =>
    have hnot : ¬ left ≤ right := by omega
    simp [checkedLookupLoop, lookupLoop, hnot]
  | succ fuel ih =>
    rw [checkedLookupLoop, lookupLoop]
    by_cases hle : left ≤ right
    · rw [if_pos hle, if_pos hle]
      have hmid : 0 ≤ (left + right) / 2 ∧ (left + right) / 2 < p.size := by omega
      have hcast : (((left + right) / 2).toNat : Int) = (left + right) / 2 := by omega
      simp only [readKey, readValue, if_pos hmid, Option.bind_eq_bind, Option.bind_some, hcast]
      by_cases heq : p.keyAt ((left + right) / 2).toNat = key
      · simp [heq]
      · rw [if_neg heq, if_neg heq]
        by_cases hlt : p.keyAt ((left + right) / 2).toNat < key
        · rw [if_pos hlt, if_pos hlt]
          exact ih _ _ (by omega) (by omega) hright
        · rw [if_neg hlt, if_neg hlt]
          exact ih _ _ (by omega) hleft (by omega)
    · rw [if_neg hle, if_neg hle]

/-- `Lookup` of a leaf never reads a slot outside the page. -/
theorem checkedLookup_eq (p : LeafPage κ ν) (key : κ) :
    p.checkedLookup key = some (p.lookup key) :=
  checkedLookupLoop_eq p key p.size 0 (p.size - 1) (by omega) (Int.le_refl 0) (by omega)

/-- `Insert` reads what `KeyIndex` reads and nothing more. -/
theorem checkedInsert_eq (p : LeafPage κ ν) (key : κ) (value : ν) :
    p.checkedInsert key value = some (p.size + 1, p.insert key value) := by
  simp [checkedInsert, checkedKeyIndex_eq, insert]

/-- `RemoveAndDeleteRecord` reads the slot it found only after comparing it with the size. -/
theorem checkedRemove_eq (p : LeafPage κ ν) (key : κ) :
    p.checkedRemove key = some
      (if p.keyIndex key < p.size ∧ p.keyAt (p.keyIndex key) = key then ((p.size : Int) - 1)
        else -1,
        p.removeAndDeleteRecord key) := by
  simp only [checkedRemove, checkedKeyIndex_eq, removeAndDeleteRecord, Option.bind_eq_bind,
    Option.bind_some]
  by_cases hlt : p.keyIndex key < p.size
  · by_cases heq : p.keyAt (p.keyIndex key) = key
    · have hsize : ((p.size - 1 : Nat) : Int) = (p.size : Int) - 1 := by omega
      simp [hlt, readKey_eq hlt, heq, hsize]
    · simp [hlt, readKey_eq hlt, heq]
  · simp [hlt]

/-! ### The results -/

/-- The keys in front of a pair and behind it. -/
theorem Sorted.split (hs : p.Sorted) {l r : List (κ × ν)} {e : κ × ν}
    (hsplit : p.pairs = l ++ e :: r) : (∀ d ∈ l, d.1 < e.1) ∧ ∀ d ∈ r, e.1 < d.1 := by
  have hpairs : (p.pairs.map Prod.fst).Pairwise (· < ·) := hs
  rw [hsplit, List.map_append, List.map_cons, List.pairwise_append, List.pairwise_cons] at hpairs
  constructor
  · intro d hd
    exact hpairs.2.2 _ (List.mem_map_of_mem hd) _ (by simp)
  · intro d hd
    exact hpairs.2.1.1 _ (List.mem_map_of_mem hd)

/-- `KeyIndex` counts the keys below the one sought, which says where it would stand. -/
theorem keyIndex_eq_countP (hs : p.Sorted) (key : κ) :
    p.keyIndex key = p.pairs.countP (·.1 < key) := by
  obtain ⟨l, r, hsplit, hlen, hlo, hhi⟩ := exists_keyIndex_split hs key
  have hl : l.countP (·.1 < key) = l.length := by
    rw [List.countP_eq_length]
    intro e he
    simpa using hlo e he
  have hr : r.countP (·.1 < key) = 0 := by
    rw [List.countP_eq_zero]
    intro e he
    simpa using hhi e he
  rw [hsplit, List.countP_append, hl, hr, Nat.add_zero, hlen]

/-- A key that increases has one pair at most. -/
theorem lookup_pairs_iff (hs : p.Sorted) (key : κ) (v : ν) :
    p.pairs.lookup key = some v ↔ (key, v) ∈ p.pairs := by
  rw [List.lookup_eq_some_iff]
  constructor
  · rintro ⟨l, r, hsplit, -⟩
    simp [hsplit]
  · intro hmem
    obtain ⟨l, r, hsplit⟩ := List.append_of_mem hmem
    refine ⟨l, r, hsplit, fun d hd => ?_⟩
    have hlt : d.1 < key := (hs.split hsplit).1 d hd
    simpa using ne_of_gt hlt

/-- On a sorted leaf the binary search finds what a linear search finds. -/
theorem lookup_eq_lookup_pairs (hs : p.Sorted) (key : κ) : p.lookup key = p.pairs.lookup key := by
  apply Option.ext
  intro v
  rw [lookup_eq_some_iff hs, lookup_pairs_iff hs]

/-- An absent key is added in its place: the pairs are those of before and the new one, and stay
sorted. -/
theorem insert_absent (hs : p.Sorted) (habsent : key ∉ p.pairs.map Prod.fst) (value : ν) :
    (p.insert key value).pairs.Perm ((key, value) :: p.pairs) ∧
      ((p.insert key value).pairs.map Prod.fst).Pairwise (· < ·) := by
  obtain ⟨l, r, hsplit, hlo, hhi, hinsert⟩ := insert_pairs hs key value
  have hpairs : (p.pairs.map Prod.fst).Pairwise (· < ·) := hs
  have hr : ∀ e ∈ r, key < e.1 := by
    intro e he
    apply lt_of_le_of_ne (hhi e he)
    rintro rfl
    exact habsent (List.mem_map_of_mem (by simp [hsplit, he]))
  rw [hsplit, List.map_append, List.pairwise_append] at hpairs
  rw [hinsert, hsplit]
  refine ⟨List.perm_middle, ?_⟩
  rw [List.map_append, List.map_cons, List.pairwise_append, List.pairwise_cons]
  refine ⟨hpairs.1, ⟨?_, hpairs.2.1⟩, ?_⟩
  · simpa using fun k v he => hr (k, v) he
  · intro k hk k' hk'
    obtain ⟨d, hd, rfl⟩ := List.mem_map.mp hk
    -- the new key itself, or one of the right half
    rcases List.mem_cons.mp hk' with rfl | hk'
    · exact hlo d hd
    · exact hpairs.2.2 _ hk _ hk'

/-- The test after `KeyIndex`, in range and equal, asks exactly whether the key is there. -/
theorem keyIndex_found_iff (hs : p.Sorted) (key : κ) :
    (p.keyIndex key < p.size ∧ p.keyAt (p.keyIndex key) = key) ↔ key ∈ p.pairs.map Prod.fst := by
  constructor
  · rintro ⟨hlt, heq⟩
    have hmem : p.data (p.keyIndex key) ∈ p.pairs := mem_pairs.mpr ⟨_, hlt, rfl⟩
    exact heq ▸ List.mem_map_of_mem hmem
  · intro hmem
    by_contra hnot
    rcases remove_pairs hs key with ⟨habsent, -⟩ | ⟨l, v, r, data, hsplit, heq, -⟩
    · exact habsent hmem
    · -- the page would be left as it is
      have hsame : p.removeAndDeleteRecord key = p := if_neg hnot
      rw [hsame] at heq
      have hsize : p.size = p.size - 1 := congrArg LeafPage.size heq
      have hlength := congrArg List.length hsplit
      simp only [length_pairs, List.length_append, List.length_cons] at hlength
      omega

/-- A present key is taken out, and only it: the keys of both halves differ from it. -/
theorem remove_present (hs : p.Sorted) (hpresent : key ∈ p.pairs.map Prod.fst) :
    (p.removeAndDeleteRecord key).pairs = p.pairs.filter (·.1 ≠ key) := by
  rcases remove_pairs hs key with ⟨habsent, -⟩ | ⟨l, v, r, data, hsplit, heq, hslots, -⟩
  · exact absurd hpresent habsent
  · obtain ⟨hlo, hhi⟩ := hs.split hsplit
    have hl : l.filter (·.1 ≠ key) = l := by
      rw [List.filter_eq_self]
      intro d hd
      simpa using ne_of_lt (hlo d hd)
    have hr : r.filter (·.1 ≠ key) = r := by
      rw [List.filter_eq_self]
      intro d hd
      simpa using ne_of_gt (hhi d hd)
    have hpairs : (p.removeAndDeleteRecord key).pairs = l ++ r := by
      rw [heq]
      exact hslots
    rw [hpairs, hsplit, List.filter_append, List.filter_cons_of_neg (by simp), hl, hr]

/-- The four searches and changes of a sorted leaf, as the specification asks for them. -/
theorem Sorted.searchesAs (hs : p.Sorted) (key : κ) (value : ν) : p.SearchesAs key value where
  keyIndex := by rw [checkedKeyIndex_eq, keyIndex_eq_countP hs]
  lookup := by rw [checkedLookup_eq, lookup_eq_lookup_pairs hs]
  insert habsent := ⟨_, checkedInsert_eq p key value, insert_absent hs habsent value⟩
  removeAbsent habsent := by
    have hnot := (keyIndex_found_iff hs key).not.mpr habsent
    have hsame : p.removeAndDeleteRecord key = p := if_neg hnot
    rw [checkedRemove_eq, if_neg hnot, hsame]
  remove hpresent := by
    have hfound := (keyIndex_found_iff hs key).mpr hpresent
    refine ⟨_, ?_, remove_present hs hpresent⟩
    rw [checkedRemove_eq, if_pos hfound]

end LeafPage

namespace InternalPage

variable [LinearOrder κ] {p : InternalPage κ} {key : κ}

/-! ### An internal page -/

omit [LinearOrder κ] in
/-- The keys of an inner page start at slot 1. -/
theorem readKey_eq {i : Int} (h : 1 ≤ i ∧ i < p.size) : p.readKey i = some (p.keyAt i.toNat) :=
  if_pos h

omit [LinearOrder κ] in
/-- Its children start at slot 0. -/
theorem readValue_eq {i : Int} (h : 0 ≤ i ∧ i < p.size) :
    p.readValue i = some (p.valueAt i.toNat) :=
  if_pos h

/-- The loop stays between the second slot and the last one but one. -/
theorem checkedLookupLoop_eq (p : InternalPage κ) (key : κ) (fuel : Nat) (left right : Int)
    (hfuel : right - left < fuel) (hleft : 1 ≤ left) (hle : left ≤ right + 1)
    (hright : right + 1 < p.size) :
    p.checkedLookupLoop key (fuel + 1) left right = some (p.lookupLoop key fuel left right) := by
  induction fuel generalizing left right with
  | zero =>
    have hnot : ¬ left ≤ right := by omega
    rw [checkedLookupLoop, lookupLoop, if_neg hnot]
    exact readValue_eq (by omega)
  | succ fuel ih =>
    rw [checkedLookupLoop, lookupLoop]
    by_cases hlr : left ≤ right
    · rw [if_pos hlr, if_pos hlr]
      have hmid : left ≤ (left + right) / 2 ∧ (left + right) / 2 ≤ right := by omega
      have hcast : (((left + right) / 2).toNat : Int) = (left + right) / 2 := by omega
      have hnext : ((left + right) / 2 + 1).toNat = ((left + right) / 2).toNat + 1 := by omega
      have hread := readKey_eq (p := p) (i := (left + right) / 2) (by omega)
      have hreadNext := readKey_eq (p := p) (i := (left + right) / 2 + 1) (by omega)
      have hvalue := readValue_eq (p := p) (i := (left + right) / 2) (by omega)
      rw [hnext] at hreadNext
      simp only [hread, hreadNext, hvalue, Option.bind_eq_bind, Option.bind_some, Option.map_some,
        hcast]
      by_cases hfound : p.keyAt ((left + right) / 2).toNat ≤ key
      · by_cases hlt : key < p.keyAt (((left + right) / 2).toNat + 1)
        · simp [hfound, hlt]
        · have hnot : ¬ key < p.keyAt ((left + right) / 2).toNat := not_lt.mpr hfound
          simp only [hfound, hlt, hnot, if_true, if_false, and_false, decide_false,
            Bool.false_eq_true]
          exact ih _ _ (by omega) (by omega) (by omega) hright
      · have hlt : key < p.keyAt ((left + right) / 2).toNat := not_le.mp hfound
        simp only [hfound, hlt, if_true, if_false, false_and, Bool.false_eq_true]
        exact ih _ _ (by omega) hleft (by omega) (by omega)
    · rw [if_neg hlr, if_neg hlr]
      exact readValue_eq (by omega)

/-- `Lookup` of an inner page with two children or more reads valid slots only. -/
theorem checkedLookup_eq (p : InternalPage κ) (key : κ) (hsize : 2 ≤ p.size) :
    p.checkedLookup key = some (p.lookup key) := by
  have hfirst : p.readKey 1 = some (p.keyAt 1) := readKey_eq (by omega)
  have hlast := readKey_eq (p := p) (i := (p.size : Int) - 1) (by omega)
  have hvalue : p.readValue 0 = some (p.valueAt 0) := readValue_eq (by omega)
  have hlastValue := readValue_eq (p := p) (i := (p.size : Int) - 1) (by omega)
  have hcast : ((p.size : Int) - 1).toNat = p.size - 1 := by omega
  have hloop := checkedLookupLoop_eq p key p.size 1 (p.size - 2) (by omega) (by omega) (by omega)
    (by omega)
  rw [hcast] at hlast hlastValue
  simp only [checkedLookup, lookup, hfirst, hlast, hvalue, hlastValue, hloop, Option.bind_eq_bind,
    Option.bind_some]
  -- left of the first key the answer is child 0, without a search
  by_cases hlt : key < p.keyAt 1
  · rw [if_pos hlt, if_pos hlt]
  · rw [if_neg hlt, if_neg hlt]
    split <;> rfl

/-- `Lookup` is the child behind the largest key that is not above the given one. -/
theorem Increasing.searchesAs (h : p.Increasing) (hsize : 2 ≤ p.size) (key : κ) :
    p.SearchesAs key := by
  obtain ⟨l, e, r, hsplit, hlookup, hlo, hhi⟩ := lookup_spec p key hsize
  have hchecked := checkedLookup_eq p key hsize
  have hdata : p.data l.length = e := data_mid hsplit
  have hlength : p.size = l.length + 1 + r.length := by
    rw [← length_pairs, hsplit]
    simp
    omega
  have hvalue : p.checkedLookup key = some (p.valueAt l.length) := by
    rw [hchecked, hlookup, valueAt, hdata]
  -- the key behind the child is above the given one
  have hnext : l.length + 1 < p.size → key < p.keyAt (l.length + 1) := by
    intro hlt
    cases r with
    | nil => simp at hlength; omega
    | cons e' r =>
      have hdata' : p.data (l ++ [e]).length = e' := data_mid (by simpa using hsplit)
      rw [List.length_append, List.length_singleton] at hdata'
      rw [keyAt, hdata']
      exact hhi e' rfl
  have hbelow : l.length ≠ 0 → p.keyAt l.length ≤ key := by
    intro hne
    rw [keyAt, hdata]
    exact hlo (by simpa using hne)
  constructor
  · intro hfirst
    have hzero : l.length = 0 := by
      by_contra hne
      -- the first key would not be above a key that is not above the given one
      have hle : p.keyAt 1 ≤ p.keyAt l.length := by
        rcases Nat.lt_or_eq_of_le (Nat.one_le_iff_ne_zero.mpr hne) with hlt | heq
        · exact le_of_lt (h 1 l.length (Nat.le_refl 1) hlt (by omega))
        · rw [← heq]
      exact absurd (lt_of_lt_of_le hfirst hle) (not_lt.mpr (hbelow hne))
    rw [hvalue, hzero]
  · intro hfirst
    have hne : l.length ≠ 0 := by
      intro hzero
      have hlt := hnext (by omega)
      rw [hzero] at hlt
      exact absurd hfirst (not_le.mpr hlt)
    refine ⟨l.length, ⟨⟨Nat.one_le_iff_ne_zero.mpr hne, by omega, hbelow hne⟩, ?_⟩, hvalue⟩
    rintro j ⟨-, hj, hkey⟩
    by_contra hlt
    have hle : p.keyAt (l.length + 1) ≤ p.keyAt j := by
      rcases Nat.lt_or_eq_of_le (Nat.succ_le_of_lt (not_le.mp hlt)) with hlt' | heq
      · exact le_of_lt (h _ _ (by omega) hlt' hj)
      · rw [← heq]
    exact absurd (le_trans hle hkey) (not_le.mpr (hnext (by omega)))

end InternalPage

/-- For every total order of the keys: `Lookup` in an internal page of two children at least with
increasing keys, and the searches in a leaf page with increasing keys, end, read slots in use only
and are what they are for. -/
theorem node_searches_correct (κ ν : Type) [LinearOrder κ] :
    (∀ (p : InternalPage κ) (key : κ), 2 ≤ p.size → p.Increasing → p.SearchesAs key) ∧
      ∀ (p : LeafPage κ ν) (key : κ) (value : ν), (p.pairs.map Prod.fst).Pairwise (· < ·) →
        p.SearchesAs key value :=
  ⟨fun _ key hsize h => h.searchesAs hsize key, fun _ key value hs =>
    LeafPage.Sorted.searchesAs hs key value⟩

/-- An internal page of four children, and a leaf page of three pairs. -/
theorem node_searches_correct_nat :
    (⟨3, 0, 4, 8, fun i => (10 * i, i)⟩ : InternalPage Nat).SearchesAs 25 ∧
      (⟨4, 3, -1, 3, 8, fun i => (10 * i, i)⟩ : LeafPage Nat Nat).SearchesAs 25 7 := by
  constructor
  · refine (node_searches_correct Nat Nat).1 _ 25 (by decide) fun i j _ hij _ => ?_
    show 10 * i < 10 * j
    omega
  · exact (node_searches_correct Nat Nat).2 _ 25 7 (by decide)

end DisMiniSql.MiniSql
