import DisMiniSql.MiniSql.Executor.Executors
import DisMiniSql.Proofs.Storage.TableHeap
import Mathlib.Data.List.Pairwise

/-!
# Indexes and rows of a table, one operation at a time

`Holds` says that an index contains the entry of every row of the heap and no other entry.
`Wf` is what every run of statements keeps, also a run that goes wrong: the entries of an index
have different keys, and the columns of its key are columns of the table.

The lemmas of the last section say what each operation of the executors makes of `Holds`.
-/

set_option autoImplicit false

namespace DisMiniSql.MiniSql

variable {V : Type} {F : FieldOps V} {frames : Frames}

/-! ## Keys -/

/-- A key is the same as itself. -/
theorem FieldOps.sameKey_refl (F : FieldOps V) (k : List V) : F.sameKey k k = true := by
  induction k with
  | nil => rfl
  | cons a k ih => rw [sameKey, F.same_refl, ih, Bool.and_self]

/-- And the relation is symmetric. -/
theorem FieldOps.sameKey_symm (F : FieldOps V) (k k' : List V) :
    F.sameKey k k' = F.sameKey k' k := by
  induction k generalizing k' with
  | nil =>
    cases k' with
    | nil => rfl
    | cons b k' => rfl
  | cons a k ih =>
    cases k' with
    | nil => rfl
    | cons b k' => rw [sameKey, sameKey, F.same_symm, ih]

/-- The numbers of a key's columns are those of columns, each the first with its name. -/
def KeyColumns (columns : List String) (keyMap : List Nat) : Prop :=
  keyMap ≠ [] ∧ ∀ i ∈ keyMap, ∃ name, columns[i]? = some name ∧ columns.idxOf name = i

/-- The executors and `IndexInfo::Init` build the same key. -/
theorem KeyColumns.getKeyFromRow {columns : List String} {keyMap : List Nat}
    (h : KeyColumns columns keyMap) (row : List V) :
    MiniSql.getKeyFromRow columns keyMap row = keyMap.filterMap (fun i => row[i]?) := by
  refine List.filterMap_congr fun i hi => ?_
  obtain ⟨name, hname, hidx⟩ := h.2 i hi
  rw [hname, Option.bind_some, hidx]

/-- A row as wide as the table has a key that is not empty. -/
theorem KeyColumns.key_ne_nil {columns : List String} {keyMap : List Nat}
    (h : KeyColumns columns keyMap) {row : List V} (hrow : row.length = columns.length) :
    MiniSql.getKeyFromRow columns keyMap row ≠ [] := by
  rw [h.getKeyFromRow]
  obtain ⟨i, hi⟩ := List.exists_mem_of_ne_nil keyMap h.1
  obtain ⟨name, hname, _⟩ := h.2 i hi
  have hlt : i < row.length := hrow ▸ (List.getElem?_eq_some_iff.mp hname).1
  exact List.ne_nil_of_mem
    (List.mem_filterMap.mpr ⟨i, hi, List.getElem?_eq_getElem hlt⟩)

/-- The key columns that `CreateIndex` finds. -/
theorem keyColumns_of_keyMap {columns : List String} {keys : List String} {keyMap : List Nat}
    (h : Table.keyMap columns keys = some keyMap) :
    ∀ i ∈ keyMap, ∃ name, columns[i]? = some name ∧ columns.idxOf name = i := by
  unfold Table.keyMap at h
  induction keys generalizing keyMap with
  | nil =>
    cases h
    exact fun i hi => absurd hi List.not_mem_nil
  | cons key keys ih =>
    rw [List.mapM_cons, Option.bind_eq_bind, Option.bind_eq_some_iff] at h
    obtain ⟨i, hi, h⟩ := h
    rw [Option.bind_eq_bind, Option.bind_eq_some_iff] at h
    obtain ⟨is, his, h⟩ := h
    cases h
    obtain ⟨hlt, hname, hfirst⟩ := List.idxOf?_eq_some_iff.mp hi
    rw [List.forall_mem_cons]
    refine ⟨⟨key, ?_, ?_⟩, ih his⟩
    · rw [List.getElem?_eq_getElem hlt, hname]
    · refine (List.findIdx_eq hlt).mpr ⟨by simp [hname], fun j hj => ?_⟩
      simpa using hfirst j hj

/-- The key map of column names gives columns of the table. -/
theorem keyColumns_keyMap {columns : List String} {key : String} {keys : List String}
    {keyMap : List Nat} (h : Table.keyMap columns (key :: keys) = some keyMap) :
    KeyColumns columns keyMap := by
  refine ⟨?_, keyColumns_of_keyMap h⟩
  rintro rfl
  unfold Table.keyMap at h
  rw [List.mapM_cons, Option.bind_eq_bind, Option.bind_eq_some_iff] at h
  obtain ⟨i, _, h⟩ := h
  rw [Option.bind_eq_bind, Option.bind_eq_some_iff] at h
  obtain ⟨is, _, h⟩ := h
  cases h

/-! ## Entries -/

namespace IndexEntries

variable {index : IndexEntries V}

/-- No two entries have the same key. -/
def IsMap (F : FieldOps V) (index : IndexEntries V) : Prop :=
  index.Pairwise (fun e e' => F.sameKey e.1 e'.1 = false)

/-- Two entries with the same key are one entry. -/
theorem IsMap.eq_of_sameKey (h : IsMap F index) {e e' : List V × RowId} (he : e ∈ index)
    (he' : e' ∈ index) (hkey : F.sameKey e.1 e'.1 = true) : e = e' := by
  by_contra hne
  have hsymm : Std.Symm (fun e e' : List V × RowId => F.sameKey e.1 e'.1 = false) :=
    ⟨fun a b hab => by rw [F.sameKey_symm]; exact hab⟩
  have := List.Pairwise.forall h he he' hne
  rw [hkey] at this
  cases this

/-- An index finds a key exactly when it has an entry with that key. -/
theorem scanKey_isSome (key : List V) :
    (index.scanKey F key).isSome = true ↔ ∃ e ∈ index, F.sameKey key e.1 = true := by
  unfold scanKey
  rw [Option.isSome_map, List.find?_isSome]

/-- A key that is not there is added. -/
theorem insertEntry_of_new {key : List V} (h : ∀ e ∈ index, F.sameKey key e.1 = false)
    (rid : RowId) : index.insertEntry F key rid = index ++ [(key, rid)] := by
  unfold insertEntry
  rw [if_neg]
  intro hsome
  obtain ⟨e, he, hkey⟩ := (scanKey_isSome key).mp hsome
  rw [h e he] at hkey
  cases hkey

/-- An insert adds its own entry at most. -/
theorem mem_of_mem_insertEntry {key : List V} {rid : RowId} {e : List V × RowId}
    (he : e ∈ index.insertEntry F key rid) : e ∈ index ∨ e = (key, rid) := by
  unfold insertEntry at he
  split at he
  · exact .inl he
  · rcases List.mem_append.mp he with hold | hnew
    · exact .inl hold
    · exact .inr (List.mem_singleton.mp hnew)

/-- Inserting keeps one entry for each key. -/
theorem IsMap.insertEntry (h : IsMap F index) (key : List V) (rid : RowId) :
    IsMap F (index.insertEntry F key rid) := by
  by_cases hsome : (index.scanKey F key).isSome
  · rw [IndexEntries.insertEntry, if_pos hsome]
    exact h
  · rw [IndexEntries.insertEntry, if_neg hsome]
    refine List.pairwise_append.mpr ⟨h, List.pairwise_singleton _ _, ?_⟩
    intro e he e' he'
    rw [List.mem_singleton.mp he', F.sameKey_symm]
    by_contra hkey
    exact hsome ((scanKey_isSome key).mpr ⟨e, he, by simpa using hkey⟩)

/-- Removing too. -/
theorem IsMap.removeEntry (h : IsMap F index) (key : List V) : IsMap F (index.removeEntry F key) :=
  h.sublist List.eraseP_sublist

/-- Removing the key of an entry removes this entry, and no other. -/
theorem IsMap.mem_removeEntry (h : IsMap F index) {key : List V} {rid : RowId}
    (hmem : (key, rid) ∈ index) (e : List V × RowId) :
    e ∈ index.removeEntry F key ↔ e ∈ index ∧ e ≠ (key, rid) := by
  obtain ⟨e₀, before, after, hbefore, hkey, hsplit, herase⟩ :=
    List.exists_of_eraseP hmem (p := fun e => F.sameKey key e.1) (F.sameKey_refl key)
  have he₀ : e₀ = (key, rid) := by
    refine (h.eq_of_sameKey hmem ?_ hkey).symm
    rw [hsplit]
    exact List.mem_append_right _ List.mem_cons_self
  subst he₀
  have hnot : (key, rid) ∉ before ++ after := by
    intro hin
    rw [hsplit] at h
    have hperm : IsMap F ((key, rid) :: (before ++ after)) := by
      refine List.Pairwise.perm h List.perm_middle ?_
      intro a b hab
      rw [F.sameKey_symm]
      exact hab
    have := (List.pairwise_cons.mp hperm).1 _ hin
    rw [F.sameKey_refl] at this
    cases this
  unfold IndexEntries.removeEntry
  rw [herase, hsplit]
  constructor
  · intro hin
    refine ⟨?_, fun heq => hnot (heq ▸ hin)⟩
    rw [List.mem_append, List.mem_cons]
    rcases List.mem_append.mp hin with hb | ha
    · exact .inl hb
    · exact .inr (.inr ha)
  · rintro ⟨hin, hne⟩
    rw [List.mem_append, List.mem_cons] at hin
    rcases hin with hb | heq | ha
    · exact List.mem_append_left _ hb
    · exact absurd heq hne
    · exact List.mem_append_right _ ha

end IndexEntries

/-! ## The table -/

namespace Table

variable {t : Table V} {keyMap : List Nat} {entries : IndexEntries V} {rid : RowId}
  {row src dest : List V} {heap : TableHeap V}

/-- The entries of an index with the key columns `keyMap` are those of the rows of the heap. -/
def Holds (t : Table V) (keyMap : List Nat) (entries : IndexEntries V) : Prop :=
  ∀ key rid, (key, rid) ∈ entries ↔
    ∃ row, t.heap.getTuple rid = some row ∧ key = getKeyFromRow t.columns keyMap row

/-- Each index contains the entry of every row, and no other entry. -/
def Consistent (t : Table V) : Prop := ∀ index ∈ t.indexes, t.Holds index.keyMap index.index

/-- What every run keeps. -/
structure Wf (F : FieldOps V) (t : Table V) : Prop where
  linked : TableHeap.Linked t.heap.pages
  widths : ∀ rid row, t.heap.getTuple rid = some row → row.length = t.columns.length
  keys : ∀ index ∈ t.indexes, KeyColumns t.columns index.keyMap
  maps : ∀ index ∈ t.indexes, index.index.IsMap F

/-- Changing the entries of every index is consistent when each index is. -/
theorem consistent_updateIndexes (f : TableIndex V → IndexEntries V) :
    (t.updateIndexes f).Consistent ↔ ∀ index ∈ t.indexes, t.Holds index.keyMap (f index) := by
  show (∀ index ∈ t.indexes.map (fun index => { index with index := f index }), _) ↔ _
  rw [List.forall_mem_map]
  exact Iff.rfl

/-- And keeps the table well formed when each index stays a map. -/
theorem Wf.updateIndexes (h : t.Wf F) {f : TableIndex V → IndexEntries V}
    (hf : ∀ index ∈ t.indexes, IndexEntries.IsMap F (f index)) : (t.updateIndexes f).Wf F where
  linked := h.linked
  widths := h.widths
  keys := List.forall_mem_map.mpr h.keys
  maps := List.forall_mem_map.mpr hf

/-- A new heap that has one row more or less, or another row, of the right width. -/
theorem Wf.setHeap (h : t.Wf F) (hlinked : TableHeap.Linked heap.pages) {v : Option (List V)}
    (hrows : ∀ r, heap.getTuple r = if r = rid then v else t.heap.getTuple r)
    (hv : ∀ row, v = some row → row.length = t.columns.length) :
    Wf F { t with heap := heap } where
  linked := hlinked
  widths r row hrow := by
    have hrow : heap.getTuple r = some row := hrow
    rw [hrows] at hrow
    split at hrow
    · exact hv row hrow
    · exact h.widths r row hrow
  keys := h.keys
  maps := h.maps

/-! ## What an operation makes of an index -/

/-- A row is inserted, and its entry with it. -/
theorem Holds.insert (h : t.Holds keyMap entries) (hins : TableHeap.Inserted t.heap row rid heap)
    (hnew : ∀ e ∈ entries, F.sameKey (getKeyFromRow t.columns keyMap row) e.1 = false) :
    Holds { t with heap := heap } keyMap
      (entries.insertEntry F (getKeyFromRow t.columns keyMap row) rid) := by
  intro key r
  rw [IndexEntries.insertEntry_of_new hnew, List.mem_append, List.mem_singleton, h key r]
  show _ ↔ ∃ row', heap.getTuple r = some row' ∧ _
  rw [hins.getTuple]
  constructor
  · rintro (⟨row', hrow', rfl⟩ | heq)
    · have hne : r ≠ rid := by
        rintro rfl
        rw [hins.free] at hrow'
        cases hrow'
      exact ⟨row', by rw [if_neg hne]; exact hrow', rfl⟩
    · cases heq
      exact ⟨row, if_pos rfl, rfl⟩
  · rintro ⟨row', hrow', rfl⟩
    split at hrow'
    · next heq =>
      cases hrow'
      exact .inr (by rw [heq])
    · exact .inl ⟨row', hrow', rfl⟩

/-- The entry of a row is in the index. -/
theorem Holds.mem (h : t.Holds keyMap entries) (hrow : t.heap.getTuple rid = some row) :
    (getKeyFromRow t.columns keyMap row, rid) ∈ entries :=
  (h _ _).mpr ⟨row, hrow, rfl⟩

/-- Only the row's own entry has its row id. -/
theorem Holds.key_eq (h : t.Holds keyMap entries) (hrow : t.heap.getTuple rid = some row)
    {key : List V} (hmem : (key, rid) ∈ entries) : key = getKeyFromRow t.columns keyMap row := by
  obtain ⟨row', hrow', rfl⟩ := (h key rid).mp hmem
  rw [hrow] at hrow'
  cases hrow'
  rfl

/-- A row is deleted, and its entry with it. -/
theorem Holds.delete (h : t.Holds keyMap entries) (hmap : entries.IsMap F)
    (hrow : t.heap.getTuple rid = some row)
    (hdel : ∀ r, heap.getTuple r = if r = rid then none else t.heap.getTuple r) :
    Holds { t with heap := heap } keyMap
      (entries.removeEntry F (getKeyFromRow t.columns keyMap row)) := by
  intro key r
  rw [hmap.mem_removeEntry (h.mem hrow), h key r]
  show _ ↔ ∃ row', heap.getTuple r = some row' ∧ _
  rw [hdel]
  constructor
  · rintro ⟨⟨row', hrow', rfl⟩, hne⟩
    have hr : r ≠ rid := by
      rintro rfl
      rw [hrow] at hrow'
      cases hrow'
      exact hne rfl
    exact ⟨row', by rw [if_neg hr]; exact hrow', rfl⟩
  · rintro ⟨row', hrow', rfl⟩
    split at hrow'
    · cases hrow'
    · next hr => exact ⟨⟨row', hrow', rfl⟩, fun heq => hr (congrArg Prod.snd heq)⟩

/-- Removing the entry of a row and inserting it again. -/
theorem Holds.reinsert (h : t.Holds keyMap entries) (hmap : entries.IsMap F)
    (hrow : t.heap.getTuple rid = some row) :
    t.Holds keyMap ((entries.removeEntry F (getKeyFromRow t.columns keyMap row)).insertEntry F
      (getKeyFromRow t.columns keyMap row) rid) := by
  have hmem := h.mem hrow
  have hnew : ∀ e ∈ entries.removeEntry F (getKeyFromRow t.columns keyMap row),
      F.sameKey (getKeyFromRow t.columns keyMap row) e.1 = false := by
    intro e he
    obtain ⟨hin, hne⟩ := (hmap.mem_removeEntry hmem e).mp he
    by_contra hkey
    exact hne (hmap.eq_of_sameKey hmem hin (by simpa using hkey)).symm
  intro key r
  rw [IndexEntries.insertEntry_of_new hnew, List.mem_append, List.mem_singleton,
    hmap.mem_removeEntry hmem, ← h key r]
  constructor
  · rintro (⟨hin, _⟩ | heq)
    · exact hin
    · exact heq ▸ hmem
  · intro hin
    by_cases heq : (key, r) = (getKeyFromRow t.columns keyMap row, rid)
    · exact .inr heq
    · exact .inl ⟨hin, heq⟩

/-- The index holds the rows after a row has changed exactly if the row's key has not. -/
theorem Holds.update_iff (h : t.Holds keyMap entries) (hrow : t.heap.getTuple rid = some src)
    (hupd : ∀ r, heap.getTuple r = if r = rid then some dest else t.heap.getTuple r) :
    Holds { t with heap := heap } keyMap entries ↔
      getKeyFromRow t.columns keyMap dest = getKeyFromRow t.columns keyMap src := by
  constructor
  · intro h'
    have hdest : heap.getTuple rid = some dest := by rw [hupd, if_pos rfl]
    exact h.key_eq hrow (h'.mem hdest)
  · intro hkey key r
    rw [h key r]
    show _ ↔ ∃ row', heap.getTuple r = some row' ∧ _
    rw [hupd]
    by_cases hr : r = rid
    · subst hr
      rw [if_pos rfl, hrow]
      constructor
      · rintro ⟨row', hrow', rfl⟩
        cases hrow'
        exact ⟨dest, rfl, hkey.symm⟩
      · rintro ⟨row', hrow', rfl⟩
        cases hrow'
        exact ⟨src, rfl, hkey⟩
    · rw [if_neg hr]

end Table

end DisMiniSql.MiniSql
