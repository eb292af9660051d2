import DisMiniSql.MiniSql.Planner.Planner
import DisMiniSql.Proofs.Index.ScanKey
import DisMiniSql.Proofs.Storage.TableHeap

/-!
# `DisMiniSql.Proofs.Planner.IndexScans`: when an index plan returns the rows of a sequential one

`IndexScan` reads an expression as the conjunction of some of its comparisons, its constraints. It
does not read the type of a connector, so an `OR` counts as an `AND`. An empty list of row ids
counts as no constraint: a comparison that finds no row drops out, and so does a subexpression
whose constraints no row meets together. `mem_indexScan` says that the scan returns the live rows
that meet the constraints.

`agrees_iff` then compares the plan with `SeqScanExecutor`: the two agree if the plan is
sequential, or if no row is lost and no row is added. `agrees_of_conjunction` is a kind of `WHERE`
for which this holds on every table.
-/

set_option autoImplicit false

namespace DisMiniSql.MiniSql

variable {α : Type} [LinearOrder α]

/-! ### Valid tables -/

/-- An index on `col` maps the value of each live row to its row id. -/
structure BPlusTreeIndex.Maps (i : BPlusTreeIndex α) (h : TableHeap (Option α)) (col : Nat) :
    Prop extends i.Ordered where
  entries : ∀ v rid, (v, rid) ∈ i.items ↔
    ∃ row, h.getTuple rid = some row ∧ row.getD col none = v

/-- A row has one entry. -/
theorem BPlusTreeIndex.Maps.nodup {i : BPlusTreeIndex α} {h : TableHeap (Option α)} {col : Nat}
    (hm : i.Maps h col) : (i.items.map Prod.snd).Nodup := by
  refine List.Nodup.map_on ?_ ?_
  · rintro ⟨v, rid⟩ hx ⟨v', rid'⟩ hy heq
    obtain ⟨row, hrow, rfl⟩ := (hm.entries v rid).mp hx
    obtain ⟨row', hrow', rfl⟩ := (hm.entries v' rid').mp hy
    have hrid : rid = rid' := heq
    subst hrid
    rw [hrow] at hrow'
    cases hrow'
    rfl
  · refine hm.sorted.imp ?_
    rintro x y hxy rfl
    obtain ⟨a, b, ha, hb, hab⟩ := some_of_compareKeys_neg hxy
    rw [ha] at hb
    cases hb
    exact lt_irrefl a hab

namespace IndexedTable

variable {t : IndexedTable α}

/-- Every index on one column maps the values of the live rows to their row ids. -/
def Valid (t : IndexedTable α) : Prop :=
  ∀ i ∈ t.indexes, ∀ col, i.keyColumns = [col] → i.index.Maps t.heap col

/-- The plan and the sequential scan return the same rows. -/
def Agrees (t : IndexedTable α) (e : Expression α) : Prop :=
  ∀ r, r ∈ t.selectRows e ↔ r ∈ t.seqScanRows e

/-! ### The constraints of an expression -/

end IndexedTable

/-- A comparison of an expression. -/
structure Comparison (α : Type) where
  colIdx : Nat
  compType : ComparisonType
  value : Option α

namespace IndexedTable

variable {t : IndexedTable α}

/-- The index in which a column is looked up. -/
def indexFor (t : IndexedTable α) (col : Nat) : Option (IndexOn α) :=
  t.indexes.find? (fun i => i.keyColumns == [col])

/-- The lookup of the comparison finds the row. -/
def Finds (t : IndexedTable α) (c : Comparison α) (rid : RowId) (row : List (Option α)) : Prop :=
  ∃ i, t.indexFor c.colIdx = some i ∧
    i.index.Finds c.compType c.value (row.getD c.colIdx none) rid

/-- The row is found by all of the comparisons. -/
def Meets (t : IndexedTable α) (cs : List (Comparison α)) (rid : RowId)
    (row : List (Option α)) : Prop :=
  ∀ c ∈ cs, t.Finds c rid row

open Classical in
/-- The comparisons, if some live row is found by all of them. -/
noncomputable def together (t : IndexedTable α) (cs : List (Comparison α)) :
    List (Comparison α) :=
  if ∃ rid row, t.heap.getTuple rid = some row ∧ t.Meets cs rid row then cs else []

/-- The comparisons that `IndexScan` asks of a row. -/
noncomputable def constraints (t : IndexedTable α) : Expression α → List (Comparison α)
  | .logic _ left right => t.together (t.constraints left ++ t.constraints right)
  | .comparison colIdx compType value => t.together [⟨colIdx, compType, value⟩]

variable {cs : List (Comparison α)}

/-- If there are constraints then some live row meets them. -/
theorem exists_meets (h : t.together cs ≠ []) :
    t.together cs = cs ∧ ∃ rid row, t.heap.getTuple rid = some row ∧ t.Meets cs rid row := by
  unfold together at h ⊢
  split at h
  · next hex => exact ⟨if_pos hex, hex⟩
  · exact absurd rfl h

/-- A live row that meets the constraints leaves none of them out. -/
theorem together_of_meets {rid : RowId} {row : List (Option α)}
    (hlive : t.heap.getTuple rid = some row) (h : t.Meets cs rid row) : t.together cs = cs := by
  unfold together
  exact if_pos ⟨rid, row, hlive, h⟩

/-- A row meets two lists of constraints when it meets both. -/
theorem meets_append {cs' : List (Comparison α)} {rid : RowId} {row : List (Option α)} :
    t.Meets (cs ++ cs') rid row ↔ t.Meets cs rid row ∧ t.Meets cs' rid row :=
  List.forall_mem_append

/-! ### What `IndexScan` returns -/

end IndexedTable

omit [LinearOrder α] in
/-- The columns collected from an expression are its own and those collected before. -/
theorem Expression.mem_collectColumns (e : Expression α) (col : Nat) :
    ∀ columns, col ∈ e.collectColumns columns ↔ col ∈ columns ∨ col ∈ e.collectColumns [] := by
  induction e with
  | logic logicType left right ihl ihr =>
    intro columns
    show col ∈ right.collectColumns (left.collectColumns columns) ↔
      _ ∨ col ∈ right.collectColumns (left.collectColumns [])
    rw [ihr (left.collectColumns columns), ihr (left.collectColumns []), ihl columns, or_assoc]
  | comparison colIdx compType value =>
    intro columns
    by_cases hmem : colIdx ∈ columns
    · simp only [collectColumns, hmem, if_true, List.not_mem_nil, if_false, List.nil_append,
        List.mem_singleton]
      exact ⟨.inl, fun h => h.elim id (fun h => h ▸ hmem)⟩
    · simp [collectColumns, hmem]

namespace IndexedTable

variable {t : IndexedTable α}

omit [LinearOrder α] in
/-- For a column of the condition, the executor and `indexFor` choose the same index. -/
theorem find_availableIndex {columns : List Nat} {col : Nat} (hcol : col ∈ columns) :
    (t.availableIndex columns).find? (fun i => i.keyColumns.headD 0 == col) = t.indexFor col := by
  unfold availableIndex indexFor
  rw [List.find?_filter]
  congr 1
  funext i
  rcases i with ⟨_ | ⟨c, _ | ⟨c', cs⟩⟩, index⟩
  · rfl
  · by_cases hc : c = col
    · subst hc
      simp [hcol]
    · simp [hc]
  · simp

omit [LinearOrder α] in
/-- An index chosen for a column is one of the table, on that column alone. -/
theorem indexFor_spec {col : Nat} {i : IndexOn α} (h : t.indexFor col = some i) :
    i ∈ t.indexes ∧ i.keyColumns = [col] :=
  ⟨List.mem_of_find?_eq_some h, by simpa using List.find?_some h⟩

/-- What a scan of the column's index returns are the live rows it finds, whether the column has an
index of its own or the scan falls back to all rows. -/
theorem mem_lookup (hv : t.Valid) {columns : List Nat} (c : Comparison α)
    (hcol : c.colIdx ∈ columns) (rid : RowId) :
    rid ∈ indexScan (t.availableIndex columns) (.comparison c.colIdx c.compType c.value) ↔
      ∃ row, t.heap.getTuple rid = some row ∧ t.Finds c rid row := by
  rw [indexScan, find_availableIndex hcol]
  -- without an index on the column the comparison contributes no row ids of its own
  cases hfor : t.indexFor c.colIdx with
  | none =>
    simp [Finds, hfor]
  | some i =>
    obtain ⟨hi, hkey⟩ := indexFor_spec hfor
    have hmaps := hv i hi c.colIdx hkey
    dsimp only
    rw [hmaps.toOrdered.mem_scanKey hmaps.nodup]
    constructor
    · rintro ⟨v, hmem, hfinds⟩
      obtain ⟨row, hrow, rfl⟩ := (hmaps.entries v rid).mp hmem
      exact ⟨row, hrow, i, hfor, hfinds⟩
    · rintro ⟨row, hrow, i', hfor', hfinds⟩
      rw [hfor] at hfor'
      cases hfor'
      exact ⟨_, (hmaps.entries _ rid).mpr ⟨row, hrow, rfl⟩, hfinds⟩

/-- The intersection of two lists of row ids. -/
theorem mem_setIntersection (lhs rhs : List RowId) (rid : RowId) :
    rid ∈ setIntersection lhs rhs ↔ rid ∈ lhs ∧ rid ∈ rhs := by
  rw [setIntersection, List.mem_bagInter, List.mem_mergeSort]

/-- The constraints of an expression are all scanned together. -/
theorem together_constraints (e : Expression α) :
    t.together (t.constraints e) = t.constraints e := by
  have hidem : ∀ cs, t.together (t.together cs) = t.together cs := by
    intro cs
    by_cases h : t.together cs = []
    · rw [h]
      unfold together
      split <;> rfl
    · obtain ⟨heq, _⟩ := exists_meets h
      rw [heq, heq]
  cases e with
  | logic logicType left right => exact hidem _
  | comparison colIdx compType value => exact hidem _

/-- The list is that of the live rows that meet the constraints, and is empty if there are none. -/
def Selects (t : IndexedTable α) (l : List RowId) (e : Expression α) : Prop :=
  ∀ rid, rid ∈ l ↔ t.constraints e ≠ [] ∧
    ∃ row, t.heap.getTuple rid = some row ∧ t.Meets (t.constraints e) rid row

variable {e : Expression α}

/-- Such a list is empty only if there are no constraints. -/
theorem empty_iff_constraints {l : List RowId} (hl : t.Selects l e) :
    l = [] ↔ t.constraints e = [] := by
  constructor
  · intro hnil
    by_contra hne
    obtain ⟨_, rid, row, hrow, hmeets⟩ :=
      exists_meets (by rwa [together_constraints] : t.together (t.constraints e) ≠ [])
    have := (hl rid).mpr ⟨hne, row, hrow, hmeets⟩
    rw [hnil] at this
    cases this
  · intro hnil
    rw [List.eq_nil_iff_forall_not_mem]
    intro rid hrid
    exact ((hl rid).mp hrid).1 hnil

/-- `IndexScan` returns the live rows that meet the constraints, and none if there are none. -/
theorem mem_indexScan (hv : t.Valid) {columns : List Nat} (e : Expression α)
    (hcols : ∀ col ∈ e.collectColumns [], col ∈ columns) :
    t.Selects (indexScan (t.availableIndex columns) e) e := by
  induction e with
  | comparison colIdx compType value =>
    intro rid
    have hcol : colIdx ∈ columns := hcols colIdx (by simp [Expression.collectColumns])
    rw [mem_lookup hv ⟨colIdx, compType, value⟩ hcol]
    have hmeets : ∀ rid row, t.Meets [⟨colIdx, compType, value⟩] rid row ↔
        t.Finds ⟨colIdx, compType, value⟩ rid row := fun rid row => List.forall_mem_singleton
    constructor
    · rintro ⟨row, hrow, hfinds⟩
      have htogether := together_of_meets hrow ((hmeets rid row).mpr hfinds)
      rw [constraints, htogether]
      exact ⟨List.cons_ne_nil _ _, row, hrow, (hmeets rid row).mpr hfinds⟩
    · rintro ⟨hne, row, hrow, hfinds⟩
      rw [constraints, (exists_meets hne).1] at hfinds
      exact ⟨row, hrow, (hmeets rid row).mp hfinds⟩
  | logic logicType left right ihl ihr =>
    have hcols' : ∀ col, col ∈ left.collectColumns [] ∨ col ∈ right.collectColumns [] →
        col ∈ columns := by
      intro col hcol
      refine hcols col ?_
      show col ∈ right.collectColumns (left.collectColumns [])
      rwa [Expression.mem_collectColumns]
    have ihl := ihl (fun col hcol => hcols' col (.inl hcol))
    have ihr := ihr (fun col hcol => hcols' col (.inr hcol))
    have hleft := empty_iff_constraints ihl
    have hright := empty_iff_constraints ihr
    intro rid
    rw [indexScan, constraints]
    by_cases hl : indexScan (t.availableIndex columns) left = []
    · rw [if_pos (List.isEmpty_iff.mpr hl), hleft.mp hl, List.nil_append, together_constraints]
      exact ihr rid
    · rw [if_neg (by rwa [List.isEmpty_iff])]
      by_cases hr : indexScan (t.availableIndex columns) right = []
      · rw [if_pos (List.isEmpty_iff.mpr hr), hright.mp hr, List.append_nil,
          together_constraints]
        exact ihl rid
      · rw [if_neg (by rwa [List.isEmpty_iff]), mem_setIntersection, ihl rid, ihr rid]
        have hlne : t.constraints left ≠ [] := fun h => hl (hleft.mpr h)
        have hrne : t.constraints right ≠ [] := fun h => hr (hright.mpr h)
        constructor
        · rintro ⟨⟨_, row, hrow, hml⟩, ⟨_, row', hrow', hmr⟩⟩
          rw [hrow] at hrow'
          cases hrow'
          have hmeets := meets_append.mpr ⟨hml, hmr⟩
          rw [together_of_meets hrow hmeets]
          exact ⟨fun h => hlne (List.append_eq_nil_iff.mp h).1, row, hrow, hmeets⟩
        · rintro ⟨hne, row, hrow, hmeets⟩
          rw [(exists_meets hne).1, meets_append] at hmeets
          exact ⟨⟨hlne, row, hrow, hmeets.1⟩, ⟨hrne, row, hrow, hmeets.2⟩⟩

/-! ### The plan -/

/-- `PlanSelect` chooses the sequential scan: no index is on a single column of the expression, or
its outermost connector is `OR`. -/
def Sequential (t : IndexedTable α) (e : Expression α) : Prop :=
  t.availableIndex (e.collectColumns []) = [] ∨ e.hasOr = true

/-- `need_filter_`. -/
def Filters (t : IndexedTable α) (e : Expression α) : Prop :=
  (t.availableIndex (e.collectColumns [])).length ≠ (e.collectColumns []).length

/-- Every row that a sequential scan returns meets the constraints, of which there is one. -/
def LosesNone (t : IndexedTable α) (e : Expression α) : Prop :=
  ∀ r ∈ t.heap.scan, e.evaluate r.2 = .kTrue →
    t.constraints e ≠ [] ∧ t.Meets (t.constraints e) r.1 r.2

/-- Every live row that meets the constraints is reached by a sequential scan, and satisfies the
expression; if the plan filters, this is asked of the rows that satisfy it only. -/
def AddsNone (t : IndexedTable α) (e : Expression α) : Prop :=
  t.constraints e ≠ [] → ∀ rid row, t.heap.getTuple rid = some row →
    t.Meets (t.constraints e) rid row → (t.Filters e → e.evaluate row = .kTrue) →
    (rid, row) ∈ t.heap.scan ∧ e.evaluate row = .kTrue

/-- Where the planner sees no usable index it scans all rows. -/
theorem selectRows_of_sequential (h : t.Sequential e) :
    t.selectRows e = t.seqScanRows e := by
  unfold selectRows planSelect
  dsimp only
  rw [if_pos (by simpa [Sequential] using h)]

/-- What an index scan returns: the rows that meet every constraint, and the predicate too where the
planner keeps a filter. -/
theorem mem_selectRows (hv : t.Valid) (h : ¬ t.Sequential e) (rid : RowId) (row : List (Option α)) :
    (rid, row) ∈ t.selectRows e ↔ t.constraints e ≠ [] ∧ t.heap.getTuple rid = some row ∧
      t.Meets (t.constraints e) rid row ∧ (t.Filters e → e.evaluate row = .kTrue) := by
  have hplan : t.selectRows e = t.indexScanRows (t.availableIndex (e.collectColumns []))
      ((t.availableIndex (e.collectColumns [])).length != (e.collectColumns []).length) e := by
    unfold selectRows planSelect
    dsimp only
    rw [if_neg (by simpa [Sequential] using h)]
  -- the filter is left out when each column of the predicate has an index
  have hfilter : (!((t.availableIndex (e.collectColumns [])).length !=
      (e.collectColumns []).length) || e.evaluate row == .kTrue) = true ↔
      (t.Filters e → e.evaluate row = .kTrue) := by
    simp [Filters, or_iff_not_imp_left]
  rw [hplan, indexScanRows, List.mem_filter, hfilter, List.mem_filterMap]
  constructor
  · rintro ⟨⟨rid', hscan, hmap⟩, hkeep⟩
    obtain ⟨row', hrow', heq⟩ := Option.map_eq_some_iff.mp hmap
    cases heq
    obtain ⟨hne, row', hlive, hmeets⟩ := (mem_indexScan hv e (fun _ h => h) rid).mp hscan
    rw [hrow'] at hlive
    cases hlive
    exact ⟨hne, hrow', hmeets, hkeep⟩
  · rintro ⟨hne, hrow, hmeets, hkeep⟩
    refine ⟨⟨rid, (mem_indexScan hv e (fun _ h => h) rid).mpr ⟨hne, row, hrow, hmeets⟩, ?_⟩, hkeep⟩
    rw [hrow]
    rfl

/-- A sequential scan returns the rows the predicate holds for. -/
theorem mem_seqScanRows (e : Expression α) (rid : RowId) (row : List (Option α)) :
    (rid, row) ∈ t.seqScanRows e ↔ (rid, row) ∈ t.heap.scan ∧ e.evaluate row = .kTrue := by
  simp [seqScanRows, List.mem_filter]

/-- An index plan agrees with the sequential scan if it neither loses a row nor adds one. -/
theorem agrees_iff_of_indexed (hv : t.Valid) (hseq : ¬ t.Sequential e) :
    t.Agrees e ↔ t.LosesNone e ∧ t.AddsNone e := by
  constructor
  · intro hagrees
    refine ⟨?_, ?_⟩
    · rintro ⟨rid, row⟩ hscan he
      have := (hagrees (rid, row)).mpr ((mem_seqScanRows e rid row).mpr ⟨hscan, he⟩)
      obtain ⟨hne, _, hmeets, _⟩ := (mem_selectRows hv hseq rid row).mp this
      exact ⟨hne, hmeets⟩
    · intro hne rid row hrow hmeets hkeep
      have := (mem_selectRows hv hseq rid row).mpr ⟨hne, hrow, hmeets, hkeep⟩
      exact (mem_seqScanRows e rid row).mp ((hagrees (rid, row)).mp this)
  · rintro ⟨hloses, hadds⟩ ⟨rid, row⟩
    rw [mem_selectRows hv hseq, mem_seqScanRows]
    constructor
    · rintro ⟨hne, hrow, hmeets, hkeep⟩
      exact hadds hne rid row hrow hmeets hkeep
    · rintro ⟨hscan, he⟩
      obtain ⟨hne, hmeets⟩ := hloses (rid, row) hscan he
      exact ⟨hne, TableHeap.mem_scan hscan, hmeets, fun _ => he⟩

/-- So without an index scan the rows are right. -/
theorem agrees_of_sequential (h : t.Sequential e) : t.Agrees e := by
  intro r
  rw [selectRows_of_sequential h]

/-- The plan agrees with the sequential scan exactly if it is one, or if it neither loses a row nor
adds one. -/
theorem agrees_iff (t : IndexedTable α) (e : Expression α) (hv : t.Valid) :
    t.Agrees e ↔ t.Sequential e ∨ (t.LosesNone e ∧ t.AddsNone e) := by
  by_cases hseq : t.Sequential e
  · exact iff_of_true (agrees_of_sequential hseq) (.inl hseq)
  · rw [or_iff_right hseq]
    exact agrees_iff_of_indexed hv hseq

end IndexedTable

/-! ### A table with an index on its first column -/

/-- The heap of the rows `(1, 0, 0)` and `(2, 2, 3)`. -/
def twoRows : TableHeap (Option Nat) :=
  ⟨[⟨[⟨[some 1, some 0, some 0], false⟩, ⟨[some 2, some 2, some 3], false⟩],
    4000, none⟩], ⟨[(0, 3960)], some 0⟩⟩

/-- The index on the first column, with one leaf. -/
def firstColumn : BPlusTreeIndex Nat := ⟨[[(some 1, ⟨0, 0⟩), (some 2, ⟨0, 1⟩)]], fun _ => 0⟩

/-- The table of the two rows and the index. -/
def twoRowTable : IndexedTable Nat := ⟨twoRows, [⟨[0], firstColumn⟩]⟩

/-- The two rows of the failing input. -/
theorem getTuple_twoRows (rid : RowId) (row : List (Option Nat)) :
    twoRows.getTuple rid = some row ↔
      (rid = ⟨0, 0⟩ ∧ row = [some 1, some 0, some 0]) ∨
      (rid = ⟨0, 1⟩ ∧ row = [some 2, some 2, some 3]) := by
  have hpages : ∀ page, twoRows.pages[rid.pageId]? = some page → rid.pageId = 0 := by
    intro page hpage
    have := (List.getElem?_eq_some_iff.mp hpage).1
    simp [twoRows] at this
    omega
  have hrows : TableHeap.pageRows twoRows.pages 0 =
      [(⟨0, 0⟩, [some 1, some 0, some 0]), (⟨0, 1⟩, [some 2, some 2, some 3])] := by decide
  have hmem := TableHeap.mem_pageRows (h := twoRows) 0 (rid, row)
  rw [hrows] at hmem
  simp only [List.mem_cons, Prod.mk.injEq, List.not_mem_nil, or_false] at hmem
  rw [hmem, and_iff_right_of_imp]
  intro hrow
  obtain ⟨page, hpage, _⟩ := Option.bind_eq_some_iff.mp hrow
  exact hpages page hpage

/-- Its table and indexes are in step. -/
theorem valid_twoRowTable : twoRowTable.Valid := by
  intro i hi col hcol
  obtain rfl := List.mem_singleton.mp hi
  obtain rfl : 0 = col := by simpa using hcol
  refine ⟨⟨by decide, by decide, fun _ _ => Nat.zero_lt_one, fun k x hx => ?_,
    fun k x hx => ?_⟩, ?_⟩
  · cases hx
  · cases hx
  · intro v rid
    have hitems : (v, rid) ∈ firstColumn.items ↔
        (v = some 1 ∧ rid = ⟨0, 0⟩) ∨ (v = some 2 ∧ rid = ⟨0, 1⟩) := by
      simp [firstColumn, BPlusTreeIndex.items]
    show (v, rid) ∈ firstColumn.items ↔ ∃ row, twoRows.getTuple rid = some row ∧ _
    rw [hitems]
    simp only [getTuple_twoRows]
    constructor
    · rintro (⟨rfl, rfl⟩ | ⟨rfl, rfl⟩)
      · exact ⟨_, .inl ⟨rfl, rfl⟩, rfl⟩
      · exact ⟨_, .inr ⟨rfl, rfl⟩, rfl⟩
    · rintro ⟨row, ⟨rfl, rfl⟩ | ⟨rfl, rfl⟩, rfl⟩
      · exact .inl ⟨rfl, rfl⟩
      · exact .inr ⟨rfl, rfl⟩

/-- `(a = 1 or b = 2) and c = 3`, which is also what `a = 1 or b = 2 and c = 3` parses to. -/
def orBelowAnd : Expression Nat :=
  .logic .and (.logic .or (.comparison 0 .eq (some 1)) (.comparison 1 .eq (some 2)))
    (.comparison 2 .eq (some 3))

namespace IndexedTable

/-- The condition, at a table whose plan for a `WHERE` with an `OR` below an `AND` filters. -/
theorem agrees_iff_twoRowTable : twoRowTable.Valid ∧
    (twoRowTable.Agrees orBelowAnd ↔ twoRowTable.Sequential orBelowAnd ∨
      (twoRowTable.LosesNone orBelowAnd ∧ twoRowTable.AddsNone orBelowAnd)) :=
  ⟨valid_twoRowTable, agrees_iff twoRowTable orBelowAnd valid_twoRowTable⟩

/-- The row `(2, 2, 3)` satisfies the `WHERE`. The index scan looks up `a = 1` only, finds the
other row, and the filter rejects it. -/
theorem index_plan_loses_row : ¬ ∀ (t : IndexedTable Nat) (e : Expression Nat),
    t.Valid → t.Agrees e := by
  intro h
  have hagrees := h twoRowTable orBelowAnd valid_twoRowTable (⟨0, 1⟩, [some 2, some 2, some 3])
  revert hagrees
  decide +kernel

end IndexedTable

/-! ### Conjunctions -/

namespace Expression

/-- No `OR` anywhere. -/
def Conjunctive : Expression α → Prop
  | .logic logicType left right => logicType = .and ∧ left.Conjunctive ∧ right.Conjunctive
  | .comparison _ _ _ => True

/-- The comparisons of an expression. -/
def comparisons : Expression α → List (Comparison α)
  | .logic _ left right => left.comparisons ++ right.comparisons
  | .comparison colIdx compType value => [⟨colIdx, compType, value⟩]

/-- A conjunction holds when both sides do. -/
theorem evaluate_and (left right : Expression α) (row : List (Option α)) :
    (Expression.logic .and left right).evaluate row = .kTrue ↔
      left.evaluate row = .kTrue ∧ right.evaluate row = .kTrue := by
  simp [evaluate, performComputation]

end Expression

omit [LinearOrder α] in
/-- Two fields compare as true only if both are there. -/
theorem compareFields_eq_kTrue {r : α → α → Bool} {v w : Option α}
    (h : compareFields r v w = .kTrue) : ∃ a b, v = some a ∧ w = some b ∧ r a b = true := by
  cases v with
  | none => simp [compareFields] at h
  | some a =>
    cases w with
    | none => simp [compareFields] at h
    | some b => exact ⟨a, b, rfl, rfl, by simpa [compareFields] using h⟩

namespace IndexedTable

variable {t : IndexedTable α}

/-- The lookup can find a row: there is an index, it answers to the comparison, and `>` and `>=` do
not start in a gap. -/
def Speaks (t : IndexedTable α) (c : Comparison α) : Prop :=
  ∃ i, t.indexFor c.colIdx = some i ∧ c.compType ≠ .is ∧ c.compType ≠ .not ∧
    (c.compType = .gt ∨ c.compType = .ge → ∀ k, c.value = some k → ¬ i.index.Gap k)

variable {row : List (Option α)}

/-- A comparison that finds a row speaks about values the index has in order. -/
theorem speaks_of_finds {c : Comparison α} {rid : RowId} (h : t.Finds c rid row) : t.Speaks c := by
  obtain ⟨i, hfor, hfinds⟩ := h
  refine ⟨i, hfor, ?_, ?_, ?_⟩
  · intro hop
    cases hval : c.value <;>
      simp [BPlusTreeIndex.Finds, BPlusTreeIndex.FindsValue, BPlusTreeIndex.FindsNull, hop,
        hval] at hfinds
  · intro hop
    cases hval : c.value <;>
      simp [BPlusTreeIndex.Finds, BPlusTreeIndex.FindsValue, BPlusTreeIndex.FindsNull, hop,
        hval] at hfinds
  · rintro (hop | hop) k hval
    · simp only [BPlusTreeIndex.Finds, BPlusTreeIndex.FindsValue, hop, hval] at hfinds
      exact hfinds.1
    · simp only [BPlusTreeIndex.Finds, BPlusTreeIndex.FindsValue, hop, hval] at hfinds
      exact hfinds.1

/-- A lookup that can find a row finds every row that satisfies the comparison. -/
theorem finds_of_satisfies {c : Comparison α} (hspeaks : t.Speaks c)
    (h : c.compType.performComparison (row.getD c.colIdx none) c.value = .kTrue) (rid : RowId) :
    t.Finds c rid row := by
  obtain ⟨i, hfor, his, hnot, hgap⟩ := hspeaks
  refine ⟨i, hfor, ?_⟩
  rcases c with ⟨col, op, value⟩
  dsimp only at *
  cases op with
  | is => exact absurd rfl his
  | not => exact absurd rfl hnot
  | eq =>
    obtain ⟨a, b, ha, rfl, hab⟩ := compareFields_eq_kTrue h
    rw [ha]
    exact (compareKeys_some_eq_zero a b).mpr (of_decide_eq_true hab)
  | ne =>
    obtain ⟨a, b, ha, rfl, hab⟩ := compareFields_eq_kTrue h
    rw [ha]
    exact fun h0 => of_decide_eq_true hab ((compareKeys_some_eq_zero a b).mp h0)
  | lt =>
    obtain ⟨a, b, ha, rfl, hab⟩ := compareFields_eq_kTrue h
    rw [ha]
    exact .inr ((compareKeys_some_neg a b).mpr (of_decide_eq_true hab))
  | le =>
    obtain ⟨a, b, ha, rfl, hab⟩ := compareFields_eq_kTrue h
    rw [ha]
    refine .inr (Int.not_lt.mp (fun hpos => ?_))
    exact absurd (of_decide_eq_true hab) (not_le_of_gt ((compareKeys_some_pos a b).mp hpos))
  | gt =>
    obtain ⟨a, b, ha, rfl, hab⟩ := compareFields_eq_kTrue h
    rw [ha]
    exact ⟨hgap (.inl rfl) b rfl, (compareKeys_some_pos a b).mpr (of_decide_eq_true hab)⟩
  | ge =>
    obtain ⟨a, b, ha, rfl, hab⟩ := compareFields_eq_kTrue h
    rw [ha]
    refine ⟨hgap (.inr rfl) b rfl, Int.not_lt.mp (fun hneg => ?_)⟩
    exact absurd (of_decide_eq_true hab) (not_le_of_gt ((compareKeys_some_neg a b).mp hneg))

/-- A live row that satisfies a conjunction meets its constraints, and every comparison that can
find a row is one of them. -/
theorem meets_of_conjunctive {e : Expression α} (hand : e.Conjunctive) {rid : RowId}
    (hrow : t.heap.getTuple rid = some row) (he : e.evaluate row = .kTrue) :
    t.Meets (t.constraints e) rid row ∧
      ∀ c ∈ e.comparisons, t.Speaks c → c ∈ t.constraints e := by
  induction e with
  | comparison colIdx compType value =>
    by_cases hspeaks : t.Speaks ⟨colIdx, compType, value⟩
    · have hmeets : t.Meets [⟨colIdx, compType, value⟩] rid row :=
        List.forall_mem_singleton.mpr (finds_of_satisfies hspeaks he rid)
      rw [constraints, together_of_meets hrow hmeets]
      exact ⟨hmeets, fun c hc _ => hc⟩
    · -- a comparison that can find no row is no constraint
      have hnone : t.constraints (.comparison colIdx compType value) = [] := by
        by_contra hne
        obtain ⟨_, rid', row', _, hmeets⟩ := exists_meets hne
        exact hspeaks (speaks_of_finds (hmeets _ (List.mem_singleton_self _)))
      rw [hnone]
      refine ⟨List.forall_mem_nil _, fun c hc hc' => absurd hc' ?_⟩
      rw [List.mem_singleton.mp hc]
      exact hspeaks
  | logic logicType left right ihl ihr =>
    obtain ⟨rfl, hl, hr⟩ := hand
    obtain ⟨hel, her⟩ := (Expression.evaluate_and left right row).mp he
    obtain ⟨hml, hcl⟩ := ihl hl hel
    obtain ⟨hmr, hcr⟩ := ihr hr her
    have hmeets := meets_append.mpr ⟨hml, hmr⟩
    rw [constraints, together_of_meets hrow hmeets]
    refine ⟨hmeets, fun c hc hspeaks => ?_⟩
    rcases List.mem_append.mp hc with hc | hc
    · exact List.mem_append_left _ (hcl c hc hspeaks)
    · exact List.mem_append_right _ (hcr c hc hspeaks)

/-- A plan that filters is right for a conjunction in which one lookup can find a row, if the heap
scan reaches every live row. -/
theorem agrees_of_conjunction {e : Expression α} (hv : t.Valid) (hand : e.Conjunctive)
    (hfilters : t.Filters e) (hspeaks : ∃ c ∈ e.comparisons, t.Speaks c)
    (hreach : ∀ rid row, t.heap.getTuple rid = some row → (rid, row) ∈ t.heap.scan) :
    t.Agrees e := by
  by_cases hseq : t.Sequential e
  · exact agrees_of_sequential hseq
  refine (agrees_iff_of_indexed hv hseq).mpr ⟨?_, ?_⟩
  · intro r hr he
    obtain ⟨hmeets, hcs⟩ := meets_of_conjunctive hand (TableHeap.mem_scan hr) he
    obtain ⟨c, hc, hcspeaks⟩ := hspeaks
    exact ⟨List.ne_nil_of_mem (hcs c hc hcspeaks), hmeets⟩
  · intro _ rid row hrow _ hkeep
    exact ⟨hreach rid row hrow, hkeep hfilters⟩

end IndexedTable

end DisMiniSql.MiniSql
