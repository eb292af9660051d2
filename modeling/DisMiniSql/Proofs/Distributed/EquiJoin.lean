import DisMiniSql.Distributed.Coordinator.QueryPostProcessor
import DisMiniSql.Proofs.Distributed.MergeUnion

/-!
# `DisMiniSql.Proofs.Distributed.EquiJoin`: the join of the coordinator

The hash table of the right rows holds for every key the rows that have it (`foldl_addByKey`), so
`equiJoin` is the nested loop over the columns that `columnIndex` has found (`mem_joinTables_iff`).
`columnIndex` forgets the qualifier and looks for the first operand in the left table and for the
second one in the right table. `equi_join_iff`: the join is right for all rows exactly if these are
the columns that the `on` clause names; `columnIndex_of_names` is the case of operands in the order
of the tables.
-/

set_option autoImplicit false

namespace DisMiniSql.Distributed

open Lib (Regex)
open MiniSqlResultParser

namespace QueryPostProcessor

variable {fold : Char → Char} {groups : Regex.Groups Char} {left right : QueryTable}
  {leftColumns rightColumns : List Text} {x y : Nat}

/-! ### What is joined -/

/-- By induction on the rows. -/
theorem foldl_addByKey (index : Nat) (rows : List (List Text)) (table : Text → List (List Text))
    (key : Text) :
    rows.foldl (addByKey index) table key =
      table key ++ rows.filter fun row => cell row index = key := by
  induction rows generalizing table with
  | nil => rw [List.foldl_nil, List.filter_nil, List.append_nil]
  | cons row rows ih =>
    rw [List.foldl_cons, ih, addByKey, List.filter_cons]
    by_cases hkey : key = cell row index
    · simp [hkey]
    · simp [hkey, Ne.symm hkey]

/-- The comparison of a left and a right row: the first operand is looked up in the left table, the
second one in the right table. -/
def Compared (fold : Char → Char) (groups : Regex.Groups Char)
    (leftColumns rightColumns : List Text) (l r : List Text) : Prop :=
  ∃ i j, columnIndex fold leftColumns (group groups 3) = some i ∧
    columnIndex fold rightColumns (group groups 4) = some j ∧ cell l i = cell r j

variable (fold groups left right) in
/-- The rows of the joined table, in order. -/
theorem joinTables_rows :
    (∃ i j, columnIndex fold left.columns (group groups 3) = some i ∧
      columnIndex fold right.columns (group groups 4) = some j ∧
      (joinTables fold groups left right).rows = left.rows.flatMap fun l =>
        (right.rows.filter fun r => cell r j = cell l i).map fun r => l ++ r) ∨
    ((columnIndex fold left.columns (group groups 3) = none ∨
      columnIndex fold right.columns (group groups 4) = none) ∧
      (joinTables fold groups left right).rows = []) := by
  unfold joinTables equiJoin
  cases hempty : left.isEmpty || right.isEmpty with
  | true =>
    refine .inr ⟨?_, by rw [if_pos rfl]⟩
    rw [Bool.or_eq_true] at hempty
    refine hempty.imp ?_ ?_ <;>
    · intro h
      rw [columnIndex, List.isEmpty_iff.mp h]
      rfl
  | false =>
    rw [if_neg Bool.false_ne_true]
    cases hi : columnIndex fold left.columns (group groups 3) with
    | none => exact .inr ⟨.inl rfl, rfl⟩
    | some i =>
      cases hj : columnIndex fold right.columns (group groups 4) with
      | none => exact .inr ⟨.inr rfl, rfl⟩
      | some j =>
        refine .inl ⟨i, j, rfl, rfl, ?_⟩
        simp only [foldl_addByKey, List.nil_append]

variable (fold groups left right) in
/-- The joined rows are the pairs of rows that are found equal. -/
theorem mem_joinTables_iff (row : List Text) :
    row ∈ (joinTables fold groups left right).rows ↔
      ∃ l ∈ left.rows, ∃ r ∈ right.rows, row = l ++ r ∧
        Compared fold groups left.columns right.columns l r := by
  rcases joinTables_rows fold groups left right with
    ⟨i, j, hi, hj, hrows⟩ | ⟨hnone, hrows⟩
  · rw [hrows, List.mem_flatMap]
    constructor
    · rintro ⟨l, hl, hmem⟩
      obtain ⟨r, hr, rfl⟩ := List.mem_map.mp hmem
      obtain ⟨hr, heq⟩ := List.mem_filter.mp hr
      exact ⟨l, hl, r, hr, rfl, i, j, hi, hj, (of_decide_eq_true heq).symm⟩
    · rintro ⟨l, hl, r, hr, rfl, i', j', hi', hj', heq⟩
      obtain rfl := Option.some.inj (hi.symm.trans hi')
      obtain rfl := Option.some.inj (hj.symm.trans hj')
      exact ⟨l, hl, List.mem_map.mpr ⟨r, List.mem_filter.mpr ⟨hr, decide_eq_true heq.symm⟩, rfl⟩⟩
  · rw [hrows]
    refine iff_of_false List.not_mem_nil ?_
    rintro ⟨l, -, r, -, -, i, j, hi, hj, -⟩
    rcases hnone with hnone | hnone
    · rw [hnone] at hi
      cases hi
    · rw [hnone] at hj
      cases hj

/-- Rows of one width in front. -/
theorem append_inj_of_parsed (hleft : left.Parsed) {l l' r r' : List Text} (hl : l ∈ left.rows)
    (hl' : l' ∈ left.rows) (h : l ++ r = l' ++ r') : l = l' ∧ r = r' :=
  List.append_inj h ((hleft.length_eq l hl).trans (hleft.length_eq l' hl').symm)

/-- A join of tables without duplicates has none, since the code drops them. -/
theorem nodup_joinTables (hleft : left.Parsed) (hl : left.rows.Nodup) (hr : right.rows.Nodup) :
    (joinTables fold groups left right).rows.Nodup := by
  rcases joinTables_rows fold groups left right with
    ⟨i, j, -, -, hrows⟩ | ⟨-, hrows⟩
  · rw [hrows, List.nodup_flatMap]
    refine ⟨fun l _ => ?_, ?_⟩
    · exact (hr.filter _).map fun r r' h => (List.append_cancel_left h)
    · refine hl.imp_of_mem fun {l l'} hmem hmem' hne => ?_
      intro row hrow hrow'
      obtain ⟨r, -, rfl⟩ := List.mem_map.mp hrow
      obtain ⟨r', -, heq⟩ := List.mem_map.mp hrow'
      exact hne (append_inj_of_parsed hleft hmem' hmem heq).1.symm
  · rw [hrows]
    exact List.nodup_nil

/-! ### What the `on` clause says -/

/-- An operand names a column of a table, plainly or with the table as its qualifier. -/
def Names (table : Text) (columns : List Text) (operand : Text) (i : Nat) : Prop :=
  ∃ c, columns[i]? = some c ∧ (operand = c ∨ operand = table ++ '.' :: c)

/-- The operands name a column of the left and a column of the right table, in either order. -/
def Reads (groups : Regex.Groups Char) (leftColumns rightColumns : List Text) (x y : Nat) : Prop :=
  Names (group groups 1) leftColumns (group groups 3) x ∧
      Names (group groups 2) rightColumns (group groups 4) y ∨
    Names (group groups 1) leftColumns (group groups 4) x ∧
      Names (group groups 2) rightColumns (group groups 3) y

/-- Parsed rows of these columns, each of them once. -/
structure TableOf (columns : List Text) (t : QueryTable) : Prop where
  columns_eq : t.columns = columns
  parsed : t.Parsed
  nodup : t.rows.Nodup

/-- The equi-join over two columns: the concatenations of the rows that agree on them, each of them
once. -/
structure IsEquiJoin (joined left right : QueryTable) (x y : Nat) : Prop where
  nodup : joined.rows.Nodup
  mem_iff : ∀ row, row ∈ joined.rows ↔
    ∃ l ∈ left.rows, ∃ r ∈ right.rows, row = l ++ r ∧ cell l x = cell r y

/-- The join of two tables is right exactly if the comparison is. -/
theorem isEquiJoin_iff (hleft : TableOf leftColumns left) (hright : TableOf rightColumns right) :
    IsEquiJoin (joinTables fold groups left right) left right x y ↔
      ∀ l ∈ left.rows, ∀ r ∈ right.rows,
        (Compared fold groups leftColumns rightColumns l r ↔ cell l x = cell r y) := by
  obtain ⟨rfl, hparsed, hnodup⟩ := hleft
  obtain ⟨rfl, _, hnodup'⟩ := hright
  have hmem := mem_joinTables_iff fold groups left right
  constructor
  · intro h l hl r hr
    constructor
    · intro hcompared
      obtain ⟨l', hl', r', -, heq, hagree⟩ :=
        (h.mem_iff _).mp ((hmem _).mpr ⟨l, hl, r, hr, rfl, hcompared⟩)
      obtain ⟨rfl, rfl⟩ := append_inj_of_parsed hparsed hl hl' heq
      exact hagree
    · intro hagree
      obtain ⟨l', hl', r', -, heq, hcompared⟩ :=
        (hmem _).mp ((h.mem_iff _).mpr ⟨l, hl, r, hr, rfl, hagree⟩)
      obtain ⟨rfl, rfl⟩ := append_inj_of_parsed hparsed hl hl' heq
      exact hcompared
  · intro h
    refine ⟨nodup_joinTables hparsed hnodup hnodup', fun row => (hmem row).trans ?_⟩
    exact exists_congr fun l => and_congr_right fun hl => exists_congr fun r =>
      and_congr_right fun hr => and_congr_right fun _ => h l hl r hr

/-! ### Which columns are found -/

variable {columns : List Text}

/-- A named column is one of the table. -/
theorem Names.lt {table operand : Text} {i : Nat} (h : Names table columns operand i) :
    i < columns.length := by
  obtain ⟨c, hc, -⟩ := h
  exact (List.getElem?_eq_some_iff.mp hc).1

/-- Both columns of the condition are. -/
theorem Reads.lt (h : Reads groups leftColumns rightColumns x y) :
    x < leftColumns.length ∧ y < rightColumns.length := by
  rcases h with ⟨hx, hy⟩ | ⟨hx, hy⟩ <;> exact ⟨hx.lt, hy.lt⟩

/-- The table of one row. -/
def oneRow (columns row : List Text) : QueryTable := { columns := columns, rows := [row] }

/-- A table of one row. -/
theorem tableOf_oneRow {row : List Text} (hne : columns ≠ []) (hlen : row.length = columns.length) :
    TableOf columns (oneRow columns row) where
  columns_eq := rfl
  parsed :=
    ⟨List.forall_mem_singleton.mpr hlen, fun hempty => absurd (List.isEmpty_iff.mp hempty) hne⟩
  nodup := List.nodup_singleton row

/-- The row that has one text in the column `i` and another one elsewhere. -/
def marked (n i : Nat) : List Text := (List.range n).map fun k => if k = i then ['1'] else ['0']

/-- The cells of the marked row. -/
theorem cell_marked {n i k : Nat} (h : k < n) :
    cell (marked n i) k = if k = i then ['1'] else ['0'] := by
  simp [cell, marked, List.getD_eq_getElem?_getD, h]

/-- The index of a column is within the table. -/
theorem columnIndex_lt {operand : Text} {i : Nat} (h : columnIndex fold columns operand = some i) :
    i < columns.length :=
  (List.findIdx?_eq_some_iff_getElem.mp h).1

/-- A join is right for all rows exactly if the operands are looked up as the `on` clause names
them. Otherwise a left and a right row show the difference. -/
theorem forall_isEquiJoin_iff (hreads : Reads groups leftColumns rightColumns x y) :
    (∀ left right, TableOf leftColumns left → TableOf rightColumns right →
      IsEquiJoin (joinTables fold groups left right) left right x y) ↔
    columnIndex fold leftColumns (group groups 3) = some x ∧
      columnIndex fold rightColumns (group groups 4) = some y := by
  obtain ⟨hx, hy⟩ := hreads.lt
  have hne : leftColumns ≠ [] := List.ne_nil_of_length_pos (Nat.zero_lt_of_lt hx)
  have hne' : rightColumns ≠ [] := List.ne_nil_of_length_pos (Nat.zero_lt_of_lt hy)
  constructor
  · intro h
    -- the comparison of two single rows
    have hrows {l r : List Text} (hl : l.length = leftColumns.length)
        (hr : r.length = rightColumns.length) :
        Compared fold groups leftColumns rightColumns l r ↔ cell l x = cell r y := by
      have hleft := tableOf_oneRow hne hl
      have hright := tableOf_oneRow hne' hr
      exact (isEquiJoin_iff hleft hright).mp (h _ _ hleft hright) l List.mem_cons_self r
        List.mem_cons_self
    have hlen (n i : Nat) : (marked n i).length = n := by
      rw [marked, List.length_map, List.length_range]
    have hmarked := hrows (hlen leftColumns.length x) (hlen rightColumns.length y)
    rw [cell_marked hx, cell_marked hy, if_pos rfl, if_pos rfl] at hmarked
    obtain ⟨i, j, hi, hj, -⟩ := hmarked.mpr rfl
    have hi' := columnIndex_lt hi
    have hj' := columnIndex_lt hj
    have hiff {l r : List Text} (hl : l.length = leftColumns.length)
        (hr : r.length = rightColumns.length) : cell l i = cell r j ↔ cell l x = cell r y := by
      refine Iff.trans ⟨fun heq => ⟨i, j, hi, hj, heq⟩, ?_⟩ (hrows hl hr)
      rintro ⟨i', j', hi', hj', heq⟩
      obtain rfl := Option.some.inj (hi.symm.trans hi')
      obtain rfl := Option.some.inj (hj.symm.trans hj')
      exact heq
    -- a row marked at the column and an unmarked one
    have hleft := hiff (hlen leftColumns.length x) (hlen rightColumns.length rightColumns.length)
    rw [cell_marked hx, cell_marked hy, cell_marked hi', cell_marked hj', if_pos rfl,
      if_neg (Nat.ne_of_lt hy), if_neg (Nat.ne_of_lt hj')] at hleft
    have hright := hiff (hlen leftColumns.length leftColumns.length) (hlen rightColumns.length y)
    rw [cell_marked hx, cell_marked hy, cell_marked hi', cell_marked hj', if_pos rfl,
      if_neg (Nat.ne_of_lt hx), if_neg (Nat.ne_of_lt hi')] at hright
    have hix : i = x := by
      by_contra hne
      rw [if_neg hne] at hleft
      exact absurd (hleft.mp rfl) (by decide)
    have hjy : j = y := by
      by_contra hne
      rw [if_neg hne] at hright
      exact absurd (hright.mp rfl) (by decide)
    exact ⟨hix ▸ hi, hjy ▸ hj⟩
  · rintro ⟨hi, hj⟩ left right hleft hright
    refine (isEquiJoin_iff hleft hright).mpr fun l _ r _ => ⟨?_, fun heq => ⟨x, y, hi, hj, heq⟩⟩
    rintro ⟨i, j, hi', hj', heq⟩
    obtain rfl := Option.some.inj (hi.symm.trans hi')
    obtain rfl := Option.some.inj (hj.symm.trans hj')
    exact heq

/-- No column before this one has its name up to the case of the letters. -/
def FirstNamed (fold : Char → Char) (columns : List Text) (i : Nat) : Prop :=
  ∀ k < i, (columns[k]?).map (·.map fold) ≠ (columns[i]?).map (·.map fold)

/-- With different names a column is the first of its name. -/
theorem firstNamed_of_nodup {i : Nat} (hi : i < columns.length)
    (hdistinct : (columns.map (·.map fold)).Nodup) : FirstNamed fold columns i := by
  intro k hk heq
  rw [List.getElem?_eq_getElem (Nat.lt_trans hk hi), List.getElem?_eq_getElem hi, Option.map_some,
    Option.map_some, Option.some.injEq] at heq
  have hk' : k < (columns.map (·.map fold)).length := by
    rw [List.length_map]
    omega
  have hi' : i < (columns.map (·.map fold)).length := by
    rw [List.length_map]
    exact hi
  have hsame : (columns.map (·.map fold))[k] = (columns.map (·.map fold))[i] := by
    rw [List.getElem_map, List.getElem_map, heq]
  exact absurd ((List.Nodup.getElem_inj_iff hdistinct).mp hsame) (Nat.ne_of_lt hk)

/-- An operand finds the column that it names if the names of the columns have no dot and no
earlier column has the same name up to case. -/
theorem columnIndex_of_names {table operand : Text} {i : Nat} (h : Names table columns operand i)
    (hdot : ∀ c, fold c = fold '.' → c = '.') (hcolumns : ∀ c ∈ columns, '.' ∉ c)
    (hfirst : FirstNamed fold columns i) :
    columnIndex fold columns operand = some i := by
  obtain ⟨c, hc, hoperand⟩ := h
  obtain ⟨hi, rfl⟩ := List.getElem?_eq_some_iff.mp hc
  have hplain : stripQualifier columns[i] = columns[i] := by
    rw [stripQualifier, List.rtakeWhile_eq_self_iff]
    intro d hd
    rw [bne_iff_ne]
    rintro rfl
    exact hcolumns _ (List.getElem_mem hi) hd
  have hstrip : stripQualifier operand = columns[i] := by
    rcases hoperand with rfl | rfl
    · exact hplain
    · have hsplit : (columns[i].reverse ++ ['.'] ++ table.reverse).takeWhile (· != '.') =
          columns[i].reverse := by
        have hall : ∀ d ∈ columns[i].reverse, (d != '.') = true := by
          intro d hd
          rw [bne_iff_ne]
          rintro rfl
          exact hcolumns _ (List.getElem_mem hi) (List.mem_reverse.mp hd)
        rw [List.append_assoc, List.takeWhile_append_of_pos hall]
        simp
      rw [stripQualifier, List.rtakeWhile]
      simpa using congrArg List.reverse hsplit
  refine List.findIdx?_eq_some_iff_getElem.mpr ⟨hi, ?_, fun k hk => ?_⟩
  · rw [hstrip, Bool.or_eq_true]
    exact .inl (beq_iff_eq.mpr rfl)
  · -- another column differs from the name, and from the qualified operand, which has a dot
    have hne : (columns[k].map fold) ≠ columns[i].map fold := by
      intro heq
      refine hfirst k hk ?_
      rw [List.getElem?_eq_getElem (Nat.lt_trans hk hi), List.getElem?_eq_getElem hi,
        Option.map_some, Option.map_some, heq]
    rw [hstrip, Bool.or_eq_true, not_or]
    refine ⟨fun heq => hne (beq_iff_eq.mp heq), fun heq => ?_⟩
    have heq : columns[k].map fold = operand.map fold := beq_iff_eq.mp heq
    rcases hoperand with rfl | rfl
    · exact hne heq
    · have hmem : fold '.' ∈ columns[k].map fold := by
        rw [heq]
        exact List.mem_map_of_mem (List.mem_append_right _ List.mem_cons_self)
      obtain ⟨d, hd, hfold⟩ := List.mem_map.mp hmem
      rw [hdot d hfold] at hd
      exact hcolumns _ (List.getElem_mem _) hd

/-- Operands in the order of the tables are looked up as they are meant. -/
theorem isEquiJoin_of_ordered (hx : Names (group groups 1) leftColumns (group groups 3) x)
    (hy : Names (group groups 2) rightColumns (group groups 4) y)
    (hdot : ∀ c, fold c = fold '.' → c = '.')
    (hnames : ∀ columns ∈ [leftColumns, rightColumns],
      (∀ c ∈ columns, '.' ∉ c) ∧ (columns.map (·.map fold)).Nodup)
    (hleft : TableOf leftColumns left) (hright : TableOf rightColumns right) :
    IsEquiJoin (joinTables fold groups left right) left right x y := by
  rw [List.forall_mem_cons, List.forall_mem_singleton] at hnames
  refine (forall_isEquiJoin_iff (.inl ⟨hx, hy⟩)).mpr ⟨?_, ?_⟩ left right hleft hright
  · exact columnIndex_of_names hx hdot hnames.1.1 (firstNamed_of_nodup hx.lt hnames.1.2)
  · exact columnIndex_of_names hy hdot hnames.2.1 (firstNamed_of_nodup hy.lt hnames.2.2)

/-! ### The join of a query -/

/-- The join is right for all rows of two tables exactly if the first operand is looked up as the
column of the left table that the `on` clause names, and the second one as that of the right table.
For given rows it is right exactly if no pair of them tells the columns that were looked up from
those that are named. The client is sent this table. -/
theorem equi_join_iff {sql : Text} (hsql : SIMPLE_JOIN.matchAll sql = some groups)
    (hreads : Reads groups leftColumns rightColumns x y) :
    ((∀ left right, TableOf leftColumns left → TableOf rightColumns right →
        IsEquiJoin (joinTables fold groups left right) left right x y) ↔
      columnIndex fold leftColumns (group groups 3) = some x ∧
        columnIndex fold rightColumns (group groups 4) = some y) ∧
    ∀ left right, TableOf leftColumns left → TableOf rightColumns right →
      (IsEquiJoin (joinTables fold groups left right) left right x y ↔
        ∀ l ∈ left.rows, ∀ r ∈ right.rows,
          (Compared fold groups leftColumns rightColumns l r ↔ cell l x = cell r y)) ∧
      ∀ leftResponses rightResponses, mergeResponses fold leftResponses = some left →
        mergeResponses fold rightResponses = some right →
        join fold sql leftResponses rightResponses =
          some (joinTables fold groups left right).toAsciiTable := by
  refine ⟨forall_isEquiJoin_iff hreads, fun left right hleft hright =>
    ⟨isEquiJoin_iff hleft hright, ?_⟩⟩
  intro leftResponses rightResponses hl hr
  rw [join, hsql]
  dsimp only
  rw [hl, hr]
  rfl

/-- The groups of `select * from a join b on a.id = b.ref;`. -/
def orderedGroups : Regex.Groups Char :=
  [(1, ['a']), (2, ['b']), (3, "a.id".toList), (4, "b.ref".toList)]

/-- The statement with its operands in order matches the pattern. -/
theorem matchAll_ordered :
    SIMPLE_JOIN.matchAll "select * from a join b on a.id = b.ref;".toList = some orderedGroups := by
  decide +kernel

/-- Operands in the order of the tables. -/
theorem equi_join_iff_ordered :
    (∀ left right, TableOf ["id".toList, "v".toList] left → TableOf ["ref".toList] right →
        IsEquiJoin (joinTables Char.toLower orderedGroups left right) left right 0 0) ↔
      columnIndex Char.toLower ["id".toList, "v".toList] "a.id".toList = some 0 ∧
        columnIndex Char.toLower ["ref".toList] "b.ref".toList = some 0 := by
  refine (equi_join_iff matchAll_ordered (.inl ⟨?_, ?_⟩)).1
  · exact ⟨"id".toList, rfl, .inr (by decide)⟩
  · exact ⟨"ref".toList, rfl, .inr (by decide)⟩

/-- The groups of `select * from a join b on b.ref = a.id;`. -/
def swappedGroups : Regex.Groups Char :=
  [(1, ['a']), (2, ['b']), (3, "b.ref".toList), (4, "a.id".toList)]

/-- So does the one with the operands swapped. -/
theorem matchAll_swapped :
    SIMPLE_JOIN.matchAll "select * from a join b on b.ref = a.id;".toList = some swappedGroups := by
  decide +kernel

/-- With the operands the other way round the columns are looked up in the wrong tables, and a row
of `a` with its row of `b` is not found. -/
theorem not_equi_join :
    ¬ ∀ (sql : Text) (groups : Regex.Groups Char) (leftColumns rightColumns : List Text)
      (x y : Nat),
      SIMPLE_JOIN.matchAll sql = some groups → Reads groups leftColumns rightColumns x y →
      ∀ left right, TableOf leftColumns left → TableOf rightColumns right →
        IsEquiJoin (joinTables Char.toLower groups left right) left right x y := by
  intro h
  have hjoin := h _ _ ["id".toList] ["ref".toList] 0 0 matchAll_swapped
    (.inr ⟨⟨"id".toList, rfl, .inr (by decide)⟩, ⟨"ref".toList, rfl, .inr (by decide)⟩⟩)
    (oneRow ["id".toList] [['1']]) (oneRow ["ref".toList] [['1']])
    (tableOf_oneRow (List.cons_ne_nil _ _) rfl) (tableOf_oneRow (List.cons_ne_nil _ _) rfl)
  have hmem := (hjoin.mem_iff [['1'], ['1']]).mpr
    ⟨[['1']], List.mem_cons_self, [['1']], List.mem_cons_self, rfl, rfl⟩
  exact absurd hmem (by decide +kernel)

end QueryPostProcessor

end DisMiniSql.Distributed
