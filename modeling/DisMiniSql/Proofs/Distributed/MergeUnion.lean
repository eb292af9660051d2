import Mathlib.Data.List.Nodup
import DisMiniSql.Distributed.Coordinator.MiniSqlResultParser

/-!
# `DisMiniSql.Proofs.Distributed.MergeUnion`: the merged table and the union of the rows

`merge` knows a row by its cells joined with U+001F. What it keeps is therefore one row for every
key (`Merged.Keeps`), and `merge_keeps` carries this through the tables. The merged rows are the
union of the rows of the tables exactly if no two different rows have one key (`merge_union_iff`);
for rows of one width it is enough that no cell has the separator in it
(`keysDistinct_of_not_mem`).
-/

set_option autoImplicit false

namespace DisMiniSql.Distributed

namespace QueryTable

/-- What `parse` promises of its tables: as many cells as columns, and no rows without columns. -/
structure Parsed (t : QueryTable) : Prop where
  length_eq : ∀ row ∈ t.rows, row.length = t.columns.length
  rows_nil : t.isEmpty = true → t.rows = []

end QueryTable

namespace MiniSqlResultParser

variable {fold : Char → Char} {columns : List Text} {tables : List QueryTable}
  {rows seen : List (List Text)} {merged : Merged}

/-- Parsed rows have the width of the first one. -/
theorem ofParsedRows_parsed {parsedRows : List (List Text)} (hne : ∀ row ∈ parsedRows, row ≠ []) :
    (ofParsedRows parsedRows).Parsed := by
  cases parsedRows with
  | nil => exact ⟨fun row hrow => absurd hrow List.not_mem_nil, fun _ => rfl⟩
  | cons header body =>
    refine ⟨fun row hrow => ?_, fun hempty => ?_⟩
    · exact beq_iff_eq.mp (List.mem_filter.mp hrow).2
    · exact absurd (List.isEmpty_iff.mp hempty) (hne header List.mem_cons_self)

/-- A parsed answer has rows as long as its header. -/
theorem parse_parsed {output : Text} {t : QueryTable} (h : parse output = some t) : t.Parsed := by
  unfold parse at h
  split at h
  · obtain rfl := Option.some.inj h
    show (ofParsedRows []).Parsed
    exact ofParsedRows_parsed fun row hrow => absurd hrow List.not_mem_nil
  · obtain ⟨parsedRows, _, h⟩ := Option.bind_eq_some_iff.mp h
    obtain rfl := Option.some.inj h
    refine ofParsedRows_parsed fun row hrow => ?_
    have hrow := (List.mem_filter.mp hrow).2
    rw [Bool.not_eq_true', List.isEmpty_eq_false_iff] at hrow
    exact hrow

/-! ### One row for every key -/

/-- What the merged table keeps of the rows seen so far. -/
structure Merged.Keeps (merged : Merged) (seen : List (List Text)) : Prop where
  keys : merged.seenRows = merged.table.rows.map rowKey
  nodup : merged.seenRows.Nodup
  subset : ∀ row ∈ merged.table.rows, row ∈ seen
  complete : ∀ row ∈ seen, rowKey row ∈ merged.seenRows

theorem addRow_columns (row : List Text) :
    (addRow merged row).table.columns = merged.table.columns := by
  unfold addRow
  split <;> rfl

/-- After one more row the merged table has the rows seen so far, each once by its key. -/
theorem Merged.Keeps.addRow (h : merged.Keeps seen) (row : List Text) :
    (addRow merged row).Keeps (seen ++ [row]) := by
  unfold MiniSqlResultParser.addRow
  -- a row whose key is there already is dropped
  split
  · next hmem =>
    refine ⟨h.keys, h.nodup, fun r hr => List.mem_append_left _ (h.subset r hr), fun r hr => ?_⟩
    rw [List.mem_append, List.mem_singleton] at hr
    rcases hr with hr | rfl
    · exact h.complete r hr
    · exact hmem
  · next hnew =>
    refine ⟨?_, ?_, fun r hr => ?_, fun r hr => ?_⟩
    · rw [List.map_append, ← h.keys]
      rfl
    · rw [List.nodup_append]
      refine ⟨h.nodup, List.nodup_singleton _, fun key hkey key' hkey' heq => hnew ?_⟩
      rwa [← List.mem_singleton.mp hkey', ← heq]
    · rw [List.mem_append] at hr ⊢
      exact hr.imp_left (h.subset r)
    · rw [List.mem_append, List.mem_singleton] at hr
      rw [List.mem_append, List.mem_singleton]
      exact hr.imp (h.complete r) (congrArg rowKey)

/-- By induction on the rows. -/
theorem Merged.Keeps.addRows (h : merged.Keeps seen) (rows : List (List Text)) :
    (rows.foldl MiniSqlResultParser.addRow merged).Keeps (seen ++ rows) ∧
      (rows.foldl MiniSqlResultParser.addRow merged).table.columns = merged.table.columns := by
  induction rows generalizing merged seen with
  | nil => exact ⟨by rwa [List.append_nil], rfl⟩
  | cons row rows ih =>
    obtain ⟨hkeeps, hcolumns⟩ := ih (h.addRow row)
    rw [List.append_assoc, List.singleton_append] at hkeeps
    exact ⟨hkeeps, hcolumns.trans (addRow_columns row)⟩

theorem sameColumns_self (columns : List Text) : sameColumns fold columns columns = true := by
  simp [sameColumns, List.all_eq_true, Text.equalsIgnoreCase, List.zip_eq_zipWith]

variable (fold) in
/-- A table with the columns of the merged one adds its rows, and one without columns has none. -/
theorem Merged.Keeps.addTable {t : QueryTable} (h : merged.Keeps seen) (ht : t.Parsed)
    (hcolumns : t.isEmpty = false → t.columns = columns)
    (hmerged : merged.table.isEmpty = true ∨ merged.table.columns = columns) :
    (addTable fold merged t).Keeps (seen ++ t.rows) ∧
      ((addTable fold merged t).table.isEmpty = true ∨
        (addTable fold merged t).table.columns = columns) := by
  unfold MiniSqlResultParser.addTable
  cases hempty : t.isEmpty with
  | true => rw [if_pos rfl, ht.rows_nil hempty, List.append_nil]; exact ⟨h, hmerged⟩
  | false =>
    rw [if_neg Bool.false_ne_true]
    obtain ⟨start, hstart⟩ : ∃ start : Merged, start =
        if merged.table.isEmpty then
          { merged with table := { merged.table with columns := t.columns } }
        else merged := ⟨_, rfl⟩
    have hkeeps : start.Keeps seen := by
      rw [hstart]
      split
      · exact ⟨h.keys, h.nodup, h.subset, h.complete⟩
      · exact h
    have hsame : start.table.columns = columns := by
      rw [hstart]
      split
      · exact hcolumns hempty
      · next hne => exact hmerged.resolve_left hne
    dsimp only
    rw [← hstart, hsame, hcolumns hempty, if_pos (sameColumns_self columns)]
    obtain ⟨hrows, hcols⟩ := hkeeps.addRows t.rows
    exact ⟨hrows, .inr (hcols.trans hsame)⟩

variable (fold) in
/-- By induction on the tables. -/
theorem Merged.Keeps.addTables (h : merged.Keeps seen) (hparsed : ∀ t ∈ tables, t.Parsed)
    (hcolumns : ∀ t ∈ tables, t.isEmpty = false → t.columns = columns)
    (hmerged : merged.table.isEmpty = true ∨ merged.table.columns = columns) :
    (tables.foldl (MiniSqlResultParser.addTable fold) merged).Keeps
      (seen ++ tables.flatMap (·.rows)) := by
  induction tables generalizing merged seen with
  | nil => rwa [List.flatMap_nil, List.append_nil]
  | cons t tables ih =>
    rw [List.foldl_cons, List.flatMap_cons, ← List.append_assoc]
    rw [List.forall_mem_cons] at hparsed hcolumns
    obtain ⟨hkeeps, hnext⟩ := h.addTable fold hparsed.1 hcolumns.1 hmerged
    exact ih hkeeps hparsed.2 hcolumns.2 hnext

variable (fold) in
/-- The merged table keeps one row for every key. -/
theorem merge_keeps (hparsed : ∀ t ∈ tables, t.Parsed)
    (hcolumns : ∀ t ∈ tables, t.isEmpty = false → t.columns = columns) :
    ((merge fold tables).rows.map rowKey).Nodup ∧
      (∀ row ∈ (merge fold tables).rows, ∃ t ∈ tables, row ∈ t.rows) ∧
      ∀ t ∈ tables, ∀ row ∈ t.rows, rowKey row ∈ (merge fold tables).rows.map rowKey := by
  have hinit : ({} : Merged).Keeps [] :=
    ⟨rfl, List.nodup_nil, fun row hrow => hrow, fun row hrow => absurd hrow List.not_mem_nil⟩
  have h := hinit.addTables fold hparsed hcolumns (.inl rfl)
  rw [List.nil_append] at h
  refine ⟨h.keys ▸ h.nodup, fun row hrow => ?_, fun t ht row hrow => ?_⟩
  · exact List.mem_flatMap.mp (h.subset row hrow)
  · rw [merge, ← h.keys]
    exact h.complete row (List.mem_flatMap.mpr ⟨t, ht, hrow⟩)

theorem addRows_columns (rows : List (List Text)) :
    (rows.foldl addRow merged).table.columns = merged.table.columns := by
  induction rows generalizing merged with
  | nil => rfl
  | cons row rows ih => rw [List.foldl_cons, ih, addRow_columns]

variable (fold merged) in
theorem addTable_columns (t : QueryTable) :
    (addTable fold merged t).table.columns =
      if t.isEmpty || !merged.table.isEmpty then merged.table.columns else t.columns := by
  unfold addTable
  cases t.isEmpty with
  | true => rfl
  | false => cases merged.table.isEmpty <;> simp <;> split <;> simp [addRows_columns]

variable (fold) in
/-- The merged table has the columns of the tables, if there is one with columns. -/
theorem merge_columns (hcolumns : ∀ t ∈ tables, t.isEmpty = false → t.columns = columns)
    (hsome : ∃ t ∈ tables, t.isEmpty = false) : (merge fold tables).columns = columns := by
  have hfold (tables : List QueryTable) (merged : Merged)
      (hcolumns : ∀ t ∈ tables, t.isEmpty = false → t.columns = columns)
      (hmerged : merged.table.isEmpty = false → merged.table.columns = columns)
      (hone : merged.table.isEmpty = false ∨ ∃ t ∈ tables, t.isEmpty = false) :
      (tables.foldl (addTable fold) merged).table.columns = columns := by
    induction tables generalizing merged with
    | nil => exact hmerged (hone.resolve_right fun ⟨t, ht, _⟩ => absurd ht List.not_mem_nil)
    | cons t tables ih =>
      rw [List.forall_mem_cons] at hcolumns
      rw [List.foldl_cons]
      have hstep := addTable_columns fold merged t
      by_cases hkeep : (t.isEmpty || !merged.table.isEmpty) = true
      · rw [if_pos hkeep] at hstep
        have hempty : (addTable fold merged t).table.isEmpty = merged.table.isEmpty :=
          congrArg List.isEmpty hstep
        refine ih _ hcolumns.2 (fun h => hstep.trans (hmerged (hempty ▸ h))) ?_
        rw [hempty]
        rcases hone with hone | ⟨t', ht', hne⟩
        · exact .inl hone
        · rcases List.mem_cons.mp ht' with rfl | ht'
          · rw [hne, Bool.false_or, Bool.not_eq_true'] at hkeep
            exact .inl hkeep
          · exact .inr ⟨t', ht', hne⟩
      · rw [if_neg hkeep] at hstep
        rw [Bool.or_eq_true, not_or] at hkeep
        have hne : t.isEmpty = false := Bool.eq_false_iff.mpr hkeep.1
        have hempty : (addTable fold merged t).table.isEmpty = false :=
          (congrArg List.isEmpty hstep).trans hne
        exact ih _ hcolumns.2 (fun _ => hstep.trans (hcolumns.1 hne)) (.inl hempty)
  exact hfold tables {} hcolumns (fun h => absurd h Bool.noConfusion) (.inr hsome)

/-- Tables without columns merge to one without columns. -/
theorem merge_of_isEmpty (h : ∀ t ∈ tables, t.isEmpty = true) : merge fold tables = {} := by
  have hfold (merged : Merged) : tables.foldl (addTable fold) merged = merged := by
    induction tables with
    | nil => rfl
    | cons t tables ih =>
      rw [List.forall_mem_cons] at h
      rw [List.foldl_cons, addTable, if_pos h.1, ih h.2]
  rw [merge, hfold]

/-! ### The union -/

/-- A row of one of the tables. -/
def InTables (tables : List QueryTable) (row : List Text) : Prop := ∃ t ∈ tables, row ∈ t.rows

/-- No two different rows have one key. -/
def KeysDistinct (tables : List QueryTable) : Prop :=
  ∀ row row', InTables tables row → InTables tables row' → rowKey row = rowKey row' → row = row'

/-- The merged rows are those of the tables, each of them once, and the rows are the same for any
other tables that have them: in another order, more than once, or spread in another way. -/
def MergesAsUnion (fold : Char → Char) (columns : List Text) (tables : List QueryTable) : Prop :=
  (merge fold tables).rows.Nodup ∧
  (∀ row, row ∈ (merge fold tables).rows ↔ InTables tables row) ∧
  ∀ tables' : List QueryTable, (∀ t ∈ tables', t.Parsed) →
    (∀ t ∈ tables', t.isEmpty = false → t.columns = columns) →
    (∀ row, InTables tables' row ↔ InTables tables row) →
    ∀ row, row ∈ (merge fold tables').rows ↔ row ∈ (merge fold tables).rows

variable (fold) in
/-- With distinct keys the merged rows are the rows of the tables. -/
theorem mem_merge_iff (hparsed : ∀ t ∈ tables, t.Parsed)
    (hcolumns : ∀ t ∈ tables, t.isEmpty = false → t.columns = columns)
    (hkeys : KeysDistinct tables) (row : List Text) :
    row ∈ (merge fold tables).rows ↔ InTables tables row := by
  obtain ⟨-, hsub, hall⟩ := merge_keeps fold hparsed hcolumns
  constructor
  · exact hsub row
  · rintro ⟨t, ht, hrow⟩
    obtain ⟨row', hrow', heq⟩ := List.mem_map.mp (hall t ht row hrow)
    rwa [← hkeys row' row (hsub row' hrow') ⟨t, ht, hrow⟩ heq]

/-- Merging is a union exactly if different rows have different keys. -/
theorem merge_union_iff (hparsed : ∀ t ∈ tables, t.Parsed)
    (hcolumns : ∀ t ∈ tables, t.isEmpty = false → t.columns = columns) :
    MergesAsUnion fold columns tables ↔ KeysDistinct tables := by
  have hnodup := (merge_keeps fold hparsed hcolumns).1
  constructor
  · rintro ⟨-, hmem, -⟩ row row' hrow hrow' heq
    exact List.inj_on_of_nodup_map hnodup ((hmem row).mpr hrow) ((hmem row').mpr hrow') heq
  · intro hkeys
    refine ⟨hnodup.of_map, mem_merge_iff fold hparsed hcolumns hkeys, ?_⟩
    intro tables' hparsed' hcolumns' hsame row
    have hkeys' : KeysDistinct tables' := fun r r' hr hr' =>
      hkeys r r' ((hsame r).mp hr) ((hsame r').mp hr')
    rw [mem_merge_iff fold hparsed' hcolumns' hkeys', mem_merge_iff fold hparsed hcolumns hkeys,
      hsame]

/-- Two nodes with a row in common. -/
theorem merge_union_iff_two_nodes :
    let left : QueryTable :=
      { columns := [['i', 'd'], ['v']], rows := [[['1'], ['a']], [['2'], ['b']]] }
    let right : QueryTable :=
      { columns := [['i', 'd'], ['v']], rows := [[['2'], ['b']], [['3'], []]] }
    MergesAsUnion Char.toLower [['i', 'd'], ['v']] [left, right] ↔ KeysDistinct [left, right] := by
  intro left right
  refine merge_union_iff ?_ (by decide)
  rw [List.forall_mem_cons, List.forall_mem_singleton]
  exact ⟨⟨by decide, by decide⟩, by decide, by decide⟩

/-- The keys of `("a␟b", "c")` and `("a", "b␟c")` are the same. -/
theorem not_merge_union :
    ¬ ∀ tables : List QueryTable, (∀ t ∈ tables, t.Parsed) →
      (∀ t ∈ tables, t.columns = [['x'], ['y']]) →
      ∀ row, row ∈ (merge Char.toLower tables).rows ↔ InTables tables row := by
  intro h
  obtain ⟨t, ht⟩ : ∃ t : QueryTable, t =
      { columns := [['x'], ['y']]
        rows := [[['a', '\u001f', 'b'], ['c']], [['a'], ['b', '\u001f', 'c']]] } := ⟨_, rfl⟩
  have hparsed : ∀ s ∈ [t], s.Parsed := by
    rw [List.forall_mem_singleton, ht]
    exact ⟨by decide, by decide⟩
  have hlost := h [t] hparsed (by rw [List.forall_mem_singleton, ht])
    [['a'], ['b', '\u001f', 'c']]
  refine absurd (hlost.mpr ⟨t, List.mem_singleton.mpr rfl, ?_⟩) ?_
  · rw [ht]
    decide
  · rw [ht]
    decide

/-! ### Cells without the separator -/

/-- The keys of rows of one width, none of whose cells has the separator in it. -/
theorem rowKey_inj {row row' : List Text} (hlen : row.length = row'.length)
    (hrow : ∀ cell ∈ row, '\u001f' ∉ cell) (hrow' : ∀ cell ∈ row', '\u001f' ∉ cell)
    (h : rowKey row = rowKey row') : row = row' := by
  by_cases hnil : row = []
  · rw [hnil, List.length_nil, eq_comm, List.length_eq_zero_iff] at hlen
    rw [hnil, hlen]
  · have hnil' : row' ≠ [] := by
      intro heq
      rw [heq, List.length_nil, List.length_eq_zero_iff] at hlen
      exact hnil hlen
    calc row = (rowKey row).splitOn '\u001f' := (List.splitOn_intercalate _ hrow hnil).symm
      _ = (rowKey row').splitOn '\u001f' := by rw [h]
      _ = row' := List.splitOn_intercalate _ hrow' hnil'

/-- Cells without the separator of the key make keys distinct. -/
theorem keysDistinct_of_not_mem (hparsed : ∀ t ∈ tables, t.Parsed)
    (hcolumns : ∀ t ∈ tables, t.isEmpty = false → t.columns = columns)
    (hcells : ∀ t ∈ tables, ∀ row ∈ t.rows, ∀ cell ∈ row, '\u001f' ∉ cell) :
    KeysDistinct tables := by
  have hwidth {t : QueryTable} {row : List Text} (ht : t ∈ tables) (hrow : row ∈ t.rows) :
      row.length = columns.length := by
    have hne : t.isEmpty = false := by
      refine Bool.eq_false_iff.mpr fun hempty => ?_
      rw [(hparsed t ht).rows_nil hempty] at hrow
      exact absurd hrow List.not_mem_nil
    rw [← hcolumns t ht hne]
    exact (hparsed t ht).length_eq row hrow
  rintro row row' ⟨t, ht, hrow⟩ ⟨t', ht', hrow'⟩ hkey
  exact rowKey_inj ((hwidth ht hrow).trans (hwidth ht' hrow').symm) (hcells t ht row hrow)
    (hcells t' ht' row' hrow') hkey

end MiniSqlResultParser

end DisMiniSql.Distributed
