import DisMiniSql.MiniSql.Executor.ResultWriter
import DisMiniSql.Proofs.Distributed.ResultParser

/-!
# `DisMiniSql.Proofs.Distributed.ResultText`: which results survive the printed table

Both printers, `ExecuteEngine::Execute` and `toAsciiTable`, write a frame, the line of the columns,
the lines of the rows and a summary, with the cells as they are. `parse` reads the table back
exactly if all cells are plain: `result_text_round_trip`.
-/

set_option autoImplicit false

namespace DisMiniSql.Distributed

open SqlUtils (trim)
open DisMiniSql.MiniSql (printScan dataWidth)
open MiniSqlResultParser

/-! ### The printer of the engine -/

section Engine
open DisMiniSql.MiniSql.ResultWriter

/-- `divider` without its line break. -/
def dividerLine (widths : List Nat) : Text :=
  '+' :: widths.flatMap (fun width => List.replicate (width + 2) '-' ++ ['+'])

theorem padded_padLeft {cells : List Text} {widths : List Nat} (h : cells.length = widths.length) :
    Padded cells (List.zipWith padLeft cells widths) := by
  induction cells generalizing widths with
  | nil => exact .nil
  | cons cell cells ih =>
    cases widths with
    | nil => cases h
    | cons width widths => exact .cons ⟨_, rfl⟩ (ih (Nat.succ.inj h))

theorem writeRow_eq (cells : List Text) (widths : List Nat) :
    writeRow cells widths = barred (List.zipWith padLeft cells widths) ++ ['\n'] := by
  have hcells : (List.zipWith writeCell cells widths).flatten =
      (List.zipWith padLeft cells widths).flatMap (fun cell => ' ' :: (cell ++ [' ', '|'])) := by
    rw [List.flatMap_def, List.map_zipWith]
    rfl
  rw [writeRow, hcells]
  rfl

/-- One width for every column. -/
theorem length_dataWidth {columns : List Text} {rows : List (List Text)}
    (h : ∀ row ∈ rows, row.length = columns.length) :
    (dataWidth columns rows).length = columns.length := by
  have hfold (widths : List Nat) (hwidths : widths.length = columns.length) :
      (rows.foldl (fun widths row => List.zipWith max widths (row.map size)) widths).length =
        columns.length := by
    induction rows generalizing widths with
    | nil => exact hwidths
    | cons row rows ih =>
      rw [List.forall_mem_cons] at h
      refine ih h.2 _ ?_
      rw [List.length_zipWith, List.length_map, hwidths, h.1, Nat.min_self]
  rw [dataWidth, List.length_zipWith, List.length_map, hfold _ List.length_replicate, Nat.min_self]

/-- The line of dashes has no break. -/
theorem no_break_dividerLine (widths : List Nat) :
    ∀ c ∈ dividerLine widths, Text.isLineBreak c = false := by
  rw [dividerLine, List.forall_mem_cons]
  refine ⟨rfl, fun c hc => ?_⟩
  obtain ⟨width, -, hc⟩ := List.mem_flatMap.mp hc
  rcases List.mem_append.mp hc with hc | hc
  · rw [List.eq_of_mem_replicate hc]
    rfl
  · rw [List.mem_singleton.mp hc]
    rfl

/-- `endInformation` for a result that is not empty, without its line break. -/
def informationLine (resultSize milliseconds : Nat) : Text :=
  resultSize.repr.toList ++
    (" row in set".toList ++ ['('] ++ seconds milliseconds ++ " sec).".toList)

/-- Nor has the line with the number of rows and the time. -/
theorem no_break_informationLine (resultSize milliseconds : Nat) :
    ∀ c ∈ informationLine resultSize milliseconds, Text.isLineBreak c = false := by
  intro c hc
  simp only [informationLine, seconds, List.mem_append] at hc
  rcases hc with hc | ((hc | hc) | (hc | hc) | hc | hc) | hc
  · exact no_break_repr _ c hc
  · revert c
    decide
  · revert c
    decide
  · exact no_break_repr _ c hc
  · revert c
    decide
  · exact no_break_repr _ c (List.mem_of_mem_drop hc)
  · revert c
    decide
  · revert c
    decide

/-- What is printed, line by line. -/
theorem printScan_eq {columns : List Text} {rows : List (List Text)} (hrows : rows ≠ [])
    (milliseconds : Nat) :
    printScan columns rows milliseconds =
      ([dividerLine (dataWidth columns rows),
          barred (List.zipWith padLeft columns (dataWidth columns rows)),
          dividerLine (dataWidth columns rows)] ++
        (rows.map fun row => barred (List.zipWith padLeft row (dataWidth columns rows))) ++
        [dividerLine (dataWidth columns rows),
          informationLine rows.length milliseconds]).flatMap
        (fun line => line ++ ['\n']) ++ [] := by
  have hempty : rows.isEmpty = false := List.isEmpty_eq_false_iff.mpr hrows
  have hlength : rows.length ≠ 0 := fun h => hrows (List.length_eq_zero_iff.mp h)
  simp only [printScan, hempty, Bool.false_eq_true, if_false, writeRow_eq, endInformation, hlength]
  simp [informationLine, divider, dividerLine, List.flatMap_map]

end Engine

/-- The columns and the cells are plain. -/
def PlainTable (t : QueryTable) : Prop :=
  (∀ column ∈ t.columns, Plain column) ∧ ∀ row ∈ t.rows, ∀ cell ∈ row, Plain cell

instance (t : QueryTable) : Decidable (PlainTable t) := by
  unfold PlainTable
  infer_instance

/-- The result of a scan: every row has a cell for every column. -/
def RowsFit (t : QueryTable) : Prop := ∀ row ∈ t.rows, row.length = t.columns.length

theorem parsed_of_rowsFit {t : QueryTable} (hcolumns : t.columns ≠ []) (h : RowsFit t) :
    t.Parsed :=
  ⟨h, fun hempty => absurd (List.isEmpty_iff.mp hempty) hcolumns⟩

/-- The padded rows are as many as the rows, and none of them is empty. -/
theorem padded_rows {t : QueryTable} (hcolumns : t.columns ≠ []) (hfit : RowsFit t)
    {pad : List Text → List Text}
    (hpad : ∀ row, row.length = t.columns.length → Padded row (pad row)) :
    List.Forall₂ Padded t.rows (t.rows.map pad) ∧ ∀ row ∈ t.rows.map pad, row ≠ [] := by
  constructor
  · rw [List.forall₂_map_right_iff, List.forall₂_same]
    exact fun row hrow => hpad row (hfit row hrow)
  · rw [List.forall_mem_map]
    intro row hrow hnil
    have hlen := (hpad row (hfit row hrow)).length_eq
    rw [hnil, hfit row hrow] at hlen
    exact hcolumns (List.length_eq_zero_iff.mp hlen)

/-- The printed table of plain cells is read back. `pad` is what the printer makes of the cells of a
line. -/
theorem parse_framed {t : QueryTable} (hcolumns : t.columns ≠ []) (hfit : RowsFit t)
    (hplain : PlainTable t) {pad : List Text → List Text}
    (hpad : ∀ row, row.length = t.columns.length → Padded row (pad row))
    {frame : Text} {tail : List Text} {last : Text}
    (hother : ∀ line ∈ frame :: (tail ++ [last]), isTableLine (trim line) = false ∧
      ∀ c ∈ line, Text.isLineBreak c = false) :
    parse (([frame, barred (pad t.columns), frame] ++
        (t.rows.map fun row => barred (pad row)) ++ frame :: tail).flatMap
          (fun line => line ++ ['\n']) ++ last) = some t := by
  obtain ⟨hrows, hrows_ne⟩ := padded_rows hcolumns hfit hpad
  have hheader := hpad t.columns rfl
  have hheader_ne : pad t.columns ≠ [] := by
    intro hnil
    have hlen := hheader.length_eq
    rw [hnil] at hlen
    exact hcolumns (List.length_eq_zero_iff.mp hlen)
  rw [List.forall_mem_cons, List.forall_mem_append, List.forall_mem_singleton] at hother
  obtain ⟨⟨hframe, hframe'⟩, htail, hlast⟩ := hother
  have hlines : ∀ line ∈ [frame, barred (pad t.columns), frame] ++
      (t.rows.map fun row => barred (pad row)) ++ frame :: tail,
      ∀ c ∈ line, Text.isLineBreak c = false := by
    rw [List.forall_mem_append, List.forall_mem_append, List.forall_mem_cons, List.forall_mem_cons,
      List.forall_mem_singleton, List.forall_mem_map, List.forall_mem_cons]
    refine ⟨⟨⟨hframe', no_break_barred hheader hplain.1, hframe'⟩, fun row hrow => ?_⟩,
      hframe', fun line hline => (htail line hline).2⟩
    exact no_break_barred (hpad row (hfit row hrow)) (hplain.2 row hrow)
  refine parse_of_tableLines hcolumns (parsed_of_rowsFit hcolumns hfit) hplain hheader hrows ?_
  have htail' : ∀ line ∈ tail ++ [last], isTableLine (trim line) = false :=
    List.forall_mem_append.mpr
      ⟨fun line hline => (htail line hline).1, List.forall_mem_singleton.mpr hlast.1⟩
  rw [tableLines_lines hlines hlast.2,
    ← filter_framed rfl hframe hheader_ne hrows_ne htail']
  simp [Function.comp_def]

/-! ### The printer of the coordinator -/

namespace QueryTable

theorem length_widen (widths : List Nat) (row : List Text) :
    (widen widths row).length = widths.length := by
  induction widths generalizing row with
  | nil => cases row <;> rfl
  | cons width widths ih =>
    cases row with
    | nil => rfl
    | cons value row => exact congrArg Nat.succ (ih row)

theorem length_widths (t : QueryTable) : t.widths.length = t.columns.length := by
  have hfold (rows : List (List Text)) (widths : List Nat) :
      (rows.foldl widen widths).length = widths.length := by
    induction rows generalizing widths with
    | nil => rfl
    | cons row rows ih => rw [List.foldl_cons, ih, length_widen]
  rw [widths, hfold, List.length_map]

/-- The line of a row as the coordinator prints it. -/
theorem rowLine_eq {widths : List Nat} {row : List Text} (h : row.length = widths.length) :
    rowLine widths row = barred (List.zipWith padRight row widths) := by
  induction widths generalizing row with
  | nil =>
    obtain rfl := List.length_eq_zero_iff.mp h
    rfl
  | cons width widths ih =>
    cases row with
    | nil => cases h
    | cons value row =>
      rw [rowLine, List.tail_cons, ih (Nat.succ.inj h)]
      simp [barred]

theorem padded_padRight {cells : List Text} {widths : List Nat}
    (h : cells.length = widths.length) : Padded cells (List.zipWith padRight cells widths) := by
  induction cells generalizing widths with
  | nil => exact .nil
  | cons cell cells ih =>
    cases widths with
    | nil => cases h
    | cons width widths => exact .cons ⟨_, rfl⟩ (ih (Nat.succ.inj h))

/-- Its border has no break. -/
theorem no_break_border (widths : List Nat) :
    ∀ c ∈ border widths, Text.isLineBreak c = false := by
  intro c hc
  rcases List.mem_append.mp hc with hc | hc
  · obtain ⟨width, -, hc⟩ := List.mem_flatMap.mp hc
    rcases List.mem_cons.mp hc with rfl | hc
    · rfl
    · rw [List.eq_of_mem_replicate hc]
      rfl
  · rw [List.mem_singleton.mp hc]
    rfl

theorem mergedLine_eq (count : Nat) : ∃ rest : Text, mergedLine count = count.repr.toList ++ rest ∧
    ∀ c ∈ rest, Text.isLineBreak c = false := by
  refine ⟨_, by rw [mergedLine, List.append_assoc], ?_⟩
  split <;> decide

/-- What is sent to the client, line by line. -/
theorem toAsciiTable_eq {t : QueryTable} (hcolumns : t.columns ≠ []) (hfit : RowsFit t) :
    t.toAsciiTable =
      ([border t.widths, barred (List.zipWith padRight t.columns t.widths), border t.widths] ++
        (t.rows.map fun row => barred (List.zipWith padRight row t.widths)) ++
        [border t.widths]).flatMap (fun line => line ++ ['\n']) ++ mergedLine t.rows.length := by
  have hempty : t.isEmpty = false := List.isEmpty_eq_false_iff.mpr hcolumns
  have hlength := t.length_widths
  have hrows : t.rows.flatMap (fun row => rowLine t.widths row ++ ['\n']) =
      t.rows.flatMap (fun row => barred (List.zipWith padRight row t.widths) ++ ['\n']) := by
    rw [List.flatMap_def, List.flatMap_def]
    refine congrArg List.flatten (List.map_congr_left fun row hrow => ?_)
    rw [rowLine_eq ((hfit row hrow).trans hlength.symm)]
  rw [toAsciiTable, if_neg (by rw [hempty]; exact Bool.false_ne_true)]
  simp only [hrows, rowLine_eq hlength.symm]
  simp [List.flatMap_map]

end QueryTable

/-! ### The lines that are not of the table -/

theorem dividerLine_other (widths : List Nat) : isTableLine (trim (dividerLine widths)) = false ∧
    ∀ c ∈ dividerLine widths, Text.isLineBreak c = false :=
  ⟨isTableLine_of_head rfl rfl (by decide), no_break_dividerLine widths⟩

theorem border_other (widths : List Nat) : isTableLine (trim (QueryTable.border widths)) = false ∧
    ∀ c ∈ QueryTable.border widths, Text.isLineBreak c = false := by
  have hhead : (QueryTable.border widths).head? = some '+' := by cases widths <;> rfl
  exact ⟨isTableLine_of_head hhead rfl (by decide), QueryTable.no_break_border widths⟩

/-- A line of a number and a text. -/
theorem repr_other (n : Nat) {rest : Text} (hrest : ∀ c ∈ rest, Text.isLineBreak c = false) :
    isTableLine (trim (n.repr.toList ++ rest)) = false ∧
      ∀ c ∈ n.repr.toList ++ rest, Text.isLineBreak c = false :=
  ⟨isTableLine_of_repr n rest, List.forall_mem_append.mpr ⟨no_break_repr n, hrest⟩⟩

/-! ### The round trip -/

/-- What the engine prints for a plain table is parsed back as the table. -/
theorem parse_printScan {t : QueryTable} (hcolumns : t.columns ≠ []) (hrows : t.rows ≠ [])
    (hfit : RowsFit t) (hplain : PlainTable t) (milliseconds : Nat) :
    parse (printScan t.columns t.rows milliseconds) = some t := by
  have hlength := length_dataWidth hfit
  have hinformation : ∀ c ∈ informationLine t.rows.length milliseconds,
      Text.isLineBreak c = false := no_break_informationLine _ _
  -- all other lines of the answer are passed over
  have hother : ∀ line ∈ dividerLine (dataWidth t.columns t.rows) ::
      ([informationLine t.rows.length milliseconds] ++ [[]]),
      isTableLine (trim line) = false ∧ ∀ c ∈ line, Text.isLineBreak c = false := by
    rw [List.forall_mem_cons, List.singleton_append, List.forall_mem_cons,
      List.forall_mem_singleton]
    refine ⟨dividerLine_other _, ⟨isTableLine_of_repr _ _, hinformation⟩, rfl, ?_⟩
    exact fun c hc => absurd hc List.not_mem_nil
  rw [printScan_eq hrows]
  exact parse_framed hcolumns hfit hplain
    (fun row hrow => padded_padLeft (hrow.trans hlength.symm)) hother

/-- So is what the coordinator prints. -/
theorem parse_toAsciiTable {t : QueryTable} (hcolumns : t.columns ≠ []) (hfit : RowsFit t)
    (hplain : PlainTable t) : parse t.toAsciiTable = some t := by
  obtain ⟨rest, hmerged, hrest⟩ := QueryTable.mergedLine_eq t.rows.length
  have hother : ∀ line ∈ QueryTable.border t.widths :: ([] ++ [t.rows.length.repr.toList ++ rest]),
      isTableLine (trim line) = false ∧ ∀ c ∈ line, Text.isLineBreak c = false := by
    rw [List.forall_mem_cons, List.nil_append, List.forall_mem_singleton]
    exact ⟨border_other _, repr_other _ hrest⟩
  rw [QueryTable.toAsciiTable_eq hcolumns hfit, hmerged]
  exact parse_framed hcolumns hfit hplain
    (fun row hrow => QueryTable.padded_padRight (hrow.trans t.length_widths.symm)) hother

theorem no_break_seconds (milliseconds : Nat) :
    ∀ c ∈ DisMiniSql.MiniSql.ResultWriter.seconds milliseconds, Text.isLineBreak c = false := by
  intro c hc
  rw [← Bool.not_eq_true]
  intro hbreak
  have hline := no_break_informationLine 0 milliseconds c (by simp [informationLine, hc])
  rw [hline] at hbreak
  cases hbreak

/-- The text of an empty result has no table. -/
theorem parse_printScan_nil (columns : List Text) (milliseconds : Nat) :
    parse (printScan columns [] milliseconds) = some {} := by
  obtain ⟨line, hline⟩ : ∃ line : Text, line =
      "Empty set(".toList ++
        (DisMiniSql.MiniSql.ResultWriter.seconds milliseconds ++ " sec).".toList) := ⟨_, rfl⟩
  have htext : printScan columns [] milliseconds =
      [line].flatMap (fun line => line ++ ['\n']) ++ [] := by
    simp [printScan, DisMiniSql.MiniSql.ResultWriter.endInformation, hline]
  have hbreak : ∀ c ∈ line, Text.isLineBreak c = false := by
    rw [hline, List.forall_mem_append, List.forall_mem_append]
    exact ⟨by decide, no_break_seconds _, by decide⟩
  have hother : isTableLine (trim line) = false :=
    isTableLine_of_head (by rw [hline]; rfl) rfl (by decide)
  have hnone : tableLines (printScan columns [] milliseconds) = [] := by
    rw [htext, tableLines_lines (List.forall_mem_singleton.mpr hbreak)
      fun c hc => absurd hc List.not_mem_nil]
    simp [hother, isTableLine_nil]
  rw [parse_eq, hnone]
  rfl

/-- The text of the engine is read back exactly if the cells are plain, and so is the text of the
coordinator if every row has its cells. -/
theorem result_text_round_trip {t : QueryTable} (hcolumns : t.columns ≠ []) :
    (t.rows ≠ [] → RowsFit t → ∀ milliseconds,
      (parse (printScan t.columns t.rows milliseconds) = some t ↔ PlainTable t)) ∧
    (parse t.toAsciiTable = some t ↔ PlainTable t ∧ RowsFit t) := by
  refine ⟨fun hrows hfit milliseconds => ⟨plain_of_parse, fun hplain => ?_⟩, fun h => ?_, ?_⟩
  · exact parse_printScan hcolumns hrows hfit hplain milliseconds
  · exact ⟨plain_of_parse h, (parse_parsed h).length_eq⟩
  · rintro ⟨hplain, hfit⟩
    exact parse_toAsciiTable hcolumns hfit hplain

/-- A name with a blank in it, and an empty cell. -/
theorem result_text_round_trip_blank :
    let t : QueryTable :=
      { columns := [['i', 'd'], ['v']], rows := [[['1'], ['a', ' ', 'b']], [['2'], []]] }
    parse t.toAsciiTable = some t ↔ PlainTable t ∧ RowsFit t := by
  intro t
  exact (result_text_round_trip (t := t) (List.cons_ne_nil _ _)).2

/-- The cell `a|b` of a single column is read as two cells, and its row is left out. -/
theorem not_result_text_round_trip :
    ¬ ∀ t : QueryTable, t.columns ≠ [] → t.rows ≠ [] → RowsFit t → ∀ milliseconds,
      parse (printScan t.columns t.rows milliseconds) = some t := by
  intro h
  have hread := h { columns := [['v']], rows := [[['a', '|', 'b']]] } (by decide) (by decide)
    (by unfold RowsFit; decide) 0
  exact absurd hread (by decide +kernel)

end DisMiniSql.Distributed
