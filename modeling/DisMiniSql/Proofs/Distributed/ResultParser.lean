import Mathlib.Data.List.Forall2
import DisMiniSql.Proofs.Distributed.JavaText
import DisMiniSql.Proofs.Distributed.MergeUnion

/-!
# `DisMiniSql.Proofs.Distributed.ResultParser`: what `parse` reads

A cell is read by splitting a line at the bars and trimming the pieces. So what is read has no blank
at an end, no bar and no line break (`Plain`, `plain_of_parse`), whatever text it was read from.
Conversely a line of plain cells with blanks around them is read back (`parseRow_barred`), and so is
a table whose lines of cells are such lines (`parse_of_tableLines`).
-/

set_option autoImplicit false

namespace DisMiniSql.Distributed

open SqlUtils (trim isTrimmed trim_trim trim_padded trim_of_ends mem_of_mem_trim)

namespace MiniSqlResultParser

/-- A cell that the printed table can hold: its own trim, without a bar and without a line
break. -/
structure Plain (cell : Text) : Prop where
  trim_eq : trim cell = cell
  no_bar : '|' ∉ cell
  no_break : ∀ c ∈ cell, Text.isLineBreak c = false

instance (cell : Text) : Decidable (Plain cell) :=
  decidable_of_iff
    (trim cell = cell ∧ '|' ∉ cell ∧ ∀ c ∈ cell, Text.isLineBreak c = false)
    ⟨fun ⟨h₁, h₂, h₃⟩ => ⟨h₁, h₂, h₃⟩, fun h => ⟨h.1, h.2, h.3⟩⟩

/-! ### What is read -/

/-- The cells of a parsed line are plain. -/
theorem plain_of_parseRow {line : Text} {row : List Text} (h : parseRow line = some row)
    (hline : ∀ c ∈ line, Text.isLineBreak c = false) : ∀ cell ∈ row, Plain cell := by
  unfold parseRow at h
  split at h
  · cases h
  · obtain rfl := Option.some.inj h
    intro cell hcell
    obtain ⟨piece, hpiece, rfl⟩ := List.mem_map.mp hcell
    have hspec := Text.mem_split_spec hpiece
    refine ⟨trim_trim piece, fun hbar => ?_, fun c hc => ?_⟩
    · exact absurd (hspec '|' (mem_of_mem_trim hbar)).2 (by decide)
    · have hbody := (hspec c (mem_of_mem_trim hc)).1
      exact hline c (List.mem_of_mem_drop (List.dropLast_sublist _ |>.subset hbody))

/-- An element of a mapped list comes from one of the list. -/
theorem exists_of_mem_mapM {α β : Type} {f : α → Option β} {xs : List α} {ys : List β}
    (h : xs.mapM f = some ys) : ∀ y ∈ ys, ∃ x ∈ xs, f x = some y := by
  induction xs generalizing ys with
  | nil =>
    rw [List.mapM_nil, Option.pure_def, Option.some.injEq] at h
    rw [← h]
    exact fun y hy => absurd hy List.not_mem_nil
  | cons x xs ih =>
    rw [List.mapM_cons, Option.bind_eq_bind, Option.bind_eq_some_iff] at h
    obtain ⟨y, hy, h⟩ := h
    obtain ⟨rest, hrest, h⟩ := Option.bind_eq_some_iff.mp h
    obtain rfl := Option.some.inj h
    rw [List.forall_mem_cons]
    refine ⟨⟨x, List.mem_cons_self, hy⟩, fun z hz => ?_⟩
    obtain ⟨w, hw, hwz⟩ := ih hrest z hz
    exact ⟨w, List.mem_cons_of_mem _ hw, hwz⟩

/-- The cells of a parsed table are those of its lines. -/
theorem mem_ofParsedRows {parsedRows : List (List Text)} {cell : Text}
    (h : cell ∈ (ofParsedRows parsedRows).columns ∨
      ∃ row ∈ (ofParsedRows parsedRows).rows, cell ∈ row) : ∃ row ∈ parsedRows, cell ∈ row := by
  cases parsedRows with
  | nil =>
    rcases h with h | ⟨row, hrow, -⟩
    · exact absurd h List.not_mem_nil
    · exact absurd hrow List.not_mem_nil
  | cons header body =>
    rcases h with h | ⟨row, hrow, hcell⟩
    · exact ⟨header, List.mem_cons_self, h⟩
    · exact ⟨row, List.mem_cons_of_mem _ (List.mem_filter.mp hrow).1, hcell⟩

/-- Whatever is read is plain. -/
theorem plain_of_parse {output : Text} {t : QueryTable} (h : parse output = some t) :
    (∀ column ∈ t.columns, Plain column) ∧ ∀ row ∈ t.rows, ∀ cell ∈ row, Plain cell := by
  have hall : ∀ cell, (cell ∈ t.columns ∨ ∃ row ∈ t.rows, cell ∈ row) → Plain cell := by
    intro cell hcell
    unfold parse at h
    split at h
    · obtain rfl := Option.some.inj h
      obtain ⟨row, hrow, -⟩ : ∃ row ∈ ([] : List (List Text)), cell ∈ row :=
        mem_ofParsedRows hcell
      exact absurd hrow List.not_mem_nil
    · obtain ⟨parsedRows, hparsed, h⟩ := Option.bind_eq_some_iff.mp h
      obtain rfl := Option.some.inj h
      obtain ⟨row, hrow, hcell⟩ := mem_ofParsedRows hcell
      obtain ⟨line, hline, hrow⟩ := exists_of_mem_mapM hparsed row (List.mem_filter.mp hrow).1
      obtain ⟨piece, hpiece, rfl⟩ := List.mem_map.mp (List.mem_filter.mp hline).1
      refine plain_of_parseRow hrow (fun c hc => ?_) cell hcell
      exact (Text.mem_split_spec hpiece c (mem_of_mem_trim hc)).2
  exact ⟨fun column hc => hall column (.inl hc), fun row hrow cell hc =>
    hall cell (.inr ⟨row, hrow, hc⟩)⟩

/-! ### Lines of cells -/

/-- The line of cells that have their padding. -/
def barred (padded : List Text) : Text :=
  '|' :: padded.flatMap (fun cell => ' ' :: (cell ++ [' ', '|']))

/-- The cells and what they are padded to. -/
def Padded : List Text → List Text → Prop :=
  List.Forall₂ fun cell padded => ∃ n, padded = cell ++ List.replicate n ' '

variable {padded : List Text}

/-- A line of cells between bars. -/
theorem barred_eq (hne : padded ≠ []) :
    barred padded =
      '|' :: (['|'].intercalate (padded.map fun cell => ' ' :: (cell ++ [' '])) ++ ['|']) := by
  induction padded with
  | nil => exact absurd rfl hne
  | cons cell rest ih =>
    cases rest with
    | nil => simp [barred]
    | cons next rest =>
      have ih := ih (List.cons_ne_nil _ _)
      rw [barred, List.cons.injEq] at ih
      rw [barred, List.flatMap_cons, ih.2]
      simp

/-- Such a line is one of the table. -/
theorem isTableLine_barred (hne : padded ≠ []) :
    isTableLine (barred padded) = true ∧ trim (barred padded) = barred padded := by
  have hlast : (barred padded).getLast? = some '|' := by
    rw [barred_eq hne, ← List.cons_append, List.getLast?_concat]
  refine ⟨by rw [isTableLine, hlast]; rfl, trim_of_ends ?_ ?_⟩
  · intro c hc
    obtain rfl : '|' = c := Option.some.inj hc
    rfl
  · intro c hc
    rw [hlast] at hc
    obtain rfl := Option.some.inj hc
    rfl

variable {cells : List Text}

/-- The pieces between the bars, cell by cell. -/
theorem pieces_of_padded (hpad : Padded cells padded) (hplain : ∀ cell ∈ cells, Plain cell) :
    (padded.map fun cell => ' ' :: (cell ++ [' '])).map trim = cells ∧
      ∀ piece ∈ padded.map fun cell => ' ' :: (cell ++ [' ']), '|' ∉ piece := by
  induction hpad with
  | nil => exact ⟨rfl, fun piece hpiece => absurd hpiece List.not_mem_nil⟩
  | @cons cell q cells padded hcell _ ih =>
    obtain ⟨n, rfl⟩ := hcell
    rw [List.forall_mem_cons] at hplain
    obtain ⟨htrim, hbar⟩ := ih hplain.2
    have hpiece : ' ' :: (cell ++ List.replicate n ' ' ++ [' ']) =
        ' ' :: (cell ++ List.replicate (n + 1) ' ') := by
      rw [List.replicate_succ', List.append_assoc]
    refine ⟨?_, ?_⟩
    · rw [List.map_cons, List.map_cons, htrim, hpiece, trim_padded hplain.1.trim_eq]
    · rw [List.map_cons, List.forall_mem_cons, hpiece]
      refine ⟨?_, hbar⟩
      simp [List.mem_append, hplain.1.no_bar]

/-- A line of plain cells is read back. -/
theorem parseRow_barred (hpad : Padded cells padded) (hplain : ∀ cell ∈ cells, Plain cell)
    (hne : cells ≠ []) :
    parseRow (barred padded) = some cells := by
  have hne' : padded ≠ [] := by
    rintro rfl
    cases hpad
    exact hne rfl
  obtain ⟨htrim, hbar⟩ := pieces_of_padded hpad hplain
  obtain ⟨pieces, hpieces⟩ : ∃ pieces, pieces = padded.map fun cell => ' ' :: (cell ++ [' ']) :=
    ⟨_, rfl⟩
  rw [← hpieces] at htrim hbar
  have hpne : pieces ≠ [] := by
    rw [hpieces]
    exact fun h => hne' (List.map_eq_nil_iff.mp h)
  have hsplitOn : (['|'].intercalate pieces).splitOnP isBar = pieces :=
    List.splitOn_intercalate '|' hbar hpne
  have hsplit : Text.split isBar (['|'].intercalate pieces) = pieces := by
    have hlast : ((['|'].intercalate pieces).splitOnP isBar).getLast? =
        some (pieces.getLast hpne) := by
      rw [hsplitOn, List.getLast?_eq_some_getLast hpne]
    -- a piece starts with a blank
    have hall : ∀ piece ∈ pieces, piece ≠ [] := by
      rw [hpieces, List.forall_mem_map]
      exact fun _ _ => List.cons_ne_nil _ _
    rw [Text.split_of_getLast? hlast (hall _ (List.getLast_mem hpne)), hsplitOn]
  rw [barred_eq hne', ← hpieces, parseRow, if_neg (by simp), List.drop_succ_cons, List.drop_zero,
    List.dropLast_concat, hsplit, htrim]

/-! ### The lines of a table -/

/-- Joining the line ends adds no character. -/
theorem mem_of_mem_joinCrLf {s : Text} {c : Char} (h : c ∈ Text.joinCrLf s) : c ∈ s := by
  induction s using Text.joinCrLf.induct with
  | case1 => exact h
  | case2 d => exact h
  | case3 d e s hpair ih =>
    rw [Text.joinCrLf, if_pos hpair, List.mem_cons] at h
    rcases h with rfl | h
    · rw [← hpair.2]
      exact List.mem_cons_of_mem _ List.mem_cons_self
    · exact List.mem_cons_of_mem _ (List.mem_cons_of_mem _ (ih h))
  | case4 d e s hpair ih =>
    rw [Text.joinCrLf, if_neg hpair, List.mem_cons] at h
    rcases h with rfl | h
    · exact List.mem_cons_self
    · exact List.mem_cons_of_mem _ (ih h)

theorem isTableLine_nil : isTableLine (trim []) = false := rfl

/-- The lines that `parse` reads cells from. -/
def tableLines (output : Text) : List Text :=
  (((Text.joinCrLf output).splitOnP Text.isLineBreak).map trim).filter isTableLine

/-- An empty line at the end, and a blank output, have no cells anyway. -/
theorem parse_eq (output : Text) :
    parse output = ((tableLines output).mapM parseRow).bind fun parsedRows =>
      some (ofParsedRows (parsedRows.filter (fun row => !row.isEmpty))) := by
  have hdropped : ((Text.splitLines output).map trim).filter isTableLine = tableLines output := by
    obtain ⟨dropped, hall, hempty⟩ := Text.split_append Text.isLineBreak (Text.joinCrLf output)
    have hnone : (dropped.map trim).filter isTableLine = [] := by
      rw [List.filter_eq_nil_iff, List.forall_mem_map]
      intro piece hpiece
      rw [hempty piece hpiece]
      exact Bool.false_ne_true
    rw [tableLines, hall, List.map_append, List.filter_append, hnone, List.append_nil]
    rfl
  unfold parse
  rw [hdropped]
  split
  · next hblank =>
    have hnone : tableLines output = [] := by
      rw [tableLines, List.filter_eq_nil_iff, List.forall_mem_map]
      intro piece hpiece htable
      have hhead : (trim piece).head? = some '|' := by
        rw [isTableLine, Bool.and_eq_true] at htable
        exact beq_iff_eq.mp htable.1
      have hmem : '|' ∈ output := mem_of_mem_joinCrLf
        (Text.mem_splitOnP_spec hpiece '|' (mem_of_mem_trim (List.mem_of_mem_head? hhead))).1
      exact absurd (List.all_eq_true.mp hblank '|' hmem) (by decide)
    rw [hnone]
    rfl
  · rfl

theorem mapM_parseRow {lines : List Text} {rows : List (List Text)}
    (h : List.Forall₂ (fun line row => parseRow line = some row) lines rows) :
    lines.mapM parseRow = some rows := by
  induction h with
  | nil => rfl
  | cons hrow _ ih => rw [List.mapM_cons, hrow, ih]; rfl

/-- A table of plain cells is read back from its lines. -/
theorem parse_of_tableLines {output : Text} {t : QueryTable} {body : List (List Text)}
    (hcolumns : t.columns ≠ []) (ht : t.Parsed)
    (hplain : (∀ column ∈ t.columns, Plain column) ∧ ∀ row ∈ t.rows, ∀ cell ∈ row, Plain cell)
    (hheader : Padded t.columns padded) (hbody : List.Forall₂ Padded t.rows body)
    (hlines : tableLines output = (padded :: body).map barred) : parse output = some t := by
  have hrow_ne : ∀ row ∈ t.columns :: t.rows, row ≠ [] := by
    rw [List.forall_mem_cons]
    refine ⟨hcolumns, fun row hrow hnil => hcolumns ?_⟩
    have hlen := ht.length_eq row hrow
    rw [hnil] at hlen
    exact List.length_eq_zero_iff.mp hlen.symm
  have hparsed : (tableLines output).mapM parseRow = some (t.columns :: t.rows) := by
    refine mapM_parseRow ?_
    rw [hlines, List.forall₂_map_left_iff]
    have hcells : ∀ row ∈ t.columns :: t.rows, ∀ cell ∈ row, Plain cell :=
      List.forall_mem_cons.mpr hplain
    have hall : List.Forall₂ Padded (t.columns :: t.rows) (padded :: body) := .cons hheader hbody
    generalize t.columns :: t.rows = rows at hall hcells hrow_ne
    generalize padded :: body = written at hall
    induction hall with
    | nil => exact .nil
    | cons hpad _ ih =>
      rw [List.forall_mem_cons] at hcells hrow_ne
      exact .cons (parseRow_barred hpad hcells.1 hrow_ne.1) (ih hcells.2 hrow_ne.2)
  have hfilter : (t.columns :: t.rows).filter (fun row => !row.isEmpty) = t.columns :: t.rows := by
    rw [List.filter_eq_self]
    intro row hrow
    rw [Bool.not_eq_true', List.isEmpty_eq_false_iff]
    exact hrow_ne row hrow
  have hrows : t.rows.filter (fun row => row.length == t.columns.length) = t.rows := by
    rw [List.filter_eq_self]
    exact fun row hrow => beq_iff_eq.mpr (ht.length_eq row hrow)
  rw [parse_eq, hparsed, Option.bind_some, hfilter, ofParsedRows, hrows]

/-- The lines of cells among lines that were written without a break in them. -/
theorem tableLines_lines {lines : List Text} {last : Text}
    (hlines : ∀ line ∈ lines, ∀ c ∈ line, Text.isLineBreak c = false)
    (hlast : ∀ c ∈ last, Text.isLineBreak c = false) :
    tableLines (lines.flatMap (fun line => line ++ ['\n']) ++ last) =
      ((lines ++ [last]).map trim).filter isTableLine := by
  have hcr : '\r' ∉ lines.flatMap (fun line => line ++ ['\n']) ++ last := by
    rw [List.mem_append, List.mem_flatMap]
    rintro (⟨line, hline, hc⟩ | hc)
    · rcases List.mem_append.mp hc with hc | hc
      · exact absurd (hlines line hline _ hc) (by decide)
      · exact absurd hc (by decide)
    · exact absurd (hlast _ hc) (by decide)
  rw [tableLines, Text.joinCrLf_of_not_mem hcr, Text.splitOnP_lines rfl hlines hlast]

/-- A line that starts with something else than a bar. -/
theorem isTableLine_of_head {line : Text} {c : Char} (hhead : line.head? = some c)
    (hc : isTrimmed c = false) (hbar : c ≠ '|') : isTableLine (trim line) = false := by
  cases line with
  | nil => cases hhead
  | cons d rest =>
    obtain rfl := Option.some.inj hhead
    have hprefix : trim (d :: rest) <+: d :: rest := by
      rw [trim, List.dropWhile_cons_of_neg (by rw [hc]; exact Bool.false_ne_true)]
      exact List.rdropWhile_prefix _ _
    cases htrim : trim (d :: rest) with
    | nil => rfl
    | cons e rest' =>
      rw [htrim] at hprefix
      obtain rfl := (List.cons_prefix_cons.mp hprefix).1
      simp [isTableLine, hbar]

/-- What a printed table is made of: a frame, the line of the columns between two frames, the lines
of the rows, a frame, and lines that are not of the table. -/
theorem filter_framed {frame padded : List Char} {body : List (List Text)} {tail : List Text}
    (hpadded : padded = barred cells) (hframe : isTableLine (trim frame) = false)
    (hcells : cells ≠ []) (hbody : ∀ row ∈ body, row ≠ [])
    (htail : ∀ line ∈ tail, isTableLine (trim line) = false) :
    (([frame, padded, frame] ++ body.map barred ++ frame :: tail).map trim).filter isTableLine =
      (cells :: body).map barred := by
  obtain ⟨htable, htrim⟩ := isTableLine_barred hcells
  have hrows : ((body.map barred).map trim).filter isTableLine = body.map barred := by
    have htrims : (body.map barred).map trim = body.map barred := by
      rw [List.map_map]
      exact List.map_congr_left fun row hrow => (isTableLine_barred (hbody row hrow)).2
    rw [htrims, List.filter_eq_self, List.forall_mem_map]
    exact fun row hrow => (isTableLine_barred (hbody row hrow)).1
  have hnone : (tail.map trim).filter isTableLine = [] := by
    rw [List.filter_eq_nil_iff, List.forall_mem_map]
    intro line hline
    rw [htail line hline]
    exact Bool.false_ne_true
  rw [List.map_map] at hrows
  simp [hpadded, hframe, htable, htrim, hrows, hnone]

/-- The line of plain cells has no break. -/
theorem no_break_barred (hpad : Padded cells padded) (hplain : ∀ cell ∈ cells, Plain cell) :
    ∀ c ∈ barred padded, Text.isLineBreak c = false := by
  rw [barred, List.forall_mem_cons]
  refine ⟨rfl, ?_⟩
  induction hpad with
  | nil => exact fun c hc => absurd hc List.not_mem_nil
  | @cons cell q cells padded hcell _ ih =>
    obtain ⟨n, rfl⟩ := hcell
    rw [List.forall_mem_cons] at hplain
    intro c hc
    rw [List.flatMap_cons, List.mem_append, List.mem_cons, List.mem_append, List.mem_append] at hc
    rcases hc with (rfl | (hc | hc) | hc) | hc
    · rfl
    · exact hplain.1.no_break c hc
    · rw [List.eq_of_mem_replicate hc]
      rfl
    · simp only [List.mem_cons, List.not_mem_nil, or_false] at hc
      rcases hc with rfl | rfl <;> rfl
    · exact ih hplain.2 c hc

/-! ### Numbers -/

/-- A digit is no break, no blank and no bar. -/
theorem isLineBreak_of_isDigit {c : Char} (h : c.isDigit = true) :
    Text.isLineBreak c = false ∧ isTrimmed c = false ∧ c ≠ '|' := by
  have hle : 48 ≤ c.toNat ∧ c.toNat ≤ 57 := by
    simp only [Char.isDigit, Bool.and_eq_true, decide_eq_true_eq] at h
    exact ⟨h.1, h.2⟩
  refine ⟨?_, ?_, ?_⟩
  · simp only [Text.isLineBreak, Bool.or_eq_false_iff, Bool.and_eq_false_iff,
      decide_eq_false_iff_not, beq_eq_false_iff_ne]
    omega
  · simp only [isTrimmed, decide_eq_false_iff_not]
    omega
  · rintro rfl
    exact absurd hle.2 (by decide)

theorem isDigit_of_mem_repr {n : Nat} {c : Char} (h : c ∈ n.repr.toList) : c.isDigit = true := by
  rw [Nat.toList_repr] at h
  exact Nat.isDigit_of_mem_toDigits (by decide) (by decide) h

/-- A line that starts with a number. -/
theorem isTableLine_of_repr (n : Nat) (rest : Text) :
    isTableLine (trim (n.repr.toList ++ rest)) = false := by
  have hne : n.repr.toList ≠ [] := by
    rw [Nat.toList_repr]
    exact Nat.toDigits_ne_nil
  obtain ⟨c, cs, hcs⟩ := List.exists_cons_of_ne_nil hne
  have hdigit := isLineBreak_of_isDigit
    (isDigit_of_mem_repr (n := n) (c := c) (by rw [hcs]; exact List.mem_cons_self))
  exact isTableLine_of_head (by rw [hcs]; rfl) hdigit.2.1 hdigit.2.2

theorem no_break_repr (n : Nat) : ∀ c ∈ n.repr.toList, Text.isLineBreak c = false :=
  fun _ hc => (isLineBreak_of_isDigit (isDigit_of_mem_repr hc)).1

end MiniSqlResultParser

end DisMiniSql.Distributed
