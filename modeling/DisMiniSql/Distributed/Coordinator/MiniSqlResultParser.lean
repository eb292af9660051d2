import DisMiniSql.Distributed.Common.JavaText

/-!
# `DisMiniSql.Distributed.Coordinator.MiniSqlResultParser`: `QueryTable`, `MiniSqlResultParser`

The table that the coordinator builds from the answers of the nodes, and the text it is sent to
the client as. `toCsvLikeRows` of `QueryTable` has no caller and is left out.

`parse` reads the printed result of a node back, and `merge` puts the results of several nodes
together. The line `"|"` alone makes `parseRow` throw `StringIndexOutOfBoundsException`: `parse`
is `none` there.
-/

set_option autoImplicit false

namespace DisMiniSql.Distributed

/-- `QueryTable`. -/
structure QueryTable where
  columns : List Text := []
  rows : List (List Text) := []
  deriving DecidableEq, Repr

namespace QueryTable

/-- `QueryTable.isEmpty`: there are no columns. -/
def isEmpty (t : QueryTable) : Bool := t.columns.isEmpty

/-- The widths with those of the cells of one more row. -/
def widen : List Nat → List Text → List Nat
  | w :: widths, value :: row => max w value.length16 :: widen widths row
  | widths, _ => widths

/-- `widths` in `toAsciiTable`. -/
def widths (t : QueryTable) : List Nat := t.rows.foldl widen (t.columns.map Text.length16)

/-- `QueryTable.padRight`. -/
def padRight (value : Text) (width : Nat) : Text :=
  value ++ List.replicate (width - value.length16) ' '

/-- `QueryTable.appendBorder`, without the line break. -/
def border (widths : List Nat) : Text :=
  widths.flatMap (fun width => '+' :: List.replicate (width + 2) '-') ++ ['+']

/-- `QueryTable.appendRow`, without the line break. A missing cell is empty, and cells without a
column are left out. -/
def rowLine : List Nat → List Text → Text
  | [], _ => ['|']
  | width :: widths, row =>
    ['|', ' '] ++ padRight (row.headD []) width ++ [' '] ++ rowLine widths row.tail

/-- The last line of `toAsciiTable`. -/
def mergedLine (count : Nat) : Text :=
  count.repr.toList ++ (if count = 1 then " row" else " rows").toList ++
    " merged by coordinator".toList

/-- `QueryTable.toAsciiTable`. -/
def toAsciiTable (t : QueryTable) : Text :=
  if t.isEmpty then "Empty set".toList
  else
    let widths := t.widths
    border widths ++ ['\n'] ++ (rowLine widths t.columns ++ ['\n']) ++ (border widths ++ ['\n']) ++
      t.rows.flatMap (fun row => rowLine widths row ++ ['\n']) ++ (border widths ++ ['\n']) ++
      mergedLine t.rows.length

end QueryTable

namespace MiniSqlResultParser

open SqlUtils (trim)

/-- The separator of the cells. -/
def isBar (c : Char) : Bool := c == '|'

/-- `MiniSqlResultParser.parseRow`. -/
def parseRow (line : Text) : Option (List Text) :=
  if line.length < 2 then none
  else some ((Text.split isBar (line.drop 1).dropLast).map trim)

/-- The filter of the lines of a table. -/
def isTableLine (line : Text) : Bool := line.head? == some '|' && line.getLast? == some '|'

/-- The table of the parsed lines: the first one has the names of the columns. -/
def ofParsedRows : List (List Text) → QueryTable
  | [] => {}
  | columns :: rows =>
    { columns := columns, rows := rows.filter (fun row => row.length == columns.length) }

/-- `MiniSqlResultParser.parse`. -/
def parse (output : Text) : Option QueryTable :=
  if output.all isWhitespace then some {}
  else do
    let parsedRows ← (((Text.splitLines output).map trim).filter isTableLine).mapM parseRow
    some (ofParsedRows (parsedRows.filter (fun row => !row.isEmpty)))

/-- `MiniSqlResultParser.sameColumns`. -/
def sameColumns (fold : Char → Char) (left right : List Text) : Bool :=
  left.length == right.length &&
    (left.zip right).all (fun (l, r) => Text.equalsIgnoreCase fold l r)

/-- The text under which `merge` knows a row. -/
def rowKey (row : List Text) : Text := Text.join ['\u001f'] row

/-- The table that is being merged, and `seenRows`. -/
structure Merged where
  table : QueryTable := {}
  seenRows : List Text := []
  deriving DecidableEq, Repr

/-- One row in `merge`. -/
def addRow (merged : Merged) (row : List Text) : Merged :=
  if rowKey row ∈ merged.seenRows then merged
  else
    { table := { merged.table with rows := merged.table.rows ++ [row] }
      seenRows := merged.seenRows ++ [rowKey row] }

/-- One table in `merge`. -/
def addTable (fold : Char → Char) (merged : Merged) (t : QueryTable) : Merged :=
  if t.isEmpty then merged
  else
    let merged :=
      if merged.table.isEmpty then
        { merged with table := { merged.table with columns := t.columns } }
      else merged
    if sameColumns fold merged.table.columns t.columns then t.rows.foldl addRow merged else merged

/-- `MiniSqlResultParser.merge`. -/
def merge (fold : Char → Char) (tables : List QueryTable) : QueryTable :=
  (tables.foldl (addTable fold) {}).table

end MiniSqlResultParser

end DisMiniSql.Distributed
