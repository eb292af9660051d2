import Mathlib.Data.List.Sort
import DisMiniSql.Lib.Comparison
import DisMiniSql.Distributed.Coordinator.MiniSqlResultParser
import DisMiniSql.Distributed.Protocol

/-!
# `DisMiniSql.Distributed.Coordinator.QueryPostProcessor`: `QueryPostProcessor`

The text of a query decides what is sent to the nodes and what is made of their answers: an
aggregate and a join are computed from all rows of the tables, and `order by` is taken off and
applied to the merged rows.

The numbers are those of `Double`, a parameter: `DoubleOps` has the methods that are called, and the
order of `Double.compareTo` is a linear order. The sort is `List.sort`, a parameter as well:
`ListSort` has what is documented of it. A result of `none` is an exception, and `mergeSelect` says
which one.
-/

set_option autoImplicit false

namespace DisMiniSql.Distributed

open Lib (Regex TotalPreorder)
open Text (spaces spaces1 char word isWord isSpace)

/-- What `QueryPostProcessor` uses of `Double`. -/
structure DoubleOps (δ : Type) where
  /-- `Double.parseDouble`; `none` is `NumberFormatException`. -/
  parse : Text → Option δ
  /-- `DoubleStream.sum`. -/
  sum : List δ → δ
  /-- `DoubleStream.min` of the first number and the others. -/
  min : δ → List δ → δ
  /-- `DoubleStream.max` of the first number and the others. -/
  max : δ → List δ → δ
  /-- `QueryPostProcessor.trimDouble`: `Long.toString` of a whole number, else
  `Double.toString`. -/
  trimDouble : δ → Text

/-- What `QueryPostProcessor` uses of `List.sort`. The comparator has to be an order on the rows.
Where it is none the sort may throw, and the order of the rows that it returns is open. -/
structure ListSort where
  /-- `List.sort`; `none` is `IllegalArgumentException`. -/
  sort : (List Text → List Text → Ordering) → List (List Text) → Option (List (List Text))
  /-- No row is added or lost. -/
  perm : ∀ {cmp rows sorted}, sort cmp rows = some sorted → sorted.Perm rows
  /-- The sort is stable. -/
  stable : ∀ {cmp rows}, TotalPreorder cmp rows →
    sort cmp rows = some (rows.mergeSort fun a b => (cmp a b).isLE)

/-- A sort that never throws, as that of a few rows. -/
def ListSort.neverThrows : ListSort where
  sort cmp rows := some (rows.mergeSort fun a b => (cmp a b).isLE)
  perm h := by
    obtain rfl := Option.some.inj h
    exact List.mergeSort_perm _ _
  stable _ := rfl

namespace QueryPostProcessor

/-- `[\w.]`. -/
def isName (c : Char) : Bool := isWord c || c == '.'

/-- The function without a column, as a part of `AGGREGATE`. -/
def countAll : Regex Char :=
  .all [word "count", spaces, char '(', spaces, char '*', spaces, char ')']

/-- A function with a column, as a part of `AGGREGATE`. -/
def function (name : String) (n : Nat) : Regex Char :=
  .all [word name, spaces, char '(', spaces, .group n (.plus isName), spaces, char ')']

/-- `QueryPostProcessor.AGGREGATE`. -/
def AGGREGATE : Regex Char :=
  .all [spaces, word "select", spaces1,
    .group 1 (.alt countAll (.alt (function "sum" 2) (.alt (function "min" 3) (function "max" 4)))),
    spaces1, word "from", spaces1, .group 5 (.plus isWord), .many fun _ => true]

/-- `QueryPostProcessor.ORDER_BY`. -/
def ORDER_BY : Regex Char :=
  .all [.group 1 (.all [.manyLazy fun _ => true, spaces1, word "from", spaces1,
      .one fun _ => true, .manyLazy fun _ => true]),
    spaces1, word "order", spaces1, word "by", spaces1, .group 2 (.plus isName),
    .opt (.all [spaces1, .group 3 (.alt (word "asc") (word "desc"))]),
    spaces, .opt (char ';'), spaces]

/-- `QueryPostProcessor.SIMPLE_JOIN`. -/
def SIMPLE_JOIN : Regex Char :=
  .all [spaces, word "select", spaces1, char '*', spaces1, word "from", spaces1,
    .group 1 (.plus isWord), spaces1, word "join", spaces1, .group 2 (.plus isWord), spaces1,
    word "on", spaces1, .group 3 (.plus isName), spaces, char '=', spaces, .group 4 (.plus isName),
    spaces, .opt (char ';'), spaces]

/-- `QueryPostProcessor.isAggregate`. -/
def isAggregate (sql : Text) : Bool := (AGGREGATE.matchAll sql).isSome

/-- `QueryPostProcessor.isSimpleJoin`. -/
def isSimpleJoin (sql : Text) : Bool := (SIMPLE_JOIN.matchAll sql).isSome

/-- A group that took part. -/
def group (groups : Regex.Groups Char) (n : Nat) : Text := (groups.get n).getD []

/-- All rows of a table. -/
def selectAll (table : Text) : Text := "select * from ".toList ++ table ++ [';']

/-- `QueryPostProcessor.baseSqlForAggregate`. -/
def baseSqlForAggregate (sql : Text) : Text :=
  match AGGREGATE.matchAll sql with
  | none => sql
  | some groups => selectAll (group groups 5)

/-- `QueryPostProcessor.sqlWithoutOrderBy`. -/
def sqlWithoutOrderBy (sql : Text) : Text :=
  match ORDER_BY.matchAll sql with
  | none => sql
  | some groups => SqlUtils.normalizeChars (group groups 1)

/-- `QueryPostProcessor.leftJoinSql`. -/
def leftJoinSql (sql : Text) : Text :=
  match SIMPLE_JOIN.matchAll sql with
  | none => sql
  | some groups => selectAll (group groups 1)

/-- `QueryPostProcessor.rightJoinSql`. -/
def rightJoinSql (sql : Text) : Text :=
  match SIMPLE_JOIN.matchAll sql with
  | none => sql
  | some groups => selectAll (group groups 2)

section
variable (fold : Char → Char)

/-- `QueryPostProcessor.mergeResponses`. -/
def mergeResponses (responses : List ExecuteResponse) : Option QueryTable :=
  ((responses.filter (·.ok)).mapM fun response =>
    MiniSqlResultParser.parse response.output.toList).map (MiniSqlResultParser.merge fold)

/-- The exception of a line `"|"` in an output. -/
def parseFailure : String := "begin 1, end 0, length 1"

/-- The exception of `List.sort`. -/
def sortFailure : String := "Comparison method violates its general contract!"

/-- `QueryPostProcessor.stripQualifier`: what stands after the last dot. -/
def stripQualifier (column : Text) : Text := column.rtakeWhile (· != '.')

/-- `QueryPostProcessor.columnIndex`. -/
def columnIndex (columns : List Text) (column : Text) : Option Nat :=
  columns.findIdx? fun c =>
    Text.equalsIgnoreCase fold c (stripQualifier column) || Text.equalsIgnoreCase fold c column

/-- A cell of a merged row. Merged rows have a cell for every column. -/
def cell (row : List Text) (index : Nat) : Text := row.getD index []

/-! ### Joins -/

/-- `rightByKey.computeIfAbsent(key, …).add(row)`. -/
def addByKey (index : Nat) (rightByKey : Text → List (List Text)) (row : List Text) :
    Text → List (List Text) :=
  fun key => if key = cell row index then rightByKey key ++ [row] else rightByKey key

/-- `QueryPostProcessor.equiJoin`. -/
def equiJoin (left right : QueryTable) (leftKey rightKey leftTable rightTable : Text) :
    QueryTable :=
  if left.isEmpty || right.isEmpty then {}
  else
    match columnIndex fold left.columns leftKey, columnIndex fold right.columns rightKey with
    | some leftIndex, some rightIndex =>
      let rightByKey := right.rows.foldl (addByKey rightIndex) fun _ => []
      { columns :=
          left.columns.map (fun column => leftTable ++ '.' :: column) ++
            right.columns.map (fun column => rightTable ++ '.' :: column)
        rows := left.rows.flatMap fun leftRow =>
          (rightByKey (cell leftRow leftIndex)).map fun rightRow => leftRow ++ rightRow }
    | _, _ => {}

/-- What `join` makes of the two merged tables. -/
def joinTables (groups : Regex.Groups Char) (left right : QueryTable) : QueryTable :=
  equiJoin fold left right (group groups 3) (group groups 4) (group groups 1) (group groups 2)

/-- `QueryPostProcessor.join`. -/
def join (sql : Text) (leftResponses rightResponses : List ExecuteResponse) : Option Text :=
  match SIMPLE_JOIN.matchAll sql with
  | none => some []
  | some groups => do
    let left ← mergeResponses fold leftResponses
    let right ← mergeResponses fold rightResponses
    some (joinTables fold groups left right).toAsciiTable

end

section
variable {δ : Type} (fold : Char → Char) (doubles : DoubleOps δ) (lists : ListSort)

/-- `QueryPostProcessor.parseDouble`. -/
def parseDouble (value : Text) : Option δ := doubles.parse (value.filter (· != '\''))

/-! ### Order -/

/-- `QueryPostProcessor.ComparableValue`. -/
inductive ComparableValue (δ : Type)
  | number (value : δ)
  | text (value : Text)

/-- `QueryPostProcessor.comparableValue`. -/
def comparableValue (value : Text) : ComparableValue δ :=
  match parseDouble doubles value with
  | some number => .number number
  | none => .text value

/-- `String.valueOf(text)`: the field is `null` in a number. -/
def ComparableValue.textOf : ComparableValue δ → Text
  | .number _ => "null".toList
  | .text value => value

/-- `ComparableValue.compareTo`. -/
def ComparableValue.compareTo [LinearOrder δ] : ComparableValue δ → ComparableValue δ → Ordering
  | .number a, .number b => compare a b
  | a, b => Text.compareTo a.textOf b.textOf

/-- The comparator of the rows. -/
def compareRows [LinearOrder δ] (index : Nat) (a b : List Text) : Ordering :=
  (comparableValue doubles (cell a index)).compareTo (comparableValue doubles (cell b index))

/-- `rows.sort` with the comparator or with its reverse. -/
def sortRows [LinearOrder δ] (desc : Bool) (index : Nat) (rows : List (List Text)) :
    Option (List (List Text)) :=
  lists.sort (if desc then fun a b => compareRows doubles index b a else compareRows doubles index)
    rows

/-- `"desc".equalsIgnoreCase(matcher.group(3))`. -/
def isDesc (groups : Regex.Groups Char) : Bool :=
  (groups.get 3).any fun direction => Text.equalsIgnoreCase fold "desc".toList direction

/-- `QueryPostProcessor.applyOrderBy`. -/
def applyOrderBy [LinearOrder δ] (sql : Text) (table : QueryTable) : Option QueryTable :=
  match ORDER_BY.matchAll sql with
  | none => some table
  | some groups =>
    match columnIndex fold table.columns (group groups 2) with
    | none => some table
    | some index =>
      (sortRows doubles lists (isDesc fold groups) index table.rows).map fun rows =>
        { table with rows := rows }

/-! ### Aggregates -/

/-- `expression` in `aggregate`: blanks are taken out, and letters are in lower case. The group has
ASCII characters only. -/
def expression (groups : Regex.Groups Char) : Text :=
  ((group groups 1).filter fun c => !isSpace c).map Char.toLower

/-- The value of an aggregate of the numbers in a column. -/
def aggregateValue (name : Text) : List δ → Text
  | [] => "NULL".toList
  | value :: values =>
    if "sum(".toList.isPrefixOf name then doubles.trimDouble (doubles.sum (value :: values))
    else if "min(".toList.isPrefixOf name then doubles.trimDouble (doubles.min value values)
    else doubles.trimDouble (doubles.max value values)

/-- `QueryPostProcessor.aggregate`. -/
def aggregate (sql : Text) (input : QueryTable) : QueryTable :=
  match AGGREGATE.matchAll sql with
  | none => input
  | some groups =>
    let name := expression groups
    { columns := [name]
      rows :=
        if "count(".toList.isPrefixOf name then [[input.rows.length.repr.toList]]
        else
          let column := ((groups.get 2).orElse fun _ => (groups.get 3).orElse fun _ =>
            groups.get 4).getD []
          match columnIndex fold input.columns column with
          | none => [["NULL".toList]]
          | some index =>
            [[aggregateValue doubles name
              (input.rows.filterMap fun row => parseDouble doubles (cell row index))]] }

/-- `QueryPostProcessor.mergeSelect`. -/
def mergeSelect [LinearOrder δ] (originalSql : Text) (responses : List ExecuteResponse) :
    Except String Text :=
  match mergeResponses fold responses with
  | none => .error parseFailure
  | some table =>
    if table.isEmpty then .ok []
    else if isAggregate originalSql then .ok (aggregate fold doubles originalSql table).toAsciiTable
    else
      match applyOrderBy fold doubles lists originalSql table with
      | none => .error sortFailure
      | some ordered => .ok ordered.toAsciiTable

end

end QueryPostProcessor

end DisMiniSql.Distributed
