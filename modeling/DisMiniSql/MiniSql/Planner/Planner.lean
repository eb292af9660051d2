import DisMiniSql.MiniSql.Index.BPlusTreeIndex
import Mathlib.Data.List.Lattice

/-!
# `DisMiniSql.MiniSql.Planner.Planner`: the plan of a `SELECT` and its two scans

`AbstractStatement::MakePredicate` builds the expression of a `WHERE`, collects the columns in it
and notes an `OR`. The note is not passed on to the recursive calls, so it tells of the outermost
connector only. `Planner::PlanSelect` chooses the scan. `IndexScanExecutor` looks the comparisons
up in the indexes, joins the lists of row ids, and evaluates the expression on the rows only if
the planner says so. `SeqScanExecutor` evaluates it on every row.

The columns that a `SELECT` returns are left out: both scans cut them from the row the same way.
-/

set_option autoImplicit false

namespace DisMiniSql.MiniSql

variable {α : Type} [LinearOrder α]

/-- `LogicType`. -/
inductive LogicType
  | and
  | or
  deriving DecidableEq, Repr

/-- A `WHERE` expression: `LogicExpression` and `ComparisonExpression`, the latter of a column and
a constant. -/
inductive Expression (α : Type)
  | logic (logicType : LogicType) (left right : Expression α)
  | comparison (colIdx : Nat) (compType : ComparisonType) (value : Option α)

namespace Expression

/-- `LogicExpression::PerformComputation`, after `GetFieldAsCmpBool` has taken all but `kTrue` for
`kFalse`. -/
def performComputation (logicType : LogicType) (lhs rhs : CmpBool) : CmpBool :=
  match logicType with
  | .and => if lhs = .kTrue ∧ rhs = .kTrue then .kTrue else .kFalse
  | .or => if lhs = .kTrue ∨ rhs = .kTrue then .kTrue else .kFalse

/-- `AbstractExpression::Evaluate`. -/
def evaluate : Expression α → List (Option α) → CmpBool
  | .logic logicType left right, row =>
    performComputation logicType (left.evaluate row) (right.evaluate row)
  | .comparison colIdx compType value, row =>
    compType.performComparison (row.getD colIdx none) value

/-- `column_in_condition` after `MakePredicate`. -/
def collectColumns : Expression α → List Nat → List Nat
  | .logic _ left right, columns => right.collectColumns (left.collectColumns columns)
  | .comparison colIdx _ _, columns =>
    if colIdx ∈ columns then columns else columns ++ [colIdx]

/-- `has_or` after `MakePredicate`. -/
def hasOr : Expression α → Bool
  | .logic logicType _ _ => logicType = .or
  | .comparison _ _ _ => false

end Expression

/-- `IndexInfo`: the columns of the key, and the tree of an index whose key is one column. -/
structure IndexOn (α : Type) where
  keyColumns : List Nat
  index : BPlusTreeIndex α

/-- A table with its indexes. -/
structure IndexedTable (α : Type) where
  heap : TableHeap (Option α)
  indexes : List (IndexOn α)

/-- The plans of a `SELECT`: `SeqScanPlanNode` and `IndexScanPlanNode`. -/
inductive SelectPlan (α : Type)
  | seqScan
  | indexScan (indexes : List (IndexOn α)) (needFilter : Bool)

namespace IndexedTable

/-- `available_index` of `Planner::PlanSelect`. -/
def availableIndex (t : IndexedTable α) (columns : List Nat) : List (IndexOn α) :=
  t.indexes.filter (fun i => i.keyColumns.length == 1 && decide (i.keyColumns.headD 0 ∈ columns))

/-- `Planner::PlanSelect`. -/
def planSelect (t : IndexedTable α) (e : Expression α) : SelectPlan α :=
  let columns := e.collectColumns []
  let available := t.availableIndex columns
  if available.isEmpty || e.hasOr then .seqScan
  else .indexScan available (available.length != columns.length)

/-- `RowidCompare` on `RowId::Get`. -/
def rowidCompare (rid₁ rid₂ : RowId) : Bool :=
  decide (rid₁.pageId < rid₂.pageId) ||
    (rid₁.pageId == rid₂.pageId && decide (rid₁.slotNum ≤ rid₂.slotNum))

/-- `sort` and `set_intersection`. -/
def setIntersection (lhs rhs : List RowId) : List RowId := (lhs.mergeSort rowidCompare).bagInter rhs

/-- `IndexScanExecutor::IndexScan`. The type of a logic expression is not read. -/
def indexScan (indexes : List (IndexOn α)) : Expression α → List RowId
  | .logic _ left right =>
    let lhs := indexScan indexes left
    let rhs := indexScan indexes right
    if lhs.isEmpty then rhs else if rhs.isEmpty then lhs else setIntersection lhs rhs
  | .comparison colIdx compType value =>
    match indexes.find? (fun i => i.keyColumns.headD 0 == colIdx) with
    | none => []
    | some i => i.index.scanKey value compType

/-- The rows of `SeqScanExecutor::Next`. -/
def seqScanRows (t : IndexedTable α) (e : Expression α) : List (RowId × List (Option α)) :=
  t.heap.scan.filter (fun r => e.evaluate r.2 == .kTrue)

/-- The rows of `IndexScanExecutor::Next`. -/
def indexScanRows (t : IndexedTable α) (indexes : List (IndexOn α)) (needFilter : Bool)
    (e : Expression α) : List (RowId × List (Option α)) :=
  ((indexScan indexes e).filterMap
      (fun rid => (t.heap.getTuple rid).map (fun row => (rid, row)))).filter
    (fun r => !needFilter || e.evaluate r.2 == .kTrue)

/-- The rows of the plan that `PlanSelect` chooses. -/
def selectRows (t : IndexedTable α) (e : Expression α) : List (RowId × List (Option α)) :=
  match t.planSelect e with
  | .seqScan => t.seqScanRows e
  | .indexScan indexes needFilter => t.indexScanRows indexes needFilter e

end IndexedTable

end DisMiniSql.MiniSql
