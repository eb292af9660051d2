import DisMiniSql.Lib.Run
import DisMiniSql.MiniSql.Executor.ExecuteEngine

/-!
# `DisMiniSql.MiniSql.Executor.DatabaseMap`: the pointers of `ExecuteEngine`

`dbs_` is a map from a name to a pointer, and `dbs_[name]` puts a null pointer there where the name
is no key. `Execute` looks up the current database so before every statement, `ExecuteShowTables`
and its siblings after a look at `current_db_`, and `ExecuteQuit` without one. A null pointer that
is followed ends the process: `nullEntry`. `ended` is a process that has ended in another way, by
`quit` or by a query without a current database (the planner follows its null context).

`ExecuteExecfile` calls `Execute` again for each command of its file. In the order of the calls, an
`execfile` is a statement of its own, and those of the file come after it.
-/

set_option autoImplicit false

namespace DisMiniSql.MiniSql

/-- `ExecuteEngine`, with `dbs_` as a map to pointers: `some none` is a null pointer. -/
structure PointerEngine (τ : Type) where
  dbs : String → Option (Option τ)
  currentDb : String

namespace PointerEngine

variable {τ : Type}

/-- `SyntaxNode`, by its `type_`; `nothing` is the null pointer of an empty command. -/
inductive Statement
  | nothing
  | createDB (name : String)
  | dropDB (name : String)
  | useDB (name : String)
  | showDB
  | showTables
  | showIndexes
  /-- `kNodeCreateTable`, `kNodeDropTable`, `kNodeCreateIndex`, `kNodeDropIndex` -/
  | ddl (sql : String)
  | trx
  | execFile
  | quit
  | select
  /-- `kNodeInsert`, `kNodeDelete`, `kNodeUpdate` -/
  | dml (sql : String)
  deriving DecidableEq, Repr

/-- A command: a statement, or an `execfile` with the commands of a file that it can open. -/
inductive Command
  | statement (ast : Statement)
  | execFile (file : List Command)

/-- The process of the engine. -/
inductive Process (τ : Type)
  | running (s : PointerEngine τ)
  | ended
  | nullEntry

/-- The constructor: an entry for every file of the directory, none of them selected. -/
def start (files : String → Option τ) : PointerEngine τ := ⟨fun name => (files name).map some, ""⟩

/-- `dbs_[name]`. -/
def subscript (s : PointerEngine τ) (name : String) : Option τ × PointerEngine τ :=
  match s.dbs name with
  | some p => (p, s)
  | none => (none, { s with dbs := Function.update s.dbs name (some none) })

/-- `dbs_[current_db_]->`. -/
def onCurrent (s : PointerEngine τ) (k : τ → PointerEngine τ → Process τ) : Process τ :=
  match s.subscript s.currentDb with
  | (some d, s) => k d s
  | (none, _) => .nullEntry

/-- The tables of the current database are now these. -/
def store (s : PointerEngine τ) (d : τ) : PointerEngine τ :=
  { s with dbs := Function.update s.dbs s.currentDb (some (some d)) }

/-- `ExecuteEngine::ExecuteCreateDatabase`. -/
def executeCreateDatabase (db : DBStorageEngine τ) (s : PointerEngine τ) (name : String) :
    PointerEngine τ :=
  if (s.dbs name).isSome then s
  else { s with dbs := Function.update s.dbs name (some (some db.init)) }

/-- `ExecuteEngine::ExecuteDropDatabase`: `current_db_` stays as it is. -/
def executeDropDatabase (s : PointerEngine τ) (name : String) : PointerEngine τ :=
  if (s.dbs name).isNone then s
  else { s with dbs := Function.update (s.subscript name).2.dbs name none }

/-- `ExecuteEngine::ExecuteUseDatabase`. -/
def executeUseDatabase (s : PointerEngine τ) (name : String) : PointerEngine τ :=
  if (s.dbs name).isSome then { s with currentDb := name } else s

/-- `ExecuteEngine::ExecuteShowTables` and its siblings. -/
def executeOnCatalog (s : PointerEngine τ) (f : τ → τ) : Process τ :=
  if s.currentDb = "" then .running s else s.onCurrent fun d s => .running (s.store (f d))

/-- `ExecuteEngine::ExecuteQuit`. -/
def executeQuit (s : PointerEngine τ) : Process τ := s.onCurrent fun _ _ => .ended

/-- The planner and the executors, which work on the context. -/
def executePlan (context : Option τ) (s : PointerEngine τ) (f : τ → τ) : Process τ :=
  match context with
  | none => .ended
  | some d => .running (s.store (f d))

/-- The `switch` of `ExecuteEngine::Execute`. -/
def dispatch (db : DBStorageEngine τ) (context : Option τ) (s : PointerEngine τ) :
    Statement → Process τ
  | .nothing => .running s
  | .createDB name => .running (s.executeCreateDatabase db name)
  | .dropDB name => .running (s.executeDropDatabase name)
  | .useDB name => .running (s.executeUseDatabase name)
  | .showDB => .running s
  | .showTables => s.executeOnCatalog id
  | .showIndexes => s.executeOnCatalog id
  | .ddl sql => s.executeOnCatalog (db.apply sql)
  | .trx => .running s
  | .execFile => .running s
  | .quit => s.executeQuit
  | .select => executePlan context s id
  | .dml sql => executePlan context s (db.apply sql)

/-- `ExecuteEngine::Execute`. -/
def execute (db : DBStorageEngine τ) (s : PointerEngine τ) (ast : Statement) : Process τ :=
  if ast = .nothing then .running s
  -- the context of the current database, whatever the statement is
  else if s.currentDb = "" then s.dispatch db none ast
  else s.onCurrent fun d s => s.dispatch db (some d) ast

/-- Every entry is a database, and the current one is an entry if there is one. -/
structure Valid (s : PointerEngine τ) : Prop where
  current : s.currentDb = "" ∨ (s.dbs s.currentDb).isSome
  entries : ∀ name, s.dbs name ≠ some none

/-- The statement does not drop the current database, and does not quit without one. -/
def Careful (s : PointerEngine τ) : Statement → Prop
  | .dropDB name => s.currentDb = "" ∨ name ≠ s.currentDb
  | .quit => (s.dbs s.currentDb).isSome
  | _ => True

end PointerEngine

namespace PointerEngine.Process

variable {τ : Type}

/-- The next call of `Execute`, if there is one. -/
def step (db : DBStorageEngine τ) (p : Process τ) (ast : Statement) : Process τ :=
  match p with
  | .running s => s.execute db ast
  | .ended => .ended
  | .nullEntry => .nullEntry

/-- No null pointer was followed, and none is there. -/
def Valid : Process τ → Prop
  | .running s => s.Valid
  | .ended => True
  | .nullEntry => False

/-- The next statement is careful. -/
def Careful : Process τ → Statement → Prop
  | .running s, ast => s.Careful ast
  | _, _ => True

mutual

/-- A command: `ExecuteExecfile` executes the commands of its file one after another. -/
def run (db : DBStorageEngine τ) (p : Process τ) : Command → Process τ
  | .statement ast => p.step db ast
  | .execFile file => runAll db (p.step db .execFile) file

/-- The commands of a file, or of the input. -/
def runAll (db : DBStorageEngine τ) (p : Process τ) : List Command → Process τ
  | [] => p
  | command :: commands => runAll db (run db p command) commands

end

end PointerEngine.Process

namespace PointerEngine.Command

mutual

/-- The calls of `Execute` that a command makes, in their order. -/
def calls : Command → List Statement
  | .statement ast => [ast]
  | .execFile file => .execFile :: callsAll file

/-- The calls of `Execute` that commands make. -/
def callsAll : List Command → List Statement
  | [] => []
  | command :: commands => calls command ++ callsAll commands

end

end PointerEngine.Command

namespace PointerEngine

variable {τ : Type}

/-- The engine without its null pointers. -/
def toEngine (s : PointerEngine τ) : ExecuteEngine τ :=
  { dbs := fun name => (s.dbs name).join, currentDb := s.currentDb }

/-- The engine of a process that is running. -/
def Process.toEngine : Process τ → Option (ExecuteEngine τ)
  | .running s => some s.toEngine
  | _ => none

/-- The kind of a statement that is not empty. -/
def Statement.ast : Statement → Option SyntaxNode
  | .nothing => none
  | .createDB name => some (.createDB name)
  | .dropDB name => some (.dropDB name)
  | .useDB name => some (.useDB name)
  | .showDB => some .showInfo
  | .showTables => some .showInfo
  | .showIndexes => some .showInfo
  | .ddl sql => some (.ddl sql)
  | .trx => some .trx
  | .execFile => none
  | .quit => some .quit
  | .select => some .select
  | .dml sql => some (.dml sql)

end PointerEngine

end DisMiniSql.MiniSql
