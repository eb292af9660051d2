import Mathlib.Logic.Function.Basic

/-!
# `DisMiniSql.MiniSql.Executor.ExecuteEngine`: `ExecuteEngine`

`executor/execute_engine.cpp` keeps the databases by their names and the name of the current
one, and dispatches on the kind of a statement. The tables of one database are a parameter:
`DBStorageEngine` says what a new database holds and what a statement makes of it.

`execute` starts by looking up the current database. A database that was dropped while it was
current leaves a null pointer there, and so does a query without any current database; the
process ends on both. `none` stands for a process that has ended.

`execfile` is left out here, and so it is for everything that runs on this engine: the persistent
process of a data node and the framing of its answers speak of lines without an `execfile`. The
module `DatabaseMap` reads the engine once more, with `execfile`, nested files and the pointers of
`dbs_`, and `Valid.toEngine_execute` shows that every other statement does there what it does here.
-/

set_option autoImplicit false

namespace DisMiniSql.MiniSql

/-- `SyntaxNode`, by its `type_`. -/
inductive SyntaxNode
  /-- `kNodeCreateDB` -/
  | createDB (name : String)
  /-- `kNodeDropDB` -/
  | dropDB (name : String)
  /-- `kNodeUseDB` -/
  | useDB (name : String)
  /-- `kNodeShowDB`, `kNodeShowTables`, `kNodeShowIndexes` -/
  | showInfo
  /-- `kNodeCreateTable`, `kNodeDropTable`, `kNodeCreateIndex`, `kNodeDropIndex` -/
  | ddl (sql : String)
  /-- `kNodeTrxBegin`, `kNodeTrxCommit`, `kNodeTrxRollback`: all return `DB_FAILED`. -/
  | trx
  /-- `kNodeQuit` -/
  | quit
  /-- `kNodeSelect` -/
  | select
  /-- `kNodeInsert`, `kNodeDelete`, `kNodeUpdate` -/
  | dml (sql : String)
  deriving DecidableEq, Repr

/-- `DBStorageEngine`: a new database, and the effect of a statement on its tables. -/
structure DBStorageEngine (τ : Type) where
  init : τ
  apply : String → τ → τ

/-- `ExecuteEngine`. -/
structure ExecuteEngine (τ : Type) where
  /-- `dbs_` -/
  dbs : String → Option τ := fun _ => none
  /-- `current_db_` -/
  currentDb : String := ""

namespace ExecuteEngine

variable {τ : Type}

/-- `dbs_[current_db_]` is a null pointer. -/
def dropped (s : ExecuteEngine τ) : Bool := s.currentDb != "" && (s.dbs s.currentDb).isNone

/-- A statement on the tables of the current database. -/
def onCurrent (s : ExecuteEngine τ) (f : τ → τ) : ExecuteEngine τ :=
  { s with dbs := Function.update s.dbs s.currentDb ((s.dbs s.currentDb).map f) }

/-- `ExecuteEngine::ExecuteCreateDatabase`. -/
def executeCreateDatabase (db : DBStorageEngine τ) (s : ExecuteEngine τ) (name : String) :
    ExecuteEngine τ :=
  if (s.dbs name).isSome then s
  else { s with dbs := Function.update s.dbs name (some db.init) }

/-- `ExecuteEngine::ExecuteDropDatabase`. -/
def executeDropDatabase (s : ExecuteEngine τ) (name : String) : ExecuteEngine τ :=
  if (s.dbs name).isNone then s
  else { s with dbs := Function.update s.dbs name none }

/-- `ExecuteEngine::ExecuteUseDatabase`. -/
def executeUseDatabase (s : ExecuteEngine τ) (name : String) : ExecuteEngine τ :=
  if (s.dbs name).isSome then { s with currentDb := name } else s

/-- `ExecuteEngine::ExecuteCreateTable` and its siblings. -/
def executeDdl (db : DBStorageEngine τ) (s : ExecuteEngine τ) (sql : String) : ExecuteEngine τ :=
  if s.currentDb = "" then s else s.onCurrent (db.apply sql)

/-- The planner and the executors, which need a current database. -/
def executePlan (s : ExecuteEngine τ) (f : τ → τ) : Option (ExecuteEngine τ) :=
  if s.currentDb = "" then none else some (s.onCurrent f)

/-- `ExecuteEngine::Execute`. -/
def execute (db : DBStorageEngine τ) (s : ExecuteEngine τ) (ast : SyntaxNode) :
    Option (ExecuteEngine τ) :=
  if s.dropped then none
  else
    match ast with
    | .createDB name => some (s.executeCreateDatabase db name)
    | .dropDB name => some (s.executeDropDatabase name)
    | .useDB name => some (s.executeUseDatabase name)
    | .showInfo => some s
    | .ddl sql => some (s.executeDdl db sql)
    | .trx => some s
    | .quit => none
    | .select => s.executePlan id
    | .dml sql => s.executePlan (db.apply sql)

/-- What `main.cpp` makes of a line of the input: an empty line is skipped, and a line without a
semicolon gets one. `parse` is the parser; `none` is a syntax error. -/
def command (parse : String → Option SyntaxNode) (line : String) : Option SyntaxNode :=
  if line = "" then none else parse (if line.back = ';' then line else line.push ';')

/-- `ExecuteCommand` of `main.cpp`. -/
def executeCommand (parse : String → Option SyntaxNode) (db : DBStorageEngine τ)
    (s : ExecuteEngine τ) (line : String) : Option (ExecuteEngine τ) :=
  match command parse line with
  | none => some s
  | some ast => s.execute db ast

/-- The `--repl` loop of `main.cpp`, over the lines of its input. -/
def repl (parse : String → Option SyntaxNode) (db : DBStorageEngine τ) :
    ExecuteEngine τ → List String → Option (ExecuteEngine τ)
  | s, [] => some s
  | s, line :: lines => (s.executeCommand parse db line).bind (fun s => repl parse db s lines)

end ExecuteEngine

end DisMiniSql.MiniSql
