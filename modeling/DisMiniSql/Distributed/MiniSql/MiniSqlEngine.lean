import Mathlib.Data.List.Infix
import DisMiniSql.Distributed.DataNode.SnapshotManager

/-!
# `DisMiniSql.Distributed.MiniSql.MiniSqlEngine`: `MiniSqlEngine`

The MiniSQL process of a data node, as the server sees it: a process that is there or not, what
was written to it since it was started, and the two numbers the server keeps with it. The
methods are `synchronized`, so each is one step.

Every statement meets one of the `outcomes` that are still to come; so does the start of a
process. A failure is an `IllegalStateException`: the methods return `false` with the state
that the exception leaves behind. The thread is never interrupted.

`Fed` says of each text where it comes from. The engine takes no decision on it.
-/

set_option autoImplicit false

namespace DisMiniSql.Distributed

/-- A text that is written to MiniSQL. -/
inductive Fed
  /-- `use <default>;`, which `maybeUseDefaultDatabase` puts before a statement. -/
  | use (database : String)
  /-- A statement of the log or the snapshot. -/
  | logged (x : Stmt)
  /-- A statement that is not logged. -/
  | unlogged (sql : String)
  deriving DecidableEq, Repr

/-- What is written. -/
def Fed.text : Fed → String
  | .use database => "use " ++ database ++ ";"
  | .logged x => x.sql
  | .unlogged sql => sql

/-- How a statement ends, if MiniSQL does not answer. -/
inductive EngineFault
  /-- The pipe is broken. -/
  | communication
  | timeout
  /-- The process has exited. -/
  | exit
  deriving DecidableEq, Repr

/-- A MiniSQL process. -/
structure Process where
  alive : Bool := true
  /-- Not in the source: what was written to it. -/
  fed : List Fed := []
  deriving DecidableEq, Repr

/-- `MiniSqlEngine`. -/
structure MiniSqlEngine where
  /-- `none` is `null`. -/
  defaultDatabase : Option String := none
  /-- `none` is `null`. -/
  process : Option Process := none
  engineWalSequence : Int := -1
  engineCompactedWal : Int := -1
  invalidated : Bool := true
  /-- Not in the source: what the next statements meet, then only answers. -/
  outcomes : List (Option EngineFault) := []
  deriving DecidableEq, Repr

namespace MiniSqlEngine

/-- `MiniSqlEngine.isReady`. -/
def isReady (e : MiniSqlEngine) : Bool := !e.invalidated && e.process.any (·.alive)

/-- `MiniSqlEngine.destroyProcess`. -/
def destroyProcess (e : MiniSqlEngine) : MiniSqlEngine := { e with process := none }

/-- `MiniSqlEngine.invalidate`. -/
def invalidate (e : MiniSqlEngine) : MiniSqlEngine :=
  { e.destroyProcess with invalidated := true }

/-- `MiniSqlEngine.setEngineWalSequence`. -/
def setEngineWalSequence (e : MiniSqlEngine) (engineWalSequence : Int) : MiniSqlEngine :=
  { e with engineWalSequence := engineWalSequence }

/-- The text goes to the process. -/
def feed (e : MiniSqlEngine) (x : Fed) : MiniSqlEngine :=
  { e with process := e.process.map (fun p => { p with fed := p.fed ++ [x] }) }

/-- `MiniSqlEngine.runStatement`. -/
def runStatement (e : MiniSqlEngine) (x : Fed) : MiniSqlEngine × Bool :=
  let next := { e.feed x with outcomes := e.outcomes.tail }
  match e.outcomes.head?.join with
  | none => (next, true)
  | some .communication => ({ next.destroyProcess with invalidated := true }, false)
  | some .timeout => (next.destroyProcess, false)
  | some .exit =>
    ({ next with
      process := next.process.map (fun p => { p with alive := false }), invalidated := true },
      false)

/-- The loop of `resetAndReplay`. -/
def runStatements (e : MiniSqlEngine) : List Fed → MiniSqlEngine × Bool
  | [] => (e, true)
  | x :: xs =>
    match e.runStatement x with
    | (e', true) => e'.runStatements xs
    | (e', false) => (e', false)

/-- `sql.toLowerCase().contains("database")`. No character outside ASCII is lower-cased to a
letter of the word. -/
def containsDatabase (sql : String) : Bool :=
  decide ("database".toList <:+: sql.toList.map Char.toLower)

/-- `MiniSqlEngine.maybeUseDefaultDatabase`: whether `use <default>;` comes first. -/
def maybeUseDefaultDatabase (defaultDatabase : Option String) (sql : String) : Option String :=
  match defaultDatabase with
  | none => none
  | some database =>
    let keyword := SqlUtils.firstKeyword sql
    if isBlank database then none
    else if keyword == "create" && containsDatabase sql then none
    else if keyword == "drop" && containsDatabase sql then none
    else if keyword == "use" || keyword == "quit" || keyword == "exit" then none
    else some database

/-- A statement of the log as it is written: `SqlUtils.normalize`. -/
def normalized (x : Stmt) : Stmt := { x with sql := SqlUtils.normalize x.sql }

/-- `MiniSqlEngine.expandStatements`, which is only called without a further statement. -/
def expandStatements (e : MiniSqlEngine) (replaySql : List Stmt) : List Fed :=
  replaySql.flatMap (fun x =>
    ((maybeUseDefaultDatabase e.defaultDatabase x.sql).map Fed.use).toList ++
      [.logged (normalized x)])

/-- `prepareWorkDir` and `startProcess`. -/
def startProcess (e : MiniSqlEngine) : MiniSqlEngine × Bool :=
  let next := { e with outcomes := e.outcomes.tail }
  match e.outcomes.head?.join with
  | none => ({ next with process := some {} }, true)
  | some _ => (next, false)

/-- `MiniSqlEngine.resetAndReplay`. -/
def resetAndReplay (e : MiniSqlEngine) (replaySql : List Stmt) (walSequence compactedWal : Int) :
    MiniSqlEngine × Bool :=
  match e.destroyProcess.startProcess with
  | (e₁, false) => (e₁, false)
  | (e₁, true) =>
    match e₁.runStatements (e₁.expandStatements replaySql) with
    | (e₂, false) => (e₂, false)
    | (e₂, true) =>
      ({ e₂ with
        engineWalSequence := walSequence, engineCompactedWal := compactedWal
        invalidated := false }, true)

/-- `MiniSqlEngine.executeStatement`; the text of `x` is normalized. -/
def executeStatement (e : MiniSqlEngine) (x : Fed) : MiniSqlEngine × Bool :=
  if e.isReady then e.runStatement x else (e, false)

end MiniSqlEngine

end DisMiniSql.Distributed
