import DisMiniSql.Distributed.MiniSql.ReplFraming

/-!
# `DisMiniSql.Distributed.MiniSql.LiveEngine`: `MiniSqlEngine` with MiniSQL in its process

`MiniSqlEngine` again, with the state of MiniSQL instead of the texts that were written to it.
What a statement meets follows from that state and from what is still on the pipe: it is
answered, or MiniSQL ends on it, or it prints nothing and the read times out. The files and the
pipes do not fail.

MiniSQL takes a text line by line, and has worked through its input when the next call comes. A
failure is the message of the `IllegalStateException`, with the state that the exception leaves
behind.
-/

set_option autoImplicit false

namespace DisMiniSql.Distributed

open DisMiniSql.MiniSql (ExecuteEngine)

variable {τ : Type}

/-- `MiniSqlEngine`. -/
structure LiveEngine (τ : Type) where
  defaultDatabase : Option String := none
  /-- `none` is `null`. -/
  process : Option (ReplSession τ) := none
  engineWalSequence : Int := -1
  engineCompactedWal : Int := -1
  invalidated : Bool := true

namespace LiveEngine

/-- MiniSQL, if its process is alive. -/
def miniSql (e : LiveEngine τ) : Option (ExecuteEngine τ) := e.process.bind (·.engine)

/-- `MiniSqlEngine.isReady`. -/
def isReady (e : LiveEngine τ) : Bool := !e.invalidated && e.miniSql.isSome

/-- `MiniSqlEngine.invalidate`. -/
def invalidate (e : LiveEngine τ) : LiveEngine τ := { e with process := none, invalidated := true }

/-- `MiniSqlEngine.setEngineWalSequence`. -/
def setEngineWalSequence (e : LiveEngine τ) (engineWalSequence : Int) : LiveEngine τ :=
  { e with engineWalSequence := engineWalSequence }

/-- `MiniSqlEngine.runStatement`, which is only called on a process that was started. -/
def runStatement (m : Repl τ) (e : LiveEngine τ) (sql : String) :
    LiveEngine τ × Except String String :=
  match e.process with
  | none => (e.invalidate, .error "MiniSQL REPL communication failed")
  | some x =>
    match x.engine with
    | none =>
      -- the pipe of a process that has ended is closed
      (e.invalidate, .error "MiniSQL REPL communication failed")
    | some s =>
      let call := x.runStatement m sql.toList
      match call.returned, (m.loop s (inputLines sql.toList)).2 with
      | some text, _ => ({ e with process := some call.session }, .ok (String.ofList text))
      | none, .error message =>
        ({ e with process := some call.session, invalidated := true }, .error message)
      | none, .ok _ => ({ e with process := none }, .error "MiniSQL REPL timed out")

/-- The loop of `resetAndReplay`. -/
def runStatements (m : Repl τ) (e : LiveEngine τ) : List String → LiveEngine τ × Except String Unit
  | [] => (e, .ok ())
  | sql :: rest =>
    match e.runStatement m sql with
    | (e', .ok _) => runStatements m e' rest
    | (e', .error message) => (e', .error message)

/-- `MiniSqlEngine.resetAndReplay`. -/
def resetAndReplay (m : Repl τ) (e : LiveEngine τ) (replaySql : List Stmt)
    (walSequence compactedWal : Int) : LiveEngine τ × Except String Unit :=
  let statements := (MiniSqlEngine.expandStatements { defaultDatabase := e.defaultDatabase }
    replaySql).map Fed.text
  match { e with process := some { engine := some {} } }.runStatements m statements with
  | (e', .error message) => (e', .error message)
  | (e', .ok _) =>
    ({ e' with
      engineWalSequence := walSequence, engineCompactedWal := compactedWal
      invalidated := false }, .ok ())

/-- `MiniSqlEngine.executeStatement`. -/
def executeStatement (m : Repl τ) (e : LiveEngine τ) (sql : String) :
    LiveEngine τ × Except String String :=
  if e.isReady then e.runStatement m (SqlUtils.normalize sql)
  else (e, .error "MiniSQL engine is not running; rebuild required")

end LiveEngine

end DisMiniSql.Distributed
