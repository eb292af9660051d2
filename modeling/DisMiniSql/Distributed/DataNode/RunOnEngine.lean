import DisMiniSql.Distributed.DataNode.Lifecycle
import DisMiniSql.Distributed.MiniSql.MiniSqlEngine

/-!
# `DisMiniSql.Distributed.DataNode.RunOnEngine`: `DataNodeServer` with its MiniSQL process

The part of `DataNodeServer` that feeds MiniSQL: `syncEngineFull`, `runOnEngine`,
`fullSyncEngine` and `catchUpWalBefore`, and `execute` with it. A `false` is an
`IllegalStateException`, as in `MiniSqlEngine`.

In `DataNode.execute` a failure of MiniSQL is an argument. Here it comes from the outcomes of
the engine.
-/

set_option autoImplicit false

namespace DisMiniSql.Distributed

/-- A data node with its process. -/
structure EngineNode where
  node : DataNode
  miniSqlEngine : MiniSqlEngine := {}
  deriving DecidableEq, Repr

namespace DataNode

/-- `replayThrough` of `fullSyncEngine` and `syncEngineFull`. -/
def replayThrough (n : DataNode) (sequenceExclusive : WithTop Nat) : Nat :=
  let replayed := n.walLog.readAll.filter (fun entry =>
    decide (WithTop.some entry.sequence < sequenceExclusive) &&
      decide (n.compactedWal < entry.sequence))
  ((replayed.map (·.sequence)).max?).getD n.compactedWal

/-- `DataNodeServer.fullSyncEngine`. -/
def fullSyncEngine (n : DataNode) (e : MiniSqlEngine) (sequenceExclusive : WithTop Nat) :
    MiniSqlEngine × Bool :=
  e.resetAndReplay (n.replaySqlBefore sequenceExclusive) (n.replayThrough sequenceExclusive)
    n.compactedWal

/-- The loop of `catchUpWalBefore`. -/
def catchUp (sequenceExclusive : Nat) : List WalEntry → MiniSqlEngine → MiniSqlEngine × Bool
  | [], e => (e, true)
  | entry :: entries, e =>
    if (entry.sequence : Int) ≤ e.engineWalSequence then catchUp sequenceExclusive entries e
    else if sequenceExclusive ≤ entry.sequence then (e, true)
    else
      match e.executeStatement (.logged (MiniSqlEngine.normalized entry.stmt)) with
      | (e', false) => (e', false)
      | (e', true) =>
        catchUp sequenceExclusive entries (e'.setEngineWalSequence entry.sequence)

/-- `DataNodeServer.catchUpWalBefore`. -/
def catchUpWalBefore (n : DataNode) (e : MiniSqlEngine) (sequenceExclusive : WithTop Nat) :
    MiniSqlEngine × Bool :=
  catchUp (sequenceExclusive.untopD (n.walLog.lastSequence + 1)) n.walLog.readAll e

/-- The statement of the request and `setEngineWalSequence`. -/
def runRequest (e : MiniSqlEngine) (x : Fed) (appliedWalSequence : Nat) : MiniSqlEngine × Bool :=
  if isBlank x.text then (e.setEngineWalSequence appliedWalSequence, true)
  else
    match e.executeStatement x with
    | (e', false) => (e', false)
    | (e', true) => (e'.setEngineWalSequence appliedWalSequence, true)

/-- The block that `runOnEngine` tries first. -/
def tryOnEngine (n : DataNode) (e : MiniSqlEngine) (sequenceExclusive : WithTop Nat) (x : Fed)
    (appliedWalSequence : Nat) : MiniSqlEngine × Bool :=
  let synced := if !e.isReady || e.engineCompactedWal != n.compactedWal
    then n.fullSyncEngine e sequenceExclusive else n.catchUpWalBefore e sequenceExclusive
  match synced with
  | (e', false) => (e', false)
  | (e', true) => runRequest e' x appliedWalSequence

/-- The block after a failure. -/
def retryOnEngine (n : DataNode) (e : MiniSqlEngine) (sequenceExclusive : WithTop Nat) (x : Fed)
    (appliedWalSequence : Nat) : MiniSqlEngine × Bool :=
  match n.fullSyncEngine e sequenceExclusive with
  | (e', false) => (e', false)
  | (e', true) => runRequest e' x appliedWalSequence

/-- `DataNodeServer.runOnEngine`. -/
def runOnEngine (n : DataNode) (e : MiniSqlEngine) (sequenceExclusive : WithTop Nat) (x : Fed)
    (appliedWalSequence : Nat) : MiniSqlEngine × Bool :=
  match n.tryOnEngine e sequenceExclusive x appliedWalSequence with
  | (e', true) => (e', true)
  | (e', false) => n.retryOnEngine e' sequenceExclusive x appliedWalSequence

end DataNode

/-- What happens to a node with its process. -/
inductive EngineAction
  /-- `/execute`; the flag is a failure of the registration right after the append. -/
  | execute (shardTerm : Int → Option Nat) (request : ExecuteRequest) (updateFails : Bool)
      (outcomes : List (Option EngineFault))
  | adminSnapshot
  /-- The data node ends while it is idle, and starts again without an answer of a peer. -/
  | restart (shardsForNode : List Int) (outcomes : List (Option EngineFault))
  /-- The process dies between two requests. -/
  | die

namespace EngineNode

/-- `runOnEngine` for a request that was accepted. -/
def run (s : EngineNode) (request : ExecuteRequest) (written : Option WalEntry) :
    MiniSqlEngine × Bool :=
  match written with
  | none => s.node.runOnEngine s.miniSqlEngine ⊤ (.unlogged (SqlUtils.normalize request.sql))
      s.node.walLog.lastSequence
  | some entry => s.node.runOnEngine s.miniSqlEngine (WithTop.some entry.sequence)
      (.logged { entry.stmt with sql := SqlUtils.normalize request.sql }) entry.sequence

/-- The end of `execute`: `markApplied` and `maybeSnapshot`, which invalidates the engine. -/
def finish (s : EngineNode) (written : Option WalEntry) : EngineNode :=
  let n := s.node.markApplied written
  { node := n.maybeSnapshot
    miniSqlEngine := if n.snapshots .auto then s.miniSqlEngine.invalidate else s.miniSqlEngine }

/-- `DataNodeServer.execute`. -/
def execute (s : EngineNode) (shardTerm : Int → Option Nat) (request : ExecuteRequest)
    (updateFails : Bool) : EngineNode :=
  let logged := s.node.logRequest shardTerm request
  let s' := { s with node := logged.1 }
  match logged.2 with
  | .accepted written =>
    if written.isSome && !request.replay && updateFails then s'
    else
      match s'.run request written with
      | (e, false) => { s' with miniSqlEngine := e }
      | (e, true) => { s' with miniSqlEngine := e }.finish written
  | _ => s'

/-- `DataNodeServer.syncEngineFull`. -/
def syncEngineFull (s : EngineNode) : EngineNode :=
  match s.node.fullSyncEngine s.miniSqlEngine ⊤ with
  | (e, false) => { s with miniSqlEngine := e }
  | (e, true) => { s with miniSqlEngine := e.setEngineWalSequence s.node.walLog.lastSequence }

/-- The constructor and `DataNodeServer.start`, with a new engine. -/
def restart (s : EngineNode) (shardsForNode : List Int) (outcomes : List (Option EngineFault)) :
    EngineNode :=
  syncEngineFull
    { node := s.node.start shardsForNode []
      miniSqlEngine :=
        { defaultDatabase := s.miniSqlEngine.defaultDatabase, outcomes := outcomes } }

/-- The process of the engine is gone. -/
def die (s : EngineNode) : EngineNode :=
  { s with miniSqlEngine :=
      { s.miniSqlEngine with
        process := s.miniSqlEngine.process.map (fun p => { p with alive := false }) } }

/-- What the next statements will meet. -/
def expect (s : EngineNode) (outcomes : List (Option EngineFault)) : EngineNode :=
  { s with miniSqlEngine := { s.miniSqlEngine with outcomes := outcomes } }

/-- One step. -/
def step (s : EngineNode) : EngineAction → EngineNode
  | .execute shardTerm request updateFails outcomes =>
    (s.expect outcomes).execute shardTerm request updateFails
  | .adminSnapshot =>
    { node := s.node.adminSnapshot, miniSqlEngine := s.miniSqlEngine.invalidate }
  | .restart shardsForNode outcomes => s.restart shardsForNode outcomes
  | .die => s.die

end EngineNode

end DisMiniSql.Distributed
