import DisMiniSql.Distributed.DataNode.RunOnEngine
import DisMiniSql.Distributed.MiniSql.LiveEngine

/-!
# `DisMiniSql.Distributed.DataNode.LocalSql`: `executeLocalSql` and `execute` on one MiniSQL

The console of a data node and its `/execute` handler use the same process. `runOnEngine` brings
it up to date with the log and runs one statement; `executeLocalSql` is this and nothing more,
`execute` logs the request before. ZooKeeper answers every call here.
-/

set_option autoImplicit false

namespace DisMiniSql.Distributed

open DisMiniSql.MiniSql (ExecuteEngine)

variable {τ : Type}

namespace DataNode

/-- `DataNodeServer.fullSyncEngine`. -/
def fullSyncLive (m : Repl τ) (n : DataNode) (e : LiveEngine τ) (sequenceExclusive : WithTop Nat) :
    LiveEngine τ × Except String Unit :=
  e.resetAndReplay m (n.replaySqlBefore sequenceExclusive) (n.replayThrough sequenceExclusive)
    n.compactedWal

/-- The loop of `catchUpWalBefore`. -/
def catchUpLive (m : Repl τ) (sequenceExclusive : Nat) :
    List WalEntry → LiveEngine τ → LiveEngine τ × Except String Unit
  | [], e => (e, .ok ())
  | entry :: entries, e =>
    if (entry.sequence : Int) ≤ e.engineWalSequence then
      catchUpLive m sequenceExclusive entries e
    else if sequenceExclusive ≤ entry.sequence then (e, .ok ())
    else
      match e.executeStatement m entry.sql with
      | (e', .error message) => (e', .error message)
      | (e', .ok _) =>
        catchUpLive m sequenceExclusive entries (e'.setEngineWalSequence entry.sequence)

/-- The first part of `runOnEngine`: `fullSyncEngine` or `catchUpWalBefore`. -/
def syncLive (m : Repl τ) (n : DataNode) (e : LiveEngine τ) (sequenceExclusive : WithTop Nat) :
    LiveEngine τ × Except String Unit :=
  if !e.isReady || e.engineCompactedWal != n.compactedWal then
    n.fullSyncLive m e sequenceExclusive
  else
    catchUpLive m (sequenceExclusive.untopD (n.walLog.lastSequence + 1)) n.walLog.readAll e

/-- The second part: the statement and `setEngineWalSequence`. -/
def runLive (m : Repl τ) (e : LiveEngine τ) (sql : String) (appliedWalSequence : Nat) :
    LiveEngine τ × Except String String :=
  if isBlank sql then (e.setEngineWalSequence appliedWalSequence, .ok "")
  else
    match e.executeStatement m sql with
    | (e', .error message) => (e', .error message)
    | (e', .ok output) => (e'.setEngineWalSequence appliedWalSequence, .ok output)

/-- The block after a failure. -/
def retryLive (m : Repl τ) (n : DataNode) (e : LiveEngine τ) (sequenceExclusive : WithTop Nat)
    (sql : String) (appliedWalSequence : Nat) : LiveEngine τ × Except String String :=
  match n.fullSyncLive m e sequenceExclusive with
  | (e', .error message) => (e', .error message)
  | (e', .ok _) => runLive m e' sql appliedWalSequence

/-- `DataNodeServer.runOnEngine`. -/
def runOnLive (m : Repl τ) (n : DataNode) (e : LiveEngine τ) (sequenceExclusive : WithTop Nat)
    (sql : String) (appliedWalSequence : Nat) : LiveEngine τ × Except String String :=
  match n.syncLive m e sequenceExclusive with
  | (e', .error _) => n.retryLive m e' sequenceExclusive sql appliedWalSequence
  | (e', .ok _) =>
    match runLive m e' sql appliedWalSequence with
    | (e'', .error _) => n.retryLive m e'' sequenceExclusive sql appliedWalSequence
    | (e'', .ok output) => (e'', .ok output)

end DataNode

/-- A data node with its process. -/
structure LiveNode (τ : Type) where
  node : DataNode
  engine : LiveEngine τ := {}

/-- A request with what ZooKeeper answers to it. -/
structure LiveRequest where
  shardTerm : Int → Option Nat
  request : ExecuteRequest

/-- What a request leads to: the response, and MiniSQL with its databases and its current
database as `runOnEngine` has left it. -/
structure LiveResult (τ : Type) where
  response : ExecuteResponse
  left : Option (ExecuteEngine τ) := none

namespace LiveNode

/-- `DataNodeServer.executeLocalSql`. -/
def executeLocalSql (m : Repl τ) (s : LiveNode τ) (sql : String) :
    LiveNode τ × Except String String :=
  let ran := s.node.runOnLive m s.engine ⊤ sql s.node.walLog.lastSequence
  ({ s with engine := ran.1 }, ran.2)

/-- The end of `execute`: `markApplied` and `maybeSnapshot`, which invalidates the engine. -/
def finish (s : LiveNode τ) (written : Option WalEntry) : LiveNode τ :=
  let n := s.node.markApplied written
  { node := n.maybeSnapshot
    engine := if n.snapshots .auto then s.engine.invalidate else s.engine }

/-- `sequenceExclusive` of `execute`. -/
def sequenceExclusive : Option WalEntry → WithTop Nat
  | none => ⊤
  | some written => WithTop.some written.sequence

/-- `DataNodeServer.execute` under its HTTP handler, for a request that was accepted. -/
def executeAccepted (m : Repl τ) (s : LiveNode τ) (request : ExecuteRequest)
    (written : Option WalEntry) : LiveNode τ × LiveResult τ :=
  let ran := s.node.runOnLive m s.engine (sequenceExclusive written)
    (SqlUtils.normalize request.sql)
    ((written.map (·.sequence)).getD s.node.walLog.lastSequence)
  let s' := { s with engine := ran.1 }
  match ran.2 with
  | .error message => (s', { response := .failure s.node.nodeId message })
  | .ok output =>
    (s'.finish written,
      { response := s.node.okResponse request written output, left := ran.1.miniSql })

/-- `DataNodeServer.execute` under its HTTP handler. -/
def execute (m : Repl τ) (s : LiveNode τ) (r : LiveRequest) : LiveNode τ × LiveResult τ :=
  let logged := s.node.logRequest r.shardTerm r.request
  let s' := { s with node := logged.1 }
  match logged.2 with
  | .rejected error => (s', { response := .failure s.node.nodeId error })
  | .duplicate =>
    (s', { response :=
      .success s.node.nodeId s.node.walLog.lastSequence "duplicate replay ignored" })
  | .accepted written => s'.executeAccepted m r.request written

/-- What a sequence of requests leads to. -/
def results (m : Repl τ) : LiveNode τ → List LiveRequest → List (LiveResult τ)
  | _, [] => []
  | s, r :: rs => (s.execute m r).2 :: results m (s.execute m r).1 rs

/-- The local statement does not show: every later sequence of requests leads to the same
responses and the same tables as without it. -/
def Isolated (m : Repl τ) (s : LiveNode τ) (sql : String) : Prop :=
  ∀ requests, results m (s.executeLocalSql m sql).1 requests = results m s requests

end LiveNode

end DisMiniSql.Distributed
