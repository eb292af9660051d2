import DisMiniSql.Distributed.DataNode.Lifecycle

/-!
# `DisMiniSql.Distributed.DataNode.Handlers`: handlers that run beside `execute`

`execute` is `synchronized`, the handlers of `/admin/snapshot` and `/recovery-state` are not.
Two state machines show what they can meet.

`AdminSnapshot` has the handler of `/admin/snapshot` call by call; one `execute` is one step.
The index maps that `createSnapshot` gets are only displayed and left out.

`Serving` has `execute` call by call, as a node that answers `/recovery-state` runs it: the
append, the statement on MiniSQL and the steps of `maybeSnapshot`. The manifest is read from
the field `snapshotManifest`, and the file `snapshot.json` by nobody, so the write of that file
and the assignment are one step.
-/

set_option autoImplicit false

namespace DisMiniSql.Distributed

/-- Where the handler of `/admin/snapshot` stands. -/
inductive SnapshotHandler
  | idle
  /-- `snapshotManager.snapshotSql()` has returned. -/
  | listed (appliedSql : List Stmt)
  /-- `walLog.readAll()` has returned. -/
  | read (appliedSql : List Stmt)
  /-- `walLog.lastSequence()` has returned, `createSnapshot` comes next. -/
  | numbered (appliedSql : List Stmt) (lastSequence : Nat)
  /-- The manifest is assigned. -/
  | created
  /-- `walLog.lastSequence()` has returned again, `compactThrough` comes next. -/
  | compacting (lastSequence : Nat)
  deriving DecidableEq, Repr

/-- A node and the handler of `/admin/snapshot`. -/
structure AdminSnapshot where
  node : DataNode
  handler : SnapshotHandler := .idle
  deriving DecidableEq, Repr

/-- A request, or the next call of the handler. -/
inductive AdminAction
  | execute (shardTerm : Int → Option Nat) (request : ExecuteRequest)
      (fault : Option ExecuteFault) (output : String)
  | handler

namespace AdminSnapshot

/-- The next call of the handler. From `idle` it is the first one. -/
def handle (s : AdminSnapshot) : AdminSnapshot :=
  match s.handler with
  | .idle => { s with handler := .listed s.node.snapshotManager.snapshotSql }
  | .listed appliedSql =>
    { s with handler := .read (appliedSql ++ s.node.walLog.readAll.map WalEntry.stmt) }
  | .read appliedSql => { s with handler := .numbered appliedSql s.node.walLog.lastSequence }
  | .numbered appliedSql lastSequence =>
    { node :=
        { s.node with
          snapshotManager := s.node.snapshotManager.createSnapshot lastSequence appliedSql }
      handler := .created }
  | .created => { s with handler := .compacting s.node.walLog.lastSequence }
  | .compacting lastSequence =>
    { node := { s.node with walLog := s.node.walLog.compactThrough lastSequence }
      handler := .idle }

/-- One step. -/
def step (s : AdminSnapshot) : AdminAction → AdminSnapshot
  | .execute shardTerm request fault output =>
    { s with node := (s.node.execute shardTerm request fault output).node }
  | .handler => s.handle

end AdminSnapshot

/-- Where `execute` stands. -/
inductive ExecutePhase
  | idle
  /-- The request is accepted, the statement runs on MiniSQL. -/
  | logged (written : Option WalEntry)
  /-- The threshold of `maybeSnapshot` is reached. -/
  | snapshotting (compactThrough : Nat)
  /-- `snapshot.sql` is written. -/
  | sqlWritten (compactThrough : Nat)
  /-- The new manifest is assigned. -/
  | manifestAssigned (compactThrough : Nat)
  deriving DecidableEq, Repr

/-- A node that serves requests. -/
structure Serving where
  node : DataNode
  phase : ExecutePhase := .idle
  deriving DecidableEq, Repr

/-- The steps of `execute`. -/
inductive ServeAction
  | log (shardTerm : Int → Option Nat) (request : ExecuteRequest)
  /-- MiniSQL answers; the entry is marked and the threshold is tested. -/
  | applied
  /-- An exception ends the request. -/
  | fail
  | writeSql
  | assign
  | compact

namespace Serving

/-- One step of `execute`; `none` where it is not the next one. -/
def step (s : Serving) : ServeAction → Option Serving
  | .log shardTerm request =>
    match s.phase with
    | .idle =>
      let logged := s.node.logRequest shardTerm request
      match logged.2 with
      | .accepted written => some { node := logged.1, phase := .logged written }
      | _ => some { s with node := logged.1 }
    | _ => none
  | .applied =>
    match s.phase with
    | .logged written =>
      let n := s.node.markApplied written
      some { node := n
             phase := if n.snapshots .auto then .snapshotting n.walLog.lastSequence else .idle }
    | _ => none
  | .fail =>
    match s.phase with
    | .logged _ => some { s with phase := .idle }
    | _ => none
  | .writeSql =>
    match s.phase with
    | .snapshotting k =>
      some { node := s.node.snapshotUpTo (s.node.appliedSql .auto) .snapshotSql
             phase := .sqlWritten k }
    | _ => none
  | .assign =>
    match s.phase with
    | .sqlWritten k =>
      some { node :=
               { s.node with snapshotManager :=
                   { s.node.snapshotManager with manifestFile :=
                       { lastWalSequence := k, lastCompactedWalSequence := k } } }
             phase := .manifestAssigned k }
    | _ => none
  | .compact =>
    match s.phase with
    | .manifestAssigned k =>
      some { node := { s.node with walLog := s.node.walLog.compactThrough k }, phase := .idle }
    | _ => none

/-- The steps, one after another. -/
def run (s : Serving) : List ServeAction → Option Serving
  | [] => some s
  | a :: as => (s.step a).bind (fun s' => s'.run as)

/-- `DataNodeServer.recoveryState`, whose three reads see three states. -/
def recoveryState (manifest sql wal : Serving) : RecoveryState where
  snapshotManifest := manifest.node.snapshotManager.manifestFile
  snapshotSql := sql.node.snapshotManager.snapshotSql
  walEntries := wal.node.walLog.readAll

end Serving

end DisMiniSql.Distributed
