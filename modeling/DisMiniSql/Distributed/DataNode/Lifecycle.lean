import DisMiniSql.Distributed.DataNode.DataNodeServer

/-!
# `DisMiniSql.Distributed.DataNode.Lifecycle`: a data node from one request to the next

One node on its own: requests, snapshots, restarts and refreshes of its shards, one after another.
`start` is the constructor and `DataNodeServer.start` in one piece; `peers` are the registered nodes
with their answers to `/recovery-state`.

A snapshot writes four files in this order: `snapshot.sql`, `snapshot.json`, `wal.jsonl` and
`wal-index.json`. `SnapshotWrite` names the last one that a crash lets through. The index has
the same numbers and ids before and after a compaction, so its write changes nothing here.
-/

set_option autoImplicit false

namespace DisMiniSql.Distributed

/-- The last file that a snapshot has written. -/
inductive SnapshotWrite
  | nothing
  | snapshotSql
  | manifest
  | walFile
  | walIndex
  deriving DecidableEq, Repr

/-- The two ways to a snapshot. -/
inductive SnapshotKind
  /-- `maybeSnapshot`. -/
  | auto
  /-- `/admin/snapshot`. -/
  | admin
  deriving DecidableEq, Repr

/-- What a node does between two moments at which it is idle. -/
inductive NodeOp
  | execute (shardTerm : Int → Option Nat) (request : ExecuteRequest)
      (fault : Option ExecuteFault) (output : String)
  | adminSnapshot
  | adminRefreshShards (shardsForNode : List Int) (peers : List (NodeInfo × Option RecoveryState))
  /-- The process ends while it is idle, and starts again. -/
  | restart (shardsForNode : List Int) (peers : List (NodeInfo × Option RecoveryState))
  /-- The process ends inside a snapshot, and starts again. -/
  | crash (kind : SnapshotKind) (written : SnapshotWrite) (shardsForNode : List Int)
      (peers : List (NodeInfo × Option RecoveryState))

namespace DataNode

/-- The constructor on an existing data directory and `DataNodeServer.start`. -/
def start (n : DataNode) (shardsForNode : List Int)
    (peers : List (NodeInfo × Option RecoveryState)) : DataNode :=
  ((n.reload shardsForNode).recoverFromPeers peers).applyPendingWal.maybeSnapshot.withState
    .SERVING

/-- The handler of `/admin/refresh-shards`, which takes no snapshot. -/
def adminRefreshShards (n : DataNode) (shardsForNode : List Int)
    (peers : List (NodeInfo × Option RecoveryState)) : DataNode :=
  (((n.withState .RECOVERING).refreshShards shardsForNode).recoverFromPeers
    peers).applyPendingWal.withState .SERVING

/-- The test of `maybeSnapshot`; the handler of `/admin/snapshot` has none. -/
def snapshots (n : DataNode) : SnapshotKind → Bool
  | .auto => n.compactedWal + 20 ≤ n.walLog.lastSequence
  | .admin => true

/-- `appliedSql` of a snapshot. -/
def appliedSql (n : DataNode) : SnapshotKind → List Stmt
  | .auto => n.snapshotManager.snapshotSql ++
      (n.walLog.readAll.filter (fun entry => entry.sequence ≤ n.walLog.lastSequence)).map
        WalEntry.stmt
  | .admin => n.snapshotManager.snapshotSql ++ n.walLog.readAll.map WalEntry.stmt

/-- The data directory after the first writes of a snapshot of `appliedSql`. -/
def snapshotUpTo (n : DataNode) (appliedSql : List Stmt) : SnapshotWrite → DataNode
  | .nothing => n
  | .snapshotSql =>
    { n with snapshotManager :=
        { n.snapshotManager with snapshotSqlFile := appliedSql.flatMap Stmt.toLines } }
  | .manifest =>
    { n with
      snapshotManager := n.snapshotManager.createSnapshot n.walLog.lastSequence appliedSql }
  | .walFile | .walIndex =>
    { n with
      snapshotManager := n.snapshotManager.createSnapshot n.walLog.lastSequence appliedSql
      walLog := n.walLog.compactThrough n.walLog.lastSequence }

/-- A snapshot that is taken, or the test of `maybeSnapshot` that fails. -/
def snapshot (n : DataNode) : SnapshotKind → DataNode
  | .auto => n.maybeSnapshot
  | .admin => n.adminSnapshot

/-- A crash inside a snapshot. -/
def crashIn (n : DataNode) (kind : SnapshotKind) (written : SnapshotWrite) : DataNode :=
  if n.snapshots kind then n.snapshotUpTo (n.appliedSql kind) written else n

/-- One operation of the node. -/
def apply (n : DataNode) : NodeOp → DataNode
  | .execute shardTerm request fault output => (n.execute shardTerm request fault output).node
  | .adminSnapshot => n.adminSnapshot
  | .adminRefreshShards shardsForNode peers => n.adminRefreshShards shardsForNode peers
  | .restart shardsForNode peers => n.start shardsForNode peers
  | .crash kind written shardsForNode peers => (n.crashIn kind written).start shardsForNode peers

end DataNode

end DisMiniSql.Distributed
