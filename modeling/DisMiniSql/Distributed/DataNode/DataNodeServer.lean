import Mathlib.Order.WithBot
import DisMiniSql.Distributed.DataNode.SnapshotManager
import DisMiniSql.Distributed.Protocol

/-!
# `DisMiniSql.Distributed.DataNode.DataNodeServer`: `DataNodeServer`

The state of one data node and what its handlers do to it. `execute` is `synchronized`, so one
call is one step of the node. What it meets outside the node are arguments: the shard terms
that ZooKeeper returns, a failure of one of its outside calls, and the text that MiniSQL
prints.

The MiniSQL process itself is not part of the state: every function below that starts it or
feeds it (`runOnEngine`, `syncEngineFull`) reads the log and the snapshot and writes neither.
-/

set_option autoImplicit false

namespace DisMiniSql.Distributed

/-- `RecoveryState`: the answer to `/recovery-state`. -/
structure RecoveryState where
  snapshotManifest : SnapshotManifest
  snapshotSql : List Stmt
  walEntries : List WalEntry
  deriving DecidableEq, Repr

/-- The list a node replays when it starts from this state: the snapshot, then the log after
the compacted sequence number. -/
def RecoveryState.replaySql (r : RecoveryState) : List Stmt :=
  r.snapshotSql ++ (r.walEntries.filter
    (fun entry => r.snapshotManifest.lastCompactedWalSequence < entry.sequence)).map WalEntry.stmt

/-- `DataNodeServer`. -/
structure DataNode where
  nodeId : String
  shards : List Int := []
  replicaState : ReplicaState := .RECOVERING
  walLog : WalLog := {}
  snapshotManager : SnapshotManager := {}
  deriving DecidableEq, Repr

/-- The calls of `execute` that can throw. After the entry is logged these are the
registration of the node, the statement on MiniSQL and the second registration. -/
inductive ExecuteFault
  | nodeUpdate
  | engine
  | finalUpdate
  deriving DecidableEq, Repr

/-- What the first part of `execute` decides about a request. -/
inductive Logged
  | rejected (error : String)
  | duplicate
  /-- `none` for a request that is not logged. -/
  | accepted (written : Option WalEntry)
  deriving DecidableEq, Repr

/-- What `execute` returns and leaves behind. -/
structure ExecuteResult where
  node : DataNode
  response : ExecuteResponse
  /-- Whether the node has put its `NodeInfo` into ZooKeeper on the way. -/
  published : Bool

namespace DataNode

/-- `snapshotManifest.lastCompactedWalSequence`. -/
def compactedWal (n : DataNode) : Nat := n.snapshotManager.manifestFile.lastCompactedWalSequence

/-- `DataNodeServer.ownsShard`. -/
def ownsShard (n : DataNode) (shardId : Int) : Bool := shardId < 0 || n.shards.contains shardId

/-- `DataNodeServer.currentNodeInfo`. -/
def currentNodeInfo (n : DataNode) : NodeInfo where
  nodeId := n.nodeId
  shards := n.shards
  replicaState := n.replicaState

/-- `DataNodeServer.recoveryState`. -/
def recoveryState (n : DataNode) : RecoveryState where
  snapshotManifest := n.snapshotManager.manifestFile
  snapshotSql := n.snapshotManager.snapshotSql
  walEntries := n.walLog.readAll

/-- `DataNodeServer.replaySqlBefore`. The bound `Long.MAX_VALUE` is `⊤`. -/
def replaySqlBefore (n : DataNode) (sequenceExclusive : WithTop Nat) : List Stmt :=
  n.snapshotManager.snapshotSql ++
    ((n.walLog.readAll.filter (fun entry => n.compactedWal < entry.sequence)).filter
      (fun entry => WithTop.some entry.sequence < sequenceExclusive)).map WalEntry.stmt

/-- `replaySqlBefore(Long.MAX_VALUE)`: what a MiniSQL process that is started now is fed. -/
def replaySql (n : DataNode) : List Stmt := n.replaySqlBefore ⊤

/-- `DataNodeServer.maybeSnapshot`. -/
def maybeSnapshot (n : DataNode) : DataNode :=
  let compactThrough := n.walLog.lastSequence
  if compactThrough < n.compactedWal + 20 then n
  else
    let appliedSql := n.snapshotManager.snapshotSql ++
      (n.walLog.readAll.filter (fun entry => entry.sequence ≤ compactThrough)).map WalEntry.stmt
    { n with
      snapshotManager := n.snapshotManager.createSnapshot compactThrough appliedSql
      walLog := n.walLog.compactThrough compactThrough }

/-- The handler of `/admin/snapshot`. -/
def adminSnapshot (n : DataNode) : DataNode :=
  let appliedSql := n.snapshotManager.snapshotSql ++ n.walLog.readAll.map WalEntry.stmt
  { n with
    snapshotManager := n.snapshotManager.createSnapshot n.walLog.lastSequence appliedSql
    walLog := n.walLog.compactThrough n.walLog.lastSequence }

/-- The branch of `DataNodeServer.execute` for a write of the primary or a broadcast: the checks
and the log. `shardTerm` is `metadataStore.shard(..).term`, `none` where that call throws. -/
def logWrite (n : DataNode) (shardTerm : Int → Option Nat) (request : ExecuteRequest) :
    DataNode × Logged :=
  if !n.ownsShard request.shardId then
    (n, .rejected ("node does not own shard " ++ toString request.shardId))
  else if 0 ≤ request.shardId && (shardTerm request.shardId).isNone then
    (n, .rejected ("Failed to read shard " ++ toString request.shardId))
  else if 0 ≤ request.shardId && request.raftTerm < (shardTerm request.shardId).getD 0 then
    (n, .rejected ("stale raft term " ++ toString request.raftTerm))
  else
    let appended := n.walLog.append request.requestId request.shardId request.shardLogIndex
      (SqlUtils.normalize request.sql)
    ({ n with walLog := appended.1 }, .accepted (some appended.2))

/-- The entry that `DataNodeServer.execute` passes to `appendRecovered`. -/
def replayEntry (request : ExecuteRequest) : WalEntry where
  sequence := 0
  requestId := request.requestId
  shardId := request.shardId
  shardLogIndex := request.shardLogIndex
  sql := SqlUtils.normalize request.sql

/-- The two branches of `DataNodeServer.execute` for a replay. -/
def logReplay (n : DataNode) (request : ExecuteRequest) : DataNode × Logged :=
  if n.walLog.containsRequestId request.requestId then (n, .duplicate)
  else
    let appended := n.walLog.appendRecovered (replayEntry request)
    ({ n with walLog := appended.1 }, .accepted (some appended.2))

/-- The first part of `DataNodeServer.execute`, up to the statement on MiniSQL. -/
def logRequest (n : DataNode) (shardTerm : Int → Option Nat) (request : ExecuteRequest) :
    DataNode × Logged :=
  if request.replay then n.logReplay request
  else if SqlUtils.isReadOnly (SqlUtils.normalize request.sql) then (n, .accepted none)
  else n.logWrite shardTerm request

/-- `snapshotManager.markApplied`, which only a logged request reaches. -/
def markApplied (n : DataNode) : Option WalEntry → DataNode
  | none => n
  | some written =>
    { n with snapshotManager := n.snapshotManager.markApplied written.sequence }

/-- The answer to an accepted request. -/
def okResponse (n : DataNode) (request : ExecuteRequest) (written : Option WalEntry)
    (output : String) : ExecuteResponse :=
  { ExecuteResponse.success n.nodeId
      ((written.map (·.sequence)).getD n.walLog.lastSequence) output with
    shardLogIndex := (written.map (·.shardLogIndex)).getD request.shardLogIndex
    raftTerm := request.raftTerm }

/-- The second part of `DataNodeServer.execute`, for an accepted request. The branch that is
not a replay registers the node right after the append. -/
def finishRequest (n : DataNode) (request : ExecuteRequest) (written : Option WalEntry)
    (fault : Option ExecuteFault) (output : String) : ExecuteResult :=
  if written.isSome && !request.replay && fault == some .nodeUpdate then
    ⟨n, .failure n.nodeId output, false⟩
  else if fault == some .engine then
    ⟨n, .failure n.nodeId output, written.isSome && !request.replay⟩
  else if fault == some .finalUpdate then
    ⟨(n.markApplied written).maybeSnapshot, .failure n.nodeId output,
      written.isSome && !request.replay⟩
  else
    ⟨(n.markApplied written).maybeSnapshot, n.okResponse request written output, true⟩

/-- `DataNodeServer.execute` under its HTTP handler, which answers an exception with an error.
`output` is what MiniSQL prints, or the message of the exception. -/
def execute (n : DataNode) (shardTerm : Int → Option Nat) (request : ExecuteRequest)
    (fault : Option ExecuteFault) (output : String) : ExecuteResult :=
  let logged := n.logRequest shardTerm request
  match logged.2 with
  | .rejected error => ⟨logged.1, .failure n.nodeId error, false⟩
  | .duplicate =>
    ⟨logged.1, .success n.nodeId n.walLog.lastSequence "duplicate replay ignored", false⟩
  | .accepted written => logged.1.finishRequest request written fault output

/-- The test of `DataNodeServer.installPeerSnapshotIfNewer`. -/
def installs (n : DataNode) (peerState : RecoveryState) : Bool :=
  n.compactedWal < peerState.snapshotManifest.lastCompactedWalSequence

/-- The first call of `DataNodeServer.installPeerSnapshotIfNewer`. -/
def createPeerSnapshot (n : DataNode) (peerState : RecoveryState) : DataNode :=
  { n with
    snapshotManager := n.snapshotManager.createSnapshot
      peerState.snapshotManifest.lastCompactedWalSequence peerState.snapshotSql }

/-- The second call of `DataNodeServer.installPeerSnapshotIfNewer`. -/
def advanceLastSequence (n : DataNode) (sequence : Nat) : DataNode :=
  { n with walLog := n.walLog.advanceLastSequence sequence }

/-- `DataNodeServer.installPeerSnapshotIfNewer`. -/
def installPeerSnapshotIfNewer (n : DataNode) (peerState : RecoveryState) : DataNode :=
  if n.installs peerState then
    (n.createPeerSnapshot peerState).advanceLastSequence
      peerState.snapshotManifest.lastCompactedWalSequence
  else n

/-- The entries of a peer's log that `recoverFromPeers` takes over. -/
def recovered (n : DataNode) (peerState : RecoveryState) : List WalEntry :=
  ((peerState.walEntries.insertionSort (fun a b => a.sequence ≤ b.sequence)).filter
    (fun entry => n.ownsShard entry.shardId)).filter
      (fun entry => !n.walLog.containsRequestId entry.requestId)

/-- `walLog.appendRecovered` on the log of the node. -/
def appendRecovered (n : DataNode) (entry : WalEntry) : DataNode :=
  { n with walLog := (n.walLog.appendRecovered entry).1 }

/-- Whether `recoverFromPeers` asks this registered node. -/
def contacts (n : DataNode) (peer : NodeInfo) : Bool :=
  peer.nodeId != n.nodeId && peer.shards.any (fun shardId => n.shards.contains shardId)

/-- What `recoverFromPeers` does with the answer of a peer. -/
def absorb (n : DataNode) (peerState : RecoveryState) : DataNode :=
  let n' := n.installPeerSnapshotIfNewer peerState
  (n'.recovered peerState).foldl appendRecovered n'

/-- One round of the loop of `recoverFromPeers`. `none` is a fetch that threw. -/
def recoverFromPeer (n : DataNode) (peer : NodeInfo) (fetched : Option RecoveryState) :
    DataNode :=
  if n.contacts peer then
    match fetched with
    | none => n
    | some peerState => n.absorb peerState
  else n

/-- `DataNodeServer.recoverFromPeers`, over the registered nodes and their answers. -/
def recoverFromPeers (n : DataNode) (peers : List (NodeInfo × Option RecoveryState)) :
    DataNode :=
  peers.foldl (fun n peer => n.recoverFromPeer peer.1 peer.2) n

/-- `DataNodeServer.applyPendingWal`. -/
def applyPendingWal (n : DataNode) : DataNode :=
  if (n.walLog.pendingAfter n.compactedWal).isEmpty then n
  else { n with snapshotManager := n.snapshotManager.markApplied n.walLog.lastSequence }

/-- `DataNodeServer.refreshShards`. -/
def refreshShards (n : DataNode) (shardsForNode : List Int) : DataNode :=
  { n with shards := shardsForNode }

/-- `replicaState = ..`. -/
def withState (n : DataNode) (replicaState : ReplicaState) : DataNode :=
  { n with replicaState := replicaState }

/-- The constructor on an existing data directory. -/
def reload (n : DataNode) (shardsForNode : List Int) : DataNode :=
  { n with
    walLog := n.walLog.loadIndex
    shards := shardsForNode
    replicaState := .RECOVERING }

end DataNode

end DisMiniSql.Distributed
