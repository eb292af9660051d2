import Mathlib.Logic.Function.Basic
import DisMiniSql.Distributed.Coordinator.CoordinatorServer
import DisMiniSql.Distributed.DataNode.DataNodeServer
import DisMiniSql.Lib.Run

/-!
# `DisMiniSql.Distributed.Cluster`: the cluster as a state machine

The coordinator, the data nodes, ZooKeeper and the network in one state, and every step that
one of them can take. A write of the coordinator is a `Call`, a start or a
`/admin/refresh-shards` of a node is a `Recovery`; any number of both may be under way, and
their steps interleave freely with the steps of the nodes.

The network keeps what was sent until it is delivered or lost. The coordinator may give up on a
request at any time, also when the node has executed it or will execute it later. A node that
crashes loses its running recoveries and keeps its files; its record in ZooKeeper goes when
the session expires.

A call of `electPrimary`, `rebalance` or `updateCommitIndex` is one step here. `ZkCluster` is the
same cluster with their operations on ZooKeeper. The threads of one node are in `Serving` and
`AdminSnapshot`; of these the other nodes see the files, part by part (`Phase.readingWal`).

`committed` and `usedIds` are not in the source. The first lists the routed writes that were
reported successful. The second makes the UUIDs of the coordinator fresh.
-/

set_option autoImplicit false

namespace DisMiniSql.Distributed

open DisMiniSql.Lib (Steps)

/-- Whether the process of a node runs and serves HTTP. -/
inductive NodeStatus
  | down
  | starting
  | listening
  deriving DecidableEq, Repr

/-- Where a recovery stands: what `start` or the handler of `/admin/refresh-shards` does
next. `rest` are the nodes of the scan that are still to be asked. -/
inductive Phase
  /-- The first `register()`, as `RECOVERING`. -/
  | announcing
  /-- `refreshShards()`. -/
  | refreshing
  /-- `metadataStore.liveNodes()`. -/
  | scanning
  /-- The next round of the loop of `recoverFromPeers`. -/
  | peers (rest : List NodeInfo)
  /-- The peer serves `recoveryState()`, which reads its parts one after another: `snapshotManifest`
  is read. -/
  | readingSnapshot (peer : NodeInfo) (snapshotManifest : SnapshotManifest) (rest : List NodeInfo)
  /-- `snapshotManager.snapshotSql()` is read as well, and `walLog.readAll()` is next. -/
  | readingWal (peer : NodeInfo) (snapshotManifest : SnapshotManifest) (snapshotSql : List Stmt)
      (rest : List NodeInfo)
  /-- `createSnapshot`, if the fetched snapshot is newer. -/
  | fetched (peerState : RecoveryState) (rest : List NodeInfo)
  /-- `walLog.advanceLastSequence`. -/
  | advancing (peerState : RecoveryState) (rest : List NodeInfo)
  /-- The selection of the entries to take over. -/
  | filtering (peerState : RecoveryState) (rest : List NodeInfo)
  /-- `walLog.appendRecovered`, entry by entry. -/
  | appending (entries : List WalEntry) (rest : List NodeInfo)
  /-- The second `register()`, as `SERVING`. -/
  | registering
  deriving DecidableEq, Repr

/-- A running `start` (`startup`) or `/admin/refresh-shards`. -/
structure Recovery where
  nodeId : String
  startup : Bool
  phase : Phase
  deriving DecidableEq, Repr

/-- A request on its way to a node. -/
structure Envelope where
  call : Nat
  target : Target
  request : ExecuteRequest
  deriving DecidableEq, Repr

/-- An answer on its way to the coordinator. -/
structure Reply where
  call : Nat
  target : Target
  response : ExecuteResponse
  deriving DecidableEq, Repr

/-- The whole cluster. -/
structure Cluster where
  zk : ZkMetadataStore
  node : String → DataNode := fun nodeId => { nodeId := nodeId }
  status : String → NodeStatus := fun _ => .down
  calls : Nat → Option Call := fun _ => none
  recoveries : Nat → Option Recovery := fun _ => none
  requests : List Envelope := []
  replies : List Reply := []
  committed : List Dispatch := []
  usedIds : List String := []

/-- The steps of the cluster. Calls and recoveries are named by numbers. -/
inductive Action
  /-- A client sends a write for a shard. -/
  | write (call : Nat) (shardId : Int) (sql : String)
  | elect (call : Nat)
  | allocate (call : Nat) (requestId : String)
  /-- A client sends a `create` or `drop`. -/
  | broadcastWrite (call : Nat) (sql requestId : String)
  | send (call : Nat)
  /-- The node executes the request at this place of the network. -/
  | deliver (place : Nat) (fault : Option ExecuteFault) (output : String)
  | lose (place : Nat)
  /-- The answer reaches the coordinator. -/
  | receive (call : Nat)
  /-- `send` throws: no connection, no answer in time, or an error status. -/
  | giveUp (call : Nat) (error : String)
  | finish (call : Nat)
  /-- A read of `distributedRead` on one node. -/
  | query (nodeId sql : String) (fault : Option ExecuteFault) (output : String)
  | adminSnapshot (nodeId : String)
  | rebalance (replicationFactor : Nat)
  | crash (nodeId : String)
  | expire (nodeId : String)
  | start (recovery : Nat) (nodeId : String)
  | refresh (recovery : Nat) (nodeId : String)
  /-- The next step of a recovery; `fails` is the failure of a fetch. -/
  | recover (recovery : Nat) (fails : Bool)
  /-- The last step of a recovery: the node registers as `SERVING`. -/
  | register (recovery : Nat)
  /-- A recovery ends with an exception. -/
  | abort (recovery : Nat)
  deriving DecidableEq, Repr

namespace Cluster

/-- A new cluster: ZooKeeper has the shards of `initializeShards`, no node has run yet. -/
def new (nodeIds : List String) (shardCount replicationFactor : Nat) : Cluster where
  zk := ZkMetadataStore.initializeShards nodeIds shardCount replicationFactor

/-- Replaces the state of a node. -/
def setNode (c : Cluster) (nodeId : String) (n : DataNode) : Cluster :=
  { c with node := Function.update c.node nodeId n }

/-- Replaces the state of a call. -/
def setCall (c : Cluster) (call : Nat) (x : Call) : Cluster :=
  { c with calls := Function.update c.calls call (some x) }

/-- Replaces the state of a recovery. -/
def setRecovery (c : Cluster) (recovery : Nat) (x : Option Recovery) : Cluster :=
  { c with recoveries := Function.update c.recoveries recovery x }

/-- A node puts its record into ZooKeeper. -/
def publish (c : Cluster) (nodeId : String) : Cluster :=
  { c with zk := c.zk.registerNode (c.node nodeId).currentNodeInfo }

/-- `metadataStore.shard(..).term`. -/
def shardTerm (c : Cluster) (shardId : Int) : Option Nat := (c.zk.shard shardId).map (·.term)

/-- `CoordinatorServer.execute` up to `electPrimary`, for a write that is not a `create` or a
`drop`. -/
def write (c : Cluster) (call : Nat) (shardId : Int) (rawSql : String) : Option Cluster :=
  let sql := SqlUtils.normalize rawSql
  if (c.calls call).isNone && !isBlank sql && !SqlUtils.isBroadcastDdl sql &&
      !SqlUtils.isReadOnly sql && (c.zk.shard shardId).isSome then
    some (c.setCall call (.electing shardId sql c.zk.liveNodes))
  else none

/-- `electPrimary` and `chooseForWrite`. -/
def elect (c : Cluster) (call : Nat) : Option Cluster :=
  match c.calls call with
  | some (.electing shardId sql liveNodes) =>
    match c.zk.electPrimary shardId liveNodes with
    | none => none
    | some (zk, shard) =>
      some ({ c with zk := zk }.setCall call (Call.chooseReplicas shard sql liveNodes))
  | _ => none

/-- `nextShardLogIndex` and `UUID.randomUUID()`. -/
def allocate (c : Cluster) (call : Nat) (requestId : String) : Option Cluster :=
  match c.calls call with
  | some (.allocating shard sql replicas) =>
    if !isBlank requestId && !c.usedIds.contains requestId then
      let (zk, shardLogIndex) := c.zk.nextShardLogIndex shard.shardId
      some ({ c with zk := zk, usedIds := requestId :: c.usedIds }.setCall call
        (Call.dispatch shard sql replicas shardLogIndex requestId))
    else none
  | _ => none

/-- `CoordinatorServer.execute` for a `create` or a `drop`, up to the first send. -/
def broadcastWrite (c : Cluster) (call : Nat) (rawSql requestId : String) : Option Cluster :=
  let sql := SqlUtils.normalize rawSql
  if (c.calls call).isNone && !isBlank sql && SqlUtils.isBroadcastDdl sql &&
      !isBlank requestId && !c.usedIds.contains requestId then
    some ({ c with usedIds := requestId :: c.usedIds }.setCall call
      (Call.broadcast sql c.zk.liveNodes requestId))
  else none

/-- The request of the next `send` leaves the coordinator. -/
def send (c : Cluster) (call : Nat) : Option Cluster :=
  match c.calls call with
  | some (.sending d) =>
    match d.todo with
    | [] => none
    | target :: todo =>
      let envelope : Envelope := ⟨call, target, d.request target⟩
      some ({ c with requests := c.requests ++ [envelope] }.setCall call
        (.waiting { d with todo := todo } target))
  | _ => none

/-- A node executes a request; `execute` may put the record of the node into ZooKeeper. -/
def executeOn (c : Cluster) (nodeId : String) (request : ExecuteRequest)
    (fault : Option ExecuteFault) (output : String) : Cluster × ExecuteResponse :=
  let r := (c.node nodeId).execute c.shardTerm request fault output
  let c := c.setNode nodeId r.node
  (if r.published then c.publish nodeId else c, r.response)

/-- A request arrives. -/
def deliver (c : Cluster) (place : Nat) (fault : Option ExecuteFault) (output : String) :
    Option Cluster :=
  match c.requests[place]? with
  | none => none
  | some e =>
    if c.status e.target.nodeId = .listening then
      let (c', response) := c.executeOn e.target.nodeId e.request fault output
      some { c' with
        requests := c.requests.eraseIdx place
        replies := ⟨e.call, e.target, response⟩ :: c.replies }
    else none

/-- A request is lost. -/
def lose (c : Cluster) (place : Nat) : Option Cluster :=
  some { c with requests := c.requests.eraseIdx place }

/-- `send` returns the answer. -/
def receive (c : Cluster) (call : Nat) : Option Cluster :=
  match c.calls call with
  | some (.waiting d target) =>
    match c.replies.find? (fun r => r.call == call && r.target == target) with
    | none => none
    | some r =>
      -- `postJson` throws for the error status, and `send` makes it an error response again
      let response := if r.response.ok then r.response
        else .failure target.nodeId "HTTP 500"
      some (c.setCall call (.sending (d.record response)))
  | _ => none

/-- `send` catches an exception. -/
def giveUp (c : Cluster) (call : Nat) (error : String) : Option Cluster :=
  match c.calls call with
  | some (.waiting d target) =>
    some (c.setCall call (.sending (d.record (.failure target.nodeId error))))
  | _ => none

/-- The end of `routedWrite` and `broadcastWrite`: the quorum is counted and the client gets
its answer. -/
def finish (c : Cluster) (call : Nat) : Option Cluster :=
  match c.calls call with
  | some (.sending d) =>
    if d.todo = [] then
      if d.hasQuorum then
        if 0 ≤ d.shardId then
          some ({ c with
            zk := c.zk.updateCommitIndex d.shardId d.shardLogIndex
            committed := d :: c.committed }.setCall call (.replied d true))
        else some (c.setCall call (.replied d true))
      else some (c.setCall call (.replied d false))
    else none
  | _ => none

/-- A read-only request on one node. -/
def query (c : Cluster) (nodeId rawSql : String) (fault : Option ExecuteFault)
    (output : String) : Option Cluster :=
  if SqlUtils.isReadOnly (SqlUtils.normalize rawSql) && c.status nodeId == .listening then
    some (c.executeOn nodeId
      { requestId := none, shardId := 0, shardLogIndex := 0, raftTerm := 0, sql := rawSql,
        replay := false } fault output).1
  else none

/-- `/admin/snapshot` on one node. -/
def adminSnapshot (c : Cluster) (nodeId : String) : Option Cluster :=
  if c.status nodeId = .listening then
    some (c.setNode nodeId (c.node nodeId).adminSnapshot)
  else none

/-- The first part of `CoordinatorServer.rebalance`; the `/admin/refresh-shards` that follow
are recoveries. -/
def rebalance (c : Cluster) (replicationFactor : Nat) : Option Cluster :=
  some { c with zk := c.zk.rebalance c.zk.liveNodes replicationFactor }

/-- The process of a node ends. -/
def crash (c : Cluster) (nodeId : String) : Option Cluster :=
  some { c with
    status := Function.update c.status nodeId .down
    recoveries := fun r => (c.recoveries r).filter (fun x => x.nodeId != nodeId) }

/-- ZooKeeper drops the record of a node. -/
def expire (c : Cluster) (nodeId : String) : Option Cluster :=
  some { c with zk := c.zk.expire nodeId }

/-- The constructor of `DataNodeServer` and the beginning of `start`. -/
def start (c : Cluster) (recovery : Nat) (nodeId : String) : Option Cluster :=
  if (c.recoveries recovery).isNone && c.status nodeId == .down then
    some (({ c with status := Function.update c.status nodeId .starting }.setNode nodeId
      ((c.node nodeId).reload (c.zk.shardsForNode nodeId))).setRecovery recovery
        (some ⟨nodeId, true, .announcing⟩))
  else none

/-- A node receives `/admin/refresh-shards`. -/
def refresh (c : Cluster) (recovery : Nat) (nodeId : String) : Option Cluster :=
  if (c.recoveries recovery).isNone && c.status nodeId == .listening then
    some (c.setRecovery recovery (some ⟨nodeId, false, .announcing⟩))
  else none

/-- One step of a recovery: the new state of its node and where the recovery goes on. `fails`
is the failure of a fetch. -/
def recoveryStep (c : Cluster) (x : Recovery) (fails : Bool) : Option (DataNode × Phase) :=
  let n := c.node x.nodeId
  match x.phase with
  | .announcing => some (n.withState .RECOVERING, if x.startup then .scanning else .refreshing)
  | .refreshing => some (n.refreshShards (c.zk.shardsForNode x.nodeId), .scanning)
  | .scanning => some (n, .peers c.zk.liveNodes)
  | .peers [] =>
    -- only `start` looks at the snapshot threshold
    some (if x.startup then n.applyPendingWal.maybeSnapshot else n.applyPendingWal,
      .registering)
  | .peers (peer :: rest) =>
    if !n.contacts peer || fails then some (n, .peers rest)
    else if c.status peer.nodeId = .listening then
      some (n, .readingSnapshot peer (c.node peer.nodeId).snapshotManager.manifestFile rest)
    else none
  | .readingSnapshot peer snapshotManifest rest =>
    if fails then some (n, .peers rest)
    else if c.status peer.nodeId = .listening then
      some (n, .readingWal peer snapshotManifest
        (c.node peer.nodeId).snapshotManager.snapshotSql rest)
    else none
  | .readingWal peer snapshotManifest snapshotSql rest =>
    if fails then some (n, .peers rest)
    else if c.status peer.nodeId = .listening then
      some (n, .fetched ⟨snapshotManifest, snapshotSql, (c.node peer.nodeId).walLog.readAll⟩ rest)
    else none
  | .fetched peerState rest =>
    if n.installs peerState then
      some (n.createPeerSnapshot peerState, .advancing peerState rest)
    else some (n, .filtering peerState rest)
  | .advancing peerState rest =>
    some (n.advanceLastSequence peerState.snapshotManifest.lastCompactedWalSequence,
      .filtering peerState rest)
  | .filtering peerState rest => some (n, .appending (n.recovered peerState) rest)
  | .appending [] rest => some (n, .peers rest)
  | .appending (entry :: entries) rest => some (n.appendRecovered entry, .appending entries rest)
  | .registering => none

/-- A recovery takes its next step. The first one puts the record of the node into
ZooKeeper. -/
def recover (c : Cluster) (recovery : Nat) (fails : Bool) : Option Cluster :=
  match c.recoveries recovery with
  | none => none
  | some x =>
    match c.recoveryStep x fails with
    | none => none
    | some (n, phase) =>
      let c' := (c.setNode x.nodeId n).setRecovery recovery (some { x with phase := phase })
      some (if x.phase = .announcing then c'.publish x.nodeId else c')

/-- The node registers as `SERVING`; after `start` the HTTP server runs. -/
def register (c : Cluster) (recovery : Nat) : Option Cluster :=
  match c.recoveries recovery with
  | none => none
  | some x =>
    if x.phase = .registering then
      some ({ (c.setNode x.nodeId ((c.node x.nodeId).withState .SERVING)).setRecovery recovery
          none with
        status := Function.update c.status x.nodeId .listening }.publish x.nodeId)
    else none

/-- An exception ends a recovery; `start` takes the process with it. -/
def abort (c : Cluster) (recovery : Nat) : Option Cluster :=
  match c.recoveries recovery with
  | none => none
  | some x =>
    if x.startup then c.crash x.nodeId
    else some (c.setRecovery recovery none)

/-- One step of the cluster; `none` where the action is not possible. -/
def step (c : Cluster) : Action → Option Cluster
  | .write call shardId sql => c.write call shardId sql
  | .elect call => c.elect call
  | .allocate call requestId => c.allocate call requestId
  | .broadcastWrite call sql requestId => c.broadcastWrite call sql requestId
  | .send call => c.send call
  | .deliver place fault output => c.deliver place fault output
  | .lose place => c.lose place
  | .receive call => c.receive call
  | .giveUp call error => c.giveUp call error
  | .finish call => c.finish call
  | .query nodeId sql fault output => c.query nodeId sql fault output
  | .adminSnapshot nodeId => c.adminSnapshot nodeId
  | .rebalance replicationFactor => c.rebalance replicationFactor
  | .crash nodeId => c.crash nodeId
  | .expire nodeId => c.expire nodeId
  | .start recovery nodeId => c.start recovery nodeId
  | .refresh recovery nodeId => c.refresh recovery nodeId
  | .recover recovery fails => c.recover recovery fails
  | .register recovery => c.register recovery
  | .abort recovery => c.abort recovery

/-- The actions, one after another; `none` where one is not possible. -/
def run (c : Cluster) : List Action → Option Cluster
  | [] => some c
  | a :: as => (c.step a).bind (fun c' => c'.run as)

/-- A state that the cluster reaches from a new one. -/
def Reachable (c : Cluster) : Prop :=
  ∃ (nodeIds : List String) (shardCount replicationFactor : Nat) (actions : List Action),
    Steps (fun c a c' => c.step a = some c') (new nodeIds shardCount replicationFactor) actions c

end Cluster

end DisMiniSql.Distributed
