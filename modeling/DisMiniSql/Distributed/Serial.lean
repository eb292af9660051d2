import DisMiniSql.Distributed.Cluster

/-!
# `DisMiniSql.Distributed.Serial`: operations of the cluster with nothing in between

`CoordinatorServer.rebalance` computes the new assignment and then sends `/admin/refresh-shards` to
the live nodes, one after another. Here the handlers run from their beginning to their end, and
every fetch succeeds. The start of a node is of the same kind.

`Serial` are the runs in which one operation ends before the next one begins and no message is
lost. `logs` are the statements that were logged for each shard, in the order of the writes.
-/

set_option autoImplicit false

namespace DisMiniSql.Distributed

/-- The node has no snapshot: its whole log is in the file. -/
def DataNode.Uncompacted (n : DataNode) : Prop :=
  n.compactedWal = 0 ∧ n.snapshotManager.snapshotSql = []

instance (n : DataNode) : Decidable n.Uncompacted :=
  inferInstanceAs (Decidable (n.compactedWal = 0 ∧ n.snapshotManager.snapshotSql = []))

/-- The statements of a shard on a node, in the order of the replay. -/
def DataNode.shardSql (n : DataNode) (shardId : Int) : List Stmt :=
  n.replaySql.filter (·.shardId = shardId)

/-- The node is a replica of the shard. -/
def ZkMetadataStore.Places (z : ZkMetadataStore) (shardId : Int) (nodeId : String) : Prop :=
  ∃ m ∈ z.shardNodes, m.shardId = shardId ∧ nodeId ∈ m.replicas

instance (z : ZkMetadataStore) (shardId : Int) (nodeId : String) :
    Decidable (z.Places shardId nodeId) :=
  inferInstanceAs (Decidable (∃ m ∈ z.shardNodes, m.shardId = shardId ∧ nodeId ∈ m.replicas))

namespace Cluster

/-- The first registration of a recovery, as `RECOVERING`. -/
def announce (c : Cluster) (nodeId : String) : Cluster :=
  (c.setNode nodeId ((c.node nodeId).withState .RECOVERING)).publish nodeId

/-- The registered nodes with the recovery states that they serve. -/
def recoveryStates (c : Cluster) : List (NodeInfo × Option RecoveryState) :=
  c.zk.liveNodes.map (fun peer => (peer, some (c.node peer.nodeId).recoveryState))

/-- The handler of `/admin/refresh-shards`. The first registration still has the old shards. -/
def refreshShards (c : Cluster) (nodeId : String) : Cluster :=
  let c := c.announce nodeId
  let n := (c.node nodeId).refreshShards (c.zk.shardsForNode nodeId)
  let n := (n.recoverFromPeers c.recoveryStates).applyPendingWal
  (c.setNode nodeId (n.withState .SERVING)).publish nodeId

/-- The ids of the registered nodes, in the order of `liveNodes`. -/
def liveIds (c : Cluster) : List String := c.zk.liveNodes.map (·.nodeId)

/-- `CoordinatorServer.refreshAllLiveNodes`. -/
def refreshAllLiveNodes (c : Cluster) : Cluster := c.liveIds.foldl refreshShards c

/-- The new assignment, before any node has heard of it. -/
def reassign (c : Cluster) (replicationFactor : Nat) : Cluster :=
  { c with zk := c.zk.rebalance c.zk.liveNodes replicationFactor }

/-- `CoordinatorServer.rebalance`. -/
def rebalanceAndRefresh (c : Cluster) (replicationFactor : Nat) : Cluster :=
  (c.reassign replicationFactor).refreshAllLiveNodes

/-- The constructor of `DataNodeServer`, on the directory of the node. -/
def construct (c : Cluster) (nodeId : String) : Cluster :=
  { c with status := Function.update c.status nodeId .starting }.setNode nodeId
    ((c.node nodeId).reload (c.zk.shardsForNode nodeId))

/-- The constructor of `DataNodeServer` and `start`. -/
def startNode (c : Cluster) (nodeId : String) : Cluster :=
  let c := (c.construct nodeId).announce nodeId
  let n := ((c.node nodeId).recoverFromPeers c.recoveryStates).applyPendingWal.maybeSnapshot
  { c.setNode nodeId (n.withState .SERVING) with
    status := Function.update c.status nodeId .listening }.publish nodeId

/-- The process of a node ends, and its session with ZooKeeper. -/
def stopNode (c : Cluster) (nodeId : String) : Cluster :=
  { c with
    status := Function.update c.status nodeId .down
    recoveries := fun r => (c.recoveries r).filter (fun x => x.nodeId != nodeId)
    zk := c.zk.expire nodeId }

/-- The request of the next send arrives, and its answer too. -/
def delivery (call : Nat) (output : String) : List Action :=
  [.send call, .deliver 0 none output, .receive call]

/-- A write from the request of the client to the answer. `outputs` are what MiniSQL prints on the
replicas, one after another. -/
def serialWrite (call : Nat) (shardId : Int) (sql requestId : String) (outputs : List String) :
    List Action :=
  [.write call shardId sql, .elect call, .allocate call requestId] ++
    outputs.flatMap (delivery call) ++ [.finish call]

/-- Each shard of a node that starts has a replica that is registered, if the node does not have
all statements of the shard itself. And neither the node nor a registered one has a snapshot. -/
def Supplies (c : Cluster) (logs : Int → List Stmt) (nodeId : String) : Prop :=
  (∀ m ∈ c.zk.shardNodes, nodeId ∈ m.replicas →
    (c.node nodeId).shardSql m.shardId = logs m.shardId ∨ ∃ i ∈ c.liveIds, i ∈ m.replicas) ∧
  (c.node nodeId).Uncompacted ∧ ∀ i ∈ c.liveIds, (c.node i).Uncompacted

instance (c : Cluster) (logs : Int → List Stmt) (nodeId : String) :
    Decidable (c.Supplies logs nodeId) :=
  inferInstanceAs (Decidable (_ ∧ _ ∧ _))

/-- Each new replica of a shard is an old one, or it finds an old one when it is refreshed: one
that is refreshed later and so still advertises the shard, or one that shares a shard with it in
the new assignment. And no registered node has a snapshot. -/
def KeepsTouch (c : Cluster) (replicationFactor : Nat) : Prop :=
  (∀ m ∈ (c.reassign replicationFactor).zk.shardNodes, ∀ k ∈ m.replicas, ∃ j ∈ c.liveIds,
    c.zk.Places m.shardId j ∧ (j = k ∨ k < j ∨
      ∃ m' ∈ (c.reassign replicationFactor).zk.shardNodes, j ∈ m'.replicas ∧ k ∈ m'.replicas)) ∧
  ∀ i ∈ c.liveIds, (c.node i).Uncompacted

instance (c : Cluster) (replicationFactor : Nat) : Decidable (c.KeepsTouch replicationFactor) :=
  inferInstanceAs (Decidable (_ ∧ _))

/-- The statement that a write logs. -/
def writeStmt (shardId : Int) (sql requestId : String) : Stmt where
  requestId := some requestId
  shardId := shardId
  sql := SqlUtils.normalize sql

/-- The runs without interleaving and without lost messages, with the statements that were logged
for each shard. -/
inductive Serial : Cluster → (Int → List Stmt) → Prop
  | new (nodeIds : List String) (shardCount replicationFactor : Nat) :
      Serial (new nodeIds shardCount replicationFactor) fun _ => []
  | start {c : Cluster} {logs : Int → List Stmt} {nodeId : String} : Serial c logs →
      c.status nodeId = .down → c.Supplies logs nodeId → Serial (c.startNode nodeId) logs
  | stop {c : Cluster} {logs : Int → List Stmt} (nodeId : String) : Serial c logs →
      Serial (c.stopNode nodeId) logs
  | write {c c' : Cluster} {logs : Int → List Stmt} {call : Nat} {shardId : Int}
      {sql requestId : String} {outputs : List String} : Serial c logs →
      (∀ ch ∈ (writeStmt shardId sql requestId).sql.toList, isLineTerminator ch = false) →
      c.run (serialWrite call shardId sql requestId outputs) = some c' →
      Serial c' (Function.update logs shardId
        (logs shardId ++ [writeStmt shardId sql requestId]))
  | read {c c' : Cluster} {logs : Int → List Stmt} {nodeId sql output : String} :
      Serial c logs → c.query nodeId sql none output = some c' → Serial c' logs
  | snapshot {c c' : Cluster} {logs : Int → List Stmt} {nodeId : String} :
      Serial c logs → c.adminSnapshot nodeId = some c' → Serial c' logs
  | rebalance {c : Cluster} {logs : Int → List Stmt} {replicationFactor : Nat} :
      Serial c logs → c.KeepsTouch replicationFactor →
      Serial (c.rebalanceAndRefresh replicationFactor) logs

end Cluster

end DisMiniSql.Distributed
