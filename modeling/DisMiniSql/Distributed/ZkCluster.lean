import DisMiniSql.Distributed.Cluster
import DisMiniSql.Distributed.Zk.ZooKeeper

/-!
# `DisMiniSql.Distributed.ZkCluster`: the cluster, one ZooKeeper operation at a time

`Cluster` takes a call of `electPrimary`, `rebalance` or `updateCommitIndex` as one step. Here
these calls run as programs over the operations of ZooKeeper: the coordinator starts one, its
operations interleave with those of the other calls and with every other step of the cluster, and
the coordinator goes on when it has returned. A call that has thrown returns nothing; the request
of the client ends with an error then.

All other steps are those of `Cluster`, on the shard records as they are in ZooKeeper.
-/

set_option autoImplicit false

namespace DisMiniSql.Distributed

open DisMiniSql.Lib (Steps Pool PoolAction)

/-- The records of the shards. -/
def ZooKeeper.records (zk : ZooKeeper) : List ShardMetadata :=
  zk.children.filterMap (fun shardId => (zk.shards shardId).map (·.data))

/-- The cluster with the calls on ZooKeeper that are under way. -/
structure ZkCluster where
  /-- The shard records in it are those of `pool`. -/
  cluster : Cluster
  /-- ZooKeeper, and the calls of `electPrimary`, `rebalance` and `updateCommitIndex`. -/
  pool : ZkPool
  /-- The call on ZooKeeper that a call of the coordinator waits for. -/
  waitsFor : Nat → Option Nat := fun _ => none

/-- The steps. -/
inductive ZkAction
  /-- A step of the cluster that is not one of the three methods. -/
  | act (a : Action)
  /-- `routedWrite` calls `electPrimary`. -/
  | elect (call : Nat)
  /-- `electPrimary` has returned. -/
  | elected (call : Nat)
  /-- `routedWrite` calls `updateCommitIndex`. -/
  | commit (call : Nat)
  /-- `updateCommitIndex` has returned, and the client gets its answer. -/
  | committed (call : Nat)
  /-- `CoordinatorServer.rebalance` calls `rebalance`. -/
  | rebalance (replicationFactor : Nat)
  /-- The next operation of a call on ZooKeeper. -/
  | op (k : Nat)
  deriving DecidableEq, Repr

namespace ZkCluster

/-- A new cluster. -/
def new (nodeIds : List String) (shardCount replicationFactor : Nat) : ZkCluster where
  cluster := Cluster.new nodeIds shardCount replicationFactor
  pool :=
    { shared :=
        .ofStore (ZkMetadataStore.initializeShards nodeIds shardCount replicationFactor) }

/-- The steps of `Cluster` that run one of the three methods. -/
def callsStore (c : Cluster) : Action → Bool
  | .elect _ => true
  | .rebalance _ => true
  | .finish call =>
    match c.calls call with
    | some (.sending d) => d.hasQuorum && decide (0 ≤ d.shardId)
    | _ => false
  | _ => false

/-- A call on ZooKeeper starts. -/
def startCall (c : ZkCluster) (x : StoreCall) : ZkCluster :=
  { c with pool := c.pool.step (.start x) }

/-- A call of the coordinator waits for a call on ZooKeeper that it starts. -/
def startFor (c : ZkCluster) (call : Nat) (x : StoreCall) : ZkCluster :=
  { c.startCall x with
    waitsFor := Function.update c.waitsFor call (some c.pool.calls.length) }

/-- What the call on ZooKeeper has returned. -/
def returned (c : ZkCluster) (call : Nat) : Option (List ShardMetadata) :=
  (c.waitsFor call).bind fun k => c.pool.calls[k]?.bind fun x => x.prog.result

/-- A call of the coordinator goes on. -/
def goOn (c : ZkCluster) (call : Nat) (cluster : Cluster) : ZkCluster :=
  { c with cluster := cluster, waitsFor := Function.update c.waitsFor call none }

/-- The next operation of a call on ZooKeeper. -/
def runOp (c : ZkCluster) (k : Nat) : ZkCluster :=
  let pool := c.pool.step (.op k)
  { c with
    pool := pool
    cluster := { c.cluster with
      zk := { c.cluster.zk with shardNodes := pool.shared.records } } }

/-- `electPrimary` is called. -/
def elect (c : ZkCluster) (call : Nat) : Option ZkCluster :=
  match c.cluster.calls call, c.waitsFor call with
  | some (.electing shardId _ liveNodes), none =>
    some (c.startFor call (.electPrimary shardId liveNodes))
  | _, _ => none

/-- `electPrimary` has returned, and `chooseForWrite` follows. -/
def elected (c : ZkCluster) (call : Nat) : Option ZkCluster :=
  match c.cluster.calls call, c.returned call with
  | some (.electing _ sql liveNodes), some [shard] =>
    some (c.goOn call (c.cluster.setCall call (Call.chooseReplicas shard sql liveNodes)))
  | _, _ => none

/-- `updateCommitIndex` is called, if the quorum of a routed write is reached. -/
def commit (c : ZkCluster) (call : Nat) : Option ZkCluster :=
  match c.cluster.calls call, c.waitsFor call with
  | some (.sending d), none =>
    if d.todo = [] ∧ d.hasQuorum = true ∧ 0 ≤ d.shardId then
      some (c.startFor call (.updateCommitIndex d.shardId d.shardLogIndex))
    else none
  | _, _ => none

/-- `updateCommitIndex` has returned, and success is reported. -/
def committed (c : ZkCluster) (call : Nat) : Option ZkCluster :=
  match c.cluster.calls call, c.returned call with
  | some (.sending d), some _ =>
    if d.todo = [] ∧ d.hasQuorum = true ∧ 0 ≤ d.shardId then
      some (c.goOn call ({ c.cluster with
        committed := d :: c.cluster.committed }.setCall call (.replied d true)))
    else none
  | _, _ => none

/-- One step; `none` where it is not possible. -/
def step (c : ZkCluster) : ZkAction → Option ZkCluster
  | .act a =>
    if callsStore c.cluster a then none
    else (c.cluster.step a).map fun cluster => { c with cluster := cluster }
  | .elect call => c.elect call
  | .elected call => c.elected call
  | .commit call => c.commit call
  | .committed call => c.committed call
  | .rebalance replicationFactor =>
    some (c.startCall (.rebalance c.cluster.zk.liveNodes replicationFactor))
  | .op k => some (c.runOp k)

/-- A state that is reached from a new cluster. -/
def Reachable (c : ZkCluster) : Prop :=
  ∃ (nodeIds : List String) (shardCount replicationFactor : Nat) (actions : List ZkAction),
    Steps (fun c a c' => c.step a = some c') (new nodeIds shardCount replicationFactor) actions c

end ZkCluster

end DisMiniSql.Distributed
