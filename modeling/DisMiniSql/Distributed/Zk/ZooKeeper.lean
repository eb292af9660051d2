import DisMiniSql.Distributed.Zk.ZkMetadataStore
import DisMiniSql.Lib.Calls

/-!
# `DisMiniSql.Distributed.Zk.ZooKeeper`: the shard methods, one ZooKeeper operation at a time

The methods of `ZkMetadataStore` that write shard records, as programs over the operations they
make on ZooKeeper. An operation is atomic; between two of them the operations of other calls may
come. An exception ends the call.

`upsertPersistent` asks for the version of the znode right before it writes. The version of the
record that was read is not kept: `getData` is called without a `Stat`.
-/

set_option autoImplicit false

namespace DisMiniSql.Distributed

open DisMiniSql.Lib (Prog SharedObject Pool PoolAction)

/-- The znode of a shard. -/
structure Znode where
  data : ShardMetadata
  version : Nat := 0
  deriving DecidableEq, Repr

/-- The operations on the znodes of the shards. -/
inductive ZkOp
  /-- `getChildren` of the directory. -/
  | getChildren
  | getData (shardId : Int)
  | existsNode (shardId : Int)
  | create (shardId : Int) (data : ShardMetadata)
  | setData (shardId : Int) (data : ShardMetadata) (version : Nat)
  deriving DecidableEq, Repr

/-- The answers. `none` is `NoNode` or a null `Stat`; `false` is `NodeExists`, `NoNode` or
`BadVersion`. -/
@[reducible]
def ZkOp.Res : ZkOp → Type
  | .getChildren => List Int
  | .getData _ => Option Znode
  | .existsNode _ => Option Nat
  | .create _ _ => Bool
  | .setData _ _ _ => Bool

/-- ZooKeeper. -/
structure ZooKeeper where
  shards : Int → Option Znode := fun _ => none
  children : List Int := []
  /-- Not in the source: every record that a shard has had. -/
  history : Int → List ShardMetadata := fun _ => []

namespace ZooKeeper

/-- The znodes of a cluster, each with its first version. -/
def ofStore (z : ZkMetadataStore) : ZooKeeper where
  shards := fun shardId => (z.shard shardId).map (fun m => { data := m })
  children := (z.shardNodes.map (·.shardId)).dedup
  history := fun shardId => (z.shard shardId).toList

/-- A record is written. -/
def write (zk : ZooKeeper) (shardId : Int) (n : Znode) : ZooKeeper :=
  { zk with
    shards := Function.update zk.shards shardId (some n)
    history := Function.update zk.history shardId (zk.history shardId ++ [n.data]) }

/-- The operations. -/
def sem (zk : ZooKeeper) : (o : ZkOp) → o.Res × ZooKeeper
  | .getChildren => (zk.children, zk)
  | .getData shardId => (zk.shards shardId, zk)
  | .existsNode shardId => ((zk.shards shardId).map (·.version), zk)
  | .create shardId data =>
    match zk.shards shardId with
    | none =>
      (true, { zk.write shardId { data := data } with children := zk.children ++ [shardId] })
    | some _ => (false, zk)
  | .setData shardId data version =>
    match zk.shards shardId with
    | none => (false, zk)
    | some n =>
      if n.version = version then
        (true, zk.write shardId { data := data, version := version + 1 })
      else (false, zk)

end ZooKeeper

/-- A program over the operations of ZooKeeper. -/
abbrev ZkProg (α : Type) := Prog ZkOp ZkOp.Res α

namespace ZkProg

open ZkMetadataStore (liveServingNodeIds primaryCount chooseBalancedPrimary rebalanced)

/-- `ZkMetadataStore.shard`. -/
def shard (shardId : Int) : ZkProg ShardMetadata := do
  let answer ← Prog.op (ZkOp.getData shardId)
  match answer with
  | none => .throw
  | some n => pure n.data

/-- The loop of `shards`. -/
def readAll : List Int → ZkProg (List ShardMetadata)
  | [] => pure []
  | child :: children => do
    let m ← shard child
    let ms ← readAll children
    pure (m :: ms)

/-- `ZkMetadataStore.shards`. -/
def shards : ZkProg (List ShardMetadata) := do
  let children ← Prog.op ZkOp.getChildren
  let result ← readAll children
  pure (result.insertionSort (fun a b => a.shardId ≤ b.shardId))

/-- `ZkMetadataStore.upsertPersistent`. -/
def upsertPersistent (shardId : Int) (data : ShardMetadata) : ZkProg Unit := do
  let stat ← Prog.op (ZkOp.existsNode shardId)
  match stat with
  | none =>
    let created ← Prog.op (ZkOp.create shardId data)
    if created then pure () else .throw
  | some version =>
    let written ← Prog.op (ZkOp.setData shardId data version)
    if written then pure () else .throw

/-- `ZkMetadataStore.updateShard`. -/
def updateShard (metadata : ShardMetadata) : ZkProg Unit :=
  upsertPersistent metadata.shardId metadata

/-- `ZkMetadataStore.primaryCountsExcludingShard`. -/
def primaryCountsExcludingShard (excludedShardId : Int) : ZkProg (String → Nat) := do
  let all ← shards
  pure (primaryCount (all.filter (fun m => m.shardId != excludedShardId)))

/-- `ZkMetadataStore.electPrimary`. -/
def electPrimary (shardId : Int) (liveNodes : List NodeInfo) : ZkProg ShardMetadata := do
  let metadata ← shard shardId
  let liveServing := liveServingNodeIds liveNodes
  if metadata.primary.any (fun p => liveServing.contains p) then pure metadata
  else
    let liveReplicas := metadata.replicas.filter (fun r => liveServing.contains r)
    if liveReplicas.isEmpty then pure metadata
    else
      let counts ← primaryCountsExcludingShard shardId
      let primary := chooseBalancedPrimary liveReplicas counts
      if metadata.primary = primary then pure metadata
      else
        let metadata := { metadata with primary := primary, term := metadata.term + 1 }
        updateShard metadata
        pure metadata

/-- The second loop of `rebalance`. -/
def updateAll : List ShardMetadata → ZkProg Unit
  | [] => pure ()
  | m :: ms => do
    updateShard m
    updateAll ms

/-- `ZkMetadataStore.rebalance`. -/
def rebalance (liveNodes : List NodeInfo) (replicationFactor : Nat) :
    ZkProg (List ShardMetadata) := do
  -- both replica states count as live here
  let liveIds := (liveNodes.map (·.nodeId)).insertionSort (· ≤ ·)
  if liveIds.isEmpty then shards
  else
    let previous ← shards
    let updated := rebalanced liveIds replicationFactor previous
    updateAll updated
    pure updated

/-- `ZkMetadataStore.updateCommitIndex`. -/
def updateCommitIndex (shardId : Int) (commitIndex : Nat) : ZkProg Unit := do
  let metadata ← shard shardId
  if metadata.commitIndex < commitIndex then
    updateShard { metadata with commitIndex := commitIndex }
  else pure ()

end ZkProg

/-- A call of one of the methods, by any coordinator. -/
inductive StoreCall
  | electPrimary (shardId : Int) (liveNodes : List NodeInfo)
  | rebalance (liveNodes : List NodeInfo) (replicationFactor : Nat)
  | updateCommitIndex (shardId : Int) (commitIndex : Nat)

/-- The program of a call, and the records it returns. -/
def StoreCall.program : StoreCall → ZkProg (List ShardMetadata)
  | .electPrimary shardId liveNodes => do
    let metadata ← ZkProg.electPrimary shardId liveNodes
    pure [metadata]
  | .rebalance liveNodes replicationFactor => ZkProg.rebalance liveNodes replicationFactor
  | .updateCommitIndex shardId commitIndex => do
    ZkProg.updateCommitIndex shardId commitIndex
    pure []

/-- What a call has seen: the first znode it read for each shard, and the records that it read
or wrote. -/
structure ZkNote where
  read : Int → Option Znode := fun _ => none
  known : List ShardMetadata := []

/-- ZooKeeper with the notes of the calls. -/
def zooKeeper : SharedObject ZkOp ZkOp.Res ZooKeeper ZkNote where
  sem := ZooKeeper.sem
  note := fun g o r =>
    match o, r with
    | .getData shardId, some n =>
      { read := if (g.read shardId).isNone then Function.update g.read shardId (some n) else g.read
        known := n.data :: g.known }
    | .create _ data, true => { g with known := data :: g.known }
    | .setData _ data _, true => { g with known := data :: g.known }
    | _, _ => g

/-- The calls on ZooKeeper. -/
abbrev ZkPool := Pool ZkOp ZkOp.Res (List ShardMetadata) ZooKeeper ZkNote

/-- One operation of a call, or a call that starts. -/
def ZkPool.step (c : ZkPool) (a : PoolAction StoreCall) : ZkPool :=
  Pool.step zooKeeper StoreCall.program {} c a

end DisMiniSql.Distributed
