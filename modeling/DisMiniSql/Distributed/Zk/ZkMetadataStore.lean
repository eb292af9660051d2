import Mathlib.Data.List.Sort
import DisMiniSql.Distributed.Protocol

/-!
# `DisMiniSql.Distributed.Zk.ZkMetadataStore`: `ZkMetadataStore`

The znodes of a cluster and the methods of `ZkMetadataStore` on them: the shard records, the
counters of the shard log indexes, and the ephemeral node records. Each method is one step
here.
-/

set_option autoImplicit false

namespace DisMiniSql.Distributed

/-- The znodes under the root of the cluster. -/
structure ZkMetadataStore where
  /-- `shards/<shardId>`. -/
  shardNodes : List ShardMetadata := []
  /-- `shard-log-indexes/<shardId>`; a missing counter is created as 0. -/
  shardLogIndexes : Int → Nat := fun _ => 0
  /-- `nodes/<nodeId>`. -/
  nodes : List NodeInfo := []

namespace ZkMetadataStore

/-- `ZkMetadataStore.shards`. -/
def shards (z : ZkMetadataStore) : List ShardMetadata :=
  z.shardNodes.insertionSort (fun a b => a.shardId ≤ b.shardId)

/-- `ZkMetadataStore.shard`; `none` where the call throws. -/
def shard (z : ZkMetadataStore) (shardId : Int) : Option ShardMetadata :=
  z.shardNodes.find? (fun m => m.shardId == shardId)

/-- `ZkMetadataStore.updateShard`. -/
def updateShard (z : ZkMetadataStore) (metadata : ShardMetadata) : ZkMetadataStore :=
  if z.shardNodes.any (fun m => m.shardId == metadata.shardId) then
    { z with shardNodes :=
        z.shardNodes.map (fun m => if m.shardId = metadata.shardId then metadata else m) }
  else { z with shardNodes := z.shardNodes ++ [metadata] }

/-- The replicas that `initializeShards` and `rebalance` give a shard: consecutive nodes of the
ring, from `shardId` on. -/
def ringReplicas (nodeIds : List String) (shardId replicationFactor : Nat) : List String :=
  (List.range (min replicationFactor nodeIds.length)).filterMap
    (fun replica => nodeIds[(shardId + replica) % nodeIds.length]?)

/-- `ZkMetadataStore.initializeShards` on an empty store. -/
def initializeShards (nodeIds : List String) (shardCount replicationFactor : Nat) :
    ZkMetadataStore where
  shardNodes := (List.range shardCount).map (fun shardId =>
    let replicas := ringReplicas (nodeIds.insertionSort (· ≤ ·)) shardId replicationFactor
    { shardId := shardId, replicas := replicas, primary := replicas.head? })

/-- `ZkMetadataStore.nextShardLogIndex`. -/
def nextShardLogIndex (z : ZkMetadataStore) (shardId : Int) : ZkMetadataStore × Nat :=
  if shardId < 0 then (z, 0)
  else
    let next := z.shardLogIndexes shardId + 1
    ({ z with shardLogIndexes := fun s => if s = shardId then next else z.shardLogIndexes s },
      next)

/-- `ZkMetadataStore.registerNode` and `updateNode`. -/
def registerNode (z : ZkMetadataStore) (info : NodeInfo) : ZkMetadataStore :=
  { z with nodes := info :: z.nodes.filter (fun m => m.nodeId != info.nodeId) }

/-- The end of the session of a node: its ephemeral record goes. -/
def expire (z : ZkMetadataStore) (nodeId : String) : ZkMetadataStore :=
  { z with nodes := z.nodes.filter (fun m => m.nodeId != nodeId) }

/-- `ZkMetadataStore.liveNodes`. -/
def liveNodes (z : ZkMetadataStore) : List NodeInfo :=
  z.nodes.insertionSort (fun a b => a.nodeId ≤ b.nodeId)

/-- `ZkMetadataStore.liveServingNodeIds`. -/
def liveServingNodeIds (liveNodes : List NodeInfo) : List String :=
  (liveNodes.filter (fun m => m.replicaState == .SERVING)).map (·.nodeId)

/-- `primaryCounts`: how many of the shards have this node as their primary. -/
def primaryCount (shards : List ShardMetadata) (nodeId : String) : Nat :=
  shards.countP (fun m => m.primary == some nodeId)

/-- `ZkMetadataStore.chooseBalancedPrimary`: the least loaded node, the first by name among
those. -/
def chooseBalancedPrimary (replicas : List String) (primaryCounts : String → Nat) :
    Option String :=
  (replicas.insertionSort (fun a b => primaryCounts a < primaryCounts b ∨
    (primaryCounts a = primaryCounts b ∧ a ≤ b))).head?

/-- `ZkMetadataStore.electPrimary`; `none` where it throws. -/
def electPrimary (z : ZkMetadataStore) (shardId : Int) (liveNodes : List NodeInfo) :
    Option (ZkMetadataStore × ShardMetadata) :=
  match z.shard shardId with
  | none => none
  | some metadata =>
    let liveServing := liveServingNodeIds liveNodes
    if metadata.primary.any (fun p => liveServing.contains p) then some (z, metadata)
    else
      let liveReplicas := metadata.replicas.filter (fun r => liveServing.contains r)
      if liveReplicas.isEmpty then some (z, metadata)
      else
        let counts := primaryCount (z.shards.filter (fun m => m.shardId != shardId))
        let primary := chooseBalancedPrimary liveReplicas counts
        if metadata.primary = primary then some (z, metadata)
        else
          let metadata := { metadata with primary := primary, term := metadata.term + 1 }
          some (z.updateShard metadata, metadata)

/-- `ZkMetadataStore.assignBalancedPrimaries`, over the shards in the order of their ids;
`assigned` are the shards done so far. -/
def assignBalancedPrimaries (assigned : List ShardMetadata) :
    List ShardMetadata → List ShardMetadata
  | [] => assigned
  | m :: ms =>
    let primary := chooseBalancedPrimary m.replicas (primaryCount assigned)
    assignBalancedPrimaries (assigned ++ [{ m with primary := primary }]) ms

/-- The records that `rebalance` writes for the previous ones, in the order of their ids. -/
def rebalanced (liveIds : List String) (replicationFactor : Nat)
    (previous : List ShardMetadata) : List ShardMetadata :=
  let moved := previous.map (fun m =>
    let replicas := ringReplicas liveIds m.shardId.toNat replicationFactor
    { m with replicas := replicas.insertionSort (· ≤ ·) })
  ((assignBalancedPrimaries [] moved).zip previous).map (fun (m, old) =>
    if m.replicas ≠ old.replicas ∨ m.primary ≠ old.primary then { m with term := m.term + 1 }
    else m)

/-- `ZkMetadataStore.rebalance`. -/
def rebalance (z : ZkMetadataStore) (liveNodes : List NodeInfo) (replicationFactor : Nat) :
    ZkMetadataStore :=
  -- both replica states count as live here
  let liveIds := (liveNodes.map (·.nodeId)).insertionSort (· ≤ ·)
  if liveIds.isEmpty then z
  else
    let previous := z.shards
    let moved := previous.map (fun m =>
      let replicas := ringReplicas liveIds m.shardId.toNat replicationFactor
      { m with replicas := replicas.insertionSort (· ≤ ·) })
    let updated := assignBalancedPrimaries [] moved
    (updated.zip previous).foldl (fun z (m, old) =>
      if m.replicas ≠ old.replicas ∨ m.primary ≠ old.primary then
        z.updateShard { m with term := m.term + 1 }
      else z.updateShard m) z

/-- `ZkMetadataStore.updateCommitIndex`. -/
def updateCommitIndex (z : ZkMetadataStore) (shardId : Int) (commitIndex : Nat) :
    ZkMetadataStore :=
  match z.shard shardId with
  | none => z
  | some metadata =>
    if metadata.commitIndex < commitIndex then
      z.updateShard { metadata with commitIndex := commitIndex }
    else z

/-- `ZkMetadataStore.shardsForNode`. -/
def shardsForNode (z : ZkMetadataStore) (nodeId : String) : List Int :=
  (z.shards.filter (fun m => m.replicas.contains nodeId)).map (·.shardId)

end ZkMetadataStore

end DisMiniSql.Distributed
