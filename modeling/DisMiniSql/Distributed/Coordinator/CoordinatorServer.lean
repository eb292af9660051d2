import DisMiniSql.Distributed.Common.SqlUtils
import DisMiniSql.Distributed.Zk.ZkMetadataStore

/-!
# `DisMiniSql.Distributed.Coordinator.CoordinatorServer`: the writes of `CoordinatorServer`

`routedWrite` and `broadcastWrite` as processes. A call reads ZooKeeper, allocates its index
and its request id, and then sends to one node after another, waiting for each answer; between
any two of these steps other calls, the nodes and the network may act. `Call` is the state of
one call and the functions on it are the code between two such points.

The shard of a write is an argument: `hashToShard` maps the shard key to one of the shards.
-/

set_option autoImplicit false

namespace DisMiniSql.Distributed

/-- `ReplicaChooser.candidates`. -/
def candidates (replicaIds : List String) (liveNodes : List NodeInfo) : List NodeInfo :=
  (replicaIds.filterMap (fun r => liveNodes.find? (fun m => m.nodeId == r))).insertionSort
    (fun a b => a.nodeId ≤ b.nodeId)

/-- `ReplicaChooser.chooseForWrite`. -/
def chooseForWrite (replicaIds : List String) (liveNodes : List NodeInfo) : List NodeInfo :=
  (candidates replicaIds liveNodes).filter (fun m => m.replicaState == .SERVING)

/-- `CoordinatorServer.quorumSize`. -/
def quorumSize (replicaCount : Nat) : Nat := replicaCount / 2 + 1

/-- One `send` of a call. -/
structure Target where
  nodeId : String
  replay : Bool
  deriving DecidableEq, Repr

/-- The order in which `sendRaftStyle` sends: the primary first and not as a replay, then the
other replicas as a replay. -/
def raftTargets (primary : Option String) (replicas : List NodeInfo) : List Target :=
  (if replicas.any (fun m => some m.nodeId == primary) then
    primary.toList.map (fun p => { nodeId := p, replay := false }) else []) ++
  (replicas.filter (fun m => some m.nodeId != primary)).map
    (fun m => { nodeId := m.nodeId, replay := true })

/-- A write that is being sent. -/
structure Dispatch where
  requestId : String
  shardId : Int
  shardLogIndex : Nat
  raftTerm : Nat
  sql : String
  /-- The node ids over which the quorum is counted. -/
  members : List String
  /-- The nodes that are still to be sent to. -/
  todo : List Target
  responses : List ExecuteResponse := []
  deriving DecidableEq, Repr

namespace Dispatch

/-- The request that goes to a target. -/
def request (d : Dispatch) (target : Target) : ExecuteRequest where
  requestId := some d.requestId
  shardId := d.shardId
  shardLogIndex := d.shardLogIndex
  raftTerm := d.raftTerm
  sql := d.sql
  replay := target.replay

/-- `successCount`. -/
def successCount (d : Dispatch) : Nat := d.responses.countP (·.ok)

/-- `successCount >= quorum`. -/
def hasQuorum (d : Dispatch) : Bool := quorumSize d.members.length ≤ d.successCount

/-- The answer of a `send`, or the error that stands for its exception. -/
def record (d : Dispatch) (response : ExecuteResponse) : Dispatch :=
  { d with responses := d.responses ++ [response] }

end Dispatch

/-- A call of `routedWrite` or `broadcastWrite`. -/
inductive Call
  /-- `liveNodes()` is read, `electPrimary` comes next. -/
  | electing (shardId : Int) (sql : String) (liveNodes : List NodeInfo)
  /-- The replicas are chosen, `nextShardLogIndex` comes next. -/
  | allocating (shard : ShardMetadata) (sql : String) (replicas : List NodeInfo)
  /-- Between two calls of `send`. -/
  | sending (d : Dispatch)
  /-- Inside `send`. -/
  | waiting (d : Dispatch) (target : Target)
  /-- The client has got an answer, after all sends. -/
  | replied (d : Dispatch) (ok : Bool)
  /-- The client has got an error before any send. -/
  | rejected (error : String)
  deriving DecidableEq, Repr

namespace Call

/-- `routedWrite` after `electPrimary` has returned `shard`. -/
def chooseReplicas (shard : ShardMetadata) (sql : String) (liveNodes : List NodeInfo) : Call :=
  let replicas := chooseForWrite shard.replicas liveNodes
  if replicas.isEmpty then
    .rejected ("No live replica for shard " ++ toString shard.shardId)
  else .allocating shard sql replicas

/-- The start of `sendRaftStyle`. A node id that occurs twice among the replicas makes
`Collectors.toMap` throw. -/
def dispatch (shard : ShardMetadata) (sql : String) (replicas : List NodeInfo)
    (shardLogIndex : Nat) (requestId : String) : Call :=
  if (replicas.map (·.nodeId)).Nodup then
    .sending
      { requestId := requestId
        shardId := shard.shardId
        shardLogIndex := shardLogIndex
        raftTerm := shard.term
        sql := sql
        members := shard.replicas
        todo := raftTargets shard.primary replicas }
  else .rejected "Duplicate key"

/-- `broadcastWrite` up to `sendToReplicas`. -/
def broadcast (sql : String) (liveNodes : List NodeInfo) (requestId : String) : Call :=
  if liveNodes.isEmpty then .rejected "No live nodes"
  else
    .sending
      { requestId := requestId
        shardId := -1
        shardLogIndex := 0
        raftTerm := 0
        sql := sql
        members := liveNodes.map (·.nodeId)
        todo := liveNodes.map (fun m => { nodeId := m.nodeId, replay := false }) }

end Call

end DisMiniSql.Distributed
