import DisMiniSql.Distributed.Common.ShardKey
import DisMiniSql.Distributed.Coordinator.CoordinatorServer
import DisMiniSql.Distributed.Coordinator.QueryPostProcessor

/-!
# `DisMiniSql.Distributed.Coordinator.Reads`: the reads of `CoordinatorServer`

`distributedRead` and `distributedJoin` ask one replica of every shard and merge the answers.
What a call finds outside the coordinator is its `Surroundings`, and nothing is assumed of them: any
node may answer, refuse or be out of reach, each time it is asked. An `error` is an exception with
its message.
-/

set_option autoImplicit false

namespace DisMiniSql.Distributed

open SqlUtils (hashToShard explicitKey)

/-- `SqlResponse`. -/
structure SqlResponse where
  ok : Bool
  route : String := ""
  responses : List ExecuteResponse := []
  mergedOutput : Text := []
  error : String := ""
  deriving DecidableEq, Repr

/-- `SqlResponse.error`. -/
def SqlResponse.failure (error : String) : SqlResponse := { ok := false, error := error }

/-- What the client is sent: `/sql` makes an error of an exception. -/
def SqlResponse.ofCall : Except String SqlResponse → SqlResponse
  | .ok response => response
  | .error message => .failure message

/-- `ReplicaChooser.chooseForRead`, where `count` is what the counter of the shard stands at. Two
nodes of one id make `Collectors.toMap` throw. -/
def chooseForRead (shardId count : Int) (replicaIds : List String) (liveNodes : List NodeInfo) :
    Except String NodeInfo :=
  if (liveNodes.map (·.nodeId)).Nodup then
    match chooseForWrite replicaIds liveNodes with
    | [] => .error ("No live replica for shard " ++ toString shardId)
    | first :: rest =>
      let candidates := first :: rest
      .ok (candidates.getD (count.fmod candidates.length).toNat first)
  else .error "Duplicate key"

/-- What a call of `readResponses` finds outside the coordinator. -/
structure Surroundings where
  /-- The nodes that are registered. -/
  liveNodes : List NodeInfo
  /-- The shards in ZooKeeper. -/
  shards : List ShardMetadata
  /-- The exception of `liveNodes()`, if it throws. -/
  nodesFailure : Option String
  /-- The exception of `shards()` and of `shard`, if they throw. -/
  shardsFailure : Option String
  /-- The counter of the shard at the n-th choice. Other calls count as well. -/
  counter : Nat → Int
  /-- The n-th request id. -/
  randomUUID : Nat → String
  /-- The answer to the n-th request, or the exception of `HttpUtil.postJson`. -/
  postJson : Nat → NodeInfo → ExecuteRequest → Except String ExecuteResponse

/-- A response with the node that was asked, which the code only logs. -/
structure Answer where
  node : NodeInfo
  response : ExecuteResponse
  deriving DecidableEq, Repr

namespace Surroundings

/-- The request of a read. -/
def request (w : Surroundings) (n : Nat) (shardId : Int) (sql : Text) : ExecuteRequest where
  requestId := some (w.randomUUID n)
  shardId := shardId
  shardLogIndex := 0
  raftTerm := 0
  sql := String.ofList sql
  replay := false

/-- `CoordinatorServer.send`. -/
def send (w : Surroundings) (n : Nat) (shardId : Int) (sql : Text) (node : NodeInfo) :
    ExecuteResponse :=
  match w.postJson n node (w.request n shardId sql) with
  | .ok response => response
  | .error message => .failure node.nodeId message

/-- The choice of a replica of the n-th shard, and its answer. -/
def ask (w : Surroundings) (sql : Text) (n : Nat) (shard : ShardMetadata) :
    Except String Answer := do
  let node ← chooseForRead shard.shardId (w.counter n) shard.replicas w.liveNodes
  .ok { node := node, response := w.send n shard.shardId sql node }

/-- The loop of `readResponses` over the shards. -/
def askEach (w : Surroundings) (sql : Text) : Nat → List ShardMetadata → Except String (List Answer)
  | _, [] => .ok []
  | n, shard :: shards => do
    let answer ← w.ask sql n shard
    let answers ← w.askEach sql (n + 1) shards
    .ok (answer :: answers)

/-- `metadataStore.shard`. -/
def shard (w : Surroundings) (shardId : Int) : Except String ShardMetadata :=
  match w.shardsFailure, w.shards.find? (fun s => s.shardId == shardId) with
  | none, some shard => .ok shard
  | _, _ => .error ("Failed to read shard " ++ toString shardId)

/-- `metadataStore.shards`. -/
def allShards (w : Surroundings) : Except String (List ShardMetadata) :=
  match w.shardsFailure with
  | none => .ok w.shards
  | some _ => .error "Failed to read shards"

section
variable (sha256 : Text → Vector (BitVec 8) 32) (shardCount : Int)

/-- `CoordinatorServer.readResponses`. -/
def readResponses (w : Surroundings) (sql : Text) (explicitShardKey : Option Text) :
    Except String (List Answer) :=
  match w.nodesFailure with
  | some _ => .error "Failed to read live nodes"
  | none =>
    if w.liveNodes.isEmpty then .ok []
    else
      match explicitKey explicitShardKey with
      | some key => do
        let shardId ← hashToShard sha256 key shardCount
        let shard ← w.shard shardId
        let answer ← w.ask sql 0 shard
        .ok [answer]
      | none => do
        let shards ← w.allShards
        w.askEach sql 0 shards

end

end Surroundings

section
variable {δ : Type} [LinearOrder δ] (fold : Char → Char) (doubles : DoubleOps δ) (lists : ListSort)
variable (sha256 : Text → Vector (BitVec 8) 32) (shardCount : Int)

/-- `dispatchSql` of `CoordinatorServer.execute`: what the nodes are sent for a read that is not a
join. -/
def dispatchSql (sql : Text) : Text :=
  if QueryPostProcessor.isAggregate sql then QueryPostProcessor.baseSqlForAggregate sql
  else QueryPostProcessor.sqlWithoutOrderBy sql

/-- `CoordinatorServer.distributedRead`. -/
def distributedRead (w : Surroundings) (originalSql dispatchSql : Text)
    (explicitShardKey : Option Text) : Except String SqlResponse := do
  let answers ← w.readResponses sha256 shardCount dispatchSql explicitShardKey
  let responses := answers.map (·.response)
  if responses.isEmpty then .ok (.failure "No live nodes")
  else
    match QueryPostProcessor.mergeSelect fold doubles lists originalSql responses with
    | .error message => .error message
    | .ok merged =>
      .ok
        { ok := true
          route :=
            if (explicitKey explicitShardKey).isSome then "read single shard"
            else "scatter-gather read"
          responses := responses
          mergedOutput := merged }

/-- `CoordinatorServer.distributedJoin`. The two calls of `readResponses` find surroundings of their
own. -/
def distributedJoin (left right : Surroundings) (sql : Text) : Except String SqlResponse := do
  let leftAnswers ← left.readResponses sha256 shardCount (QueryPostProcessor.leftJoinSql sql) none
  let rightAnswers ←
    right.readResponses sha256 shardCount (QueryPostProcessor.rightJoinSql sql) none
  let leftResponses := leftAnswers.map (·.response)
  let rightResponses := rightAnswers.map (·.response)
  let allResponses := leftResponses ++ rightResponses
  if allResponses.isEmpty then .ok (.failure "No live nodes")
  else
    match QueryPostProcessor.join fold sql leftResponses rightResponses with
    | none => .error QueryPostProcessor.parseFailure
    | some merged =>
      .ok
        { ok := true
          route := "coordinator hash join"
          responses := allResponses
          mergedOutput := merged }

end

end DisMiniSql.Distributed
