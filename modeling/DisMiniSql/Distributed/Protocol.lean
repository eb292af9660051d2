import Mathlib.Order.Lattice

/-!
# `DisMiniSql.Distributed.Protocol`: what the parties exchange

The records of the `protocol` package. A node is addressed by its `nodeId`, which stands for
its host and port. The fields that are only displayed (`NodeInfo.lastWalSequence` and the
`shardLogIndexes` maps) are left out.
-/

set_option autoImplicit false

namespace DisMiniSql.Distributed

/-- `NodeInfo.replicaState`. -/
inductive ReplicaState
  | RECOVERING
  | SERVING
  deriving DecidableEq, Repr

/-- `NodeInfo`: what a node has registered. -/
structure NodeInfo where
  nodeId : String
  shards : List Int
  replicaState : ReplicaState
  deriving DecidableEq, Repr

/-- `ShardMetadata`. -/
structure ShardMetadata where
  shardId : Int
  replicas : List String
  primary : Option String
  term : Nat := 1
  commitIndex : Nat := 0
  deriving DecidableEq, Repr

/-- `ExecuteRequest`. The field `walSequence` is always sent as 0 and read by nobody. -/
structure ExecuteRequest where
  /-- `none` is `null`. -/
  requestId : Option String
  shardId : Int
  shardLogIndex : Nat
  raftTerm : Nat
  sql : String
  replay : Bool
  deriving DecidableEq, Repr

/-- `ExecuteResponse`. -/
structure ExecuteResponse where
  ok : Bool
  nodeId : String
  walSequence : Nat := 0
  shardLogIndex : Nat := 0
  raftTerm : Nat := 0
  output : String := ""
  error : String := ""
  deriving DecidableEq, Repr

/-- `ExecuteResponse.error`. -/
def ExecuteResponse.failure (nodeId error : String) : ExecuteResponse where
  ok := false
  nodeId := nodeId
  error := error

/-- `ExecuteResponse.ok`. -/
def ExecuteResponse.success (nodeId : String) (walSequence : Nat) (output : String) :
    ExecuteResponse where
  ok := true
  nodeId := nodeId
  walSequence := walSequence
  output := output

end DisMiniSql.Distributed
