import DisMiniSql.Distributed.Zk.ZooKeeper

/-!
# `DisMiniSql.Distributed.Zk.MetadataCalls`: the calls of the coordinators on ZooKeeper

The znodes of the shard records and those of the shard log indexes, and every method that writes
one of them. Any number of calls run at the same time, one operation at a time.

The znode of a counter holds a number in decimal, which stands for its text here. The loop of
`nextShardLogIndex` has no bound in the source. `attempts` is how often a call may go round
before it is left alone: a call that has used them up is one that is still in its loop.
-/

set_option autoImplicit false

namespace DisMiniSql.Distributed

open DisMiniSql.Lib (Prog SharedObject Pool PoolAction SumRes)
open ZkMetadataStore (ringReplicas)

/-- The znode `shard-log-indexes/<shardId>`. -/
structure Counter where
  value : Nat := 0
  version : Nat := 0
  deriving DecidableEq, Repr

/-- The operations on the counters. -/
inductive CounterOp
  | getData (shardId : Int)
  | existsNode (shardId : Int)
  | create (shardId : Int) (value : Nat)
  | setData (shardId : Int) (value version : Nat)
  deriving DecidableEq, Repr

/-- The outcome of `setData`. -/
inductive SetResult
  | ok
  | badVersion
  | noNode
  deriving DecidableEq, Repr

/-- The answers. `none` is `NoNode` or a null `Stat`, `false` is `NodeExists`. -/
@[reducible]
def CounterOp.Res : CounterOp → Type
  | .getData _ => Option Counter
  | .existsNode _ => Option Nat
  | .create _ _ => Bool
  | .setData _ _ _ => SetResult

/-- The znodes of the counters. -/
abbrev Counters := Int → Option Counter

/-- The operations. -/
def Counters.sem (counters : Counters) : (o : CounterOp) → o.Res × Counters
  | .getData shardId => (counters shardId, counters)
  | .existsNode shardId => ((counters shardId).map (·.version), counters)
  | .create shardId value =>
    match counters shardId with
    | none => (true, Function.update counters shardId (some { value := value }))
    | some _ => (false, counters)
  | .setData shardId value version =>
    match counters shardId with
    | none => (.noNode, counters)
    | some n =>
      if n.version = version then
        (.ok, Function.update counters shardId
          (some { value := value, version := version + 1 }))
      else (.badVersion, counters)

/-- A program over the operations of the counters. -/
abbrev CounterProg (α : Type) := Prog CounterOp CounterOp.Res α

namespace CounterProg

/-- `ZkMetadataStore.upsertPersistentIfAbsent`, on a counter. -/
def upsertPersistentIfAbsent (shardId : Int) (value : Nat) : CounterProg Unit := do
  let stat ← Prog.op (CounterOp.existsNode shardId)
  match stat with
  | none =>
    -- `NodeExists` is ignored
    let _ ← Prog.op (CounterOp.create shardId value)
    pure ()
  | some _ => pure ()

/-- The loop of `nextShardLogIndex`. -/
def allocate (shardId : Int) : (attempts : Nat) → CounterProg Nat
  | 0 => .throw
  | attempts + 1 => do
    let current ← Prog.op (CounterOp.getData shardId)
    match current with
    | none =>
      upsertPersistentIfAbsent shardId 0
      allocate shardId attempts
    | some stat =>
      let next := stat.value + 1
      let written ← Prog.op (CounterOp.setData shardId next stat.version)
      match written with
      | .ok => pure next
      | .badVersion => allocate shardId attempts
      | .noNode =>
        upsertPersistentIfAbsent shardId 0
        allocate shardId attempts

/-- `ZkMetadataStore.nextShardLogIndex`. -/
def nextShardLogIndex (shardId : Int) (attempts : Nat) : CounterProg Nat :=
  if shardId < 0 then pure 0 else allocate shardId attempts

end CounterProg

/-- `ZkMetadataStore.upsertPersistentIfAbsent`, on a shard record. -/
def ZkProg.upsertPersistentIfAbsent (shardId : Int) (data : ShardMetadata) : ZkProg Unit := do
  let stat ← Prog.op (ZkOp.existsNode shardId)
  match stat with
  | none =>
    -- `NodeExists` is ignored
    let _ ← Prog.op (ZkOp.create shardId data)
    pure ()
  | some _ => pure ()

/-- The operations on the shard records and on the counters. -/
abbrev MetadataOp := ZkOp ⊕ CounterOp

/-- A program over them. -/
abbrev MetadataProg (α : Type) := Prog MetadataOp (SumRes ZkOp.Res CounterOp.Res) α

namespace MetadataProg

/-- The loop of `initializeShards`. -/
def initializeEach (nodeIds : List String) (replicationFactor : Nat) :
    List Nat → MetadataProg Unit
  | [] => pure ()
  | shardId :: shardIds =>
    let replicas := ringReplicas nodeIds shardId replicationFactor
    match replicas with
    -- `replicas.get(0)` throws
    | [] => .throw
    | primary :: _ => do
      let metadata : ShardMetadata :=
        { shardId := shardId, replicas := replicas, primary := some primary }
      (ZkProg.upsertPersistentIfAbsent shardId metadata).inl
      (CounterProg.upsertPersistentIfAbsent shardId 0).inr
      initializeEach nodeIds replicationFactor shardIds

/-- `ZkMetadataStore.initializeShards`. -/
def initializeShards (nodeIds : List String) (shardCount replicationFactor : Nat) :
    MetadataProg Unit :=
  let nodeIds := nodeIds.insertionSort (· ≤ ·)
  if nodeIds.isEmpty then .throw
  else initializeEach nodeIds replicationFactor (List.range shardCount)

end MetadataProg

/-- A call of one of the methods that write, by any coordinator. -/
inductive MetadataCall
  | initializeShards (nodeIds : List String) (shardCount replicationFactor : Nat)
  | nextShardLogIndex (shardId : Int) (attempts : Nat)
  /-- `electPrimary`, `rebalance` and `updateCommitIndex`. -/
  | store (call : StoreCall)

/-- What a call returns. -/
inductive MetadataAnswer
  | done
  | index (shardId : Int) (next : Nat)
  | records (shards : List ShardMetadata)
  deriving DecidableEq, Repr

/-- The program of a call. -/
def MetadataCall.program : MetadataCall → MetadataProg MetadataAnswer
  | .initializeShards nodeIds shardCount replicationFactor => do
    MetadataProg.initializeShards nodeIds shardCount replicationFactor
    pure .done
  | .nextShardLogIndex shardId attempts => do
    let next ← (CounterProg.nextShardLogIndex shardId attempts).inr
    pure (.index shardId next)
  | .store call => do
    let shards ← call.program.inl
    pure (.records shards)

/-- The znodes of the cluster that these methods write. -/
structure MetadataTree where
  zk : ZooKeeper := {}
  counters : Counters := fun _ => none

/-- What a call has seen of the counters: the one that it read last, and the value that it has
written. -/
structure CounterNote where
  read : Int → Option Counter := fun _ => none
  wrote : Int → Option Nat := fun _ => none

/-- The znodes with the notes of the calls. -/
def metadataTree : SharedObject MetadataOp (SumRes ZkOp.Res CounterOp.Res) MetadataTree
    CounterNote where
  sem := fun tree o =>
    match o with
    | .inl o => ((tree.zk.sem o).1, { tree with zk := (tree.zk.sem o).2 })
    | .inr o => ((tree.counters.sem o).1, { tree with counters := (tree.counters.sem o).2 })
  note := fun g o r =>
    match o, r with
    | .inr (.getData shardId), r => { g with read := Function.update g.read shardId r }
    | .inr (.setData shardId value _), SetResult.ok =>
      { g with wrote := Function.update g.wrote shardId (some value) }
    | _, _ => g

/-- The calls on ZooKeeper. -/
abbrev MetadataPool :=
  Pool MetadataOp (SumRes ZkOp.Res CounterOp.Res) MetadataAnswer MetadataTree CounterNote

/-- One operation of a call, or a call that starts. -/
def MetadataPool.step (c : MetadataPool) (a : PoolAction MetadataCall) : MetadataPool :=
  Pool.step metadataTree MetadataCall.program {} c a

end DisMiniSql.Distributed
