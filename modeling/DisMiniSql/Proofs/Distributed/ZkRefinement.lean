import DisMiniSql.Proofs.Distributed.ZooKeeper

/-!
# `DisMiniSql.Proofs.Distributed.ZkRefinement`: a method that runs alone

`ZkMetadataStore` takes each of its methods as one step. Here the methods are programs over the
operations of ZooKeeper, and run without any other call in between. `Stores` relates the two:
the znodes hold the records of the store. Each program that starts from related states ends in
related states, with the result of the method.
-/

set_option autoImplicit false

namespace DisMiniSql.Distributed

open DisMiniSql.Lib (Prog)

/-- The znodes hold the records of the store. -/
structure Stores (zk : ZooKeeper) (z : ZkMetadataStore) : Prop where
  shards : ∀ s, (zk.shards s).map (·.data) = z.shard s
  children : zk.children = z.shardNodes.map (·.shardId)
  distinct : z.Distinct

namespace Stores

variable {zk : ZooKeeper} {z : ZkMetadataStore}

theorem ofStore (hdistinct : z.Distinct) :
    Stores (ZooKeeper.ofStore z) z where
  shards := by
    intro s
    cases hs : z.shard s with
    | none => simp [ZooKeeper.ofStore, hs]
    | some m => simp [ZooKeeper.ofStore, hs]
  children := List.Nodup.dedup hdistinct
  distinct := hdistinct

theorem run_shard (h : Stores zk z) (s : Int) :
    (ZkProg.shard s).run ZooKeeper.sem zk = (zk, z.shard s) := by
  have hop : (Prog.op (ZkOp.getData s)).run ZooKeeper.sem zk = (zk, some (zk.shards s)) := rfl
  rw [← h.shards s]
  unfold ZkProg.shard
  rw [Prog.run_bind hop]
  cases zk.shards s with
  | none => rfl
  | some n => rfl

/-- Reading several. -/
theorem run_readAll (h : Stores zk z) {l : List ShardMetadata} (hms : ∀ m ∈ l, m ∈ z.shardNodes) :
    (ZkProg.readAll (l.map (·.shardId))).run ZooKeeper.sem zk = (zk, some l) := by
  induction l with
  | nil => rfl
  | cons m l ih =>
    have hfirst := h.run_shard m.shardId
    rw [h.distinct.shard_eq ((List.mem_insertionSort _).mpr (hms m List.mem_cons_self))] at hfirst
    have hrest := ih fun x hx => hms x (List.mem_cons_of_mem _ hx)
    unfold ZkProg.readAll
    rw [List.map_cons]
    dsimp only
    rw [Prog.run_bind hfirst, Prog.run_bind hrest]
    rfl

theorem run_shards (h : Stores zk z) :
    ZkProg.shards.run ZooKeeper.sem zk = (zk, some z.shards) := by
  have hop : (Prog.op ZkOp.getChildren).run ZooKeeper.sem zk = (zk, some zk.children) := rfl
  have hall := h.run_readAll (l := z.shardNodes) fun _ hm => hm
  rw [← h.children] at hall
  unfold ZkProg.shards
  rw [Prog.run_bind hop, Prog.run_bind hall]
  rfl

/-- The znodes after a record was replaced. -/
theorem write (h : Stores zk z) {m : ShardMetadata} (hm : (z.shard m.shardId).isSome = true)
    (v : Nat) : Stores (zk.write m.shardId { data := m, version := v }) (z.updateShard m) := by
  have hany : z.shardNodes.any (fun x => x.shardId == m.shardId) = true := by
    obtain ⟨x, hx⟩ := Option.isSome_iff_exists.mp hm
    exact List.any_eq_true.mpr ⟨x, List.mem_of_find?_eq_some hx,
      by simpa using ZkMetadataStore.shardId_of_shard hx⟩
  refine ⟨fun s => ?_, ?_, h.distinct.updateShard m⟩
  · rw [ZkMetadataStore.shard_updateShard]
    by_cases hs : m.shardId = s
    · subst hs
      simp [ZooKeeper.write]
    · rw [if_neg hs, ← h.shards s]
      simp [ZooKeeper.write, Function.update_of_ne (Ne.symm hs)]
  · rw [ZkMetadataStore.shardIds_updateShard hany]
    exact h.children

/-- Writing one. -/
theorem run_updateShard (h : Stores zk z) {m : ShardMetadata}
    (hm : (z.shard m.shardId).isSome = true) :
    ∃ zk', (ZkProg.updateShard m).run ZooKeeper.sem zk = (zk', some ()) ∧
      Stores zk' (z.updateShard m) := by
  obtain ⟨n, hn⟩ : ∃ n, zk.shards m.shardId = some n := by
    rw [← h.shards, Option.isSome_map] at hm
    exact Option.isSome_iff_exists.mp hm
  have hexists : (Prog.op (ZkOp.existsNode m.shardId)).run ZooKeeper.sem zk =
      (zk, some (some n.version)) := by
    show (zk, some ((zk.shards m.shardId).map (·.version))) = _
    rw [hn]
    rfl
  have hset : (Prog.op (ZkOp.setData m.shardId m n.version)).run ZooKeeper.sem zk =
      (zk.write m.shardId { data := m, version := n.version + 1 }, some true) := by
    show ((zk.sem (.setData m.shardId m n.version)).2,
      some (zk.sem (.setData m.shardId m n.version)).1) = _
    obtain ⟨_, _, _, hsem⟩ | hsem := zk.sem_setData m.shardId m n.version
    · rw [hsem]
    · simp [ZooKeeper.sem, hn] at hsem
  refine ⟨_, ?_, h.write hm (n.version + 1)⟩
  unfold ZkProg.updateShard ZkProg.upsertPersistent
  rw [Prog.run_bind hexists]
  dsimp only
  rw [Prog.run_bind hset]
  rfl

/-- `updateCommitIndex` alone. -/
theorem run_updateCommitIndex (h : Stores zk z) (s : Int) (k : Nat) :
    ∃ zk', ((ZkProg.updateCommitIndex s k).run ZooKeeper.sem zk).1 = zk' ∧
      Stores zk' (z.updateCommitIndex s k) := by
  refine ⟨_, rfl, ?_⟩
  unfold ZkProg.updateCommitIndex ZkMetadataStore.updateCommitIndex
  have hshard := h.run_shard s
  cases hs : z.shard s with
  | none =>
    rw [hs] at hshard
    rw [Prog.run_bind_throw hshard]
    exact h
  | some m =>
    rw [hs] at hshard
    rw [Prog.run_bind hshard]
    dsimp only
    split
    · have hid := ZkMetadataStore.shardId_of_shard hs
      obtain ⟨zk', hrun, hstores⟩ := h.run_updateShard (m := { m with commitIndex := k })
        (by simp [hid, hs])
      rw [hrun]
      exact hstores
    · exact h

/-- `electPrimary` alone: the same record, or an exception on both sides. -/
theorem run_electPrimary (h : Stores zk z) (s : Int) (liveNodes : List NodeInfo) :
    ((ZkProg.electPrimary s liveNodes).run ZooKeeper.sem zk).2 =
        (z.electPrimary s liveNodes).map (·.2) ∧
      Stores ((ZkProg.electPrimary s liveNodes).run ZooKeeper.sem zk).1
        (((z.electPrimary s liveNodes).map (·.1)).getD z) := by
  unfold ZkProg.electPrimary ZkMetadataStore.electPrimary
  have hshard := h.run_shard s
  cases hs : z.shard s with
  | none =>
    rw [hs] at hshard
    rw [Prog.run_bind_throw hshard]
    exact ⟨rfl, h⟩
  | some m =>
    rw [hs] at hshard
    rw [Prog.run_bind hshard]
    dsimp only
    split
    · exact ⟨rfl, h⟩
    split
    · exact ⟨rfl, h⟩
    have hcounts : (ZkProg.primaryCountsExcludingShard s).run ZooKeeper.sem zk =
        (zk, some (ZkMetadataStore.primaryCount (z.shards.filter (fun m => m.shardId != s)))) := by
      unfold ZkProg.primaryCountsExcludingShard
      rw [Prog.run_bind h.run_shards]
      rfl
    rw [Prog.run_bind hcounts]
    split
    · exact ⟨rfl, h⟩
    · have hid := ZkMetadataStore.shardId_of_shard hs
      obtain ⟨zk', hrun, hstores⟩ := h.run_updateShard
        (m := { m with
          primary := ZkMetadataStore.chooseBalancedPrimary
            (m.replicas.filter fun r => (ZkMetadataStore.liveServingNodeIds liveNodes).contains r)
            (ZkMetadataStore.primaryCount (z.shards.filter (fun m => m.shardId != s)))
          term := m.term + 1 }) (by simp [hid, hs])
      rw [Prog.run_bind hrun]
      exact ⟨rfl, hstores⟩

/-- Writing several. -/
theorem run_updateAll (h : Stores zk z) {l : List ShardMetadata}
    (hms : ∀ m ∈ l, (z.shard m.shardId).isSome = true) :
    ∃ zk', (ZkProg.updateAll l).run ZooKeeper.sem zk = (zk', some ()) ∧
      Stores zk' (l.foldl ZkMetadataStore.updateShard z) := by
  induction l generalizing zk z with
  | nil => exact ⟨zk, rfl, h⟩
  | cons m l ih =>
    obtain ⟨zk₁, hfirst, h₁⟩ := h.run_updateShard (hms m List.mem_cons_self)
    obtain ⟨zk', hrest, h'⟩ := ih h₁ fun x hx => by
      rw [ZkMetadataStore.shard_updateShard]
      split
      · rfl
      · exact hms x (List.mem_cons_of_mem _ hx)
    refine ⟨zk', ?_, h'⟩
    unfold ZkProg.updateAll
    rw [Prog.run_bind hfirst, hrest]

/-- `rebalance` alone. -/
theorem run_rebalance (h : Stores zk z) (liveNodes : List NodeInfo) (rf : Nat) :
    Stores ((ZkProg.rebalance liveNodes rf).run ZooKeeper.sem zk).1 (z.rebalance liveNodes rf) := by
  by_cases hlive : liveNodes = []
  · subst hlive
    have hrun : (ZkProg.rebalance [] rf).run ZooKeeper.sem zk = (zk, some z.shards) := h.run_shards
    rw [hrun]
    exact h
  · rw [ZkMetadataStore.rebalance_eq_foldl z liveNodes rf hlive]
    unfold ZkProg.rebalance
    dsimp only
    rw [if_neg (ZkMetadataStore.liveIds_ne_nil hlive), Prog.run_bind h.run_shards]
    obtain ⟨zk', hrun, h'⟩ := h.run_updateAll
      (l := ZkMetadataStore.rebalanced ((liveNodes.map (·.nodeId)).insertionSort (· ≤ ·)) rf
        z.shards) fun m hm => by
        obtain ⟨old, hold, hmade⟩ := ZkMetadataStore.exists_of_mem_rebalanced hm
        rw [hmade.shardId, h.distinct.shard_eq hold]
        rfl
    rw [Prog.run_bind hrun]
    exact h'

end Stores

end DisMiniSql.Distributed
