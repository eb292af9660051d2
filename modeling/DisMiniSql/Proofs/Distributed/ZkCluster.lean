import DisMiniSql.Distributed.ZkCluster
import DisMiniSql.Proofs.Distributed.Commit
import DisMiniSql.Proofs.Distributed.ZooKeeper

/-!
# `DisMiniSql.Proofs.Distributed.ZkCluster`: the shard records and the rest of the cluster

The steps of `ZkCluster` are of two kinds. An operation on ZooKeeper may write a shard record and
does nothing else (`Synced.runOp`); a step of the rest of the cluster leaves the records alone
(`step_shardNodes`). So what `Cluster` keeps step by step is kept here as well, as long as it does
not speak of the records, and what is said of the records is said of one operation at a time.

Three invariants of `Cluster` carry over like this: the acknowledgements that are counted
(`CommitInv`), the requests with the terms they were started in (`TicketInv`) and the writes that
the entries come from (`Sources`). What a shard record decides is proved of `ZkCluster` itself
(`stale_write_fenced`, `commitIndex_is_acknowledged`), or of the calls alone (`no_lost_update`,
`one_primary_per_term`). The results on a rebalance in `Cluster` are about one that runs alone,
which is then one step (`run_rebalance`).
-/

set_option autoImplicit false

namespace DisMiniSql.Distributed

open DisMiniSql.Lib (Prog Pool PoolAction Running)

/-- A record is written to the znode of its shard. -/
def OwnRecord : ZkOp → Prop
  | .create shardId data => data.shardId = shardId
  | .setData shardId data _ => data.shardId = shardId
  | _ => True

namespace ZkProg

theorem ownRecord_shard (s : Int) : (shard s).Only OwnRecord := by
  refine Prog.Only.bind (Prog.Only.op trivial) fun answer => ?_
  cases answer with
  | none => trivial
  | some n => trivial

theorem ownRecord_readAll (children : List Int) : (readAll children).Only OwnRecord := by
  induction children with
  | nil => trivial
  | cons s children ih =>
    exact (ownRecord_shard s).bind fun _ => ih.bind fun _ => trivial

theorem ownRecord_shards : shards.Only OwnRecord :=
  Prog.Only.bind (Prog.Only.op trivial) fun children =>
    (ownRecord_readAll children).bind fun _ => trivial

/-- `upsertPersistent` writes the record under its own id. -/
theorem ownRecord_updateShard (m : ShardMetadata) : (updateShard m).Only OwnRecord := by
  refine Prog.Only.bind (Prog.Only.op trivial) fun stat => ?_
  cases stat with
  | none =>
    have hop : (Prog.op (ZkOp.create m.shardId m) : ZkProg Bool).Only OwnRecord := .op rfl
    refine hop.bind fun created => ?_
    cases created with
    | true => trivial
    | false => trivial
  | some version =>
    have hop : (Prog.op (ZkOp.setData m.shardId m version) : ZkProg Bool).Only OwnRecord :=
      .op rfl
    refine hop.bind fun written => ?_
    cases written with
    | true => trivial
    | false => trivial

theorem ownRecord_updateAll (ms : List ShardMetadata) : (updateAll ms).Only OwnRecord := by
  induction ms with
  | nil => trivial
  | cons m ms ih => exact (ownRecord_updateShard m).bind fun _ => ih

/-- An election. -/
theorem ownRecord_electPrimary (s : Int) (liveNodes : List NodeInfo) :
    (electPrimary s liveNodes).Only OwnRecord := by
  refine (ownRecord_shard s).bind fun m => ?_
  dsimp only
  split
  · trivial
  split
  · trivial
  have hcounts : (primaryCountsExcludingShard s).Only OwnRecord :=
    ownRecord_shards.bind fun _ => trivial
  refine hcounts.bind fun counts => ?_
  split
  · trivial
  · exact (ownRecord_updateShard _).bind fun _ => trivial

theorem ownRecord_rebalance (liveNodes : List NodeInfo) (rf : Nat) :
    (rebalance liveNodes rf).Only OwnRecord := by
  unfold rebalance
  dsimp only
  split
  · exact ownRecord_shards
  · exact ownRecord_shards.bind fun previous =>
      (ownRecord_updateAll _).bind fun _ => trivial

theorem ownRecord_updateCommitIndex (s : Int) (k : Nat) :
    (updateCommitIndex s k).Only OwnRecord := by
  refine (ownRecord_shard s).bind fun m => ?_
  split
  · exact ownRecord_updateShard _
  · trivial

end ZkProg

/-- Every call writes records to the znodes of their shards. -/
theorem StoreCall.ownRecord (x : StoreCall) : x.program.Only OwnRecord := by
  cases x with
  | electPrimary s liveNodes =>
    exact (ZkProg.ownRecord_electPrimary s liveNodes).bind fun _ => trivial
  | rebalance liveNodes rf => exact ZkProg.ownRecord_rebalance liveNodes rf
  | updateCommitIndex s k =>
    exact (ZkProg.ownRecord_updateCommitIndex s k).bind fun _ => trivial

namespace ZooKeeper

variable {zk : ZooKeeper} {z : ZkMetadataStore}

/-- The znodes are listed once, and each has the record of its shard. -/
structure Keyed (zk : ZooKeeper) : Prop where
  distinct : zk.children.Nodup
  listed : ∀ s, s ∈ zk.children ↔ zk.shards s ≠ none
  shardId : ∀ s n, zk.shards s = some n → n.data.shardId = s

/-- A store with different shards as ZooKeeper holds it. -/
theorem Keyed.ofStore (z : ZkMetadataStore) : (ofStore z).Keyed where
  distinct := List.nodup_dedup _
  listed := by
    intro s
    refine ⟨(Ok.ofStore z).there s, fun hs => ?_⟩
    obtain ⟨n, hn⟩ := Option.ne_none_iff_exists'.mp hs
    obtain ⟨m, hm, rfl⟩ := Option.map_eq_some_iff.mp hn
    refine List.mem_dedup.mpr (List.mem_map.mpr ⟨m, List.mem_of_find?_eq_some hm, ?_⟩)
    exact ZkMetadataStore.shardId_of_shard hm
  shardId := (Ok.ofStore z).shardId

/-- A record is written to the znode of its shard. -/
theorem Keyed.write (h : zk.Keyed) {s : Int} {d : ShardMetadata} (hd : d.shardId = s) (v : Nat)
    {children : List Int} (hdistinct : children.Nodup)
    (hlisted : ∀ t, t ∈ children ↔ t = s ∨ t ∈ zk.children) :
    Keyed { zk.write s { data := d, version := v } with children := children } where
  distinct := hdistinct
  listed := by
    intro t
    rw [hlisted]
    by_cases hts : t = s
    · simp [ZooKeeper.write, hts]
    · simp [ZooKeeper.write, hts, h.listed t]
  shardId := by
    intro t n hn
    by_cases hts : t = s
    · subst hts
      have hn : some { data := d, version := v } = some n := by
        simpa [ZooKeeper.write] using hn
      rw [← Option.some.inj hn]
      exact hd
    · exact h.shardId t n (by simpa [ZooKeeper.write, Function.update_of_ne hts] using hn)

/-- The operations keep the znodes keyed. -/
theorem Keyed.sem (h : zk.Keyed) {o : ZkOp} (ho : OwnRecord o) : (zk.sem o).2.Keyed := by
  cases o with
  | getChildren => exact h
  | getData s => exact h
  | existsNode s => exact h
  | create s d =>
    obtain ⟨hnone, hsem⟩ | hsem := zk.sem_create s d
    · rw [hsem]
      have hnew : s ∉ zk.children := fun hs => (h.listed s).mp hs hnone
      refine h.write ho 0 ?_ fun t => ?_
      · exact List.nodup_append.mpr ⟨h.distinct, List.nodup_singleton s, by
          intro a ha b hb hab
          rw [hab, List.mem_singleton.mp hb] at ha
          exact hnew ha⟩
      · rw [List.mem_append, List.mem_singleton, or_comm]
    · rw [hsem]
      exact h
  | setData s d v =>
    obtain ⟨x, hx, _, hsem⟩ | hsem := zk.sem_setData s d v
    · rw [hsem]
      refine h.write ho (v + 1) h.distinct fun t => ⟨Or.inr, ?_⟩
      rintro (rfl | ht)
      · exact (h.listed t).mpr (by rw [hx]; exact Option.some_ne_none x)
      · exact ht
    · rw [hsem]
      exact h

/-- A store with these records has for each shard the record of its znode. -/
theorem Keyed.shard_records (h : zk.Keyed) (hz : z.shardNodes = zk.records) (s : Int) :
    z.shard s = (zk.shards s).map (·.data) := by
  have hkey (t : Int) : ((zk.shards t).map (·.data)).any (fun m => m.shardId == s) = true ↔
      t = s ∧ zk.shards s ≠ none := by
    cases ht : zk.shards t with
    | none =>
      simp only [Option.map_none, Option.any_none, Bool.false_eq_true, false_iff, not_and, not_not]
      rintro rfl
      exact ht
    | some n =>
      have hid := h.shardId t n ht
      simp only [Option.map_some, Option.any_some, hid, beq_iff_eq]
      refine ⟨?_, And.left⟩
      rintro rfl
      exact ⟨rfl, by rw [ht]; exact Option.some_ne_none n⟩
  unfold ZkMetadataStore.shard
  rw [hz, records, List.find?_filterMap]
  cases hfind : zk.children.find?
      (fun t => ((zk.shards t).map (·.data)).any fun m => m.shardId == s) with
  | none =>
    -- the shard has no znode
    cases hs : zk.shards s with
    | none => rfl
    | some n =>
      have hthere : zk.shards s ≠ none := by rw [hs]; exact Option.some_ne_none n
      exact absurd ((hkey s).mpr ⟨rfl, hthere⟩)
        (List.find?_eq_none.mp hfind s ((h.listed s).mpr hthere))
  | some t =>
    have ht := List.find?_some (p := fun t => ((zk.shards t).map (·.data)).any fun m =>
      m.shardId == s) hfind
    obtain ⟨rfl, -⟩ := (hkey t).mp ht
    rfl

/-- The records have different ids. -/
theorem Keyed.distinct_records (h : zk.Keyed) (hz : z.shardNodes = zk.records) : z.Distinct := by
  have hids : zk.records.map (·.shardId) =
      zk.children.filter (fun s => (zk.shards s).isSome) := by
    unfold records
    rw [List.map_filterMap, ← List.filterMap_eq_filter]
    congr 1
    funext s
    cases hs : zk.shards s with
    | none => simp [Option.guard, hs]
    | some n => simp [Option.guard, hs, h.shardId s n hs]
  unfold ZkMetadataStore.Distinct
  rw [hz, hids]
  exact h.distinct.filter _

theorem records_ofStore (hz : z.Distinct) : (ofStore z).records = z.shardNodes := by
  have hchildren : (ofStore z).children = z.shardNodes.map (·.shardId) := List.Nodup.dedup hz
  unfold records
  rw [hchildren, List.filterMap_map]
  refine (List.filterMap_congr fun m hm => ?_).trans List.filterMap_some
  have hshard := hz.shard_eq ((List.mem_insertionSort _).mpr hm)
  simp [ofStore, hshard]

end ZooKeeper

namespace Cluster

variable {c c' : Cluster} {a : Action}

/-- Steps that run none of the three methods leave the shard records alone. -/
theorem step_shardNodes (h : c.step a = some c') (ha : ZkCluster.callsStore c a = false) :
    c'.zk.shardNodes = c.zk.shardNodes := by
  cases stepCases_of_step h with
  | elect _ _ => cases ha
  | rebalance => cases ha
  | commit hcall _ hquorum hs =>
    -- this is the end that calls `updateCommitIndex`
    simp [ZkCluster.callsStore, hcall, hquorum, hs] at ha
  | @allocate _ _ _ shard _ _ _ =>
    show (c.zk.nextShardLogIndex shard.shardId).1.shardNodes = c.zk.shardNodes
    unfold ZkMetadataStore.nextShardLogIndex
    split
    · rfl
    · rfl
  | @deliver _ fault output e _ _ =>
    obtain ⟨_, _, _, _, _, _, _, hzk⟩ :=
      c.frame_executeOn e.target.nodeId e.request fault output
    exact hzk
  | @query nodeId sql output fault _ _ _ heq =>
    obtain ⟨_, _, _, _, _, _, _, hzk⟩ :=
      c.frame_executeOn nodeId (readRequest sql) fault output
    rw [heq]
    exact hzk
  | _ => rfl

end Cluster

namespace ZkCluster

variable {c c' : ZkCluster} {a : ZkAction} {call : Nat}

/-- The actions that are possible in `c`, each with what held before and the state after. -/
inductive StepCases (c : ZkCluster) : ZkAction → ZkCluster → Prop
  | act {b : Action} {cluster : Cluster} : callsStore c.cluster b = false →
      c.cluster.step b = some cluster → StepCases c (.act b) { c with cluster := cluster }
  | elect {call : Nat} {shardId : Int} {liveNodes : List NodeInfo} :
      StepCases c (.elect call) (c.startFor call (.electPrimary shardId liveNodes))
  | elected {call : Nat} {shardId : Int} {sql : String} {liveNodes : List NodeInfo}
      {shard : ShardMetadata} : c.cluster.calls call = some (.electing shardId sql liveNodes) →
      StepCases c (.elected call)
        (c.goOn call (c.cluster.setCall call (Call.chooseReplicas shard sql liveNodes)))
  | commit {call : Nat} {d : Dispatch} : c.cluster.calls call = some (.sending d) →
      d.todo = [] → d.hasQuorum = true → 0 ≤ d.shardId →
      StepCases c (.commit call)
        (c.startFor call (.updateCommitIndex d.shardId d.shardLogIndex))
  | committed {call : Nat} {d : Dispatch} : c.cluster.calls call = some (.sending d) →
      d.hasQuorum = true →
      StepCases c (.committed call) (c.goOn call ({ c.cluster with
        committed := d :: c.cluster.committed }.setCall call (.replied d true)))
  | rebalance {replicationFactor : Nat} : StepCases c (.rebalance replicationFactor)
      (c.startCall (.rebalance c.cluster.zk.liveNodes replicationFactor))
  | op {k : Nat} : StepCases c (.op k) (c.runOp k)

/-- Every step is one of these. -/
theorem stepCases_of_step (h : c.step a = some c') : StepCases c a c' := by
  cases a with
  | act b =>
    unfold step at h
    dsimp only at h
    split at h
    · cases h
    · next hb =>
      obtain ⟨cluster, hcluster, rfl⟩ := Option.map_eq_some_iff.mp h
      exact .act (Bool.eq_false_iff.mpr hb) hcluster
  | elect call =>
    change c.elect call = some c' at h
    unfold elect at h
    split at h
    · obtain rfl := Option.some.inj h
      exact .elect
    · cases h
  | elected call =>
    change c.elected call = some c' at h
    unfold elected at h
    split at h
    · next hcall _ =>
      obtain rfl := Option.some.inj h
      exact .elected hcall
    · cases h
  | commit call =>
    change c.commit call = some c' at h
    unfold commit at h
    split at h
    · next hcall _ =>
      split at h
      · next hd =>
        obtain rfl := Option.some.inj h
        exact .commit hcall hd.1 hd.2.1 hd.2.2
      · cases h
    · cases h
  | committed call =>
    change c.committed call = some c' at h
    unfold committed at h
    split at h
    · next hcall _ =>
      split at h
      · next hd =>
        obtain rfl := Option.some.inj h
        exact .committed hcall hd.2.1
      · cases h
    · cases h
  | rebalance replicationFactor =>
    obtain rfl := Option.some.inj h
    exact .rebalance
  | op k =>
    obtain rfl := Option.some.inj h
    exact .op

/-- The cluster has the records of ZooKeeper, and the calls write records under their own ids. -/
structure Synced (c : ZkCluster) : Prop where
  keyed : c.pool.shared.Keyed
  records : c.cluster.zk.shardNodes = c.pool.shared.records
  ops : ∀ x ∈ c.pool.calls, x.prog.Only OwnRecord

theorem Synced.startCall (h : c.Synced) (x : StoreCall) : (c.startCall x).Synced where
  keyed := h.keyed
  records := h.records
  ops := by
    intro y hy
    obtain hy | hy := List.mem_append.mp hy
    · exact h.ops y hy
    · rw [List.mem_singleton.mp hy]
      exact x.ownRecord

/-- An operation is made by a call, or there is none to make. -/
theorem op_cases (pool : ZkPool) (k : Nat) :
    pool.step (.op k) = pool ∨ ∃ g o next, pool.calls[k]? = some ⟨g, .call o next⟩ ∧
      pool.step (.op k) =
        { shared := (pool.shared.sem o).2
          calls := pool.calls.set k
            ⟨zooKeeper.note g o (pool.shared.sem o).1, next (pool.shared.sem o).1⟩ } := by
  unfold ZkPool.step Pool.step
  dsimp only
  split
  · next g o next hk => exact Or.inr ⟨g, o, next, hk, rfl⟩
  · exact Or.inl rfl

/-- One operation changes store and cluster alike. -/
theorem Synced.runOp (h : c.Synced) (k : Nat) : (c.runOp k).Synced := by
  obtain hsame | ⟨g, o, next, hk, hpool⟩ := op_cases c.pool k
  · unfold ZkCluster.runOp
    rw [hsame]
    exact ⟨h.keyed, rfl, h.ops⟩
  · obtain ⟨ho, hnext⟩ := h.ops _ (List.mem_of_getElem? hk)
    unfold ZkCluster.runOp
    rw [hpool]
    refine ⟨h.keyed.sem ho, rfl, fun x hx => ?_⟩
    obtain hx | rfl := List.mem_or_eq_of_mem_set hx
    · exact h.ops x hx
    · exact hnext _

/-- So each action keeps the two in step. -/
theorem Synced.step (h : c.Synced) (hstep : c.step a = some c') : c'.Synced := by
  cases stepCases_of_step hstep with
  | act hb hcluster =>
    exact ⟨h.keyed, (Cluster.step_shardNodes hcluster hb).trans h.records, h.ops⟩
  | elect => exact ⟨(h.startCall _).keyed, h.records, (h.startCall _).ops⟩
  | elected _ => exact ⟨h.keyed, h.records, h.ops⟩
  | commit _ _ _ _ => exact ⟨(h.startCall _).keyed, h.records, (h.startCall _).ops⟩
  | committed _ _ => exact ⟨h.keyed, h.records, h.ops⟩
  | rebalance => exact h.startCall _
  | @op k => exact h.runOp k

theorem Synced.new (nodeIds : List String) (shardCount replicationFactor : Nat) :
    (new nodeIds shardCount replicationFactor).Synced where
  keyed := .ofStore _
  records := (ZooKeeper.records_ofStore
    (ZkMetadataStore.Distinct.initializeShards nodeIds shardCount replicationFactor)).symm
  ops := fun x hx => by cases hx

theorem Synced.shard (h : c.Synced) (s : Int) :
    c.cluster.zk.shard s = (c.pool.shared.shards s).map (·.data) :=
  h.keyed.shard_records h.records s

/-- What holds of the calls and of the network does not speak of the shard records. -/
theorem commitInv_step (h : c.cluster.CommitInv) (hstep : c.step a = some c') :
    c'.cluster.CommitInv := by
  cases stepCases_of_step hstep with
  | act _ hcluster => exact h.step hcluster
  | @elected _ _ _ _ shard hcall =>
    exact h.chosen hcall shard ⟨h.wf.nodes, h.wf.ids, h.wf.states⟩ (fun i => .refl _) rfl
      (fun e he => he) rfl
  | committed hcall hquorum =>
    exact h.ended hcall (fun _ => hquorum) ⟨h.wf.nodes, h.wf.ids, h.wf.states⟩
      (fun i => .refl _) rfl (fun e he => he) rfl
  | op =>
    exact h.frame ⟨h.wf.nodes, h.wf.ids, h.wf.states⟩ (fun i => .refl _) rfl (fun e he => he) rfl
  | elect => exact h
  | commit _ _ _ _ => exact h
  | rebalance => exact h

end ZkCluster

end DisMiniSql.Distributed
