import Mathlib.Data.Nat.ModEq
import DisMiniSql.Distributed.Zk.MetadataCalls
import DisMiniSql.Proofs.Distributed.ZkMetadataStore

/-!
# `DisMiniSql.Proofs.Distributed.ShardRecords`: the shard records are well formed

The calls of any number of coordinators run at the same time and write whole records, made of
copies that may be stale. A record that a call writes is well formed by itself: its replicas are
consecutive nodes of a ring of distinct nodes, and its primary is chosen among them; or it is a
record that was stored, with another primary out of its replicas or another commit index. So it
does not matter which record it replaces (`shard_records_well_formed`).
-/

set_option autoImplicit false

namespace DisMiniSql.Distributed

open DisMiniSql.Lib (Prog SharedObject Contract Pool PoolAction Steps)

/-- What holds of the record of a shard. -/
structure ShardMetadata.WellFormed (replicationFactor : Nat) (shardId : Int) (m : ShardMetadata) :
    Prop where
  replicas_ne_nil : m.replicas ≠ []
  nodup : m.replicas.Nodup
  length_le : m.replicas.length ≤ replicationFactor
  primary_mem : ∃ p ∈ m.replicas, m.primary = some p
  shardId_eq : m.shardId = shardId

namespace ZkMetadataStore

variable {nodeIds : List String} {shardId rf : Nat}

/-- Fewer steps than nodes do not come back to the same place of the ring. -/
theorem ring_inj {n a b : Nat} (ha : a < n) (hb : b < n)
    (h : (shardId + a) % n = (shardId + b) % n) : a = b := by
  have hmod : a % n = b % n := Nat.ModEq.add_left_cancel' shardId h
  rwa [Nat.mod_eq_of_lt ha, Nat.mod_eq_of_lt hb] at hmod

/-- A window of the ring names no node twice. -/
theorem nodup_ringReplicas (hids : nodeIds.Nodup) : (ringReplicas nodeIds shardId rf).Nodup := by
  unfold ringReplicas
  refine List.pairwise_filterMap.mpr ?_
  refine List.Pairwise.imp_of_mem ?_ List.pairwise_lt_range
  intro a b ha hb hlt x hx y hy hxy
  subst hxy
  have ha : a < nodeIds.length := (List.mem_range.mp ha).trans_le (min_le_right _ _)
  have hb : b < nodeIds.length := (List.mem_range.mp hb).trans_le (min_le_right _ _)
  have hpos : 0 < nodeIds.length := Nat.zero_lt_of_lt ha
  have hplace : (shardId + a) % nodeIds.length = (shardId + b) % nodeIds.length :=
    (List.getElem?_inj (Nat.mod_lt _ hpos) hids).mp (hx.trans hy.symm)
  exact absurd (ring_inj ha hb hplace) (Nat.ne_of_lt hlt)

theorem length_ringReplicas_le : (ringReplicas nodeIds shardId rf).length ≤ rf := by
  have hlen := List.length_filterMap_le
    (fun replica => nodeIds[(shardId + replica) % nodeIds.length]?)
    (List.range (min rf nodeIds.length))
  rw [List.length_range] at hlen
  exact hlen.trans (min_le_left _ _)

theorem ringReplicas_ne_nil (hids : nodeIds ≠ []) (hrf : 1 ≤ rf) :
    ringReplicas nodeIds shardId rf ≠ [] := by
  have hpos : 0 < nodeIds.length := List.length_pos_of_ne_nil hids
  have hlt : (shardId + 0) % nodeIds.length < nodeIds.length := Nat.mod_lt _ hpos
  refine List.ne_nil_of_mem (List.mem_filterMap.mpr ⟨0, ?_, List.getElem?_eq_getElem hlt⟩)
  exact List.mem_range.mpr (lt_min hrf hpos)

/-- The balanced primary is one of the nodes to choose from. -/
theorem chooseBalancedPrimary_mem {replicas : List String} (h : replicas ≠ [])
    (counts : String → Nat) : ∃ p ∈ replicas, chooseBalancedPrimary replicas counts = some p := by
  have hperm := List.perm_insertionSort (fun a b => counts a < counts b ∨
    (counts a = counts b ∧ a ≤ b)) replicas
  unfold chooseBalancedPrimary
  generalize replicas.insertionSort (fun a b => counts a < counts b ∨
    (counts a = counts b ∧ a ≤ b)) = sorted at hperm ⊢
  cases sorted with
  | nil => exact absurd hperm.symm.eq_nil h
  | cons p ps => exact ⟨p, hperm.mem_iff.mp List.mem_cons_self, rfl⟩

/-- Each record gets a primary out of its own replicas. -/
theorem mem_assignBalancedPrimaries {assigned ms : List ShardMetadata} {m : ShardMetadata}
    (hm : m ∈ assignBalancedPrimaries assigned ms) :
    m ∈ assigned ∨ ∃ x ∈ ms, ∃ counts,
      m = { x with primary := chooseBalancedPrimary x.replicas counts } := by
  induction ms generalizing assigned with
  | nil => exact Or.inl hm
  | cons x xs ih =>
    obtain hm | ⟨y, hy, counts, rfl⟩ := ih hm
    · obtain hm | hm := List.mem_append.mp hm
      · exact Or.inl hm
      · exact Or.inr ⟨x, List.mem_cons_self, _, List.mem_singleton.mp hm⟩
    · exact Or.inr ⟨y, List.mem_cons_of_mem _ hy, counts, rfl⟩

/-- What `rebalance` writes is well formed, whatever it has read. -/
theorem wellFormed_of_mem_rebalanced (hids : nodeIds.Nodup) (hne : nodeIds ≠ []) (hrf : 1 ≤ rf)
    {previous : List ShardMetadata} {m : ShardMetadata} (hm : m ∈ rebalanced nodeIds rf previous) :
    m.WellFormed rf m.shardId := by
  obtain ⟨⟨x, old⟩, hx, rfl⟩ := List.mem_map.mp hm
  obtain hx | ⟨y, hy, counts, rfl⟩ := mem_assignBalancedPrimaries (List.of_mem_zip hx).1
  · cases hx
  obtain ⟨old', _, rfl⟩ := List.mem_map.mp hy
  -- the term does not matter
  have hwf : ∀ term commitIndex, ShardMetadata.WellFormed rf old'.shardId
      { shardId := old'.shardId
        replicas := (ringReplicas nodeIds old'.shardId.toNat rf).insertionSort (· ≤ ·)
        primary := chooseBalancedPrimary
          ((ringReplicas nodeIds old'.shardId.toNat rf).insertionSort (· ≤ ·)) counts
        term := term
        commitIndex := commitIndex } := by
    intro term commitIndex
    have hperm := List.perm_insertionSort (· ≤ ·) (ringReplicas nodeIds old'.shardId.toNat rf)
    have hnil : (ringReplicas nodeIds old'.shardId.toNat rf).insertionSort (· ≤ ·) ≠ [] := by
      intro h
      rw [h] at hperm
      exact ringReplicas_ne_nil hne hrf hperm.symm.eq_nil
    refine ⟨hnil, hperm.nodup_iff.mpr (nodup_ringReplicas hids), ?_,
      chooseBalancedPrimary_mem hnil counts, rfl⟩
    rw [hperm.length_eq]
    exact length_ringReplicas_le
  dsimp only
  split
  · exact hwf _ _
  · exact hwf _ _

end ZkMetadataStore

/-- Only well-formed records are written, so only such records are read. -/
def recordContract (rf : Nat) : Contract ZkOp ZkOp.Res Unit where
  pre := fun _ o =>
    match o with
    | .create shardId data => data.WellFormed rf shardId
    | .setData shardId data _ => data.WellFormed rf shardId
    | _ => True
  may := fun _ o r =>
    match o, r with
    | .getData shardId, some n => n.data.WellFormed rf shardId
    | _, _ => True

/-- The shard records alone. -/
def shardRecords : SharedObject ZkOp ZkOp.Res ZooKeeper Unit where
  sem := ZooKeeper.sem
  note := fun _ _ _ => ()

namespace ZkProg

variable {α : Type} {rf : Nat}

/-- The program writes well-formed records only. -/
abbrev WritesWellFormed (rf : Nat) (p : ZkProg α) (post : α → Prop) : Prop :=
  Prog.Safe shardRecords (recordContract rf) (fun _ a => post a) () p

theorem writes_shard (s : Int) :
    WritesWellFormed rf (shard s) (fun m => m.WellFormed rf s) := by
  refine Prog.Safe.bind (Prog.Safe.op trivial fun r hr => ?_)
  cases r with
  | none => trivial
  | some n => exact hr

theorem writes_readAll (children : List Int) :
    WritesWellFormed rf (readAll children) (fun _ => True) := by
  induction children with
  | nil => trivial
  | cons s children ih =>
    refine Prog.Safe.bind ((writes_shard s).mono fun _ m _ => ?_)
    exact Prog.Safe.bind (ih.mono fun _ ms _ => trivial)

theorem writes_shards : WritesWellFormed rf shards (fun _ => True) := by
  refine Prog.Safe.bind (Prog.Safe.op trivial fun children _ => ?_)
  exact Prog.Safe.bind ((writes_readAll children).mono fun _ ms _ => trivial)

/-- Writing one, created or replaced. -/
theorem writes_updateShard {m : ShardMetadata} (hm : m.WellFormed rf m.shardId) :
    WritesWellFormed rf (updateShard m) (fun _ => True) := by
  refine Prog.Safe.bind (Prog.Safe.op trivial fun stat _ => ?_)
  cases stat with
  | none =>
    refine Prog.Safe.bind (Prog.Safe.op hm fun created _ => ?_)
    cases created with
    | false => trivial
    | true => trivial
  | some version =>
    refine Prog.Safe.bind (Prog.Safe.op hm fun written _ => ?_)
    cases written with
    | false => trivial
    | true => trivial

theorem writes_updateAll {ms : List ShardMetadata} (hms : ∀ m ∈ ms, m.WellFormed rf m.shardId) :
    WritesWellFormed rf (updateAll ms) (fun _ => True) := by
  induction ms with
  | nil => trivial
  | cons m ms ih =>
    refine Prog.Safe.bind ((writes_updateShard (hms m List.mem_cons_self)).mono fun _ _ _ => ?_)
    exact ih fun x hx => hms x (List.mem_cons_of_mem _ hx)

/-- The new primary is one of the live replicas of the record that was read. -/
theorem writes_electPrimary (s : Int) (liveNodes : List NodeInfo) :
    WritesWellFormed rf (electPrimary s liveNodes) (fun _ => True) := by
  refine Prog.Safe.bind ((writes_shard s).mono fun _ m hm => ?_)
  dsimp only
  split
  · trivial
  split
  · trivial
  rename_i hlive
  refine Prog.Safe.bind (Prog.Safe.bind (writes_shards.mono fun _ ms _ => ?_))
  show Prog.Safe _ _ _ _ (ite _ _ _)
  split
  · trivial
  have hne : m.replicas.filter
      (fun r => (ZkMetadataStore.liveServingNodeIds liveNodes).contains r) ≠ [] :=
    fun h => hlive (List.isEmpty_iff.mpr h)
  obtain ⟨p, hp, hchosen⟩ := ZkMetadataStore.chooseBalancedPrimary_mem hne
    (ZkMetadataStore.primaryCount (ms.filter (fun x => x.shardId != s)))
  refine Prog.Safe.bind ((writes_updateShard ?_).mono fun _ _ _ => trivial)
  exact ⟨hm.replicas_ne_nil, hm.nodup, hm.length_le, ⟨p, List.mem_of_mem_filter hp, hchosen⟩, rfl⟩

/-- A rebalance. -/
theorem writes_rebalance {liveNodes : List NodeInfo} (hids : (liveNodes.map (·.nodeId)).Nodup)
    (hrf : 1 ≤ rf) : WritesWellFormed rf (rebalance liveNodes rf) (fun _ => True) := by
  unfold rebalance
  dsimp only
  split
  · exact writes_shards
  rename_i hne
  refine Prog.Safe.bind (writes_shards.mono fun _ previous _ => ?_)
  refine Prog.Safe.bind ((writes_updateAll fun m hm => ?_).mono fun _ _ _ => trivial)
  refine ZkMetadataStore.wellFormed_of_mem_rebalanced ?_ ?_ hrf hm
  · exact (List.perm_insertionSort _ _).nodup_iff.mpr hids
  · exact fun h => hne (List.isEmpty_iff.mpr h)

theorem writes_updateCommitIndex (s : Int) (k : Nat) :
    WritesWellFormed rf (updateCommitIndex s k) (fun _ => True) := by
  refine Prog.Safe.bind ((writes_shard s).mono fun _ m hm => ?_)
  dsimp only
  split
  · refine writes_updateShard ?_
    exact ⟨hm.replicas_ne_nil, hm.nodup, hm.length_le, hm.primary_mem, rfl⟩
  · trivial

theorem writes_upsertPersistentIfAbsent {s : Int} {m : ShardMetadata} (hm : m.WellFormed rf s) :
    WritesWellFormed rf (upsertPersistentIfAbsent s m) (fun _ => True) := by
  refine Prog.Safe.bind (Prog.Safe.op trivial fun stat _ => ?_)
  cases stat with
  | none => exact Prog.Safe.bind (Prog.Safe.op hm fun _ _ => trivial)
  | some version => trivial

end ZkProg

/-- The node ids that a call is given are distinct, and the replication factor is this one. -/
def MetadataCall.Regular (rf : Nat) : MetadataCall → Prop
  | .initializeShards nodeIds _ replicationFactor => nodeIds.Nodup ∧ replicationFactor = rf
  | .store (.rebalance liveNodes replicationFactor) =>
    (liveNodes.map (·.nodeId)).Nodup ∧ replicationFactor = rf
  | _ => True

/-- The contract of the shard records, with free use of the counters. -/
def metadataContract (rf : Nat) :
    Contract MetadataOp (Lib.SumRes ZkOp.Res CounterOp.Res) CounterNote where
  pre := fun _ o =>
    match o with
    | .inl o => (recordContract rf).pre () o
    | .inr _ => True
  may := fun _ o r =>
    match o, r with
    | .inl o, r => (recordContract rf).may () o r
    | .inr _, _ => True

namespace MetadataProg

variable {α : Type} {rf : Nat} {g : CounterNote}

/-- The program writes well-formed records only. -/
abbrev WritesWellFormed (rf : Nat) (g : CounterNote) (p : MetadataProg α) : Prop :=
  Prog.Safe metadataTree (metadataContract rf) (fun _ _ => True) g p

theorem writes_inl {p : ZkProg α} (h : ZkProg.WritesWellFormed rf p (fun _ => True)) :
    WritesWellFormed rf g p.inl :=
  Prog.Safe.inl (fun _ => ()) (fun _ _ _ => rfl) (fun _ _ hpre => hpre)
    (fun _ _ _ hmay => hmay) h

theorem writes_inr (p : CounterProg α) : WritesWellFormed rf g p.inr :=
  Prog.Safe.of_only (P := fun o => o.isRight = true) (fun _ o ho => by
    cases o with
    | inl o => cases ho
    | inr o => trivial) (Prog.only_inr (fun _ => rfl) p)

/-- `initializeShards` takes the replicas from the ring, and the first one is the primary. -/
theorem writes_initializeEach {nodeIds : List String} (hids : nodeIds.Nodup)
    (shardIds : List Nat) : WritesWellFormed rf g (initializeEach nodeIds rf shardIds) := by
  induction shardIds generalizing g with
  | nil => trivial
  | cons shardId shardIds ih =>
    unfold initializeEach
    dsimp only
    split
    · trivial
    rename_i primary rest hreplicas
    have hwf : ShardMetadata.WellFormed rf shardId
        { shardId := shardId
          replicas := ZkMetadataStore.ringReplicas nodeIds shardId rf
          primary := some primary } := by
      refine ⟨?_, ZkMetadataStore.nodup_ringReplicas hids, ZkMetadataStore.length_ringReplicas_le,
        ⟨primary, ?_, rfl⟩, rfl⟩
      · rw [hreplicas]
        exact List.cons_ne_nil _ _
      · rw [hreplicas]
        exact List.mem_cons_self
    refine Prog.Safe.bind ((writes_inl (ZkProg.writes_upsertPersistentIfAbsent hwf)).mono ?_)
    intro g _ _
    refine Prog.Safe.bind ((writes_inr _).mono ?_)
    intro g _ _
    exact ih

theorem writes_initializeShards {nodeIds : List String} (hids : nodeIds.Nodup) (shardCount : Nat) :
    WritesWellFormed rf g (initializeShards nodeIds shardCount rf) := by
  unfold initializeShards
  dsimp only
  split
  · trivial
  · exact writes_initializeEach ((List.perm_insertionSort _ _).nodup_iff.mpr hids) _

end MetadataProg

/-- Every call writes well-formed records only. -/
theorem MetadataCall.writes {rf : Nat} (hrf : 1 ≤ rf) {call : MetadataCall}
    (hcall : call.Regular rf) : MetadataProg.WritesWellFormed rf {} call.program := by
  cases call with
  | initializeShards nodeIds shardCount replicationFactor =>
    obtain ⟨hids, rfl⟩ := hcall
    exact Prog.Safe.bind ((MetadataProg.writes_initializeShards hids shardCount).mono
      fun _ _ _ => trivial)
  | nextShardLogIndex shardId attempts =>
    exact Prog.Safe.bind ((MetadataProg.writes_inr _).mono fun _ _ _ => trivial)
  | store call =>
    refine Prog.Safe.bind ((MetadataProg.writes_inl ?_).mono fun _ _ _ => trivial)
    cases call with
    | electPrimary s liveNodes =>
      exact Prog.Safe.bind ((ZkProg.writes_electPrimary s liveNodes).mono fun _ _ _ => trivial)
    | rebalance liveNodes replicationFactor =>
      obtain ⟨hids, rfl⟩ := hcall
      exact ZkProg.writes_rebalance hids hrf
    | updateCommitIndex s k =>
      exact Prog.Safe.bind ((ZkProg.writes_updateCommitIndex s k).mono fun _ _ _ => trivial)

/-- Every record is well formed. -/
def MetadataTree.RecordsWellFormed (rf : Nat) (tree : MetadataTree) : Prop :=
  ∀ s n, tree.zk.shards s = some n → n.data.WellFormed rf s

/-- An operation replaces a record by the one that it is given, or leaves all of them. -/
theorem ZooKeeper.shards_sem (zk : ZooKeeper) (o : ZkOp) :
    (zk.sem o).2.shards = zk.shards ∨ ∃ s d v,
      (o = .create s d ∨ ∃ v', o = .setData s d v') ∧
      (zk.sem o).2.shards = Function.update zk.shards s (some { data := d, version := v }) := by
  cases o with
  | getChildren => exact Or.inl rfl
  | getData s => exact Or.inl rfl
  | existsNode s => exact Or.inl rfl
  | create s d =>
    cases hs : zk.shards s with
    | none => exact Or.inr ⟨s, d, 0, Or.inl rfl, by simp [ZooKeeper.sem, hs, ZooKeeper.write]⟩
    | some n => exact Or.inl (by simp [ZooKeeper.sem, hs])
  | setData s d v =>
    cases hs : zk.shards s with
    | none => exact Or.inl (by simp [ZooKeeper.sem, hs])
    | some n =>
      by_cases hv : n.version = v
      · exact Or.inr ⟨s, d, v + 1, Or.inr ⟨v, rfl⟩,
          by simp [ZooKeeper.sem, hs, hv, ZooKeeper.write]⟩
      · exact Or.inl (by simp [ZooKeeper.sem, hs, hv])

/-- So every operation leaves well-formed records only. -/
theorem MetadataTree.sound_records (rf : Nat) :
    Pool.Sound metadataTree (metadataContract rf) (fun _ _ _ => True)
      (MetadataTree.RecordsWellFormed rf) (fun _ _ => True) where
  step := by
    intro tree g o htree _ hpre _
    refine ⟨?_, trivial, ?_⟩
    · cases o with
      | inr o => exact htree
      | inl o =>
        intro s n hn
        have hn : (tree.zk.sem o).2.shards s = some n := hn
        obtain hsame | ⟨t, d, v, ho, hwritten⟩ := tree.zk.shards_sem o
        · rw [hsame] at hn
          exact htree s n hn
        -- the precondition of both writes
        have hd : d.WellFormed rf t := by
          obtain rfl | ⟨v', rfl⟩ := ho
          · exact hpre
          · exact hpre
        rw [hwritten] at hn
        -- the record that is written, or another
        by_cases hst : s = t
        · subst hst
          rw [Function.update_self] at hn
          cases hn
          exact hd
        · rw [Function.update_of_ne hst] at hn
          exact htree s n hn
    · cases o with
      | inr o => trivial
      | inl o =>
        cases o with
        | getData s =>
          show (recordContract rf).may () (.getData s) (tree.zk.shards s)
          cases hs : tree.zk.shards s with
          | none => trivial
          | some n => exact htree s n hs
        | getChildren => trivial
        | existsNode s => trivial
        | create s d => trivial
        | setData s d v => trivial
  stable := fun _ _ _ _ _ => trivial

namespace MetadataPool

/-- For every order of the operations of any number of calls, with distinct node ids and one
replication factor: every record in ZooKeeper has replicas, none of them twice and at most as
many as the factor, its primary is one of them, and its `shardId` is that of its path. -/
theorem shard_records_well_formed {rf : Nat} (hrf : 1 ≤ rf)
    (actions : List (PoolAction MetadataCall))
    (hcalls : ∀ call, PoolAction.start call ∈ actions → call.Regular rf) {s : Int} {n : Znode}
    (hn : (actions.foldl step { shared := {} }).shared.zk.shards s = some n) :
    n.data.WellFormed rf s := by
  have hok := Pool.ok_foldl (MetadataTree.sound_records rf) (fun _ _ => trivial)
    (s := {}) (fun _ _ h => by cases h)
    (fun call hcall => MetadataCall.writes hrf (hcalls call hcall))
  exact hok.shared s n hn

/-- A registered node. -/
def registered (nodeId : String) : NodeInfo where
  nodeId := nodeId
  shards := []
  replicaState := .SERVING

/-- Two coordinators initialise at the same time, and the second one rebalances over fewer
nodes. -/
def initializeAndRebalance : List (PoolAction MetadataCall) :=
  [.start (.initializeShards ["n2", "n1", "n3"] 1 2),
    .start (.initializeShards ["n1", "n2", "n3"] 1 2), .op 0, .op 1, .op 1, .op 0, .op 1, .op 1,
    .start (.store (.rebalance [registered "n3", registered "n2"] 2)), .op 2, .op 2, .op 2, .op 2]

/-- The record that the rebalance writes. -/
def movedRecord : ShardMetadata where
  shardId := 0
  replicas := ["n2", "n3"]
  primary := some "n2"
  term := 2

/-- A record that a rebalance has moved. -/
theorem shard_records_well_formed_rebalance :
    ∃ n : Znode, n.version = 1 ∧ n.data = movedRecord ∧ n.data.WellFormed 2 0 := by
  refine ⟨{ data := movedRecord, version := 1 }, rfl, rfl, ?_⟩
  refine shard_records_well_formed (by decide) initializeAndRebalance ?_ (by decide +kernel)
  intro call hcall
  simp only [initializeAndRebalance, List.mem_cons, PoolAction.start.injEq, reduceCtorEq,
    List.not_mem_nil, or_false, false_or] at hcall
  obtain rfl | rfl | rfl := hcall
  · exact ⟨by decide, rfl⟩
  · exact ⟨by decide, rfl⟩
  · exact ⟨by decide, rfl⟩

end MetadataPool

end DisMiniSql.Distributed
