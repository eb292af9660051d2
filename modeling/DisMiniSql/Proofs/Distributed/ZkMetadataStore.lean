import DisMiniSql.Distributed.Zk.ZkMetadataStore

/-!
# `DisMiniSql.Proofs.Distributed.ZkMetadataStore`: what the methods do to the shard records

Every method that changes a shard record goes through `updateShard`. `shard_updateShard` says
what is read afterwards. `electPrimary_cases` and `updateCommitIndex_cases` list the outcomes of
the two methods on one shard, and `rebalance_induction` is the rule for `rebalance`, which
writes every record once.
-/

set_option autoImplicit false

namespace DisMiniSql.Distributed

namespace ZkMetadataStore

variable {z : ZkMetadataStore}

theorem nodes_updateShard (z : ZkMetadataStore) (m : ShardMetadata) :
    (z.updateShard m).nodes = z.nodes := by
  unfold updateShard
  split
  · rfl
  · rfl

theorem shardLogIndexes_updateShard (z : ZkMetadataStore) (m : ShardMetadata) :
    (z.updateShard m).shardLogIndexes = z.shardLogIndexes := by
  unfold updateShard
  split
  · rfl
  · rfl

/-- A record after `updateShard` is the new one or that of another shard. -/
theorem of_mem_updateShard {x m : ShardMetadata} (hm : m ∈ (z.updateShard x).shardNodes) :
    m = x ∨ (m ∈ z.shardNodes ∧ m.shardId ≠ x.shardId) := by
  unfold updateShard at hm
  split at hm
  · obtain ⟨y, hy, rfl⟩ := List.mem_map.mp hm
    split
    · exact Or.inl rfl
    · rename_i hne
      exact Or.inr ⟨hy, hne⟩
  · rename_i hnone
    obtain hm | hm := List.mem_append.mp hm
    · refine Or.inr ⟨hm, fun heq => hnone ?_⟩
      exact List.any_eq_true.mpr ⟨m, hm, by simpa using heq⟩
    · exact Or.inl (List.mem_singleton.mp hm)

/-- The first record of a shard after the records of another, or the same, are replaced. -/
theorem find?_map_replace (l : List ShardMetadata) (m : ShardMetadata) (s : Int) :
    (l.map (fun x => if x.shardId = m.shardId then m else x)).find? (fun x => x.shardId == s) =
      if m.shardId = s ∧ l.any (fun x => x.shardId == m.shardId) = true then some m
      else l.find? (fun x => x.shardId == s) := by
  induction l with
  | nil => simp
  | cons x xs ih =>
    rw [List.map_cons, List.any_cons]
    by_cases hx : x.shardId = m.shardId
    · rw [if_pos hx]
      by_cases hs : m.shardId = s
      · rw [List.find?_cons_of_pos (by simpa using hs), if_pos ⟨hs, by simp [hx]⟩]
      · rw [List.find?_cons_of_neg (by simpa using hs), ih, if_neg (fun h => hs h.1),
          if_neg (fun h => hs h.1), List.find?_cons_of_neg (by simpa [hx] using hs)]
    · rw [if_neg hx]
      by_cases hxs : x.shardId = s
      · have hms : m.shardId ≠ s := fun h => hx (hxs.trans h.symm)
        rw [List.find?_cons_of_pos (by simpa using hxs), if_neg (fun h => hms h.1),
          List.find?_cons_of_pos (by simpa using hxs)]
      · rw [List.find?_cons_of_neg (by simpa using hxs), ih,
          List.find?_cons_of_neg (by simpa using hxs)]
        simp [hx]

/-- What is read after `updateShard`. -/
theorem shard_updateShard (z : ZkMetadataStore) (m : ShardMetadata) (s : Int) :
    (z.updateShard m).shard s = if m.shardId = s then some m else z.shard s := by
  unfold updateShard
  split
  · rename_i hany
    rw [shard, find?_map_replace]
    simp [hany, shard]
  · rename_i hnone
    rw [shard, List.find?_append]
    by_cases hs : m.shardId = s
    · subst hs
      have hfind : z.shardNodes.find? (fun x => x.shardId == m.shardId) = none := by
        simpa using hnone
      rw [hfind, if_pos rfl]
      simp
    · rw [if_neg hs, List.find?_cons_of_neg (by simpa using hs)]
      simp [shard]

theorem shardId_of_shard {s : Int} {m : ShardMetadata} (h : z.shard s = some m) :
    m.shardId = s := by
  simpa using List.find?_some h

/-- `electPrimary` returns the record as it is, or writes it with a new primary and the next
term. -/
theorem electPrimary_cases {z' : ZkMetadataStore} {shardId : Int} {liveNodes : List NodeInfo}
    {m : ShardMetadata} (h : z.electPrimary shardId liveNodes = some (z', m)) :
    (z' = z ∧ z.shard shardId = some m) ∨
      ∃ old primary, z.shard shardId = some old ∧ old.primary ≠ primary ∧
        m = { old with primary := primary, term := old.term + 1 } ∧ z' = z.updateShard m := by
  unfold electPrimary at h
  split at h
  · cases h
  rename_i old hold
  dsimp only at h
  split at h
  · cases h
    exact Or.inl ⟨rfl, hold⟩
  split at h
  · cases h
    exact Or.inl ⟨rfl, hold⟩
  split at h
  · cases h
    exact Or.inl ⟨rfl, hold⟩
  rename_i hne
  cases h
  exact Or.inr ⟨old, _, hold, hne, rfl, rfl⟩

/-- `updateCommitIndex` does nothing or writes the record with a larger commit index. -/
theorem updateCommitIndex_cases (z : ZkMetadataStore) (shardId : Int) (k : Nat) :
    z.updateCommitIndex shardId k = z ∨
      ∃ old, z.shard shardId = some old ∧ old.commitIndex < k ∧
        z.updateCommitIndex shardId k = z.updateShard { old with commitIndex := k } := by
  unfold updateCommitIndex
  split
  · exact Or.inl rfl
  · rename_i old hold
    split
    · rename_i hlt
      exact Or.inr ⟨old, hold, hlt, rfl⟩
    · exact Or.inl rfl

theorem mem_of_mem_ringReplicas {nodeIds : List String} {shardId rf : Nat} {k : String}
    (hk : k ∈ ringReplicas nodeIds shardId rf) : k ∈ nodeIds := by
  obtain ⟨_, _, hget⟩ := List.mem_filterMap.mp hk
  exact List.mem_of_getElem? hget

/-- The primaries are the only thing that `assignBalancedPrimaries` sets. -/
theorem map_assignBalancedPrimaries {α : Type} (f : ShardMetadata → α)
    (hf : ∀ m primary, f { m with primary := primary } = f m) (assigned ms : List ShardMetadata) :
    (assignBalancedPrimaries assigned ms).map f = (assigned ++ ms).map f := by
  induction ms generalizing assigned with
  | nil => rw [assignBalancedPrimaries, List.append_nil]
  | cons m ms ih =>
    rw [assignBalancedPrimaries, ih]
    simp [hf]

/-- What `rebalance` writes for the record `old`: the replicas are live nodes, and the term is
the old one or, in any case for a new primary, the next. -/
structure Rebalanced (liveNodes : List NodeInfo) (old m : ShardMetadata) : Prop where
  shardId : m.shardId = old.shardId
  commitIndex : m.commitIndex = old.commitIndex
  term : m.term = old.term ∨ m.term = old.term + 1
  primary : m.primary ≠ old.primary → m.term = old.term + 1
  replicas : ∀ k ∈ m.replicas, k ∈ liveNodes.map (·.nodeId)

/-- Each record that is written is made of the old one at its place. -/
theorem rebalanced_forall₂ (liveNodes : List NodeInfo) (rf : Nat)
    (previous : List ShardMetadata) :
    List.Forall₂ (Rebalanced liveNodes) previous
      (rebalanced ((liveNodes.map (·.nodeId)).insertionSort (· ≤ ·)) rf previous) := by
  unfold rebalanced
  dsimp only
  generalize hring : (fun m : ShardMetadata => ({ m with
    replicas := (ringReplicas ((liveNodes.map (·.nodeId)).insertionSort (· ≤ ·)) m.shardId.toNat
      rf).insertionSort (· ≤ ·) } : ShardMetadata)) = ring
  have hmap := map_assignBalancedPrimaries
    (fun m : ShardMetadata => (m.shardId, m.commitIndex, m.term, m.replicas))
    (fun _ _ => rfl) [] (previous.map ring)
  rw [List.nil_append] at hmap
  generalize assignBalancedPrimaries [] (previous.map ring) = updated at hmap
  have hlen : updated.length = previous.length := by
    simpa using congrArg List.length hmap
  have hpairs : List.Forall₂ (fun old m => m.shardId = old.shardId ∧
      m.commitIndex = old.commitIndex ∧ m.term = old.term ∧
      ∀ k ∈ m.replicas, k ∈ liveNodes.map (·.nodeId)) previous updated := by
    refine List.forall₂_iff_get.mpr ⟨hlen.symm, fun i hi hi' => ?_⟩
    have hget : (updated.map (fun m : ShardMetadata =>
        (m.shardId, m.commitIndex, m.term, m.replicas)))[i]? =
        ((previous.map ring).map (fun m : ShardMetadata =>
          (m.shardId, m.commitIndex, m.term, m.replicas)))[i]? := by rw [hmap]
    rw [List.getElem?_map, List.getElem?_map, List.getElem?_map, List.getElem?_eq_getElem hi',
      List.getElem?_eq_getElem hi, ← hring] at hget
    simp only [Option.map_some, Option.some.injEq, Prod.mk.injEq] at hget
    obtain ⟨hid, hci, hterm, hreplicas⟩ := hget
    refine ⟨hid, hci, hterm, fun k hk => ?_⟩
    simp only [List.get_eq_getElem] at hk
    rw [hreplicas] at hk
    have hk := mem_of_mem_ringReplicas ((List.mem_insertionSort _).mp hk)
    exact (List.mem_insertionSort _).mp hk
  clear hmap hlen hring
  induction hpairs with
  | nil => exact List.Forall₂.nil
  | cons hm _ ih =>
    refine List.Forall₂.cons ?_ ih
    obtain ⟨hid, hci, hterm, hreplicas⟩ := hm
    dsimp only
    split
    · exact ⟨hid, hci, Or.inr (congrArg (· + 1) hterm), fun _ => congrArg (· + 1) hterm,
        hreplicas⟩
    · rename_i hsame
      exact ⟨hid, hci, Or.inl hterm, fun hne => absurd (Or.inr hne) hsame, hreplicas⟩

/-- Each record that is written is made of an old one. -/
theorem exists_of_mem_rebalanced {liveNodes : List NodeInfo} {rf : Nat}
    {previous : List ShardMetadata} {m : ShardMetadata}
    (hm : m ∈ rebalanced ((liveNodes.map (·.nodeId)).insertionSort (· ≤ ·)) rf previous) :
    ∃ old ∈ previous, Rebalanced liveNodes old m := by
  have hms := rebalanced_forall₂ liveNodes rf previous
  obtain ⟨i, hi, rfl⟩ := List.getElem_of_mem hm
  have hlen := hms.length_eq
  exact ⟨previous[i], List.getElem_mem _, (List.forall₂_iff_get.mp hms).2 i (by omega) hi⟩

/-- There are ids where there are nodes. -/
theorem liveIds_ne_nil {liveNodes : List NodeInfo} (hlive : liveNodes ≠ []) :
    ((liveNodes.map (·.nodeId)).insertionSort (· ≤ ·)).isEmpty ≠ true := by
  intro hnil
  have hlen := congrArg List.length (List.isEmpty_iff.mp hnil)
  rw [List.length_insertionSort, List.length_map, List.length_nil] at hlen
  exact hlive (List.length_eq_zero_iff.mp hlen)

/-- `rebalance` writes one record after another, in the order of the old ones. -/
theorem rebalance_eq_foldl (z : ZkMetadataStore) (liveNodes : List NodeInfo) (rf : Nat)
    (hlive : liveNodes ≠ []) :
    z.rebalance liveNodes rf =
      (rebalanced ((liveNodes.map (·.nodeId)).insertionSort (· ≤ ·)) rf z.shards).foldl
        updateShard z := by
  unfold rebalance rebalanced
  dsimp only
  rw [if_neg (liveIds_ne_nil hlive), List.foldl_map]
  congr 1
  funext y p
  split
  · rfl
  · rfl

/-- The rule for `rebalance`: what every write of a record keeps. -/
theorem rebalance_induction {P : ZkMetadataStore → Prop} (z : ZkMetadataStore)
    (liveNodes : List NodeInfo) (rf : Nat) (hz : P z)
    (hwrite : ∀ y old m, P y → old ∈ z.shards → Rebalanced liveNodes old m →
      P (y.updateShard m)) : P (z.rebalance liveNodes rf) := by
  by_cases hlive : liveNodes = []
  · subst hlive
    exact hz
  have hall := @exists_of_mem_rebalanced liveNodes rf z.shards
  rw [rebalance_eq_foldl z liveNodes rf hlive]
  generalize rebalanced _ rf z.shards = ms at hall ⊢
  have hfold : ∀ y, P y → P (ms.foldl updateShard y) := by
    induction ms with
    | nil => exact fun y hy => hy
    | cons m ms ih =>
      intro y hy
      obtain ⟨old, hold, hm⟩ := hall List.mem_cons_self
      exact ih (fun hm => hall (List.mem_cons_of_mem _ hm)) _ (hwrite y old m hy hold hm)
  exact hfold z hz

/-- The other znodes stay as they are. -/
theorem shardLogIndexes_rebalance (z : ZkMetadataStore) (liveNodes : List NodeInfo) (rf : Nat) :
    (z.rebalance liveNodes rf).shardLogIndexes = z.shardLogIndexes :=
  rebalance_induction (P := fun y => y.shardLogIndexes = z.shardLogIndexes) z liveNodes rf rfl
    (fun y _ m hy _ _ => (shardLogIndexes_updateShard y m).trans hy)

theorem nodes_rebalance (z : ZkMetadataStore) (liveNodes : List NodeInfo) (rf : Nat) :
    (z.rebalance liveNodes rf).nodes = z.nodes :=
  rebalance_induction (P := fun y => y.nodes = z.nodes) z liveNodes rf rfl
    (fun y _ m hy _ _ => (nodes_updateShard y m).trans hy)

/-- After a rebalance every replica of a shard is one of the live nodes. -/
theorem mem_liveNodes_of_mem_rebalance {liveNodes : List NodeInfo} {rf : Nat}
    (hlive : liveNodes ≠ []) {m : ShardMetadata} (hm : m ∈ (z.rebalance liveNodes rf).shards)
    {k : String} (hk : k ∈ m.replicas) : k ∈ liveNodes.map (·.nodeId) := by
  have hms := rebalanced_forall₂ liveNodes rf z.shards
  have hm : m ∈ (z.rebalance liveNodes rf).shardNodes := (List.mem_insertionSort _).mp hm
  rw [rebalance_eq_foldl z liveNodes rf hlive] at hm
  -- every record of the store is written, and what is written has live replicas
  have hfold : ∀ (olds ms : List ShardMetadata), List.Forall₂ (Rebalanced liveNodes) olds ms →
      ∀ y : ZkMetadataStore, (∀ m ∈ y.shardNodes, (∀ k ∈ m.replicas,
        k ∈ liveNodes.map (·.nodeId)) ∨ m.shardId ∈ olds.map (·.shardId)) →
      ∀ m ∈ (ms.foldl updateShard y).shardNodes,
        ∀ k ∈ m.replicas, k ∈ liveNodes.map (·.nodeId) := by
    intro olds ms hms
    induction hms with
    | nil => exact fun y hy m hm => (hy m hm).resolve_right (by simp)
    | cons hnew _ ih =>
      intro y hy
      refine ih _ fun m hm => ?_
      obtain rfl | ⟨hm, hne⟩ := of_mem_updateShard hm
      · exact Or.inl hnew.replicas
      · refine (hy m hm).imp_right fun hid => (List.mem_cons.mp hid).resolve_left fun heq => ?_
        exact hne (heq.trans hnew.shardId.symm)
  refine hfold _ _ hms z (fun m hm => Or.inr ?_) m hm k hk
  have hm : m ∈ z.shards := (List.mem_insertionSort _).mpr hm
  exact List.mem_map_of_mem hm

/-- There is one record for a shard. -/
def Distinct (z : ZkMetadataStore) : Prop := (z.shardNodes.map (·.shardId)).Nodup

/-- A record that is there is replaced in its place. -/
theorem shardIds_updateShard {m : ShardMetadata}
    (hm : z.shardNodes.any (fun x => x.shardId == m.shardId) = true) :
    (z.updateShard m).shardNodes.map (·.shardId) = z.shardNodes.map (·.shardId) := by
  unfold updateShard
  rw [if_pos hm, List.map_map]
  refine List.map_congr_left fun x _ => ?_
  simp only [Function.comp_apply]
  split
  · rename_i hx
    exact hx.symm
  · rfl

/-- There is one record for each shard: writing one. -/
theorem Distinct.updateShard (h : z.Distinct) (m : ShardMetadata) : (z.updateShard m).Distinct := by
  unfold Distinct
  by_cases hany : z.shardNodes.any (fun x => x.shardId == m.shardId) = true
  · rw [shardIds_updateShard hany]
    exact h
  · unfold ZkMetadataStore.updateShard
    rw [if_neg hany, List.map_append, List.map_singleton]
    refine List.nodup_append.mpr ⟨h, List.nodup_singleton _, ?_⟩
    intro s hs t ht heq
    rw [List.mem_singleton] at ht
    obtain ⟨x, hx, rfl⟩ := List.mem_map.mp hs
    exact hany (List.any_eq_true.mpr ⟨x, hx, by simpa using heq.trans ht⟩)

/-- The record of a shard is the one that is read. -/
theorem Distinct.shard_eq (h : z.Distinct) {m : ShardMetadata} (hm : m ∈ z.shards) :
    z.shard m.shardId = some m := by
  have hm : m ∈ z.shardNodes := (List.mem_insertionSort _).mp hm
  have hfind : (z.shard m.shardId).isSome = true := List.find?_isSome.mpr ⟨m, hm, by simp⟩
  obtain ⟨x, hx⟩ := Option.isSome_iff_exists.mp hfind
  have hid := shardId_of_shard hx
  rw [hx, List.inj_on_of_nodup_map h (List.mem_of_find?_eq_some hx) hm hid]

theorem Distinct.electPrimary (h : z.Distinct) {z' : ZkMetadataStore} {shardId : Int}
    {liveNodes : List NodeInfo} {m : ShardMetadata}
    (helect : z.electPrimary shardId liveNodes = some (z', m)) : z'.Distinct := by
  obtain ⟨rfl, _⟩ | ⟨_, _, _, _, _, rfl⟩ := electPrimary_cases helect
  · exact h
  · exact h.updateShard m

theorem Distinct.updateCommitIndex (h : z.Distinct) (shardId : Int) (k : Nat) :
    (z.updateCommitIndex shardId k).Distinct := by
  obtain heq | ⟨_, _, _, heq⟩ := z.updateCommitIndex_cases shardId k
  · rwa [heq]
  · rw [heq]
    exact h.updateShard _

theorem Distinct.rebalance (h : z.Distinct) (liveNodes : List NodeInfo) (rf : Nat) :
    (z.rebalance liveNodes rf).Distinct :=
  rebalance_induction z liveNodes rf h (fun _ _ m hy _ _ => hy.updateShard m)

theorem Distinct.initializeShards (nodeIds : List String) (shardCount rf : Nat) :
    (ZkMetadataStore.initializeShards nodeIds shardCount rf).Distinct := by
  unfold Distinct ZkMetadataStore.initializeShards
  rw [List.map_map]
  refine List.Nodup.map ?_ List.nodup_range
  intro a b hab
  exact Int.ofNat.inj hab

end ZkMetadataStore

end DisMiniSql.Distributed
