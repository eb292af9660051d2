import Mathlib.Data.Int.CardIntervalMod
import Mathlib.Data.String.Basic
import DisMiniSql.Proofs.Distributed.ShardRecords

/-!
# `DisMiniSql.Proofs.Distributed.BalancedPrimaries`: the assignment of a rebalance

`rebalance` takes the least loaded replica of every shard as its primary, one shard after another.
The replicas are a window of the ring. The shards before have gone round the ring, so the head of
the window has the fewest of them, and a node with as many stands behind it in the order of the
names. The choice is always the head (`chooseBalancedPrimary_ring`).

`shard_rebalance` says what is stored afterwards, and `rebalance_law` what follows from it.
-/

set_option autoImplicit false

namespace DisMiniSql.Distributed

namespace ZkMetadataStore

variable {z : ZkMetadataStore} {ids : List String} {rf k N : Nat} {liveNodes : List NodeInfo}

/-! ### The choice -/

/-- The first node of the window of a shard. -/
def ringHead (ids : List String) (s : Nat) : Option String := ids[s % ids.length]?

/-- The least loaded replica is chosen, the first by name among those. -/
theorem chooseBalancedPrimary_eq {replicas : List String} {counts : String → Nat} {x : String}
    (hx : x ∈ replicas)
    (hleast : ∀ y ∈ replicas, counts x < counts y ∨ (counts x = counts y ∧ x ≤ y)) :
    chooseBalancedPrimary replicas counts = some x := by
  unfold chooseBalancedPrimary
  have htotal : Std.Total
      (fun a b : String => counts a < counts b ∨ (counts a = counts b ∧ a ≤ b)) := by
    refine ⟨fun a b => ?_⟩
    rcases Nat.lt_trichotomy (counts a) (counts b) with hlt | heq | hgt
    · exact .inl (.inl hlt)
    · exact (le_total a b).imp (fun hle => .inr ⟨heq, hle⟩) (fun hle => .inr ⟨heq.symm, hle⟩)
    · exact .inr (.inl hgt)
  have htrans : IsTrans String
      (fun a b : String => counts a < counts b ∨ (counts a = counts b ∧ a ≤ b)) := by
    refine ⟨fun a b c hab hbc => ?_⟩
    rcases hab with hab | ⟨hab, hle⟩
    · exact .inl (by omega)
    · rcases hbc with hbc | ⟨hbc, hle'⟩
      · exact .inl (by omega)
      · exact .inr ⟨hab.trans hbc, hle.trans hle'⟩
  have hsorted := List.pairwise_insertionSort
    (fun a b : String => counts a < counts b ∨ (counts a = counts b ∧ a ≤ b)) replicas
  have hmem : x ∈ replicas.insertionSort
      (fun a b : String => counts a < counts b ∨ (counts a = counts b ∧ a ≤ b)) :=
    (List.mem_insertionSort _).mpr hx
  have hback : ∀ y ∈ replicas.insertionSort
      (fun a b : String => counts a < counts b ∨ (counts a = counts b ∧ a ≤ b)), y ∈ replicas :=
    fun y hy => (List.mem_insertionSort _).mp hy
  generalize replicas.insertionSort
    (fun a b : String => counts a < counts b ∨ (counts a = counts b ∧ a ≤ b)) = l at *
  cases l with
  | nil => exact nomatch hmem
  | cons p ps =>
    rcases List.mem_cons.mp hmem with rfl | hps
    · rfl
    · have hp : counts p < counts x ∨ (counts p = counts x ∧ p ≤ x) :=
        (List.pairwise_cons.mp hsorted).1 x hps
      rcases hleast p (hback p List.mem_cons_self) with hlt | ⟨heq, hle⟩
      · omega
      · obtain ⟨-, hge⟩ := hp.resolve_left (by omega)
        exact congrArg some (le_antisymm hge hle)

/-- So many of the first `k` shards have the node at `j` as their head. -/
theorem primaryCount_ring (hids : ids.Nodup) {j : Nat} (hj : j < ids.length)
    {assigned : List ShardMetadata}
    (hassigned : assigned.map (·.primary) = (List.range k).map (ringHead ids)) :
    primaryCount assigned ids[j] = k / ids.length + if j < k % ids.length then 1 else 0 := by
  have hpos : 0 < ids.length := Nat.zero_lt_of_lt hj
  have hcount := Nat.count_modEq_card (b := k) hpos j
  rw [Nat.mod_eq_of_lt hj] at hcount
  rw [← hcount]
  have hmap : primaryCount assigned ids[j] =
      (assigned.map (·.primary)).countP (fun p => p == some ids[j]) := by
    rw [List.countP_map]
    rfl
  rw [hmap, hassigned, List.countP_map]
  refine List.countP_congr fun i _ => ?_
  have hi : i % ids.length < ids.length := Nat.mod_lt i hpos
  show (ids[i % ids.length]? == some ids[j]) = true ↔ decide (i ≡ j [MOD ids.length]) = true
  rw [List.getElem?_eq_getElem hi, beq_iff_eq, Option.some.injEq, decide_eq_true_iff,
    hids.getElem_inj_iff]
  unfold Nat.ModEq
  rw [Nat.mod_eq_of_lt hj]

/-- Where the shards before have the heads of their windows, the next one gets its head, too. -/
theorem chooseBalancedPrimary_ring (hids : ids.Pairwise (· < ·)) (hne : ids ≠ []) (hrf : 1 ≤ rf)
    {assigned : List ShardMetadata}
    (hassigned : assigned.map (·.primary) = (List.range k).map (ringHead ids)) :
    chooseBalancedPrimary ((ringReplicas ids k rf).insertionSort (· ≤ ·)) (primaryCount assigned) =
      ringHead ids k := by
  have hpos : 0 < ids.length := List.length_pos_of_ne_nil hne
  have hnodup : ids.Nodup := hids.imp ne_of_lt
  have hk : k % ids.length < ids.length := Nat.mod_lt k hpos
  have hhead : ringHead ids k = some ids[k % ids.length] := List.getElem?_eq_getElem hk
  rw [hhead]
  refine chooseBalancedPrimary_eq ?_ fun y hy => ?_
  · refine (List.mem_insertionSort _).mpr (List.mem_filterMap.mpr ⟨0, ?_, ?_⟩)
    · exact List.mem_range.mpr (lt_min hrf hpos)
    · exact List.getElem?_eq_getElem hk
  · obtain ⟨j, hj, rfl⟩ :=
      List.getElem_of_mem (mem_of_mem_ringReplicas ((List.mem_insertionSort _).mp hy))
    rw [primaryCount_ring hnodup hk hassigned, primaryCount_ring hnodup hj hassigned,
      if_neg (Nat.lt_irrefl _)]
    by_cases hlt : j < k % ids.length
    · rw [if_pos hlt]
      exact .inl (by omega)
    · rw [if_neg hlt]
      refine .inr ⟨rfl, ?_⟩
      rcases Nat.eq_or_lt_of_le (Nat.le_of_not_lt hlt) with heq | hgt
      · exact le_of_eq (by simp only [heq])
      · exact le_of_lt (List.pairwise_iff_getElem.mp hids _ _ hk hj hgt)

/-! ### The records -/

/-- A record with the replicas and the primary of its shard. -/
def settled (ids : List String) (rf : Nat) (old : ShardMetadata) : ShardMetadata :=
  { old with
    replicas := (ringReplicas ids old.shardId.toNat rf).insertionSort (· ≤ ·)
    primary := ringHead ids old.shardId.toNat }

/-- What `rebalance` writes for a record. -/
def placed (ids : List String) (rf : Nat) (old : ShardMetadata) : ShardMetadata :=
  let m := settled ids rf old
  if m.replicas ≠ old.replicas ∨ m.primary ≠ old.primary then { m with term := m.term + 1 } else m

/-- With the replica windows of the ring, the choice by load is the head of each window. Induction
on the shards still to be assigned: those before have loaded the ring evenly up to the place of the
next head. -/
theorem assignBalancedPrimaries_ring (hids : ids.Pairwise (· < ·)) (hne : ids ≠ []) (hrf : 1 ≤ rf)
    {olds assigned : List ShardMetadata}
    (hassigned : assigned.map (·.primary) = (List.range k).map (ringHead ids))
    (holds : olds.map (fun m => m.shardId.toNat) = List.range' k olds.length) :
    assignBalancedPrimaries assigned (olds.map fun m =>
        let replicas := ringReplicas ids m.shardId.toNat rf
        { m with replicas := replicas.insertionSort (· ≤ ·) }) =
      assigned ++ olds.map (settled ids rf) := by
  induction olds generalizing assigned k with
  | nil => exact (List.append_nil assigned).symm
  | cons old olds ih =>
    obtain ⟨hold, hrest⟩ := List.cons.inj holds
    have hold : old.shardId.toNat = k := hold
    have hprimary := chooseBalancedPrimary_ring hids hne hrf hassigned
    -- the next head is the next node of the ring, which has the least load
    have hnext : (assigned ++ [settled ids rf old]).map (·.primary) =
        (List.range (k + 1)).map (ringHead ids) := by
      rw [List.map_append, hassigned, List.range_succ, List.map_append, ← hold]
      rfl
    have hih := ih hnext hrest
    rw [List.map_cons, List.map_cons, assignBalancedPrimaries]
    dsimp only
    rw [List.append_assoc, List.singleton_append] at hih
    rw [← hih]
    unfold settled
    rw [hold, hprimary]

/-- The records of a cluster are written as `placed` says. -/
theorem rebalanced_ring (hids : ids.Pairwise (· < ·)) (hne : ids ≠ []) (hrf : 1 ≤ rf)
    {olds : List ShardMetadata}
    (holds : olds.map (fun m => m.shardId.toNat) = List.range' 0 olds.length) :
    rebalanced ids rf olds = olds.map (placed ids rf) := by
  have hassigned : ([] : List ShardMetadata).map (·.primary) =
      (List.range 0).map (ringHead ids) := rfl
  unfold rebalanced
  dsimp only
  rw [assignBalancedPrimaries_ring hids hne hrf hassigned holds, List.nil_append]
  clear holds hassigned
  induction olds with
  | nil => rfl
  | cons old olds ih =>
    rw [List.map_cons, List.zip_cons_cons, List.map_cons, ih, List.map_cons]
    rfl

/-- What is read after records of different shards are written. -/
theorem shard_foldl_updateShard {ms : List ShardMetadata} (hms : (ms.map (·.shardId)).Nodup)
    (z : ZkMetadataStore) {m : ShardMetadata} (hm : m ∈ ms) :
    (ms.foldl updateShard z).shard m.shardId = some m := by
  induction ms generalizing z with
  | nil => exact nomatch hm
  | cons x ms ih =>
    obtain ⟨hx, hrest⟩ := List.nodup_cons.mp hms
    rcases List.mem_cons.mp hm with rfl | hm
    · have hkeep : ∀ (l : List ShardMetadata) (y : ZkMetadataStore), m.shardId ∉ l.map (·.shardId) →
          y.shard m.shardId = some m → (l.foldl updateShard y).shard m.shardId = some m := by
        intro l
        induction l with
        | nil => exact fun y _ hy => hy
        | cons a l ih =>
          intro y hnot hy
          rw [List.map_cons, List.mem_cons, not_or] at hnot
          refine ih _ hnot.2 ?_
          rw [shard_updateShard, if_neg (Ne.symm hnot.1)]
          exact hy
      refine hkeep ms _ hx ?_
      rw [shard_updateShard, if_pos rfl]
    · exact ih hrest _ hm

/-! ### The store -/

/-- The shards of the store are those with the numbers below `N`, in any order. -/
def HasShards (z : ZkMetadataStore) (N : Nat) : Prop :=
  (z.shardNodes.map (·.shardId)).Perm ((List.range N).map Nat.cast)

/-- The shards 0 to N - 1 are different. -/
theorem HasShards.distinct (h : z.HasShards N) : z.Distinct :=
  h.nodup_iff.mpr (List.nodup_range.map fun _ _ hab => Int.ofNat.inj hab)

/-- The ids of the live nodes, as `rebalance` has them. -/
def liveIdsOf (liveNodes : List NodeInfo) : List String :=
  (liveNodes.map (·.nodeId)).insertionSort (· ≤ ·)

/-- The ids of the live nodes in order. -/
theorem pairwise_liveIdsOf (hlive : (liveNodes.map (·.nodeId)).Nodup) :
    (liveIdsOf liveNodes).Pairwise (· < ·) := by
  have hle : (liveIdsOf liveNodes).Pairwise (· ≤ ·) := List.pairwise_insertionSort (· ≤ ·) _
  have hperm : (liveIdsOf liveNodes).Perm (liveNodes.map (·.nodeId)) :=
    List.perm_insertionSort (· ≤ ·) _
  have hne : (liveIdsOf liveNodes).Pairwise (· ≠ ·) := hperm.nodup_iff.mpr hlive
  exact hle.imp₂ (fun a b hab hne => lt_of_le_of_ne hab hne) hne

/-- The order in which `/nodes` lists the live nodes, and what else their records say, do not
count. -/
theorem liveIdsOf_eq {again : List NodeInfo} (hlive : (liveNodes.map (·.nodeId)).Nodup)
    (hagain : (again.map (·.nodeId)).Nodup)
    (hsame : ∀ id, id ∈ again.map (·.nodeId) ↔ id ∈ liveNodes.map (·.nodeId)) :
    liveIdsOf again = liveIdsOf liveNodes := by
  have hperm : (again.map (·.nodeId)).Perm (liveNodes.map (·.nodeId)) :=
    (List.perm_ext_iff_of_nodup hagain hlive).mpr hsame
  have hsort : (liveIdsOf again).Perm (liveIdsOf liveNodes) :=
    ((List.perm_insertionSort (· ≤ ·) _).trans hperm).trans
      (List.perm_insertionSort (· ≤ ·) _).symm
  exact hsort.eq_of_pairwise (fun _ _ _ _ hab hba => absurd (hab.trans hba) (lt_irrefl _))
    (pairwise_liveIdsOf hagain) (pairwise_liveIdsOf hlive)

/-- The records are read in the order of their numbers. -/
theorem HasShards.map_shards (h : z.HasShards N) :
    z.shards.map (·.shardId) = (List.range N).map Nat.cast := by
  have hsorted : (z.shards.map (·.shardId)).Pairwise (· ≤ ·) :=
    List.pairwise_map.mpr (List.pairwise_insertionSort _ z.shardNodes)
  have hrange : ((List.range N).map (Nat.cast : Nat → Int)).Pairwise (· ≤ ·) := by
    refine List.pairwise_map.mpr (List.pairwise_lt_range.imp fun {a b} hab => ?_)
    exact Int.ofNat_le.mpr (Nat.le_of_lt hab)
  have hperm := (List.perm_insertionSort (fun a b => a.shardId ≤ b.shardId) z.shardNodes).map
    (·.shardId)
  exact (hperm.trans h).eq_of_pairwise (fun _ _ _ _ => Int.le_antisymm) hsorted hrange

/-- The shards read in order. -/
theorem HasShards.map_toNat (h : z.HasShards N) :
    z.shards.map (fun m => m.shardId.toNat) = List.range N := by
  have hmap := congrArg (List.map Int.toNat) h.map_shards
  rw [List.map_map, List.map_map] at hmap
  exact hmap.trans (List.map_id _)

/-- A rebalance puts every shard in its place on the ring. -/
theorem HasShards.rebalance_eq (h : z.HasShards N) (hlive : liveNodes ≠ [])
    (hids : (liveNodes.map (·.nodeId)).Nodup) (hrf : 1 ≤ rf) :
    z.rebalance liveNodes rf =
      (z.shards.map (placed (liveIdsOf liveNodes) rf)).foldl updateShard z := by
  have hne : liveIdsOf liveNodes ≠ [] := fun hnil => liveIds_ne_nil hlive (by
    show (liveIdsOf liveNodes).isEmpty = true
    rw [hnil]
    rfl)
  have hshards : z.shards.map (fun m => m.shardId.toNat) = List.range' 0 z.shards.length := by
    have hlen := congrArg List.length h.map_toNat
    rw [List.length_map, List.length_range] at hlen
    rw [h.map_toNat, hlen, List.range_eq_range']
  rw [rebalance_eq_foldl z liveNodes rf hlive]
  exact congrArg (List.foldl updateShard z)
    (rebalanced_ring (pairwise_liveIdsOf hids) hne hrf hshards)

/-- The place of a shard: its id stays. -/
theorem shardId_placed (ids : List String) (rf : Nat) (old : ShardMetadata) :
    (placed ids rf old).shardId = old.shardId := by
  unfold placed
  dsimp only
  split
  · rfl
  · rfl

/-- What is stored of a shard after a rebalance. -/
theorem shard_rebalance (h : z.HasShards N) (hlive : liveNodes ≠ [])
    (hids : (liveNodes.map (·.nodeId)).Nodup) (hrf : 1 ≤ rf) {s : Int} {old : ShardMetadata}
    (hold : z.shard s = some old) :
    (z.rebalance liveNodes rf).shard s = some (placed (liveIdsOf liveNodes) rf old) := by
  have hs : (placed (liveIdsOf liveNodes) rf old).shardId = s :=
    (shardId_placed _ _ old).trans (shardId_of_shard hold)
  have hmem : old ∈ z.shards :=
    (List.mem_insertionSort _).mpr (List.mem_of_find?_eq_some hold)
  rw [h.rebalance_eq hlive hids hrf, ← hs]
  refine shard_foldl_updateShard ?_ z (List.mem_map_of_mem hmem)
  have hmap : (z.shards.map (placed (liveIdsOf liveNodes) rf)).map (·.shardId) =
      z.shards.map (·.shardId) := by
    rw [List.map_map]
    exact List.map_congr_left fun m _ => shardId_placed _ _ m
  rw [hmap]
  exact ((List.perm_insertionSort _ z.shardNodes).map _).nodup_iff.mpr h.distinct

/-- A rebalance writes no new record. -/
theorem HasShards.rebalance (h : z.HasShards N) (liveNodes : List NodeInfo) (rf : Nat) :
    (z.rebalance liveNodes rf).HasShards N := by
  have hids : (z.rebalance liveNodes rf).shardNodes.map (·.shardId) =
      z.shardNodes.map (·.shardId) := by
    refine rebalance_induction
      (P := fun y => y.shardNodes.map (·.shardId) = z.shardNodes.map (·.shardId))
      z liveNodes rf rfl fun y old m hy hold hm => ?_
    have hmem : old ∈ z.shardNodes := (List.mem_insertionSort _).mp hold
    have hthere : m.shardId ∈ y.shardNodes.map (·.shardId) := by
      rw [hy, hm.shardId]
      exact List.mem_map_of_mem hmem
    obtain ⟨x, hx, heq⟩ := List.mem_map.mp hthere
    rw [shardIds_updateShard (List.any_eq_true.mpr ⟨x, hx, by simpa using heq⟩)]
    exact hy
  unfold HasShards
  rw [hids]
  exact h

/-- There is a record of exactly the shards with these numbers. -/
theorem HasShards.exists_shard_iff (h : z.HasShards N) {s : Int} :
    (∃ m, z.shard s = some m) ↔ ∃ k < N, s = (k : Int) := by
  constructor
  · rintro ⟨m, hm⟩
    have hmem : s ∈ z.shardNodes.map (·.shardId) :=
      shardId_of_shard hm ▸ List.mem_map_of_mem (List.mem_of_find?_eq_some hm)
    obtain ⟨k, hk, rfl⟩ := List.mem_map.mp (h.mem_iff.mp hmem)
    exact ⟨k, List.mem_range.mp hk, rfl⟩
  · rintro ⟨k, hk, rfl⟩
    have hmem : (k : Int) ∈ z.shardNodes.map (·.shardId) :=
      h.mem_iff.mpr (List.mem_map_of_mem (List.mem_range.mpr hk))
    obtain ⟨m, hm, hid⟩ := List.mem_map.mp hmem
    have hsome : (z.shard k).isSome = true := List.find?_isSome.mpr ⟨m, hm, by simpa using hid⟩
    exact Option.isSome_iff_exists.mp hsome

/-- A record that has its place keeps it. -/
theorem placed_placed (ids : List String) (rf : Nat) (old : ShardMetadata) :
    placed ids rf (placed ids rf old) = placed ids rf old := by
  have hsettled : ∀ m, (settled ids rf old = m ∨ ∃ t, { settled ids rf old with term := t } = m) →
      placed ids rf m = m := by
    intro m hm
    have hsame : settled ids rf m = m := by
      rcases hm with rfl | ⟨t, rfl⟩
      · rfl
      · rfl
    unfold placed
    dsimp only
    rw [if_neg (by rw [hsame]; simp), hsame]
  refine hsettled _ ?_
  unfold placed
  dsimp only
  split
  · exact .inr ⟨_, rfl⟩
  · exact .inl rfl

/-- Its replicas are the window of the ring. -/
theorem replicas_placed (ids : List String) (rf : Nat) (old : ShardMetadata) :
    (placed ids rf old).replicas = (settled ids rf old).replicas := by
  unfold placed
  dsimp only
  split
  · rfl
  · rfl

/-- Its primary is the head of the window. -/
theorem primary_placed (ids : List String) (rf : Nat) (old : ShardMetadata) :
    (placed ids rf old).primary = (settled ids rf old).primary := by
  unfold placed
  dsimp only
  split
  · rfl
  · rfl

/-- Its term goes up by one exactly when replicas or primary change. -/
theorem term_placed (ids : List String) (rf : Nat) (old : ShardMetadata) :
    (placed ids rf old).term = old.term +
      if (placed ids rf old).replicas ≠ old.replicas ∨ (placed ids rf old).primary ≠ old.primary
      then 1 else 0 := by
  rw [replicas_placed, primary_placed]
  unfold placed
  dsimp only
  split
  · rfl
  · rfl

/-- Who is in a window. -/
theorem mem_ringReplicas {s : Nat} {id : String} :
    id ∈ ringReplicas ids s rf ↔
      ∃ j < min rf ids.length, ids[(s + j) % ids.length]? = some id := by
  unfold ringReplicas
  rw [List.mem_filterMap]
  exact ⟨fun ⟨j, hj, hget⟩ => ⟨j, List.mem_range.mp hj, hget⟩,
    fun ⟨j, hj, hget⟩ => ⟨j, List.mem_range.mpr hj, hget⟩⟩

/-! ### The law -/

/-- The primaries go round the ring. -/
theorem HasShards.map_primary (h : z.HasShards N) (hlive : liveNodes ≠ [])
    (hids : (liveNodes.map (·.nodeId)).Nodup) (hrf : 1 ≤ rf) :
    (z.rebalance liveNodes rf).shards.map (·.primary) =
      (List.range N).map (ringHead (liveIdsOf liveNodes)) := by
  have h' : (z.rebalance liveNodes rf).HasShards N := h.rebalance liveNodes rf
  rw [← h'.map_toNat, List.map_map]
  refine List.map_congr_left fun m hm => ?_
  have hm : (z.rebalance liveNodes rf).shard m.shardId = some m := h'.distinct.shard_eq hm
  obtain ⟨old, hold⟩ := h.exists_shard_iff.mpr (h'.exists_shard_iff.mp ⟨m, hm⟩)
  obtain rfl := Option.some.inj ((shard_rebalance h hlive hids hrf hold).symm.trans hm)
  rw [primary_placed]
  exact congrArg (fun s : Int => ringHead (liveIdsOf liveNodes) s.toNat)
    (shardId_placed _ rf old).symm

/-- A rebalance that runs alone gives every shard its window of the ring, with the first node of it
as the primary. The primaries are even, and the term changes exactly with the record. A second
rebalance changes nothing if the same nodes are live, in whatever order and state they are listed
then. -/
theorem rebalance_law {z : ZkMetadataStore} {N rf : Nat} {liveNodes : List NodeInfo}
    (hz : z.HasShards N) (hrf : 1 ≤ rf) (hlive : liveNodes ≠ [])
    (hids : (liveNodes.map (·.nodeId)).Nodup) :
    let liveIds := liveIdsOf liveNodes
    let z' := z.rebalance liveNodes rf
    (∀ s < N, ∃ old m, z.shard s = some old ∧ z'.shard s = some m ∧
      (∀ id, id ∈ m.replicas ↔
        ∃ j < min rf liveIds.length, liveIds[(s + j) % liveIds.length]? = some id) ∧
      m.primary = liveIds[s % liveIds.length]? ∧
      m.term = old.term + if m.replicas ≠ old.replicas ∨ m.primary ≠ old.primary then 1 else 0) ∧
    (∀ a ∈ liveIds, ∀ b ∈ liveIds,
      primaryCount z'.shards a ≤ primaryCount z'.shards b + 1) ∧
    ∀ again : List NodeInfo, (again.map (·.nodeId)).Nodup →
      (∀ id, id ∈ again.map (·.nodeId) ↔ id ∈ liveNodes.map (·.nodeId)) →
      ∀ s, (z'.rebalance again rf).shard s = z'.shard s := by
  intro liveIds z'
  have hz' : z'.HasShards N := hz.rebalance liveNodes rf
  refine ⟨fun s hs => ?_, fun a ha b hb => ?_, fun again hagain hsame s => ?_⟩
  · obtain ⟨old, hold⟩ := hz.exists_shard_iff.mpr ⟨s, hs, rfl⟩
    have hid : old.shardId.toNat = s := congrArg Int.toNat (shardId_of_shard hold)
    refine ⟨old, _, hold, shard_rebalance hz hlive hids hrf hold, fun id => ?_, ?_,
      term_placed _ _ _⟩
    · rw [replicas_placed, ← hid]
      exact (List.mem_insertionSort _).trans mem_ringReplicas
    · rw [primary_placed, ← hid]
      rfl
  · have hnodup : liveIds.Nodup := (pairwise_liveIdsOf hids).imp ne_of_lt
    have hprimary := hz.map_primary hlive hids hrf
    obtain ⟨i, hi, rfl⟩ := List.getElem_of_mem ha
    obtain ⟨j, hj, rfl⟩ := List.getElem_of_mem hb
    rw [primaryCount_ring hnodup hi hprimary, primaryCount_ring hnodup hj hprimary]
    split <;> omega
  · have hne : again ≠ [] := by
      rintro rfl
      obtain ⟨m, hm⟩ := List.exists_mem_of_ne_nil liveNodes hlive
      exact List.not_mem_nil ((hsame m.nodeId).mpr (List.mem_map_of_mem hm))
    cases hm : z'.shard s with
    | none =>
      cases hnew : (z'.rebalance again rf).shard s with
      | none => rfl
      | some x =>
        have hthere := (hz'.rebalance again rf).exists_shard_iff.mp ⟨x, hnew⟩
        obtain ⟨m, hm'⟩ := hz'.exists_shard_iff.mpr hthere
        exact nomatch hm.symm.trans hm'
    | some m =>
      obtain ⟨old, hold⟩ := hz.exists_shard_iff.mpr (hz'.exists_shard_iff.mp ⟨m, hm⟩)
      obtain rfl := Option.some.inj ((shard_rebalance hz hlive hids hrf hold).symm.trans hm)
      rw [shard_rebalance hz' hne hagain hrf hm, liveIdsOf_eq hids hagain hsame, placed_placed]

/-- Two shards that had lost their second node, and two live nodes. -/
theorem rebalance_law_two_nodes :
    let z : ZkMetadataStore :=
      { shardNodes :=
          [{ shardId := 1, replicas := ["n1"], primary := none },
            { shardId := 0, replicas := ["n1"], primary := some "n1" }] }
    let liveNodes : List NodeInfo := [⟨"n2", [], .RECOVERING⟩, ⟨"n1", [], .SERVING⟩]
    let z' := z.rebalance liveNodes 2
    ∀ a ∈ liveIdsOf liveNodes, ∀ b ∈ liveIdsOf liveNodes,
      primaryCount z'.shards a ≤ primaryCount z'.shards b + 1 := by
  intro z liveNodes z'
  have hz : z.HasShards 2 := List.Perm.swap _ _ _
  exact (rebalance_law hz (by decide) (by decide) (by decide)).2.1

end ZkMetadataStore

end DisMiniSql.Distributed
