import DisMiniSql.Proofs.Distributed.SerialRecovery

/-!
# `DisMiniSql.Proofs.Distributed.RebalanceKeeps`: what the new replicas have after a rebalance

A node advertises its new shards as soon as its own refresh is done. A node that is refreshed
later looks for peers by the shards they advertise, so an old replica that has no shard in
common with it any more is not asked, although it has the data (`rebalance_loses_shard`).

Where no snapshot is installed (`Settled`), the only way of a statement to a new replica is from
log to log. `Gets` are these ways: a node has the entry itself, or it asks a node that has got it
before. Which nodes ask each other is read off the old and the new assignment (`Asks`), since
`liveNodes` are refreshed in the order of their ids. `Refreshing` follows the refreshes one by
one, and `rebalance_keeps_iff` is the exact condition.
-/

set_option autoImplicit false

namespace DisMiniSql.Distributed

/-- The log of the node has the statement, in the file or compacted into the snapshot. -/
def DataNode.Holds (n : DataNode) (x : Stmt) : Prop :=
  x ∈ n.snapshotManager.snapshotSql ∨ ∃ e ∈ n.walLog.walFile, e.stmt = x

instance (n : DataNode) (x : Stmt) : Decidable (n.Holds x) :=
  inferInstanceAs (Decidable (x ∈ n.snapshotManager.snapshotSql ∨
    ∃ e ∈ n.walLog.walFile, e.stmt = x))

namespace Cluster

variable {c d : Cluster} {k : String} {x : Stmt} {rf : Nat}

/-- A live old replica of the shard of the statement holds it, and `k` is a new replica. -/
structure Moves (c : Cluster) (replicationFactor : Nat) (x : Stmt) (k : String) : Prop where
  held : ∃ m ∈ c.zk.shards, m.shardId = x.shardId ∧
    ∃ j ∈ m.replicas, j ∈ c.liveIds ∧ (c.node j).Holds x
  moved : ∃ m ∈ (c.reassign replicationFactor).zk.shards, m.shardId = x.shardId ∧ k ∈ m.replicas

/-- The shards of a node in the new assignment. -/
def newShards (c : Cluster) (replicationFactor : Nat) (nodeId : String) : List Int :=
  (c.reassign replicationFactor).zk.shardsForNode nodeId

/-- In its refresh the node `k` asks this registered node: they share a shard. A node with a smaller
id has been refreshed before and advertises its new shards, the others still their old ones. -/
def Asks (c : Cluster) (replicationFactor : Nat) (k : String) (p : NodeInfo) : Prop :=
  p.nodeId ≠ k ∧ ∃ s ∈ if p.nodeId < k then c.newShards replicationFactor p.nodeId else p.shards,
    s ∈ c.newShards replicationFactor k

instance (c : Cluster) (replicationFactor : Nat) (k : String) (p : NodeInfo) :
    Decidable (c.Asks replicationFactor k p) :=
  inferInstanceAs (Decidable (_ ∧ _))

/-- The file of the log has an entry of the statement. -/
def Logged (c : Cluster) (x : Stmt) (k : String) : Prop :=
  ∃ e ∈ (c.node k).walLog.walFile, e.stmt = x

/-- The node takes entries of the statement over: it owns the shard in the new assignment, and it
does not know the request. -/
def Wants (c : Cluster) (replicationFactor : Nat) (x : Stmt) (k : String) : Prop :=
  (x.shardId < 0 ∨ x.shardId ∈ c.newShards replicationFactor k) ∧
    (c.node k).walLog.containsRequestId x.requestId = false

/-- The log of the node has the statement after its refresh: it had it before, or the node asks
another one that is refreshed later and has it, or one that is refreshed earlier and gets it. -/
inductive Gets (c : Cluster) (replicationFactor : Nat) (x : Stmt) : String → Prop
  | logged {k : String} : c.Logged x k → Gets c replicationFactor x k
  | later {k : String} {p : NodeInfo} : p ∈ c.zk.nodes → c.Asks replicationFactor k p →
      ¬ p.nodeId < k → c.Wants replicationFactor x k → c.Logged x p.nodeId →
      Gets c replicationFactor x k
  | earlier {k : String} {p : NodeInfo} : p ∈ c.zk.nodes → c.Asks replicationFactor k p →
      p.nodeId < k → c.Wants replicationFactor x k → Gets c replicationFactor x p.nodeId →
      Gets c replicationFactor x k

/-- The node takes the statement over from a node that it asks. -/
def Fetches (c : Cluster) (replicationFactor : Nat) (x : Stmt) (k : String) : Prop :=
  c.Wants replicationFactor x k ∧ ∃ p ∈ c.zk.nodes, c.Asks replicationFactor k p ∧
    if p.nodeId < k then c.Gets replicationFactor x p.nodeId else c.Logged x p.nodeId

/-- No snapshot plays a part: no live node asks one with a larger compacted number, and the
compacted number of a live node is not beyond its own last number. -/
def Settled (c : Cluster) (replicationFactor : Nat) : Prop :=
  ∀ k ∈ c.liveIds, (c.node k).compactedWal ≤ (c.node k).walLog.lastSequence ∧
    ∀ p ∈ c.zk.nodes, c.Asks replicationFactor k p →
      (c.node p.nodeId).compactedWal ≤ (c.node k).compactedWal

instance (c : Cluster) (replicationFactor : Nat) : Decidable (c.Settled replicationFactor) :=
  inferInstanceAs (Decidable (∀ _ ∈ _, _ ∧ _))

/-- What a replica has after the rebalance: what it had logged, or fetches. -/
theorem gets_iff : c.Gets rf x k ↔ c.Logged x k ∨ c.Fetches rf x k := by
  constructor
  · intro h
    cases h with
    | logged hlogged => exact Or.inl hlogged
    | later hp hasks hlt hwants hlogged =>
      exact Or.inr ⟨hwants, _, hp, hasks, by rwa [if_neg hlt]⟩
    | earlier hp hasks hlt hwants hgets =>
      exact Or.inr ⟨hwants, _, hp, hasks, by rwa [if_pos hlt]⟩
  · rintro (hlogged | ⟨hwants, p, hp, hasks, hsource⟩)
    · exact .logged hlogged
    · -- a peer refreshed before this node answers with its new state, the others with the old
      by_cases hlt : p.nodeId < k
      · rw [if_pos hlt] at hsource
        exact .earlier hp hasks hlt hwants hsource
      · rw [if_neg hlt] at hsource
        exact .later hp hasks hlt hwants hsource

/-- On every way the statement comes from a log. -/
theorem Gets.exists_logged (h : c.Gets rf x k) : ∃ j, c.Logged x j := by
  induction h with
  | logged hlogged => exact ⟨_, hlogged⟩
  | later _ _ _ _ hlogged => exact ⟨_, hlogged⟩
  | earlier _ _ _ _ _ ih => exact ih

/-- In a reachable cluster a request id stands for one statement. -/
theorem Reachable.stmt_eq (hc : c.Reachable) {i j : String} {x y : Stmt} (hx : c.Logged x i)
    (hy : c.Logged y j) (hid : x.requestId = y.requestId) : x = y := by
  obtain ⟨e, he, rfl⟩ := hx
  obtain ⟨e', he', rfl⟩ := hy
  obtain ⟨w, ⟨call, hw⟩, hwid, hshard, -, hsql⟩ := (hc.sources.nodes i).entries e he
  obtain ⟨w', ⟨call', hw'⟩, hwid', hshard', -, hsql'⟩ := (hc.sources.nodes j).entries e' he'
  have hid : e.requestId = e'.requestId := hid
  rw [hwid, hwid'] at hid
  obtain rfl := hc.sources.unique call call' w w' hw hw' (Option.some.inj hid)
  rw [hw] at hw'
  cases hw'
  unfold WalEntry.stmt
  rw [hwid, hwid', hshard, hshard', hsql, hsql']

/-! ### One refresh after another -/

/-- The cluster after the refreshes of some nodes. `Asks` and `Gets` are about the state `c` before
the rebalance; the nodes that are not done are as they were then. -/
structure Refreshing (c : Cluster) (rf : Nat) (done : List String) (d : Cluster) : Prop where
  wf : ∀ i, (d.node i).Wf
  ids : ∀ i, (d.node i).nodeId = i
  shardNodes : d.zk.shardNodes = (c.reassign rf).zk.shardNodes
  live : ∀ i, i ∈ d.liveIds ↔ i ∈ c.liveIds
  refreshed : ∀ m ∈ d.zk.nodes, m.nodeId ∈ done → m.shards = c.newShards rf m.nodeId
  waiting : ∀ m, m.nodeId ∉ done → (m ∈ d.zk.nodes ↔ m ∈ c.zk.nodes)
  untouched : ∀ i ∉ done, d.node i = c.node i
  compacted : ∀ i, (d.node i).compactedWal = (c.node i).compactedWal
  logged : ∀ i ∈ done, ∀ x, d.Logged x i ↔ c.Gets rf x i
  listed : ∀ i ∈ done, ∀ x, x ∈ (d.node i).replaySql ↔
    x ∈ (c.node i).replaySql ∨ c.Fetches rf x i

/-- Before the first refresh. -/
theorem Reachable.refreshing (hc : c.Reachable) (rf : Nat) :
    c.Refreshing rf [] (c.reassign rf) := by
  have hnodes : (c.reassign rf).zk.nodes = c.zk.nodes := ZkMetadataStore.nodes_rebalance ..
  refine ⟨hc.wf.nodes, hc.wf.ids, rfl, fun i => ?_, by simp, fun m _ => by rw [hnodes],
    fun _ _ => rfl, fun _ => rfl, by simp, by simp⟩
  rw [mem_liveIds, mem_liveIds, hnodes]

variable {done : List String}

theorem Refreshing.shardsForNode (h : c.Refreshing rf done d) (i : String) :
    d.zk.shardsForNode i = c.newShards rf i := by
  unfold newShards ZkMetadataStore.shardsForNode ZkMetadataStore.shards
  rw [h.shardNodes]

/-- The nodes that `k` asks when it is its turn are those of `Asks`. -/
theorem Refreshing.exists_asked_iff (h : c.Refreshing rf done d)
    (hdone : ∀ i ∈ c.liveIds, i ∈ done ↔ i < k) (P : String → Prop) :
    (∃ m ∈ d.zk.nodes, (m.nodeId ≠ k ∧ ∃ s ∈ m.shards, s ∈ c.newShards rf k) ∧ P m.nodeId) ↔
      ∃ m ∈ c.zk.nodes, c.Asks rf k m ∧ P m.nodeId := by
  constructor
  · rintro ⟨m, hm, ⟨hne, s, hs, hsk⟩, hP⟩
    have hlive : m.nodeId ∈ c.liveIds := (h.live _).mp (mem_liveIds.mpr ⟨m, hm, rfl⟩)
    by_cases hmem : m.nodeId ∈ done
    · -- its record in the state before the rebalance has the same id
      obtain ⟨m', hm', hid⟩ := mem_liveIds.mp hlive
      have hlt : m'.nodeId < k := hid ▸ (hdone _ hlive).mp hmem
      refine ⟨m', hm', ⟨hid ▸ hne, s, ?_, hsk⟩, hid ▸ hP⟩
      rw [if_pos hlt, hid, ← h.refreshed m hm hmem]
      exact hs
    · refine ⟨m, (h.waiting m hmem).mp hm, ⟨hne, s, ?_, hsk⟩, hP⟩
      rw [if_neg (fun hlt => hmem ((hdone _ hlive).mpr hlt))]
      exact hs
  · rintro ⟨m, hm, ⟨hne, s, hs, hsk⟩, hP⟩
    have hlive : m.nodeId ∈ c.liveIds := mem_liveIds.mpr ⟨m, hm, rfl⟩
    by_cases hmem : m.nodeId ∈ done
    · obtain ⟨m', hm', hid⟩ := mem_liveIds.mp ((h.live _).mpr hlive)
      rw [if_pos ((hdone _ hlive).mp hmem)] at hs
      refine ⟨m', hm', ⟨hid ▸ hne, s, ?_, hsk⟩, hid ▸ hP⟩
      rw [h.refreshed m' hm' (hid ▸ hmem), hid]
      exact hs
    · rw [if_neg (fun hlt => hmem ((hdone _ hlive).mpr hlt))] at hs
      exact ⟨m, (h.waiting m hmem).mpr hm, ⟨hne, s, hs, hsk⟩, hP⟩

/-- What stands in the logs, at any time, was in a log before the rebalance. -/
theorem Refreshing.exists_logged (h : c.Refreshing rf done d) {i : String} (hx : d.Logged x i) :
    ∃ j, c.Logged x j := by
  by_cases hi : i ∈ done
  · exact ((h.logged i hi x).mp hx).exists_logged
  · unfold Logged at hx
    rw [h.untouched i hi] at hx
    exact ⟨i, hx⟩

/-- What `k` asks for when it is its turn: the node of `Asks`, as it is then, has the statement in
its log. -/
theorem Refreshing.source_iff (h : c.Refreshing rf done d)
    (hdone : ∀ i ∈ c.liveIds, i ∈ done ↔ i < k) :
    (∃ m ∈ d.zk.nodes, (m.nodeId ≠ k ∧ ∃ s ∈ m.shards, s ∈ c.newShards rf k) ∧
        d.Logged x m.nodeId) ↔
      ∃ p ∈ c.zk.nodes, c.Asks rf k p ∧
        if p.nodeId < k then c.Gets rf x p.nodeId else c.Logged x p.nodeId := by
  rw [h.exists_asked_iff hdone (fun i => d.Logged x i)]
  refine exists_congr fun p => and_congr_right fun hp => and_congr_right fun _ => ?_
  have hlive : p.nodeId ∈ c.liveIds := mem_liveIds.mpr ⟨p, hp, rfl⟩
  by_cases hlt : p.nodeId < k
  · rw [if_pos hlt, h.logged _ ((hdone _ hlive).mpr hlt)]
  · rw [if_neg hlt]
    unfold Logged
    rw [h.untouched _ (fun hmem => hlt ((hdone _ hlive).mp hmem))]

/-- The states that the node `k` is told when it is its turn. -/
def answersTo (d : Cluster) (k : String) : List (NodeInfo × RecoveryState) :=
  (d.announce k).zk.liveNodes.map fun p => (p, ((d.announce k).node p.nodeId).recoveryState)

/-- Whom a node asks: the others that announce one of its shards. -/
theorem Refreshing.mem_asked (h : c.Refreshing rf done d) {n : DataNode} (hnid : n.nodeId = k)
    (hshards : n.shards = c.newShards rf k) {rs : RecoveryState} :
    rs ∈ n.asked (d.answersTo k) ↔ ∃ m ∈ d.zk.nodes,
      (m.nodeId ≠ k ∧ ∃ s ∈ m.shards, s ∈ c.newShards rf k) ∧
        rs = (d.node m.nodeId).recoveryState := by
  have hcontacts : ∀ m, n.contacts m = true ↔
      m.nodeId ≠ k ∧ ∃ s ∈ m.shards, s ∈ c.newShards rf k := by
    intro m
    unfold DataNode.contacts
    rw [hnid, hshards, Bool.and_eq_true, bne_iff_ne, List.any_eq_true]
    simp only [List.contains_iff_mem]
  unfold DataNode.asked answersTo
  simp only [List.mem_map, List.mem_filter]
  constructor
  · rintro ⟨p, ⟨⟨m, hm, rfl⟩, hp⟩, rfl⟩
    have hne := (hcontacts m).mp hp
    refine ⟨m, (mem_liveNodes_announce (h.ids k) hne.1).mp hm, hne, ?_⟩
    rw [node_announce_of_ne hne.1]
  · rintro ⟨m, hm, hne, rfl⟩
    refine ⟨(m, (d.node m.nodeId).recoveryState), ⟨⟨m, ?_, ?_⟩, (hcontacts m).mpr hne⟩, rfl⟩
    · exact (mem_liveNodes_announce (h.ids k) hne.1).mpr hm
    · rw [node_announce_of_ne hne.1]

/-- What is taken over in the refresh is what the node fetches. The peers agree on the statement of
a request, so it does not matter which of them offers it first. -/
theorem Refreshing.taken_iff (h : c.Refreshing rf done d) (hc : c.Reachable)
    (hdone : ∀ i ∈ c.liveIds, i ∈ done ↔ i < k) {n : DataNode} (hnid : n.nodeId = k)
    (hshards : n.shards = c.newShards rf k) (hlog : n.walLog = (c.node k).walLog) :
    (∃ e, Mark.taken e ∈ n.marks (n.asked (d.answersTo k)) ∧ e.stmt = x) ↔ c.Fetches rf x k := by
  have howns : ∀ s, n.ownsShard s = true ↔ s < 0 ∨ s ∈ c.newShards rf k := by
    intro s
    unfold DataNode.ownsShard
    rw [hshards, Bool.or_eq_true, decide_eq_true_eq, List.contains_iff_mem]
  have hlogged : ∀ rs ∈ n.asked (d.answersTo k), ∀ e ∈ rs.walEntries,
      ∃ j, c.Logged e.stmt j := by
    intro rs hrs e he
    obtain ⟨m, -, -, rfl⟩ := (h.mem_asked hnid hshards).mp hrs
    exact h.exists_logged (i := m.nodeId) ⟨e, WalLog.mem_readAll.mp he, rfl⟩
  have hsame : ∀ rs ∈ n.asked (d.answersTo k), ∀ rs' ∈ n.asked (d.answersTo k),
      ∀ e ∈ rs.walEntries, ∀ e' ∈ rs'.walEntries, e.requestId = e'.requestId →
        e.stmt = e'.stmt := by
    intro rs hrs rs' hrs' e he e' he' hid
    obtain ⟨i, hi⟩ := hlogged rs hrs e he
    obtain ⟨j, hj⟩ := hlogged rs' hrs' e' he'
    exact hc.stmt_eq hi hj hid
  unfold Fetches Wants
  rw [← h.source_iff hdone, and_assoc, ← howns, ← hlog]
  constructor
  · rintro ⟨e, he, rfl⟩
    obtain ⟨rs, hrs, hmem⟩ := DataNode.exists_of_taken he
    obtain ⟨hunknown, -, p, hp, d', hd', howned, hid⟩ :=
      DataNode.exists_taken_iff.mp ⟨e, he, rfl⟩
    have hstmt := hsame p hp rs hrs d' hd' e hmem hid
    obtain ⟨m, hm, hasks, rfl⟩ := (h.mem_asked hnid hshards).mp hp
    have howned' : n.ownsShard e.stmt.shardId = true := by
      rw [← hstmt]
      exact howned
    exact ⟨howned', hunknown, m, hm, hasks, d', WalLog.mem_readAll.mp hd', hstmt⟩
  · rintro ⟨howned, hunknown, m, hm, hasks, e, he, rfl⟩
    have hrs := (h.mem_asked hnid hshards).mpr ⟨m, hm, hasks, rfl⟩
    have hmem : e ∈ (d.node m.nodeId).recoveryState.walEntries := WalLog.mem_readAll.mpr he
    obtain ⟨e', he', hid⟩ := DataNode.exists_taken_iff.mpr
      ⟨hunknown, List.forall_mem_nil _, _, hrs, e, hmem, howned, rfl⟩
    obtain ⟨rs', hrs', hmem'⟩ := DataNode.exists_of_taken he'
    exact ⟨e', he', hsame _ hrs' _ hrs e' hmem' e hmem hid⟩

/-- What the refresh of a node leaves of it. -/
structure Refreshed (c : Cluster) (rf : Nat) (k : String) (n : DataNode) : Prop where
  wf : n.Wf
  nodeId : n.nodeId = k
  shards : n.shards = c.newShards rf k
  compacted : n.compactedWal = (c.node k).compactedWal
  logged : ∀ x, (∃ e ∈ n.walLog.walFile, e.stmt = x) ↔ c.Gets rf x k
  listed : ∀ x, x ∈ n.replaySql ↔ x ∈ (c.node k).replaySql ∨ c.Fetches rf x k

/-- The refresh of the node `k` where no snapshot is installed: its log gets what it fetches, and
its list too, since the new entries have numbers after the compacted one. -/
theorem Refreshing.refreshed_node (h : c.Refreshing rf done d) (hc : c.Reachable)
    (hsettled : c.Settled rf) (hk : k ∈ c.liveIds) (hdone : ∀ i ∈ c.liveIds, i ∈ done ↔ i < k) :
    c.Refreshed rf k ((d.refreshShards k).node k) := by
  have hnotDone : k ∉ done := fun hmem => absurd ((hdone k hk).mp hmem) (lt_irrefl k)
  obtain ⟨hlast, hpeers⟩ := hsettled k hk
  -- the node with its new shards, and the answers that it gets
  generalize hn : ((d.announce k).node k).refreshShards ((d.announce k).zk.shardsForNode k) = n
  have hself : n = { c.node k with
      replicaState := .RECOVERING, shards := c.newShards rf k } := by
    rw [← hn, node_announce_self, h.untouched k hnotDone, ← h.shardsForNode]
    rfl
  have hnid : n.nodeId = k := by
    rw [hself]
    exact hc.wf.ids k
  have hshards : n.shards = c.newShards rf k := by rw [hself]
  have hlog : n.walLog = (c.node k).walLog := by rw [hself]
  have hsnapshot : n.snapshotManager = (c.node k).snapshotManager := by rw [hself]
  have hcompacted : n.compactedWal = (c.node k).compactedWal := by rw [hself]; rfl
  have hanswers : (d.announce k).recoveryStates = DataNode.answers (d.answersTo k) := by
    unfold recoveryStates DataNode.answers answersTo
    rw [List.map_map]
    rfl
  have hwf : ∀ p ∈ d.answersTo k, p.2.Wf := by
    intro p hp
    obtain ⟨m, -, rfl⟩ := List.mem_map.mp hp
    by_cases hmk : m.nodeId = k
    · rw [hmk, node_announce_self]
      exact DataNode.Wf.recoveryState ⟨(h.wf k).log, (h.wf k).lines⟩
    · rw [node_announce_of_ne hmk]
      exact (h.wf _).recoveryState
  have hreached := n.reached_recoverFromPeers hwf
  have hnwf : n.Wf := by
    rw [hself]
    exact ⟨(hc.wf.nodes k).log, (hc.wf.nodes k).lines⟩
  -- nothing is installed
  have hle : ∀ rs ∈ n.asked (d.answersTo k),
      rs.snapshotManifest.lastCompactedWalSequence ≤ n.compactedWal := by
    intro rs hrs
    obtain ⟨m, hm, hasks, rfl⟩ := (h.mem_asked hnid hshards).mp hrs
    obtain ⟨p, hp, hpasks, hid⟩ :=
      (h.exists_asked_iff hdone (fun i => i = m.nodeId)).mp ⟨m, hm, hasks, rfl⟩
    show (d.node m.nodeId).compactedWal ≤ n.compactedWal
    rw [h.compacted, hcompacted, ← hid]
    exact hpeers p hp hpasks
  have htop := DataNode.topCompacted_eq_of_le hle
  have htopSnapshot := DataNode.topSnapshot_eq_of_le hle
  have htaken := fun x => h.taken_iff (x := x) hc hdone hnid hshards hlog
  generalize hm : n.recoverFromPeers (DataNode.answers (d.answersTo k)) = m at hreached
  have hmwf : m.Wf := hm ▸ hnwf.recoverFromPeers _
  have hnode : (d.refreshShards k).node k = m.applyPendingWal.withState .SERVING := by
    rw [node_refreshShards_self, hn, hanswers, hm]
  have happly : m.applyPendingWal.walLog = m.walLog ∧
      m.applyPendingWal.compactedWal = m.compactedWal := by
    unfold DataNode.applyPendingWal
    split
    · exact ⟨rfl, rfl⟩
    · exact ⟨rfl, rfl⟩
  have hinfo := m.currentNodeInfo_applyPendingWal
  rw [hnode]
  refine ⟨⟨hmwf.applyPendingWal.log, hmwf.applyPendingWal.lines⟩, ?_, ?_, ?_, fun x => ?_,
    fun x => ?_⟩
  · exact (congrArg NodeInfo.nodeId hinfo).trans (hreached.nodeId.trans hnid)
  · exact (congrArg NodeInfo.shards hinfo).trans (hreached.shards.trans hshards)
  · exact happly.2.trans (hreached.compactedWal.trans (htop.trans hcompacted))
  · show (∃ e ∈ m.applyPendingWal.walLog.walFile, e.stmt = x) ↔ _
    rw [happly.1, hreached.walFile, gets_iff, ← htaken x,
      ← Mark.exists_mem_stored_iff WalEntry.stmt (fun _ _ => rfl), hlog]
    simp only [List.mem_append, or_and_right, exists_or]
    exact Iff.rfl
  · have hlist : (m.applyPendingWal.withState .SERVING).replaySql = m.replaySql :=
      DataNode.replaySql_applyPendingWal m
    rw [hlist, hreached.mem_replaySql, DataNode.Ends, htop, htopSnapshot, ← htaken x,
      DataNode.mem_replaySql, hsnapshot, ← hcompacted, hlog, or_assoc]
    refine or_congr_right (or_congr_right (exists_congr fun e => and_congr_left fun _ => ?_))
    exact Mark.visible_iff_mem (hcompacted ▸ hlast)

/-- The refresh of the next node. -/
theorem Refreshing.refreshShards (h : c.Refreshing rf done d) (hc : c.Reachable)
    (hsettled : c.Settled rf) (hk : k ∈ c.liveIds) (hdone : ∀ i ∈ c.liveIds, i ∈ done ↔ i < k) :
    c.Refreshing rf (done ++ [k]) (d.refreshShards k) := by
  have hnode := h.refreshed_node hc hsettled hk hdone
  have hnodes := mem_nodes_refreshShards (h.ids k) hnode.nodeId
  have hmem : ∀ i, i ∈ done ++ [k] ↔ i ∈ done ∨ i = k := by simp
  refine ⟨fun i => ?_, fun i => ?_, h.shardNodes, fun i => ?_, fun m hm hi => ?_, fun m hi => ?_,
    fun i hi => ?_, fun i => ?_, fun i hi x => ?_, fun i hi x => ?_⟩
  · by_cases hik : i = k
    · exact hik ▸ hnode.wf
    · rw [node_refreshShards_of_ne hik]
      exact h.wf i
  · by_cases hik : i = k
    · exact hik ▸ hnode.nodeId
    · rw [node_refreshShards_of_ne hik]
      exact h.ids i
  · rw [mem_liveIds_of_nodes hnode.nodeId hnodes, h.live]
    exact ⟨fun hi => hi.elim (fun heq => heq ▸ hk) id, Or.inr⟩
  · obtain rfl | ⟨hm, hne⟩ := (hnodes m).mp hm
    · show ((d.refreshShards k).node k).shards = c.newShards rf ((d.refreshShards k).node k).nodeId
      rw [hnode.shards, hnode.nodeId]
    · exact h.refreshed m hm (((hmem _).mp hi).resolve_right hne)
  · rw [hmem, not_or] at hi
    rw [hnodes, ← h.waiting m hi.1]
    refine ⟨fun hm => ?_, fun hm => Or.inr ⟨hm, hi.2⟩⟩
    obtain rfl | ⟨hm, -⟩ := hm
    · exact absurd hnode.nodeId hi.2
    · exact hm
  · rw [hmem, not_or] at hi
    rw [node_refreshShards_of_ne hi.2]
    exact h.untouched i hi.1
  · by_cases hik : i = k
    · exact hik ▸ hnode.compacted
    · rw [node_refreshShards_of_ne hik]
      exact h.compacted i
  · by_cases hik : i = k
    · subst hik
      exact hnode.logged x
    · unfold Logged
      rw [node_refreshShards_of_ne hik]
      exact h.logged i (((hmem i).mp hi).resolve_right hik) x
  · by_cases hik : i = k
    · subst hik
      exact hnode.listed x
    · rw [node_refreshShards_of_ne hik]
      exact h.listed i (((hmem i).mp hi).resolve_right hik) x

/-- The refreshes one after another, in the order of the ids. -/
theorem Refreshing.foldl (hc : c.Reachable) (hsettled : c.Settled rf) {ids : List String}
    (h : c.Refreshing rf done d) (hlive : done ++ ids = c.liveIds) :
    c.Refreshing rf c.liveIds (ids.foldl Cluster.refreshShards d) := by
  induction ids generalizing done d with
  | nil =>
    rw [List.append_nil] at hlive
    exact hlive ▸ h
  | cons k ids ih =>
    have hsorted := pairwise_liveIds hc.addressInv.nodes
    rw [← hlive] at hsorted
    obtain ⟨-, hrest, hbefore⟩ := List.pairwise_append.mp hsorted
    have hk : k ∈ c.liveIds := by
      rw [← hlive]
      exact List.mem_append_right _ List.mem_cons_self
    have hdone : ∀ i ∈ c.liveIds, i ∈ done ↔ i < k := by
      intro i hi
      refine ⟨fun hmem => hbefore i hmem k List.mem_cons_self, fun hlt => ?_⟩
      rw [← hlive] at hi
      obtain hi | hi := List.mem_append.mp hi
      · exact hi
      · obtain rfl | hi := List.mem_cons.mp hi
        · exact absurd hlt (lt_irrefl i)
        · exact absurd hlt (lt_asymm ((List.pairwise_cons.mp hrest).1 i hi))
    refine ih (h.refreshShards hc hsettled hk hdone) ?_
    rw [← hlive, List.append_assoc]
    rfl

/-- A new replica is one of the nodes that are refreshed. -/
theorem Moves.mem_liveIds (h : c.Moves rf x k) : k ∈ c.liveIds := by
  obtain ⟨_, _, _, j, _, hj, _⟩ := h.held
  obtain ⟨m, hm, _, hk⟩ := h.moved
  refine ZkMetadataStore.mem_liveNodes_of_mem_rebalance ?_ hm hk
  intro hnil
  rw [liveIds, hnil] at hj
  cases hj

open DisMiniSql.Distributed.Action (startUp beginWrite sendAndReceive)

end Cluster

end DisMiniSql.Distributed
