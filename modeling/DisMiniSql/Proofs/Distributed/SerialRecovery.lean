import Mathlib.Data.String.Basic
import DisMiniSql.Proofs.Distributed.SerialWrites

/-!
# `DisMiniSql.Proofs.Distributed.SerialRecovery`: recoveries with nothing in between

Each node has the beginning of the log of each shard. A round of `recoverFromPeers` appends the
entries whose request the node does not know, in the order of the peer: of two beginnings of a log
the longer one is left. So a recovery never spoils a log, and it completes one as soon as it asks
a peer that has all of it.

* `Follows.absorb`: one round, if no snapshot is installed.
* `Agrees.startNode`: a node starts, and each of its shards has a replica.
* `Agrees.rebalance`: a rebalance in which each new replica finds an old one.
-/

set_option autoImplicit false

namespace DisMiniSql.Distributed

/-- Of two beginnings of a list without repetitions, the second adds what it has more. -/
theorem prefix_append_filter {α : Type} [DecidableEq α] {l p q : List α} (hl : l.Nodup)
    (hp : p <+: l) (hq : q <+: l) :
    p ++ q.filter (· ∉ p) <+: l ∧ q <+: p ++ q.filter (· ∉ p) := by
  obtain h | h := List.prefix_or_prefix_of_prefix hq hp
  · -- the second is not longer
    have hnone : q.filter (· ∉ p) = [] := by
      rw [List.filter_eq_nil_iff]
      intro x hx hnot
      exact of_decide_eq_true hnot (h.subset hx)
    rw [hnone, List.append_nil]
    exact ⟨hp, h⟩
  · obtain ⟨t, rfl⟩ := h
    have hnodup : (p ++ t).Nodup := hl.sublist hq.sublist
    have hfirst : p.filter (· ∉ p) = [] := by
      rw [List.filter_eq_nil_iff]
      intro x hx hnot
      exact of_decide_eq_true hnot hx
    have hsecond : t.filter (· ∉ p) = t := by
      rw [List.filter_eq_self]
      intro x hx
      exact decide_eq_true fun hxp => (List.nodup_append.mp hnodup).2.2 x hxp x hx rfl
    rw [List.filter_append, hfirst, hsecond, List.nil_append]
    exact ⟨hq, List.prefix_refl _⟩

namespace DataNode

open Cluster (LogsWf)

variable {n p : DataNode} {logs : Int → List Stmt} {usedIds : List String}

/-- The node has no snapshot, and the beginning of the log of each shard. -/
structure Follows (logs : Int → List Stmt) (n : DataNode) : Prop where
  whole : n.Whole
  wf : n.Wf
  uncompacted : n.Uncompacted
  isPrefix : ∀ s, n.shardSql s <+: logs s

theorem Follows.replaySql (h : Follows logs n) :
    n.replaySql = n.walLog.walFile.map WalEntry.stmt := by
  rw [h.whole.tidy.replaySql, h.uncompacted.2, List.nil_append]

theorem Follows.mem_logs (h : Follows logs n) {x : Stmt} (hx : x ∈ n.replaySql) :
    x ∈ logs x.shardId :=
  (h.isPrefix x.shardId).subset (List.mem_filter.mpr ⟨hx, decide_eq_true rfl⟩)

/-- A node knows the request of a statement of the logs exactly if it has the statement. -/
theorem Follows.containsRequestId_iff (hlogs : LogsWf usedIds logs) (h : Follows logs n) {x : Stmt}
    {s : Int} (hx : x ∈ logs s) :
    n.walLog.containsRequestId x.requestId = true ↔ x ∈ n.replaySql := by
  constructor
  · intro hknown
    obtain ⟨e, he, hid⟩ := h.wf.log.exists_of_containsRequestId hknown
    have hstmt : e.stmt ∈ n.replaySql := by
      rw [h.whole.replaySql]
      exact List.mem_map_of_mem he
    rwa [← hlogs.unique _ _ (h.mem_logs hstmt) _ _ hx hid]
  · intro hmem
    rw [h.replaySql] at hmem
    obtain ⟨e, he, rfl⟩ := List.mem_map.mp hmem
    exact h.wf.log.containsRequestId_of_mem he

/-- The numbers do not change the statements. -/
theorem map_stmt_stored (last : Nat) (es : List WalEntry) :
    (Mark.stored last (es.map .taken)).map WalEntry.stmt = es.map WalEntry.stmt := by
  induction es generalizing last with
  | nil => rfl
  | cons e es ih =>
    rw [List.map_cons, Mark.stored, List.map_cons, List.map_cons, ih]
    rfl

/-- The statements of a peer that a round adds. -/
theorem Follows.map_stmt_recovered (h : Follows logs p) :
    (n.recovered p.recoveryState).map WalEntry.stmt = p.replaySql.filter fun x =>
      n.ownsShard x.shardId && !n.walLog.containsRequestId x.requestId := by
  have hentries : p.recoveryState.walEntries = p.walLog.walFile := h.whole.tidy.readAll
  have hsorted : p.walLog.walFile.insertionSort (fun a b => a.sequence ≤ b.sequence) =
      p.walLog.walFile := h.whole.tidy.readAll
  unfold recovered
  rw [hentries, hsorted, h.replaySql, List.filter_filter, List.filter_map]
  congr 1
  refine List.filter_congr fun e _ => ?_
  exact Bool.and_comm ..

/-- No snapshot is installed. -/
theorem Follows.absorb_eq (hp : Follows logs p) (n : DataNode) :
    n.absorb p.recoveryState = (n.recovered p.recoveryState).foldl appendRecovered n := by
  have hinstalls : n.installs p.recoveryState = false := by
    show decide (n.compactedWal < p.compactedWal) = false
    rw [hp.uncompacted.1]
    exact decide_eq_false (Nat.not_lt_zero _)
  unfold DataNode.absorb installPeerSnapshotIfNewer
  rw [hinstalls, if_neg Bool.false_ne_true]

/-- One round, in which nothing is installed. -/
theorem Follows.replaySql_absorb (hn : Follows logs n) (hp : Follows logs p) :
    (n.absorb p.recoveryState).Whole ∧ (n.absorb p.recoveryState).Uncompacted ∧
      (n.absorb p.recoveryState).nodeId = n.nodeId ∧
      (n.absorb p.recoveryState).shards = n.shards ∧
      (n.absorb p.recoveryState).replaySql = n.replaySql ++ p.replaySql.filter fun x =>
        n.ownsShard x.shardId && !n.walLog.containsRequestId x.requestId := by
  obtain ⟨hsame, hfile, -, -⟩ := foldl_appendRecovered (n := n)
    (fun e he => findByRequestId_of_not_contains (mem_recovered.mp he).2.2)
    (distinct_recovered hp.wf.recoveryState)
    (fun e he => hp.wf.recoveryState.normalized e (mem_recovered.mp he).1)
  obtain ⟨hwhole, hcompacted⟩ :=
    hn.whole.foldl_appendRecovered (n.recovered p.recoveryState)
  rw [hp.absorb_eq n]
  have hsnapshot := hsame.snapshotManager
  refine ⟨hwhole, ⟨hcompacted.trans hn.uncompacted.1, ?_⟩, hsame.nodeId, hsame.shards, ?_⟩
  · rw [hsnapshot]
    exact hn.uncompacted.2
  · rw [hwhole.tidy.replaySql, hfile, hsnapshot, List.map_append, map_stmt_stored,
      hp.map_stmt_recovered, ← List.append_assoc, hn.whole.tidy.replaySql]

/-- What a recovery gives a node: its own lists and those of the peers that it asks are beginnings
of the new ones. -/
structure Gains (logs : Int → List Stmt) (n : DataNode) (peers : DataNode → Prop)
    (n' : DataNode) : Prop where
  follows : Follows logs n'
  nodeId : n'.nodeId = n.nodeId
  shards : n'.shards = n.shards
  keeps : ∀ s, n.shardSql s <+: n'.shardSql s
  brings : ∀ p, peers p → ∀ s, n.ownsShard s = true → p.shardSql s <+: n'.shardSql s

/-- One round: of two beginnings of a log the longer one is left. -/
theorem Follows.absorb (hlogs : LogsWf usedIds logs) (hn : Follows logs n) (hp : Follows logs p) :
    Gains logs n (· = p) (n.absorb p.recoveryState) := by
  obtain ⟨hwhole, huncompacted, hid, hshards, hlist⟩ := hn.replaySql_absorb hp
  -- what is added to a shard
  have hshardSql : ∀ s, (n.absorb p.recoveryState).shardSql s = n.shardSql s ++
      if n.ownsShard s then (p.shardSql s).filter (· ∉ n.shardSql s) else [] := by
    intro s
    unfold DataNode.shardSql
    rw [hlist, List.filter_append, List.filter_filter]
    congr 1
    by_cases hs : n.ownsShard s = true
    · rw [if_pos hs, List.filter_filter]
      refine List.filter_congr fun x hx => ?_
      by_cases hxs : x.shardId = s
      · subst hxs
        have hiff := hn.containsRequestId_iff hlogs (hp.mem_logs hx)
        by_cases hmem : x ∈ n.replaySql
        · simp [hmem, hiff.mpr hmem]
        · have hnot : n.walLog.containsRequestId x.requestId = false := by
            rw [← Bool.not_eq_true, hiff]
            exact hmem
          simp [hmem, hs, hnot]
      · simp [hxs]
    · rw [if_neg hs, List.filter_eq_nil_iff]
      intro x _ hx
      simp only [Bool.and_eq_true, decide_eq_true_eq] at hx
      exact hs (hx.1 ▸ hx.2.1)
  refine ⟨⟨hwhole, ?_, huncompacted, fun s => ?_⟩, hid, hshards, fun s => ?_, fun q hq s hs => ?_⟩
  · rw [hp.absorb_eq n]
    exact List.foldlRecOn _ _ hn.wf fun _ hm e _ => hm.appendRecovered e
  · rw [hshardSql]
    split
    · exact (prefix_append_filter (hlogs.nodup s) (hn.isPrefix s) (hp.isPrefix s)).1
    · rw [List.append_nil]
      exact hn.isPrefix s
  · rw [hshardSql]
    exact List.prefix_append _ _
  · subst hq
    rw [hshardSql, if_pos hs]
    exact (prefix_append_filter (hlogs.nodup s) (hn.isPrefix s) (hp.isPrefix s)).2

/-- Two recoveries one after the other gain from both sets of peers. -/
theorem Gains.trans {n' n'' : DataNode} {peers peers' : DataNode → Prop}
    (h : Gains logs n peers n') (h' : Gains logs n' peers' n'') :
    Gains logs n (fun p => peers p ∨ peers' p) n'' where
  follows := h'.follows
  nodeId := h'.nodeId.trans h.nodeId
  shards := h'.shards.trans h.shards
  keeps s := (h.keeps s).trans (h'.keeps s)
  brings p hp s hs := by
    obtain hp | hp := hp
    · exact (h.brings p hp s hs).trans (h'.keeps s)
    · refine h'.brings p hp s ?_
      unfold ownsShard
      rw [h.shards]
      exact hs

/-- A whole recovery. -/
theorem Follows.recoverFromPeers (hlogs : LogsWf usedIds logs) {ps : List NodeInfo}
    {f : NodeInfo → DataNode} (hn : Follows logs n)
    (hps : ∀ m ∈ ps, n.contacts m = true → Follows logs (f m)) :
    Gains logs n (fun p => ∃ m ∈ ps, n.contacts m = true ∧ f m = p)
      (n.recoverFromPeers (ps.map fun m => (m, some (f m).recoveryState))) := by
  induction ps generalizing n with
  | nil =>
    refine ⟨hn, rfl, rfl, fun _ => List.prefix_refl _, fun p hp => ?_⟩
    obtain ⟨m, hm, -⟩ := hp
    cases hm
  | cons m ps ih =>
    rw [List.map_cons, recoverFromPeers_cons]
    -- the round with the first peer
    have hround : Gains logs n (fun p => n.contacts m = true ∧ f m = p)
        (n.recoverFromPeer m (some (f m).recoveryState)) := by
      unfold recoverFromPeer
      by_cases hcontacts : n.contacts m = true
      · rw [if_pos hcontacts]
        have hgains := hn.absorb hlogs (hps m List.mem_cons_self hcontacts)
        exact ⟨hgains.follows, hgains.nodeId, hgains.shards, hgains.keeps,
          fun p hp => hgains.brings p hp.2.symm⟩
      · rw [if_neg hcontacts]
        exact ⟨hn, rfl, rfl, fun _ => List.prefix_refl _, fun p hp => absurd hp.1 hcontacts⟩
    have hsame : ∀ x, (n.recoverFromPeer m (some (f m).recoveryState)).contacts x =
        n.contacts x := by
      intro x
      unfold contacts
      rw [hround.nodeId, hround.shards]
    have hrest := ih hround.follows fun x hx hcontacts =>
      hps x (List.mem_cons_of_mem _ hx) (hsame x ▸ hcontacts)
    have hall := hround.trans hrest
    refine ⟨hall.follows, hall.nodeId, hall.shards, hall.keeps, fun p hp => hall.brings p ?_⟩
    obtain ⟨x, hx, hcontacts, hfx⟩ := hp
    obtain rfl | hx := List.mem_cons.mp hx
    · exact Or.inl ⟨hcontacts, hfx⟩
    · exact Or.inr ⟨x, hx, (hsame x).trans hcontacts, hfx⟩

/-- Nodes with one history. -/
theorem Whole.shardSql_congr {n' : DataNode} (h : n.Whole) (h' : n'.Whole)
    (hhistory : n'.walLog.history = n.walLog.history) (s : Int) : n'.shardSql s = n.shardSql s := by
  unfold shardSql
  rw [h'.replaySql, h.replaySql, hhistory]

/-- The node at the end of its recovery: it serves what it has recovered. -/
structure Serves (n n' : DataNode) : Prop where
  whole : n'.Whole
  nodeId : n'.nodeId = n.nodeId
  shards : n'.shards = n.shards
  serving : n'.replicaState = .SERVING
  shardSql : ∀ s, n'.shardSql s = n.shardSql s

theorem currentNodeInfo_applyPendingWal (n : DataNode) :
    n.applyPendingWal.currentNodeInfo = n.currentNodeInfo := by
  unfold applyPendingWal
  split
  · rfl
  · rfl

theorem history_applyPendingWal (n : DataNode) :
    n.applyPendingWal.walLog.history = n.walLog.history := by
  unfold applyPendingWal
  split
  · rfl
  · rfl

theorem Uncompacted.applyPendingWal (h : n.Uncompacted) : n.applyPendingWal.Uncompacted := by
  unfold DataNode.applyPendingWal
  split
  · exact h
  · exact h

theorem Whole.serves_applyPendingWal (h : n.Whole) :
    n.Serves (n.applyPendingWal.withState .SERVING) := by
  have hwhole : (n.applyPendingWal.withState .SERVING).Whole :=
    h.applyPendingWal.congr rfl rfl rfl
  have hinfo := n.currentNodeInfo_applyPendingWal
  exact ⟨hwhole, congrArg NodeInfo.nodeId hinfo, congrArg NodeInfo.shards hinfo, rfl,
    h.shardSql_congr hwhole n.history_applyPendingWal⟩

/-- Also when a snapshot is taken on the way. -/
theorem Whole.serves_maybeSnapshot (h : n.Whole) (hlines : ∀ x ∈ n.replaySql, x.IsLine) :
    n.Serves (n.applyPendingWal.maybeSnapshot.withState .SERVING) := by
  have hexact : n.applyPendingWal.StoresExactly := by
    refine storesExactly_of_lines ?_
    rw [replaySql_applyPendingWal]
    exact hlines
  have hwhole : (n.applyPendingWal.maybeSnapshot.withState .SERVING).Whole :=
    (h.applyPendingWal.maybeSnapshot hexact).congr rfl rfl rfl
  have hinfo := n.applyPendingWal.currentNodeInfo_maybeSnapshot.trans
    n.currentNodeInfo_applyPendingWal
  exact ⟨hwhole, congrArg NodeInfo.nodeId hinfo, congrArg NodeInfo.shards hinfo, rfl,
    h.shardSql_congr hwhole ((history_maybeSnapshot _).trans n.history_applyPendingWal)⟩

end DataNode

namespace Cluster

open DataNode (Follows)

variable {c c' d : Cluster} {k : String} {logs : Int → List Stmt} {given : Int → String → Prop}
  {replicationFactor : Nat}

variable {i : String}

/-- The shards of a node are those that place a replica on it. -/
theorem mem_shardsForNode {z : ZkMetadataStore} {s : Int} :
    s ∈ z.shardsForNode i ↔ z.Places s i := by
  unfold ZkMetadataStore.shardsForNode ZkMetadataStore.Places ZkMetadataStore.shards
  simp only [List.mem_map, List.mem_filter, List.mem_insertionSort, List.contains_iff_mem]
  constructor
  · intro h
    obtain ⟨m, ⟨hm, hi⟩, hs⟩ := h
    exact ⟨m, hm, hs, hi⟩
  · intro h
    obtain ⟨m, hm, hs, hi⟩ := h
    exact ⟨m, ⟨hm, hi⟩, hs⟩

/-- The node has a new state and is registered with it. -/
structure Reenters (c : Cluster) (k : String) (n : DataNode) (c' : Cluster) : Prop where
  node : c'.node = Function.update c.node k n
  nodes : ∀ m, m ∈ c'.zk.nodes ↔ m = n.currentNodeInfo ∨ (m ∈ c.zk.nodes ∧ m.nodeId ≠ k)
  shardNodes : c'.zk.shardNodes = c.zk.shardNodes
  status : c'.status = Function.update c.status k .listening
  recoveries : c'.recoveries = c.recoveries
  requests : c'.requests = c.requests
  usedIds : c'.usedIds = c.usedIds

theorem Reenters.node_self {n : DataNode} (h : c.Reenters k n c') : c'.node k = n := by
  rw [h.node, Function.update_self]

theorem Reenters.node_of_ne {n : DataNode} (h : c.Reenters k n c') (hi : i ≠ k) :
    c'.node i = c.node i := by
  rw [h.node, Function.update_of_ne hi]

/-- The registered nodes after one of them has put a new record. -/
theorem mem_liveIds_of_nodes {n : DataNode} (hid : n.nodeId = k)
    (hnodes : ∀ m, m ∈ c'.zk.nodes ↔ m = n.currentNodeInfo ∨ (m ∈ c.zk.nodes ∧ m.nodeId ≠ k)) :
    i ∈ c'.liveIds ↔ i = k ∨ i ∈ c.liveIds := by
  rw [Cluster.mem_liveIds, Cluster.mem_liveIds]
  constructor
  · intro hi
    obtain ⟨m, hm, rfl⟩ := hi
    obtain rfl | ⟨hm, -⟩ := (hnodes m).mp hm
    · exact Or.inl hid
    · exact Or.inr ⟨m, hm, rfl⟩
  · intro hi
    by_cases hik : i = k
    · exact ⟨n.currentNodeInfo, (hnodes _).mpr (Or.inl rfl), hid.trans hik.symm⟩
    · obtain ⟨m, hm, rfl⟩ := hi.resolve_left hik
      exact ⟨m, (hnodes m).mpr (Or.inr ⟨hm, hik⟩), rfl⟩

theorem Reenters.mem_liveIds {n : DataNode} (h : c.Reenters k n c') (hid : n.nodeId = k) :
    i ∈ c'.liveIds ↔ i = k ∨ i ∈ c.liveIds :=
  mem_liveIds_of_nodes hid h.nodes

/-- A quiet cluster is quiet again when a node has come back whole. -/
theorem Quiet.of_reenters {n : DataNode} {given' : Int → String → Prop} (h : c.Quiet given)
    (hre : c.Reenters k n c') (hwhole : n.Whole) (hid : n.nodeId = k)
    (hserving : n.replicaState = .SERVING) (hreachable : c'.Reachable)
    (hself : ∀ s, s ∈ n.shards ↔ given' s k) (hothers : ∀ s i, i ≠ k → (given' s i ↔ given s i)) :
    c'.Quiet given' where
  reachable := hreachable
  requests := hre.requests.trans h.requests
  recoveries r := by rw [hre.recoveries, h.recoveries]
  whole i := by
    by_cases hi : i = k
    · subst hi
      rwa [hre.node_self]
    · rw [hre.node_of_ne hi]
      exact h.whole i
  listening i := by
    rw [hre.status, hre.mem_liveIds hid]
    by_cases hi : i = k
    · subst hi
      simp
    · rw [Function.update_of_ne hi, h.listening]
      simp [hi]
  registered m hm := by
    obtain rfl | ⟨hm, hne⟩ := (hre.nodes m).mp hm
    · show n.currentNodeInfo = (c'.node n.nodeId).currentNodeInfo
      rw [hid, hre.node_self]
    · rw [hre.node_of_ne hne]
      exact h.registered m hm
  serving m hm := by
    obtain rfl | ⟨hm, -⟩ := (hre.nodes m).mp hm
    · exact hserving
    · exact h.serving m hm
  shards m hm s := by
    obtain rfl | ⟨hm, hne⟩ := (hre.nodes m).mp hm
    · show s ∈ n.shards ↔ given' s n.nodeId
      rw [hid]
      exact hself s
    · rw [hothers s _ hne]
      exact h.shards m hm s

/-- The record of a node that is put twice. -/
theorem mem_registerNode_twice {z : ZkMetadataStore} {a b m : NodeInfo} (ha : a.nodeId = k)
    (hb : b.nodeId = k) : m ∈ ((z.registerNode a).registerNode b).nodes ↔
      m = b ∨ (m ∈ z.nodes ∧ m.nodeId ≠ k) := by
  show m ∈ b :: (a :: z.nodes.filter _).filter _ ↔ _
  simp only [List.mem_cons, List.mem_filter, bne_iff_ne, ne_eq, ha, hb]
  constructor
  · intro h
    obtain rfl | ⟨rfl | ⟨hm, -⟩, hne⟩ := h
    · exact Or.inl rfl
    · exact absurd ha hne
    · exact Or.inr ⟨hm, hne⟩
  · intro h
    obtain rfl | ⟨hm, hne⟩ := h
    · exact Or.inl rfl
    · exact Or.inr ⟨Or.inr ⟨hm, hne⟩, hne⟩

/-- The node that starts, when it has asked its peers. -/
theorem node_startNode (c : Cluster) (k : String) : (c.startNode k).node k =
    (((((c.construct k).announce k).node k).recoverFromPeers
      ((c.construct k).announce k).recoveryStates).applyPendingWal.maybeSnapshot).withState
        .SERVING := by
  show Function.update ((c.construct k).announce k).node k _ k = _
  rw [Function.update_self]

/-- A start of a node is such a return: only its own files and its registration change. -/
theorem reenters_startNode (hid : (c.node k).nodeId = k)
    (hid' : ((c.startNode k).node k).nodeId = k) :
    c.Reenters k ((c.startNode k).node k) (c.startNode k) where
  node := by
    funext i
    by_cases hi : i = k
    · subst hi
      rw [Function.update_self]
    · rw [Function.update_of_ne hi]
      show Function.update (Function.update (Function.update c.node k _) k _) k _ i = _
      rw [Function.update_of_ne hi, Function.update_of_ne hi, Function.update_of_ne hi]
  nodes m := by
    have hannounced : (((c.construct k).node k).withState .RECOVERING).nodeId = k := by
      show (Function.update c.node k _ k).nodeId = k
      rw [Function.update_self]
      exact hid
    refine Iff.trans (Iff.of_eq ?_) (mem_registerNode_twice (a :=
      (((c.construct k).node k).withState .RECOVERING).currentNodeInfo)
      (b := ((c.startNode k).node k).currentNodeInfo) hannounced hid')
    show (m ∈ (((c.zk.registerNode (Function.update (c.construct k).node k
      (((c.construct k).node k).withState .RECOVERING) k).currentNodeInfo)).registerNode
        ((c.startNode k).node k).currentNodeInfo).nodes) = _
    rw [Function.update_self]
  shardNodes := rfl
  status := by
    show Function.update (Function.update c.status k .starting) k .listening = _
    rw [Function.update_idem]
  recoveries := rfl
  requests := rfl
  usedIds := rfl

/-- A registered node without a snapshot follows the logs. -/
theorem Agrees.follows (h : c.Agrees logs) (hi : (c.node i).Uncompacted) :
    Follows logs (c.node i) :=
  ⟨h.quiet.whole i, h.quiet.reachable.wf.nodes i, hi, h.isPrefix i⟩

theorem node_announce_self : (c.announce k).node k = (c.node k).withState .RECOVERING := by
  show Function.update c.node k _ k = _
  rw [Function.update_self]

theorem node_announce_of_ne (hi : i ≠ k) : (c.announce k).node i = c.node i := by
  show Function.update c.node k _ i = _
  rw [Function.update_of_ne hi]

/-- And stay live. -/
theorem mem_liveNodes_announce (hid : (c.node k).nodeId = k) {m : NodeInfo} (hm : m.nodeId ≠ k) :
    m ∈ (c.announce k).zk.liveNodes ↔ m ∈ c.zk.nodes := by
  have hinfo : ((c.announce k).node k).currentNodeInfo.nodeId = k := by
    rw [node_announce_self]
    exact hid
  refine (List.mem_insertionSort _).trans ?_
  show m ∈ ((c.announce k).node k).currentNodeInfo :: c.zk.nodes.filter
    (fun x => x.nodeId != ((c.announce k).node k).currentNodeInfo.nodeId) ↔ _
  rw [hinfo, List.mem_cons, List.mem_filter, bne_iff_ne]
  constructor
  · intro h
    obtain rfl | ⟨hmem, -⟩ := h
    · exact absurd hinfo hm
    · exact hmem
  · exact fun hmem => Or.inr ⟨hmem, hm⟩

/-- The recovery of a node: it gets the lists of the registered nodes that it asks. -/
theorem gains_recoveryStates {n : DataNode} (hlogs : LogsWf c.usedIds logs)
    (hid : (c.node k).nodeId = k) (hn : Follows logs n) (hnid : n.nodeId = k)
    (hpeers : ∀ m ∈ c.zk.nodes, m.nodeId ≠ k → Follows logs (c.node m.nodeId)) :
    DataNode.Gains logs n
      (fun p => ∃ m ∈ c.zk.nodes, n.contacts m = true ∧ c.node m.nodeId = p)
      (n.recoverFromPeers (c.announce k).recoveryStates) := by
  have hne : ∀ m, n.contacts m = true → m.nodeId ≠ k := by
    intro m hcontacts heq
    unfold DataNode.contacts at hcontacts
    rw [hnid, heq, bne_self_eq_false, Bool.false_and] at hcontacts
    cases hcontacts
  have hasked : ∀ m ∈ (c.announce k).zk.liveNodes, n.contacts m = true →
      Follows logs ((c.announce k).node m.nodeId) := by
    intro m hm hcontacts
    rw [node_announce_of_ne (hne m hcontacts)]
    exact hpeers m ((mem_liveNodes_announce hid (hne m hcontacts)).mp hm) (hne m hcontacts)
  have hgains := hn.recoverFromPeers hlogs hasked
  refine ⟨hgains.follows, hgains.nodeId, hgains.shards, hgains.keeps, fun p hp => ?_⟩
  obtain ⟨m, hm, hcontacts, rfl⟩ := hp
  refine hgains.brings _ ⟨m, (mem_liveNodes_announce hid (hne m hcontacts)).mpr hm, hcontacts, ?_⟩
  exact node_announce_of_ne (hne m hcontacts)

/-- A node that advertises a shard of the recovering one is asked. -/
theorem contacts_of_mem {n : DataNode} {m : NodeInfo} {s : Int} (hne : m.nodeId ≠ n.nodeId)
    (hm : s ∈ m.shards) (hn : s ∈ n.shards) : n.contacts m = true := by
  unfold DataNode.contacts
  rw [Bool.and_eq_true, bne_iff_ne]
  exact ⟨hne, List.any_eq_true.mpr ⟨s, hm, List.contains_iff_mem.mpr hn⟩⟩

/-- A node that starts recovers all statements of its shards. -/
theorem Agrees.startNode (h : c.Agrees logs) (hdown : c.status k = .down)
    (hsupplies : c.Supplies logs k) : (c.startNode k).Agrees logs := by
  obtain ⟨hsource, hown, hpeers⟩ := hsupplies
  have hid : (c.node k).nodeId = k := h.quiet.reachable.wf.ids k
  have hnotLive : k ∉ c.liveIds := by
    intro hk
    rw [← h.quiet.listening, hdown] at hk
    cases hk
  -- the node after the constructor
  have hconstruct : (c.construct k).node k = (c.node k).reload (c.zk.shardsForNode k) := by
    show Function.update c.node k _ k = _
    rw [Function.update_self]
  have hothers : ∀ i, i ≠ k → (c.construct k).node i = c.node i := by
    intro i hi
    show Function.update c.node k _ i = _
    rw [Function.update_of_ne hi]
  generalize hn : ((c.construct k).announce k).node k = n
  have hself : n = ((c.node k).reload (c.zk.shardsForNode k)).withState .RECOVERING := by
    rw [← hn, node_announce_self, hconstruct]
  have hnid : n.nodeId = k := by
    rw [hself]
    exact hid
  have hwhole : n.Whole := by
    rw [hself]
    exact ((h.quiet.whole k).reload _).congr rfl rfl rfl
  have hshardSql : ∀ s, n.shardSql s = (c.node k).shardSql s :=
    fun s => (h.quiet.whole k).shardSql_congr hwhole (by rw [hself]; rfl) s
  have hfollows : Follows logs n := by
    refine ⟨hwhole, ?_, ?_, fun s => ?_⟩
    · rw [hself]
      have hwf := (h.quiet.reachable.wf.nodes k).reload (c.zk.shardsForNode k)
      exact ⟨hwf.log, hwf.lines⟩
    · rw [hself]
      exact hown
    · rw [hshardSql]
      exact h.isPrefix k s
  have hgains := gains_recoveryStates (c := c.construct k) (k := k) (n := n) h.wf
    (by rw [hconstruct]; exact hid) hfollows hnid fun m hm hne => by
      rw [hothers _ hne]
      exact h.follows (hpeers _ (mem_liveIds.mpr ⟨m, hm, rfl⟩))
  generalize hrecovered : n.recoverFromPeers ((c.construct k).announce k).recoveryStates = n₁
    at hgains
  have hnode : (c.startNode k).node k =
      n₁.applyPendingWal.maybeSnapshot.withState .SERVING := by
    rw [node_startNode, hn, hrecovered]
  have hserves : n₁.Serves ((c.startNode k).node k) := by
    rw [hnode]
    exact hgains.follows.whole.serves_maybeSnapshot fun x hx =>
      h.wf.line _ x (hgains.follows.mem_logs hx)
  have hid' : ((c.startNode k).node k).nodeId = k := by
    rw [hserves.nodeId, hgains.nodeId, hnid]
  have hshards : ∀ s, s ∈ n.shards ↔ c.zk.Places s k := by
    intro s
    rw [hself]
    exact mem_shardsForNode
  have hre := reenters_startNode hid hid'
  have hplaces : ∀ s i, (c.startNode k).zk.Places s i ↔ c.zk.Places s i := fun _ _ => Iff.rfl
  have hreachable : (c.startNode k).Reachable := by
    have hlisten : ∀ p ∈ ((c.construct k).announce k).zk.liveNodes, p.nodeId ≠ k →
        c.status p.nodeId = .listening := by
      intro p hp hne
      rw [h.quiet.listening]
      have hp' := (mem_liveNodes_announce (c := c.construct k) (by rw [hconstruct]; exact hid)
        hne).mp hp
      exact mem_liveIds.mpr ⟨p, hp', rfl⟩
    obtain ⟨rounds, hrun⟩ := run_startNode (h.quiet.recoveries 0) hdown hid hlisten
    exact reachable_run h.quiet.reachable hrun
  refine ⟨h.quiet.of_reenters hre hserves.whole hid' hserves.serving hreachable (fun s => ?_)
    fun s i _ => hplaces s i, hre.usedIds ▸ h.wf, h.known, fun i s => ?_,
    fun s i hplaced hlive => ?_⟩
  · rw [hserves.shards, hgains.shards, hshards, hplaces]
  · by_cases hi : i = k
    · subst hi
      rw [hserves.shardSql]
      exact hgains.follows.isPrefix s
    · rw [hre.node_of_ne hi]
      exact h.isPrefix i s
  · rw [hplaces] at hplaced
    by_cases hi : i = k
    · subst hi
      rw [hserves.shardSql]
      have hall : logs s <+: n₁.shardSql s := by
        obtain ⟨m, hm, rfl, hreplica⟩ := hplaced
        obtain hcomplete | ⟨j, hj, hjreplica⟩ := hsource m hm hreplica
        · rw [← hcomplete, ← hshardSql]
          exact hgains.keeps m.shardId
        · -- a registered replica of the shard is asked
          obtain ⟨x, hx, rfl⟩ := mem_liveIds.mp hj
          have hne : x.nodeId ≠ i := fun heq => hnotLive (heq ▸ hj)
          have hplacedx : c.zk.Places m.shardId x.nodeId := ⟨m, hm, rfl, hjreplica⟩
          have howned := (hshards m.shardId).mpr ⟨m, hm, rfl, hreplica⟩
          have hcontacts := contacts_of_mem (n := n) (by rw [hnid]; exact hne)
            ((h.quiet.shards x hx _).mpr hplacedx) howned
          have hbrings := hgains.brings _ ⟨x, hx, hcontacts, rfl⟩ m.shardId
            (Bool.or_eq_true_iff.mpr (Or.inr (List.contains_iff_mem.mpr howned)))
          rwa [hothers _ hne, h.complete _ _ hplacedx hj] at hbrings
      exact (hgains.follows.isPrefix s).eq_of_length_le hall.length_le
    · rw [hre.node_of_ne hi]
      exact h.complete s i hplaced (((hre.mem_liveIds hid').mp hlive).resolve_left hi)

/-- A node that stops leaves the lists of the others. -/
theorem Agrees.stopNode (h : c.Agrees logs) (k : String) : (c.stopNode k).Agrees logs := by
  have hreachable : (c.stopNode k).Reachable := by
    have hrun : c.run [.crash k, .expire k] = some (c.stopNode k) := rfl
    exact reachable_run h.quiet.reachable hrun
  have hmem : ∀ m, m ∈ (c.stopNode k).zk.nodes ↔ m ∈ c.zk.nodes ∧ m.nodeId ≠ k := by
    intro m
    show m ∈ c.zk.nodes.filter _ ↔ _
    rw [List.mem_filter, bne_iff_ne]
  have hlive : ∀ i, i ∈ (c.stopNode k).liveIds ↔ i ∈ c.liveIds ∧ i ≠ k := by
    intro i
    rw [mem_liveIds, mem_liveIds]
    constructor
    · intro hi
      obtain ⟨m, hm, rfl⟩ := hi
      obtain ⟨hm, hne⟩ := (hmem m).mp hm
      exact ⟨⟨m, hm, rfl⟩, hne⟩
    · intro hi
      obtain ⟨⟨m, hm, rfl⟩, hne⟩ := hi
      exact ⟨m, (hmem m).mpr ⟨hm, hne⟩, rfl⟩
  refine ⟨⟨hreachable, h.quiet.requests, fun r => ?_, h.quiet.whole, fun i => ?_, fun m hm => ?_,
    fun m hm => ?_, fun m hm => ?_⟩, h.wf, h.known, h.isPrefix, fun s i hplaced hi => ?_⟩
  · show (c.recoveries r).filter _ = none
    rw [h.quiet.recoveries]
    rfl
  · show Function.update c.status k .down i = _ ↔ _
    rw [hlive]
    by_cases hi : i = k
    · subst hi
      simp
    · rw [Function.update_of_ne hi, h.quiet.listening]
      simp [hi]
  · exact h.quiet.registered m ((hmem m).mp hm).1
  · exact h.quiet.serving m ((hmem m).mp hm).1
  · exact h.quiet.shards m ((hmem m).mp hm).1
  · exact h.complete s i hplaced ((hlive i).mp hi).1

section Rebalance

/-- In the middle of a rebalance, when the nodes of `done` have been refreshed. -/
structure Shifting (c : Cluster) (replicationFactor : Nat) (logs : Int → List Stmt)
    (done : List String) (d : Cluster) : Prop where
  quiet : d.Quiet fun s i =>
    if i ∈ done then (c.reassign replicationFactor).zk.Places s i else c.zk.Places s i
  shardNodes : d.zk.shardNodes = (c.reassign replicationFactor).zk.shardNodes
  usedIds : d.usedIds = c.usedIds
  live : ∀ i, i ∈ d.liveIds ↔ i ∈ c.liveIds
  follows : ∀ i ∈ c.liveIds, Follows logs (d.node i)
  isPrefix : ∀ i s, (d.node i).shardSql s <+: logs s
  keeps : ∀ i s, (c.node i).shardSql s <+: (d.node i).shardSql s
  complete : ∀ i ∈ done, ∀ s, (c.reassign replicationFactor).zk.Places s i →
    (d.node i).shardSql s = logs s

/-- Before the first refresh. -/
theorem Agrees.shifting (h : c.Agrees logs) (htouch : c.KeepsTouch replicationFactor) :
    Shifting c replicationFactor logs [] (c.reassign replicationFactor) := by
  have hnodes : (c.reassign replicationFactor).zk.nodes = c.zk.nodes :=
    ZkMetadataStore.nodes_rebalance ..
  have hlive : ∀ i, i ∈ (c.reassign replicationFactor).liveIds ↔ i ∈ c.liveIds := by
    intro i
    rw [mem_liveIds, mem_liveIds, hnodes]
  have hreachable : (c.reassign replicationFactor).Reachable := by
    have hrun : c.run [.rebalance replicationFactor] = some (c.reassign replicationFactor) := rfl
    exact reachable_run h.quiet.reachable hrun
  refine ⟨⟨hreachable, h.quiet.requests, h.quiet.recoveries, h.quiet.whole, fun i => ?_,
    fun m hm => ?_, fun m hm => ?_, fun m hm s => ?_⟩, rfl, rfl, hlive, fun i hi => ?_, h.isPrefix,
    fun _ _ => List.prefix_refl _, fun i hi => ?_⟩
  · rw [hlive]
    exact h.quiet.listening i
  · exact h.quiet.registered m (hnodes ▸ hm)
  · exact h.quiet.serving m (hnodes ▸ hm)
  · rw [if_neg List.not_mem_nil]
    exact h.quiet.shards m (hnodes ▸ hm) s
  · exact h.follows (htouch.2 i hi)
  · cases hi

/-- What is registered after a refresh: the node with its new shards, the others as before. -/
theorem mem_nodes_refreshShards (hid : (c.node k).nodeId = k)
    (hid' : ((c.refreshShards k).node k).nodeId = k) (m : NodeInfo) :
    m ∈ (c.refreshShards k).zk.nodes ↔ m = ((c.refreshShards k).node k).currentNodeInfo ∨
      (m ∈ c.zk.nodes ∧ m.nodeId ≠ k) := by
  have hannounced : ((c.node k).withState .RECOVERING).nodeId = k := hid
  refine Iff.trans (Iff.of_eq ?_) (mem_registerNode_twice (a :=
    ((c.node k).withState .RECOVERING).currentNodeInfo)
    (b := ((c.refreshShards k).node k).currentNodeInfo) hannounced hid')
  show (m ∈ (((c.zk.registerNode (Function.update c.node k
    ((c.node k).withState .RECOVERING) k).currentNodeInfo)).registerNode
      ((c.refreshShards k).node k).currentNodeInfo).nodes) = _
  rw [Function.update_self]

/-- A refresh is such a return too. -/
theorem reenters_refreshShards (hid : (c.node k).nodeId = k)
    (hid' : ((c.refreshShards k).node k).nodeId = k) (hstatus : c.status k = .listening) :
    c.Reenters k ((c.refreshShards k).node k) (c.refreshShards k) where
  node := by
    funext i
    by_cases hi : i = k
    · subst hi
      rw [Function.update_self]
    · rw [Function.update_of_ne hi, node_refreshShards_of_ne hi]
  nodes := mem_nodes_refreshShards hid hid'
  shardNodes := rfl
  status := (Function.update_eq_self_iff.mpr hstatus.symm).symm
  recoveries := rfl
  requests := rfl
  usedIds := rfl

/-- A new replica asks a node that has all statements of the shard, if it has not got them. -/
theorem Shifting.exists_source {done : List String} (h : Shifting c replicationFactor logs done d)
    (hagrees : c.Agrees logs) (htouch : c.KeepsTouch replicationFactor)
    (hdone : ∀ j ∈ done, j < k) {s : Int} (hs : (c.reassign replicationFactor).zk.Places s k) :
    (d.node k).shardSql s = logs s ∨ ∃ m ∈ d.zk.nodes, m.nodeId ≠ k ∧
      (∃ t ∈ m.shards, (c.reassign replicationFactor).zk.Places t k) ∧
      (d.node m.nodeId).shardSql s = logs s := by
  obtain ⟨r, hr, rfl, hk⟩ := hs
  obtain ⟨j, hj, hplaced, hcase⟩ := htouch.1 r hr k hk
  -- an old replica still has all of its list
  have hall : (d.node j).shardSql r.shardId = logs r.shardId := by
    refine (h.isPrefix j _).eq_of_length_le ?_
    rw [← hagrees.complete _ j hplaced hj]
    exact (h.keeps j _).length_le
  by_cases hjk : j = k
  · exact Or.inl (hjk ▸ hall)
  right
  obtain ⟨m, hm, rfl⟩ := mem_liveIds.mp ((h.live j).mpr hj)
  refine ⟨m, hm, hjk, ?_, hall⟩
  by_cases hjdone : m.nodeId ∈ done
  · -- it has been refreshed, so it shares a new shard
    obtain ⟨r', hr', hj', hk'⟩ := (hcase.resolve_left hjk).resolve_left
      (not_lt_of_gt (hdone _ hjdone))
    refine ⟨r'.shardId, ?_, r', hr', rfl, hk'⟩
    rw [h.quiet.shards m hm, if_pos hjdone]
    exact ⟨r', hr', rfl, hj'⟩
  · -- it still advertises its old shards
    refine ⟨r.shardId, ?_, r, hr, rfl, hk⟩
    rw [h.quiet.shards m hm, if_neg hjdone]
    exact hplaced

/-- The refresh of the next node. -/
theorem Shifting.refreshShards {done : List String} (h : Shifting c replicationFactor logs done d)
    (hagrees : c.Agrees logs) (htouch : c.KeepsTouch replicationFactor) (hk : k ∈ c.liveIds)
    (hdone : ∀ j ∈ done, j < k) :
    Shifting c replicationFactor logs (done ++ [k]) (d.refreshShards k) := by
  have hid : (d.node k).nodeId = k := h.quiet.reachable.wf.ids k
  have hlisten : ∀ i, i ∈ c.liveIds → d.status i = .listening :=
    fun i hi => (h.quiet.listening i).mpr ((h.live i).mpr hi)
  have hlogs : LogsWf d.usedIds logs := h.usedIds ▸ hagrees.wf
  -- `n` is the node with its new shards, before it asks the peers
  generalize hn : ((d.announce k).node k).refreshShards ((d.announce k).zk.shardsForNode k) = n
  have hself : n = ((d.node k).withState .RECOVERING).refreshShards (d.zk.shardsForNode k) := by
    rw [← hn, node_announce_self]
    rfl
  have hnid : n.nodeId = k := by
    rw [hself]
    exact hid
  have hshards : ∀ s, s ∈ n.shards ↔ (c.reassign replicationFactor).zk.Places s k := by
    intro s
    rw [hself]
    refine mem_shardsForNode.trans ?_
    unfold ZkMetadataStore.Places
    rw [h.shardNodes]
  have hold := h.follows k hk
  have hwhole : n.Whole := by
    rw [hself]
    exact hold.whole.congr rfl rfl rfl
  have hshardSql : ∀ s, n.shardSql s = (d.node k).shardSql s :=
    fun s => hold.whole.shardSql_congr hwhole (by rw [hself]; rfl) s
  have hfollows : Follows logs n := by
    refine ⟨hwhole, ?_, ?_, fun s => ?_⟩
    · rw [hself]
      exact ⟨hold.wf.log, hold.wf.lines⟩
    · rw [hself]
      exact hold.uncompacted
    · rw [hshardSql]
      exact hold.isPrefix s
  have hgains := gains_recoveryStates hlogs hid hfollows hnid fun m hm _ =>
    h.follows _ ((h.live _).mp (mem_liveIds.mpr ⟨m, hm, rfl⟩))
  generalize hrecovered : n.recoverFromPeers (d.announce k).recoveryStates = n₁ at hgains
  have hnode : (d.refreshShards k).node k = n₁.applyPendingWal.withState .SERVING := by
    rw [node_refreshShards_self, hn, hrecovered]
  have hserves : n₁.Serves ((d.refreshShards k).node k) := by
    rw [hnode]
    exact hgains.follows.whole.serves_applyPendingWal
  have hid' : ((d.refreshShards k).node k).nodeId = k := by
    rw [hserves.nodeId, hgains.nodeId, hnid]
  have hre := reenters_refreshShards hid hid' (hlisten k hk)
  -- every peer answers, so the refresh is a run of steps of the cluster
  have hreachable : (d.refreshShards k).Reachable := by
    have hall : ∀ p ∈ (d.announce k).zk.liveNodes, d.status p.nodeId = .listening := by
      intro p hp
      by_cases hpk : p.nodeId = k
      · rw [hpk]
        exact hlisten k hk
      · have hp' := (mem_liveNodes_announce hid hpk).mp hp
        exact (h.quiet.listening _).mpr (mem_liveIds.mpr ⟨p, hp', rfl⟩)
    obtain ⟨rounds, hrun⟩ := run_refreshShards (h.quiet.recoveries 0) (hlisten k hk) hid hall
    exact reachable_run h.quiet.reachable hrun
  have hlast : k ∈ done ++ [k] := List.mem_append_right _ (List.mem_singleton_self k)
  have hmem : ∀ i, i ≠ k → (i ∈ done ++ [k] ↔ i ∈ done) := by
    intro i hi
    simp [hi]
  have hkeeps : ∀ s, (d.node k).shardSql s <+: ((d.refreshShards k).node k).shardSql s := by
    intro s
    rw [hserves.shardSql, ← hshardSql]
    exact hgains.keeps s
  refine ⟨h.quiet.of_reenters hre hserves.whole hid' hserves.serving hreachable (fun s => ?_)
    fun s i hi => ?_, hre.shardNodes.trans h.shardNodes, hre.usedIds.trans h.usedIds, fun i => ?_,
    fun i hi => ?_, fun i s => ?_, fun i s => ?_, fun i hi s hs => ?_⟩
  · rw [hserves.shards, hgains.shards, hshards, if_pos hlast]
  · rw [if_congr (hmem i hi) rfl rfl]
  · rw [hre.mem_liveIds hid', h.live]
    exact ⟨fun hi => hi.elim (fun heq => heq ▸ hk) id, Or.inr⟩
  · by_cases hik : i = k
    · subst hik
      refine ⟨hserves.whole, hreachable.wf.nodes i, ?_, fun s => ?_⟩
      · rw [hnode]
        exact hgains.follows.uncompacted.applyPendingWal
      · rw [hserves.shardSql]
        exact hgains.follows.isPrefix s
    · rw [hre.node_of_ne hik]
      exact h.follows i hi
  · by_cases hik : i = k
    · subst hik
      rw [hserves.shardSql]
      exact hgains.follows.isPrefix s
    · rw [hre.node_of_ne hik]
      exact h.isPrefix i s
  · by_cases hik : i = k
    · subst hik
      exact (h.keeps i s).trans (hkeeps s)
    · rw [hre.node_of_ne hik]
      exact h.keeps i s
  · by_cases hik : i = k
    · subst hik
      rw [hserves.shardSql]
      have hall : logs s <+: n₁.shardSql s := by
        -- a source is the node itself, or a complete peer that it asks
        obtain hown | ⟨m, hm, hne, ⟨t, ht, htk⟩, hcomplete⟩ :=
          h.exists_source hagrees htouch hdone hs
        · rw [← hown, ← hshardSql]
          exact hgains.keeps s
        · have hcontacts := contacts_of_mem (n := n) (by rw [hnid]; exact hne) ht
            ((hshards t).mpr htk)
          have hbrings := hgains.brings _ ⟨m, hm, hcontacts, rfl⟩ s
            (Bool.or_eq_true_iff.mpr (Or.inr (List.contains_iff_mem.mpr ((hshards s).mpr hs))))
          rwa [hcomplete] at hbrings
      exact (hgains.follows.isPrefix s).eq_of_length_le hall.length_le
    · rw [hre.node_of_ne hik]
      exact h.complete i ((hmem i hik).mp hi) s hs

/-- The refreshes one after another. -/
theorem Shifting.foldl {done : List String} (hagrees : c.Agrees logs)
    (htouch : c.KeepsTouch replicationFactor) (ids : List String)
    (h : Shifting c replicationFactor logs done d) (hsorted : (done ++ ids).Pairwise (· < ·))
    (hlive : ∀ i ∈ ids, i ∈ c.liveIds) :
    Shifting c replicationFactor logs (done ++ ids) (ids.foldl Cluster.refreshShards d) := by
  induction ids generalizing done d with
  | nil =>
    rw [List.append_nil]
    exact h
  | cons k ids ih =>
    have hdone : ∀ j ∈ done, j < k := by
      intro j hj
      exact (List.pairwise_append.mp hsorted).2.2 j hj k List.mem_cons_self
    have hstep := h.refreshShards hagrees htouch (hlive k List.mem_cons_self) hdone
    have hassoc : done ++ k :: ids = (done ++ [k]) ++ ids := by
      rw [List.append_assoc]
      rfl
    rw [hassoc, List.foldl_cons]
    rw [hassoc] at hsorted
    exact ih hstep hsorted fun i hi => hlive i (List.mem_cons_of_mem _ hi)

/-- The live nodes are in the order of their ids. -/
theorem pairwise_liveIds (hnamed : c.zk.Named) : c.liveIds.Pairwise (· < ·) := by
  have hsorted : c.liveIds.Pairwise (· ≤ ·) := by
    unfold liveIds ZkMetadataStore.liveNodes
    have hmap := List.map_insertionSort (r := fun a b : NodeInfo => a.nodeId ≤ b.nodeId)
      (s := fun a b : String => a ≤ b) (fun m : NodeInfo => m.nodeId) c.zk.nodes
      fun _ _ _ _ => Iff.rfl
    rw [hmap]
    exact List.pairwise_insertionSort _ _
  have hnodup : c.liveIds.Nodup := hnamed.liveNodes
  exact (hsorted.and hnodup).imp fun h => lt_of_le_of_ne h.1 h.2

/-- A rebalance in which each new replica finds an old one: every replica has all statements of its
shards. -/
theorem Agrees.rebalance (h : c.Agrees logs) (htouch : c.KeepsTouch replicationFactor) :
    (c.rebalanceAndRefresh replicationFactor).Agrees logs := by
  have hnodes : (c.reassign replicationFactor).zk.nodes = c.zk.nodes :=
    ZkMetadataStore.nodes_rebalance ..
  have hids : (c.reassign replicationFactor).liveIds = c.liveIds := by
    unfold liveIds ZkMetadataStore.liveNodes
    rw [hnodes]
  have hall := (h.shifting htouch).foldl h htouch c.liveIds
    (pairwise_liveIds h.quiet.reachable.addressInv.nodes) fun _ => id
  rw [List.nil_append] at hall
  unfold rebalanceAndRefresh refreshAllLiveNodes
  rw [hids]
  generalize c.liveIds.foldl Cluster.refreshShards (c.reassign replicationFactor) = d at hall
  have hplaces : ∀ s i, d.zk.Places s i ↔ (c.reassign replicationFactor).zk.Places s i := by
    intro s i
    unfold ZkMetadataStore.Places
    rw [hall.shardNodes]
  refine ⟨⟨hall.quiet.reachable, hall.quiet.requests, hall.quiet.recoveries, hall.quiet.whole,
    hall.quiet.listening, hall.quiet.registered, hall.quiet.serving, fun m hm s => ?_⟩,
    hall.usedIds ▸ h.wf, fun s hs => ?_, hall.isPrefix, fun s i hplaced hi => ?_⟩
  · have hlive : m.nodeId ∈ c.liveIds := (hall.live _).mp (mem_liveIds.mpr ⟨m, hm, rfl⟩)
    rw [hall.quiet.shards m hm, if_pos hlive, hplaces]
  · -- the shards are the same
    have hshardIds : (c.reassign replicationFactor).zk.shardNodes.map (·.shardId) =
        c.zk.shardNodes.map (·.shardId) := by
      refine ZkMetadataStore.rebalance_induction
        (P := fun y => y.shardNodes.map (·.shardId) = c.zk.shardNodes.map (·.shardId)) c.zk
        c.zk.liveNodes replicationFactor rfl fun y old m hy hold hm => ?_
      refine (ZkMetadataStore.shardIds_updateShard (List.any_eq_true.mpr ?_)).trans hy
      have hmem : m.shardId ∈ y.shardNodes.map (·.shardId) := by
        rw [hy, hm.shardId]
        exact List.mem_map_of_mem ((List.mem_insertionSort _).mp hold)
      obtain ⟨x, hx, heq⟩ := List.mem_map.mp hmem
      exact ⟨x, hx, by simpa using heq⟩
    have hmem : s ∈ d.zk.shardNodes.map (·.shardId) := by
      rw [hall.shardNodes, hshardIds]
      exact List.mem_map.mpr (h.known s hs)
    exact List.mem_map.mp hmem
  · exact hall.complete i ((hall.live i).mp hi) s ((hplaces s i).mp hplaced)

end Rebalance

end Cluster

end DisMiniSql.Distributed
