import DisMiniSql.Distributed.Serial
import DisMiniSql.Proofs.Distributed.PeerRecovery
import DisMiniSql.Proofs.Distributed.ZkMetadataStore

/-!
# `DisMiniSql.Proofs.Distributed.Rebalance`: the operations of `Serial` are runs

`refreshShards` and `startNode` are whole handlers. `run_refreshShards` and `run_startNode` show
that each of them is a run of the cluster: the same steps, with nothing in between and no failed
fetch. What is proved of every run therefore holds of them.
-/

set_option autoImplicit false

namespace DisMiniSql.Distributed

open DisMiniSql.Lib (Steps)

namespace Cluster

variable {c : Cluster} {i k : String}

theorem node_refreshShards_of_ne (hi : i ≠ k) : (c.refreshShards k).node i = c.node i := by
  show Function.update (Function.update c.node k _) k _ i = c.node i
  rw [Function.update_of_ne hi, Function.update_of_ne hi]

theorem node_refreshShards_self : (c.refreshShards k).node k =
    ((((c.announce k).node k).refreshShards ((c.announce k).zk.shardsForNode k)).recoverFromPeers
      (c.announce k).recoveryStates).applyPendingWal.withState .SERVING := by
  show Function.update (c.announce k).node k _ k = _
  rw [Function.update_self]

section Run

variable {r : Nat} (startup : Bool)

theorem run_append (c : Cluster) (as bs : List Action) :
    c.run (as ++ bs) = (c.run as).bind (fun c' => c'.run bs) := by
  induction as generalizing c with
  | nil => rfl
  | cons a as ih =>
    show (c.step a).bind (fun c' => c'.run (as ++ bs)) = _
    simp only [ih, run, Option.bind_assoc]

theorem setNode_self (c : Cluster) (k : String) : c.setNode k (c.node k) = c := by
  unfold setNode
  rw [Function.update_eq_self]

theorem setNode_setNode (c : Cluster) (k : String) (n n' : DataNode) :
    (c.setNode k n).setNode k n' = c.setNode k n' := by
  unfold setNode
  rw [Function.update_idem]

/-- A step of a recovery after the first one. -/
theorem step_recover {x : Recovery} {n : DataNode} {p : Phase}
    (hstep : c.recoveryStep x false = some (n, p)) (hphase : x.phase ≠ .announcing) :
    (c.setRecovery r (some x)).step (.recover r false) =
      some ((c.setNode x.nodeId n).setRecovery r (some { x with phase := p })) := by
  have hrec : (c.setRecovery r (some x)).recoveries r = some x := Function.update_self ..
  have hstep' : (c.setRecovery r (some x)).recoveryStep x false = some (n, p) := hstep
  show (c.setRecovery r (some x)).recover r false = _
  unfold recover
  rw [hrec]
  dsimp only
  rw [hstep']
  dsimp only
  rw [if_neg hphase]
  unfold setRecovery setNode
  rw [Function.update_idem]

/-- The entries that a recovery takes over, one after another. -/
theorem run_appending (k : String) (es : List WalEntry) (rest : List NodeInfo) (c : Cluster) :
    (c.setRecovery r (some ⟨k, startup, .appending es rest⟩)).run
        (List.replicate es.length (.recover r false)) =
      some ((c.setNode k (es.foldl DataNode.appendRecovered (c.node k))).setRecovery r
        (some ⟨k, startup, .appending [] rest⟩)) := by
  induction es generalizing c with
  | nil =>
    rw [List.foldl_nil, setNode_self]
    rfl
  | cons e es ih =>
    rw [List.length_cons, List.replicate_succ, run,
      step_recover (x := ⟨k, startup, .appending (e :: es) rest⟩) rfl (by simp), Option.bind_some]
    dsimp only
    rw [ih, setNode_setNode]
    show some ((c.setNode k (es.foldl DataNode.appendRecovered
      (Function.update c.node k _ k))).setRecovery r _) = _
    rw [Function.update_self, List.foldl_cons]

/-- One round of `recoverFromPeers`: from the choice of a peer to the next. -/
theorem run_peer (c : Cluster) (k : String) (peer : NodeInfo) (rest : List NodeInfo)
    (hstatus : (c.node k).contacts peer = true → c.status peer.nodeId = .listening) :
    ∃ rounds, (c.setRecovery r (some ⟨k, startup, .peers (peer :: rest)⟩)).run
        (List.replicate rounds (.recover r false)) =
      some ((c.setNode k ((c.node k).recoverFromPeer peer
        (some (c.node peer.nodeId).recoveryState))).setRecovery r
          (some ⟨k, startup, .peers rest⟩)) := by
  unfold DataNode.recoverFromPeer
  cases hcontacts : (c.node k).contacts peer with
  | false =>
    refine ⟨1, ?_⟩
    rw [if_neg Bool.false_ne_true, setNode_self]
    refine Option.bind_eq_some_iff.mpr ⟨_, step_recover (n := c.node k) (p := .peers rest)
      ?_ (by simp), by rw [setNode_self]; rfl⟩
    simp [recoveryStep, hcontacts]
  | true =>
    have hstatus := hstatus hcontacts
    rw [if_pos rfl]
    generalize hrs : (c.node peer.nodeId).recoveryState = rs
    -- after the snapshot is installed or kept, the entries are selected
    have hselect : ∃ rounds, (c.setRecovery r (some ⟨k, startup, .fetched rs rest⟩)).run
        (List.replicate rounds (.recover r false)) =
          some ((c.setNode k ((c.node k).installPeerSnapshotIfNewer rs)).setRecovery r
            (some ⟨k, startup, .filtering rs rest⟩)) := by
      unfold DataNode.installPeerSnapshotIfNewer
      cases hinstalls : (c.node k).installs rs with
      | false =>
        refine ⟨1, Option.bind_eq_some_iff.mpr ⟨_, step_recover (n := c.node k)
          (p := .filtering rs rest) ?_ (by simp), rfl⟩⟩
        simp [recoveryStep, hinstalls]
      | true =>
        refine ⟨2, Option.bind_eq_some_iff.mpr ⟨_, step_recover
          (n := (c.node k).createPeerSnapshot rs) (p := .advancing rs rest) ?_ (by simp), ?_⟩⟩
        · simp [recoveryStep, hinstalls]
        · refine Option.bind_eq_some_iff.mpr ⟨_, step_recover
            (n := ((c.node k).createPeerSnapshot rs).advanceLastSequence
              rs.snapshotManifest.lastCompactedWalSequence) (p := .filtering rs rest) ?_
              (by simp), ?_⟩
          · simp [recoveryStep, setNode]
          · rw [setNode_setNode]
            rfl
    obtain ⟨m, hm⟩ := hselect
    generalize hn : (c.node k).installPeerSnapshotIfNewer rs = n at hm
    have hnode : (c.setNode k n).node k = n := Function.update_self ..
    have hfetch : (c.setRecovery r (some ⟨k, startup, .peers (peer :: rest)⟩)).run
        (List.replicate 3 (.recover r false)) =
          some (c.setRecovery r (some ⟨k, startup, .fetched rs rest⟩)) := by
      subst hrs
      refine Option.bind_eq_some_iff.mpr ⟨_, step_recover (n := c.node k)
        (p := .readingSnapshot peer (c.node peer.nodeId).snapshotManager.manifestFile rest)
        (by simp [recoveryStep, hcontacts, hstatus]) (by simp), ?_⟩
      rw [setNode_self]
      refine Option.bind_eq_some_iff.mpr ⟨_, step_recover (n := c.node k)
        (p := .readingWal peer (c.node peer.nodeId).snapshotManager.manifestFile
          (c.node peer.nodeId).snapshotManager.snapshotSql rest)
        (by simp [recoveryStep, hstatus]) (by simp), ?_⟩
      rw [setNode_self]
      refine Option.bind_eq_some_iff.mpr ⟨_, step_recover (n := c.node k)
        (p := .fetched (c.node peer.nodeId).recoveryState rest)
        (by simp [recoveryStep, hstatus, DataNode.recoveryState]) (by simp), ?_⟩
      rw [setNode_self]
      rfl
    have hfilter : ((c.setNode k n).setRecovery r (some ⟨k, startup, .filtering rs rest⟩)).run
        [.recover r false] = some ((c.setNode k n).setRecovery r
          (some ⟨k, startup, .appending (n.recovered rs) rest⟩)) := by
      refine Option.bind_eq_some_iff.mpr ⟨_, step_recover (n := n)
        (p := .appending (n.recovered rs) rest) ?_ (by simp), by rw [setNode_setNode]; rfl⟩
      simp [recoveryStep, hnode]
    have happend := run_appending (r := r) startup k (n.recovered rs) rest (c.setNode k n)
    rw [hnode, setNode_setNode] at happend
    have hnext : ∀ d : Cluster, (d.setRecovery r (some ⟨k, startup, .appending [] rest⟩)).run
        [.recover r false] = some (d.setRecovery r (some ⟨k, startup, .peers rest⟩)) := by
      intro d
      refine Option.bind_eq_some_iff.mpr ⟨_, step_recover (n := d.node k)
        (p := .peers rest) rfl (by simp), by rw [setNode_self]; rfl⟩
    refine ⟨3 + (m + (1 + ((n.recovered rs).length + 1))), ?_⟩
    simp only [List.replicate_add (α := Action), run_append]
    rw [hfetch, List.replicate_one, Option.bind_some, hm, Option.bind_some, hfilter,
      Option.bind_some, happend, Option.bind_some, hnext]
    simp only [DataNode.absorb, hn]

theorem nodeId_recoverFromPeer (n : DataNode) (peer : NodeInfo)
    (fetched : Option RecoveryState) : (n.recoverFromPeer peer fetched).nodeId = n.nodeId := by
  refine DataNode.recoverFromPeer_induction (P := fun m => m.nodeId = n.nodeId)
    (fun m rs hm => ?_) (fun _ _ hm => hm) rfl peer fetched
  unfold DataNode.installPeerSnapshotIfNewer
  split
  · exact hm
  · exact hm

/-- A node does not ask itself, so its own recovery state does not matter. -/
theorem recoverFromPeers_congr {f g : NodeInfo → RecoveryState} (ps : List NodeInfo)
    (n : DataNode) (h : ∀ p ∈ ps, p.nodeId ≠ n.nodeId → f p = g p) :
    n.recoverFromPeers (ps.map (fun p => (p, some (f p)))) =
      n.recoverFromPeers (ps.map (fun p => (p, some (g p)))) := by
  induction ps generalizing n with
  | nil => rfl
  | cons p ps ih =>
    have hround : n.recoverFromPeer p (some (f p)) = n.recoverFromPeer p (some (g p)) := by
      by_cases hp : p.nodeId = n.nodeId
      · have hcontacts : n.contacts p = false := by simp [DataNode.contacts, hp]
        unfold DataNode.recoverFromPeer
        rw [if_neg (by rw [hcontacts]; exact Bool.false_ne_true),
          if_neg (by rw [hcontacts]; exact Bool.false_ne_true)]
      · rw [h p List.mem_cons_self hp]
    rw [List.map_cons, List.map_cons, DataNode.recoverFromPeers_cons,
      DataNode.recoverFromPeers_cons, hround]
    refine ih _ fun q hq hne => h q (List.mem_cons_of_mem _ hq) ?_
    rwa [nodeId_recoverFromPeer] at hne

/-- The loop of `recoverFromPeers`. -/
theorem run_peers (k : String) (ps : List NodeInfo) (c : Cluster)
    (hid : (c.node k).nodeId = k)
    (hstatus : ∀ p ∈ ps, p.nodeId ≠ k → c.status p.nodeId = .listening) :
    ∃ rounds, (c.setRecovery r (some ⟨k, startup, .peers ps⟩)).run
        (List.replicate rounds (.recover r false)) =
      some ((c.setNode k ((c.node k).recoverFromPeers
        (ps.map (fun p => (p, some (c.node p.nodeId).recoveryState))))).setRecovery r
          (some ⟨k, startup, .peers []⟩)) := by
  induction ps generalizing c with
  | nil =>
    refine ⟨0, ?_⟩
    rw [List.map_nil]
    show some _ = some ((c.setNode k (c.node k)).setRecovery r _)
    rw [setNode_self]
  | cons p ps ih =>
    obtain ⟨m, hm⟩ := run_peer (r := r) startup c k p ps fun hcontacts =>
      hstatus p List.mem_cons_self fun heq => by simp [DataNode.contacts, hid, heq] at hcontacts
    generalize hn : (c.node k).recoverFromPeer p (some (c.node p.nodeId).recoveryState) = n at hm
    have hnode : (c.setNode k n).node k = n := Function.update_self ..
    have hnid : n.nodeId = k := by rw [← hn, nodeId_recoverFromPeer, hid]
    obtain ⟨m', hm'⟩ := ih (c.setNode k n) (by rw [hnode, hnid])
      (fun q hq => hstatus q (List.mem_cons_of_mem _ hq))
    refine ⟨m + m', ?_⟩
    rw [List.replicate_add, run_append, hm, Option.bind_some, hm', hnode, setNode_setNode,
      List.map_cons, DataNode.recoverFromPeers_cons, hn]
    rw [recoverFromPeers_congr ps n]
    intro q _ hq
    show (Function.update c.node k n q.nodeId).recoveryState = _
    rw [Function.update_of_ne (hnid ▸ hq)]

/-- What a recovery does with the registered nodes, if those nodes listen: it fetches them one
after another and then applies what is pending. -/
theorem run_scanning (k : String) (c : Cluster) (hid : (c.node k).nodeId = k)
    (hstatus : ∀ p ∈ c.zk.liveNodes, p.nodeId ≠ k → c.status p.nodeId = .listening) :
    ∃ rounds, (c.setRecovery r (some ⟨k, startup, .scanning⟩)).run
        (List.replicate rounds (.recover r false)) =
      some ((c.setNode k (if startup
          then ((c.node k).recoverFromPeers c.recoveryStates).applyPendingWal.maybeSnapshot
          else ((c.node k).recoverFromPeers c.recoveryStates).applyPendingWal)).setRecovery r
            (some ⟨k, startup, .registering⟩)) := by
  have hscan : (c.setRecovery r (some ⟨k, startup, .scanning⟩)).run [.recover r false] =
      some (c.setRecovery r (some ⟨k, startup, .peers c.zk.liveNodes⟩)) := by
    refine Option.bind_eq_some_iff.mpr ⟨_, step_recover (n := c.node k)
      (p := .peers c.zk.liveNodes) rfl (by simp), by rw [setNode_self]; rfl⟩
  obtain ⟨m, hm⟩ := run_peers (r := r) startup k c.zk.liveNodes c hid hstatus
  generalize hn : (c.node k).recoverFromPeers c.recoveryStates = n
  replace hm := hm.trans (congrArg (fun n =>
    some ((c.setNode k n).setRecovery r (some ⟨k, startup, .peers []⟩))) hn)
  have hcomplete : ((c.setNode k n).setRecovery r (some ⟨k, startup, .peers []⟩)).run
      [.recover r false] = some ((c.setNode k (if startup then n.applyPendingWal.maybeSnapshot
        else n.applyPendingWal)).setRecovery r (some ⟨k, startup, .registering⟩)) := by
    have hnode : (c.setNode k n).node k = n := Function.update_self ..
    refine Option.bind_eq_some_iff.mpr ⟨_, step_recover
      (n := if startup then n.applyPendingWal.maybeSnapshot else n.applyPendingWal)
      (p := .registering) ?_ (by simp), by rw [setNode_setNode]; rfl⟩
    simp [recoveryStep, hnode]
  refine ⟨1 + (m + 1), ?_⟩
  simp only [List.replicate_add, run_append, List.replicate_one]
  rw [hscan, Option.bind_some, hm, Option.bind_some, hcomplete]

/-- The handler of `/admin/refresh-shards` is a run of the cluster, if the registered nodes
listen. -/
theorem run_refreshShards {k : String} (hr : c.recoveries r = none)
    (hk : c.status k = .listening) (hid : (c.node k).nodeId = k)
    (hstatus : ∀ p ∈ (c.announce k).zk.liveNodes, c.status p.nodeId = .listening) :
    ∃ rounds, c.run (.refresh r k :: List.replicate rounds (.recover r false) ++
      [.register r]) = some (c.refreshShards k) := by
  have hbegin : c.step (.refresh r k) =
      some (c.setRecovery r (some ⟨k, false, .announcing⟩)) := by
    simp [step, refresh, hr, hk]
  have hannounce : (c.setRecovery r (some ⟨k, false, .announcing⟩)).run [.recover r false] =
      some ((c.announce k).setRecovery r (some ⟨k, false, .refreshing⟩)) := by
    refine Option.bind_eq_some_iff.mpr ⟨_, ?_, rfl⟩
    simp [step, recover, recoveryStep, setRecovery, announce, publish, setNode]
  generalize hd : c.announce k = d at hannounce hstatus
  have hdid : (d.node k).nodeId = k := by
    rw [← hd]
    show (Function.update c.node k _ k).nodeId = k
    rw [Function.update_self]
    exact hid
  generalize hn : (d.node k).refreshShards (d.zk.shardsForNode k) = n
  have hnode : (d.setNode k n).node k = n := Function.update_self ..
  have hrefresh : (d.setRecovery r (some ⟨k, false, .refreshing⟩)).run [.recover r false] =
      some ((d.setNode k n).setRecovery r (some ⟨k, false, .scanning⟩)) := by
    refine Option.bind_eq_some_iff.mpr ⟨_, step_recover (n := n) (p := .scanning) ?_
      (by simp), rfl⟩
    simp [recoveryStep, hn]
  obtain ⟨m, hm⟩ := run_scanning (r := r) false k (d.setNode k n)
    (by rw [hnode, ← hn]; exact hdid) (fun p hp _ => by rw [← hd]; exact hstatus p hp)
  -- the states that the peers serve are those before the loop
  have hstates : n.recoverFromPeers (d.setNode k n).recoveryStates =
      n.recoverFromPeers d.recoveryStates := by
    refine recoverFromPeers_congr _ n fun p _ hp => ?_
    have hne : p.nodeId ≠ k := by
      rw [← hn] at hp
      exact fun h => hp (h.trans hdid.symm)
    show (Function.update d.node k n p.nodeId).recoveryState = _
    rw [Function.update_of_ne hne]
  rw [hnode, setNode_setNode, hstates, if_neg Bool.false_ne_true] at hm
  have hregister : ((d.setNode k (n.recoverFromPeers d.recoveryStates).applyPendingWal).setRecovery
      r (some ⟨k, false, .registering⟩)).step (.register r) = some (c.refreshShards k) := by
    have hrecoveries : Function.update c.recoveries r none = c.recoveries :=
      Function.update_eq_self_iff.mpr hr.symm
    have hlisten : Function.update c.status k .listening = c.status :=
      Function.update_eq_self_iff.mpr hk.symm
    subst hn hd
    simp [step, register, refreshShards, setRecovery, setNode, announce, publish, hrecoveries,
      hlisten]
  refine ⟨1 + (1 + m), ?_⟩
  rw [List.cons_append]
  refine Option.bind_eq_some_iff.mpr ⟨_, hbegin, ?_⟩
  simp only [List.replicate_add, run_append, List.replicate_one]
  rw [hannounce, Option.bind_some, hrefresh, Option.bind_some, hm, Option.bind_some]
  exact Option.bind_eq_some_iff.mpr ⟨_, hregister, rfl⟩

/-- The start of a node is a run of the cluster, if the other registered nodes listen. -/
theorem run_startNode {k : String} (hr : c.recoveries r = none) (hk : c.status k = .down)
    (hid : (c.node k).nodeId = k)
    (hstatus : ∀ p ∈ ((c.construct k).announce k).zk.liveNodes, p.nodeId ≠ k →
      c.status p.nodeId = .listening) :
    ∃ rounds, c.run (Action.startUp r k rounds) = some (c.startNode k) := by
  have hbegin : c.step (.start r k) =
      some ((c.construct k).setRecovery r (some ⟨k, true, .announcing⟩)) := by
    simp [step, start, construct, hr, hk]
  have hannounce : ((c.construct k).setRecovery r (some ⟨k, true, .announcing⟩)).run
      [.recover r false] = some (((c.construct k).announce k).setRecovery r
        (some ⟨k, true, .scanning⟩)) := by
    refine Option.bind_eq_some_iff.mpr ⟨_, ?_, rfl⟩
    simp [step, recover, recoveryStep, setRecovery, announce, publish, setNode]
  generalize hd : (c.construct k).announce k = d at hannounce hstatus
  have hdid : (d.node k).nodeId = k := by
    rw [← hd]
    show (Function.update (Function.update c.node k _) k _ k).nodeId = k
    rw [Function.update_self]
    show (Function.update c.node k _ k).nodeId = k
    rw [Function.update_self]
    exact hid
  have hothers : ∀ i, i ≠ k → d.status i = c.status i := by
    intro i hi
    rw [← hd]
    exact Function.update_of_ne hi ..
  obtain ⟨m, hm⟩ := run_scanning (r := r) true k d hdid
    fun p hp hne => (hothers _ hne).trans (hstatus p hp hne)
  rw [if_pos rfl] at hm
  have hregister : ((d.setNode k
      ((d.node k).recoverFromPeers d.recoveryStates).applyPendingWal.maybeSnapshot).setRecovery r
        (some ⟨k, true, .registering⟩)).step (.register r) = some (c.startNode k) := by
    have hrecoveries : Function.update c.recoveries r none = c.recoveries :=
      Function.update_eq_self_iff.mpr hr.symm
    subst hd
    simp [step, register, startNode, setRecovery, setNode, construct, announce, publish,
      recoveryStates, hrecoveries]
  refine ⟨1 + m, ?_⟩
  unfold Action.startUp
  rw [List.cons_append]
  refine Option.bind_eq_some_iff.mpr ⟨_, hbegin, ?_⟩
  simp only [List.replicate_add, run_append, List.replicate_one]
  rw [hannounce, Option.bind_some, hm, Option.bind_some]
  exact Option.bind_eq_some_iff.mpr ⟨_, hregister, rfl⟩

end Run

end Cluster

end DisMiniSql.Distributed
