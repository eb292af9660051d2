import DisMiniSql.Proofs.Distributed.Reachable

/-!
# `DisMiniSql.Proofs.Distributed.PeerRecovery`: what `recoverFromPeers` keeps and repeats

`Ends` says which statements are on the list after the call, in terms of the files and the shards
of the node before it and of the answers of the peers: the snapshot with the largest compacted
number, and the own entries and those taken over that are stored after that number
(`mem_replaySql_recoverFromPeers`).

`recoverFromPeers_losesNothing_iff` is the condition under which nothing is lost, and
`recover_loses_own_write` a run in which the node loses a write of its own log.
`recoverFromPeers_once_iff` is the condition under which no request is replayed twice, and
`recover_repeats_write` a run in which one is.
-/

set_option autoImplicit false

namespace DisMiniSql.Distributed

namespace DataNode

variable {n m : DataNode} {x : Stmt}

theorem recoverFromPeers_cons (n : DataNode) (p : NodeInfo × Option RecoveryState)
    (ps : List (NodeInfo × Option RecoveryState)) :
    n.recoverFromPeers (p :: ps) = (n.recoverFromPeer p.1 p.2).recoverFromPeers ps := rfl

/-- The answers of the peers, none of which fails. -/
def answers (peers : List (NodeInfo × RecoveryState)) : List (NodeInfo × Option RecoveryState) :=
  peers.map (fun p => (p.1, some p.2))

/-- `recoverFromPeers` loses nothing: the replay list of the node is still there, and so is
every statement of an owned or broadcast shard in the replay list of a peer that was asked. -/
def LosesNothing (n : DataNode) (peers : List (NodeInfo × RecoveryState)) : Prop :=
  (∀ x ∈ n.replaySql, x ∈ (n.recoverFromPeers (answers peers)).replaySql) ∧
    ∀ p ∈ peers, n.contacts p.1 = true → ∀ x ∈ p.2.replaySql, n.ownsShard x.shardId = true →
      x ∈ (n.recoverFromPeers (answers peers)).replaySql

instance (n : DataNode) (peers : List (NodeInfo × RecoveryState)) :
    Decidable (n.LosesNothing peers) :=
  inferInstanceAs (Decidable (_ ∧ _))

/-- The answers of the peers that are asked: those that advertise an owned shard. -/
def asked (n : DataNode) (peers : List (NodeInfo × RecoveryState)) : List RecoveryState :=
  (peers.filter fun p => n.contacts p.1).map (·.2)

/-- The whole call. A peer is asked or not whatever the rounds before have left, since they
change neither the shards nor the id of the node. -/
theorem reached_recoverFromPeers (n : DataNode) {peers : List (NodeInfo × RecoveryState)}
    (hpeers : ∀ p ∈ peers, p.2.Wf) :
    n.Reached (n.asked peers) (n.recoverFromPeers (answers peers)) := by
  induction peers using List.reverseRecOn with
  | nil => exact Reached.refl n
  | append_singleton peers p ih =>
    have hbefore := ih fun q hq => hpeers q (List.mem_append_left _ hq)
    have hsplit : n.recoverFromPeers (answers (peers ++ [p])) =
        (n.recoverFromPeers (answers peers)).recoverFromPeer p.1 (some p.2) := by
      simp [recoverFromPeers, answers]
    have hcontacts : (n.recoverFromPeers (answers peers)).contacts p.1 = n.contacts p.1 := by
      simp only [contacts, hbefore.nodeId, hbefore.shards]
    rw [hsplit, recoverFromPeer, hcontacts]
    by_cases hp : n.contacts p.1 = true
    · have hasked : n.asked (peers ++ [p]) = n.asked peers ++ [p.2] := by simp [asked, hp]
      rw [if_pos hp, hasked]
      exact hbefore.absorb (hpeers p (List.mem_append_right _ List.mem_cons_self))
    · have hasked : n.asked (peers ++ [p]) = n.asked peers := by simp [asked, hp]
      rw [if_neg hp, hasked]
      exact hbefore

/-- The replay list after `recoverFromPeers`. -/
theorem mem_replaySql_recoverFromPeers {peers : List (NodeInfo × RecoveryState)}
    (hpeers : ∀ p ∈ peers, p.2.Wf) :
    x ∈ (n.recoverFromPeers (answers peers)).replaySql ↔ n.Ends (n.asked peers) x :=
  (n.reached_recoverFromPeers hpeers).mem_replaySql

/-- The replay list in file order. -/
theorem replaySql_perm (n : DataNode) :
    n.replaySql.Perm (n.snapshotManager.snapshotSql ++
      (n.walLog.walFile.filter (fun e => n.compactedWal < e.sequence)).map WalEntry.stmt) := by
  have htop : n.replaySql = n.snapshotManager.snapshotSql ++
      (n.walLog.readAll.filter (fun e => n.compactedWal < e.sequence)).map WalEntry.stmt := by
    simp [replaySql, replaySqlBefore]
  rw [htop]
  exact (((List.perm_insertionSort _ _).filter _).map _).append_left _

/-- The requests whose statement begins in the list, one for each occurrence. -/
def requests (l : List Stmt) : List (Option String) :=
  (l.filter (fun x => !blankId x.requestId && x.part == 0)).map (·.requestId)

/-- No statement of a request with an id occurs twice. -/
def Once (l : List Stmt) : Prop := (requests l).Nodup

instance (l : List Stmt) : Decidable (Once l) := inferInstanceAs (Decidable (requests l).Nodup)

theorem requests_append (l₁ l₂ : List Stmt) :
    requests (l₁ ++ l₂) = requests l₁ ++ requests l₂ := by
  simp [requests]

theorem once_append {l₁ l₂ : List Stmt} :
    Once (l₁ ++ l₂) ↔ Once l₁ ∧ Once l₂ ∧ (requests l₁).Disjoint (requests l₂) := by
  rw [Once, requests_append, List.nodup_append']
  rfl

theorem once_of_perm {l₁ l₂ : List Stmt} (h : l₁.Perm l₂) : Once l₁ ↔ Once l₂ :=
  ((h.filter _).map _).nodup_iff

/-- The statements of entries with distinct request ids. -/
theorem once_map_stmt {es : List WalEntry} (h : es.Pairwise
    (fun a b => blankId a.requestId = false → a.requestId ≠ b.requestId)) :
    Once (es.map WalEntry.stmt) := by
  induction es with
  | nil => exact List.nodup_nil
  | cons e es ih =>
    obtain ⟨hhead, htail⟩ := List.pairwise_cons.mp h
    have hcons : e.stmt :: es.map WalEntry.stmt = [e.stmt] ++ es.map WalEntry.stmt := rfl
    rw [List.map_cons, hcons, once_append]
    refine ⟨?_, ih htail, ?_⟩
    · exact ((List.nodup_singleton e.stmt.requestId).sublist
        (List.filter_sublist.map Stmt.requestId))
    · intro r hr hr'
      obtain ⟨y, hy, rfl⟩ := List.mem_map.mp hr
      obtain ⟨hy, hblank⟩ := List.mem_filter.mp hy
      rw [List.mem_singleton.mp hy] at hblank hr'
      obtain ⟨z, hz, hid⟩ := List.mem_map.mp hr'
      obtain ⟨d, hd, rfl⟩ := List.mem_map.mp (List.mem_filter.mp hz).1
      have hnot : blankId e.requestId = false := by
        simp only [Bool.and_eq_true, Bool.not_eq_true'] at hblank
        exact hblank.1
      exact hhead d hd hnot hid.symm

theorem mem_requests {l : List Stmt} {r : Option String} (hr : r ∈ requests l) :
    blankId r = false := by
  obtain ⟨y, hy, rfl⟩ := List.mem_map.mp hr
  have htest := (List.mem_filter.mp hy).2
  rw [Bool.and_eq_true, Bool.not_eq_true'] at htest
  exact htest.1

/-- The requests of entries are the ids that are not blank. -/
theorem mem_requests_map_stmt {es : List WalEntry} {r : Option String} :
    r ∈ requests (es.map WalEntry.stmt) ↔
      blankId r = false ∧ ∃ e ∈ es, e.requestId = r := by
  constructor
  · intro hr
    refine ⟨mem_requests hr, ?_⟩
    obtain ⟨y, hy, rfl⟩ := List.mem_map.mp hr
    obtain ⟨e, he, rfl⟩ := List.mem_map.mp (List.mem_filter.mp hy).1
    exact ⟨e, he, rfl⟩
  · rintro ⟨hblank, e, he, rfl⟩
    refine List.mem_map.mpr ⟨e.stmt, List.mem_filter.mpr ⟨List.mem_map_of_mem he, ?_⟩, rfl⟩
    show (!blankId e.requestId && (0 : Nat) == 0) = true
    rw [hblank]
    rfl

/-- The list that is left repeats no request: the snapshot has none twice, and none of its requests
is in an own entry after the compacted number or in an entry that is taken over and stored after
it. -/
structure NoRepeats (n : DataNode) (asked : List RecoveryState) : Prop where
  snapshot : Once (n.topSnapshot asked)
  own : ∀ e ∈ n.walLog.walFile, n.topCompacted asked < e.sequence →
    e.requestId ∉ requests (n.topSnapshot asked)
  taken : ∀ e, Mark.Visible n.walLog.lastSequence (n.marks asked) (n.topCompacted asked) e →
    e.requestId ∉ requests (n.topSnapshot asked)

/-- Only the snapshot can repeat a request: the entries of a log have distinct ids, also those
that are taken over. -/
theorem Reached.once_iff {asked : List RecoveryState} (h : n.Reached asked m) (hm : m.Wf) :
    Once m.replaySql ↔ n.NoRepeats asked := by
  have hlog : Once ((m.walLog.walFile.filter
      (fun e => m.compactedWal < e.sequence)).map WalEntry.stmt) :=
    once_map_stmt (hm.log.distinct.sublist List.filter_sublist)
  have hdisjoint : (requests (n.topSnapshot asked)).Disjoint (requests ((m.walLog.walFile.filter
      (fun e => m.compactedWal < e.sequence)).map WalEntry.stmt)) ↔
        ∀ e ∈ m.walLog.walFile, n.topCompacted asked < e.sequence →
          e.requestId ∉ requests (n.topSnapshot asked) := by
    constructor
    · intro hdisjoint e he hseq hr
      refine hdisjoint hr (mem_requests_map_stmt.mpr ⟨mem_requests hr, e, ?_, rfl⟩)
      exact List.mem_filter.mpr ⟨he, decide_eq_true (h.compactedWal ▸ hseq)⟩
    · intro hnot r hr hr'
      obtain ⟨_, e, he, rfl⟩ := mem_requests_map_stmt.mp hr'
      obtain ⟨he, hseq⟩ := List.mem_filter.mp he
      exact hnot e he (h.compactedWal ▸ of_decide_eq_true hseq) hr
  rw [once_of_perm (replaySql_perm m), once_append, h.snapshotSql, hdisjoint]
  rw [h.walFile] at hlog ⊢
  constructor
  · rintro ⟨honce, _, hnot⟩
    refine ⟨honce, fun e he => hnot e (List.mem_append_left _ he), fun e hvisible hr => ?_⟩
    obtain ⟨d, hd, hseq, hid⟩ := (Mark.exists_stored_iff (·.requestId) (fun _ _ => rfl)).mpr
      ⟨e, hvisible, rfl⟩
    exact hnot d (List.mem_append_right _ hd) hseq (hid ▸ hr)
  · rintro ⟨honce, hown, htaken⟩
    refine ⟨honce, hlog, fun e he hseq hr => ?_⟩
    obtain he | he := List.mem_append.mp he
    · exact hown e he hseq hr
    · obtain ⟨d, hvisible, hid⟩ := (Mark.exists_stored_iff (·.requestId) (fun _ _ => rfl)).mp
        ⟨e, he, hseq, rfl⟩
      exact htaken d hvisible (hid ▸ hr)

end DataNode

namespace Cluster

open DataNode (LosesNothing Ends Once answers requests)
open DisMiniSql.Distributed.Action (startUp beginWrite sendAndReceive sendAndLose)

/-- The recovery state of a node in some reachable cluster. -/
def Served (rs : RecoveryState) : Prop :=
  ∃ (c : Cluster) (nodeId : String), c.Reachable ∧ rs = (c.node nodeId).recoveryState

theorem Served.wf {rs : RecoveryState} (h : Served rs) : rs.Wf := by
  obtain ⟨c, nodeId, hc, rfl⟩ := h
  exact (hc.wf.nodes nodeId).recoveryState

/-- For every local state and all recovery states that nodes can serve, `recoverFromPeers`
loses nothing exactly if every statement of the own list, and every owned one of a peer that
is asked, is in one of the three parts that are left: in the snapshot with the largest compacted
number, in an own entry after that number, or in an entry that is taken over and stored after it.
All three are read off the files of the node and the answers of the peers. -/
theorem recoverFromPeers_losesNothing_iff (n : DataNode)
    {peers : List (NodeInfo × RecoveryState)} (hpeers : ∀ p ∈ peers, Served p.2) :
    n.LosesNothing peers ↔
      (∀ x ∈ n.replaySql, n.Ends (n.asked peers) x) ∧
        ∀ p ∈ peers, n.contacts p.1 = true → ∀ x ∈ p.2.replaySql,
          n.ownsShard x.shardId = true → n.Ends (n.asked peers) x := by
  have hwf : ∀ p ∈ peers, p.2.Wf := fun p hp => (hpeers p hp).wf
  simp only [LosesNothing, DataNode.mem_replaySql_recoverFromPeers hwf]

/-- Two replicas of one shard. The first write reaches only `n1`, the second only `n2`. -/
def splitWrites : List Action :=
  startUp 0 "n1" 4 ++ startUp 1 "n2" 10 ++
    beginWrite 0 0 "insert into t values(1)" "a" ++ sendAndReceive 0 ++ sendAndLose 0 ++
    [.finish 0] ++
    beginWrite 1 0 "insert into t values(2)" "b" ++ sendAndLose 1 ++ sendAndReceive 1 ++
    [.finish 1]

/-- What `n1` is told when it asks `n2`. -/
def peersOfFirst (c : Cluster) : List (NodeInfo × RecoveryState) :=
  [((c.node "n2").currentNodeInfo, (c.node "n2").recoveryState)]

/-- Before any snapshot both writes are on `n1` after it has asked `n2`. -/
theorem losesNothing_without_snapshot :
    ∃ c : Cluster, c.Reachable ∧ (c.node "n1").replaySql.length = 1 ∧
      (c.peersOfFirst.map (fun p => p.2.replaySql.length)) = [1] ∧
      ∀ p ∈ c.peersOfFirst, (c.node "n1").contacts p.1 = true → ∀ x ∈ p.2.replaySql,
        (c.node "n1").ownsShard x.shardId = true →
        (c.node "n1").Ends ((c.node "n1").asked c.peersOfFirst) x := by
  have hrun : ((new ["n1", "n2"] 1 2).run splitWrites).any (fun c =>
      decide ((c.node "n1").replaySql.length = 1 ∧
        (c.peersOfFirst.map (fun p => p.2.replaySql.length)) = [1] ∧
        (c.node "n1").LosesNothing c.peersOfFirst)) = true := by decide +kernel
  obtain ⟨c, hc, hP⟩ := exists_reachable_of_run hrun
  obtain ⟨hlen, hpeer, hnothing⟩ := of_decide_eq_true hP
  have hserved : ∀ p ∈ c.peersOfFirst, Served p.2 := by
    intro p hp
    rw [List.mem_singleton.mp hp]
    exact ⟨c, "n2", hc, rfl⟩
  exact ⟨c, hc, hlen, hpeer, ((recoverFromPeers_losesNothing_iff _ hserved).mp hnothing).2⟩

/-- After a snapshot on `n2` the first write is lost on `n1`: both logs number their only entry
1, so the snapshot of `n2` hides the entry of `n1`. -/
theorem recover_loses_own_write :
    ∃ c : Cluster, c.Reachable ∧ (∀ p ∈ c.peersOfFirst, Served p.2) ∧
      ¬ (c.node "n1").LosesNothing c.peersOfFirst := by
  have hrun : ((new ["n1", "n2"] 1 2).run (splitWrites ++ [.adminSnapshot "n2"])).any (fun c =>
      decide (¬ (c.node "n1").LosesNothing c.peersOfFirst)) = true := by decide +kernel
  obtain ⟨c, hc, hP⟩ := exists_reachable_of_run hrun
  refine ⟨c, hc, fun p hp => ?_, of_decide_eq_true hP⟩
  rw [List.mem_singleton.mp hp]
  exact ⟨c, "n2", hc, rfl⟩

/-- For every node of a reachable cluster and all recovery states that nodes can serve: after
`recoverFromPeers` the replay list has no request twice exactly if the snapshot with the largest
compacted number has none twice, and none of its requests is in an own entry after that number or
in an entry that is taken over and stored after it. That no request was there twice before the
call is not even needed. -/
theorem recoverFromPeers_once_iff {c : Cluster} (hc : c.Reachable) (nodeId : String)
    {peers : List (NodeInfo × RecoveryState)} (hpeers : ∀ p ∈ peers, Served p.2) :
    Once ((c.node nodeId).recoverFromPeers (answers peers)).replaySql ↔
      (c.node nodeId).NoRepeats ((c.node nodeId).asked peers) :=
  ((c.node nodeId).reached_recoverFromPeers fun p hp => (hpeers p hp).wf).once_iff
    ((hc.wf.nodes nodeId).recoverFromPeers _)

/-- Three replicas of one shard. The write reaches `n1` and `n2`, and not `n3`. -/
def missedWrite : List Action :=
  startUp 0 "n1" 4 ++ startUp 1 "n2" 10 ++ startUp 2 "n3" 16 ++
    beginWrite 0 0 "insert into t values(1)" "a" ++ sendAndReceive 0 ++ sendAndReceive 0 ++
    sendAndLose 0 ++ [.finish 0]

/-- What `n3` is told when it asks the other two. -/
def peersOfThird (c : Cluster) : List (NodeInfo × RecoveryState) :=
  [((c.node "n1").currentNodeInfo, (c.node "n1").recoveryState),
    ((c.node "n2").currentNodeInfo, (c.node "n2").recoveryState)]

theorem served_peersOfThird {c : Cluster} (hc : c.Reachable) :
    ∀ p ∈ c.peersOfThird, Served p.2 := by
  intro p hp
  obtain rfl | hp := List.mem_cons.mp hp
  · exact ⟨c, "n1", hc, rfl⟩
  · rw [List.mem_singleton.mp hp]
    exact ⟨c, "n2", hc, rfl⟩

/-- Before any snapshot `n3` takes the write over once: the snapshot that is left is empty. -/
theorem once_without_snapshot :
    ∃ c : Cluster, c.Reachable ∧ (c.peersOfThird.map (fun p => p.2.replaySql.length)) = [1, 1] ∧
      (c.node "n3").NoRepeats ((c.node "n3").asked c.peersOfThird) := by
  have hrun : ((new ["n1", "n2", "n3"] 1 3).run missedWrite).any (fun c =>
      decide ((c.peersOfThird.map (fun p => p.2.replaySql.length)) = [1, 1] ∧
        Once ((c.node "n3").recoverFromPeers (answers c.peersOfThird)).replaySql)) =
      true := by decide +kernel
  obtain ⟨c, hc, hP⟩ := exists_reachable_of_run hrun
  obtain ⟨hlen, honce⟩ := of_decide_eq_true hP
  exact ⟨c, hc, hlen,
    (recoverFromPeers_once_iff hc "n3" (served_peersOfThird hc)).mp honce⟩

open DataNode (Once) in
/-- After a snapshot on `n1` the write comes to `n3` twice: in the snapshot of `n1`, which has
no request ids, and as an unknown entry of `n2`. -/
theorem recover_repeats_write :
    ∃ c : Cluster, c.Reachable ∧ (∀ p ∈ c.peersOfThird, Served p.2) ∧
      Once (c.node "n3").replaySql ∧
      ¬ Once ((c.node "n3").recoverFromPeers (answers c.peersOfThird)).replaySql := by
  have hrun : ((new ["n1", "n2", "n3"] 1 3).run (missedWrite ++ [.adminSnapshot "n1"])).any
      (fun c => decide (Once (c.node "n3").replaySql ∧
        ¬ Once ((c.node "n3").recoverFromPeers (answers c.peersOfThird)).replaySql)) = true := by
    decide +kernel
  obtain ⟨c, hc, hP⟩ := exists_reachable_of_run hrun
  obtain ⟨honce, htwice⟩ := of_decide_eq_true hP
  exact ⟨c, hc, served_peersOfThird hc, honce, htwice⟩

end Cluster

end DisMiniSql.Distributed
