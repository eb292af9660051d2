import DisMiniSql.Distributed.Cluster

/-!
# `DisMiniSql.Proofs.Distributed.Steps`: when an action is possible and what it leaves

`StepCases` has one case for each end of an action: what held in the state before, and the state
after. `stepCases_of_step` is the inversion of `Cluster.step`. The proofs about runs split into
these cases, or use the lemma of a single action, and never unfold `Cluster.step`.
-/

set_option autoImplicit false

namespace DisMiniSql.Distributed

/-- The peers that are left when the fetch that is under way fails. -/
def Phase.underWay : Phase → Option (List NodeInfo)
  | .readingSnapshot _ _ rest => some rest
  | .readingWal _ _ _ rest => some rest
  | _ => none

namespace Cluster

variable {c c' : Cluster} {a : Action} {call recovery place : Nat}
  {nodeId sql output requestId : String} {shardId : Int} {fault : Option ExecuteFault}
  {fails : Bool}

/-- The guards that a routed write has passed, and the state it leaves. -/
theorem write_eq (h : c.write call shardId sql = some c') :
    c.calls call = none ∧ SqlUtils.isReadOnly (SqlUtils.normalize sql) = false ∧
      isBlank (SqlUtils.normalize sql) = false ∧
      c' = c.setCall call (.electing shardId (SqlUtils.normalize sql) c.zk.liveNodes) := by
  unfold write at h
  dsimp only at h
  split at h
  · rename_i hcond
    simp only [Bool.and_eq_true, Bool.not_eq_true', Option.isNone_iff_eq_none] at hcond
    exact ⟨hcond.1.1.1.1, hcond.1.2, hcond.1.1.1.2, (Option.some.inj h).symm⟩
  · cases h

/-- The election for it. -/
theorem elect_eq (h : c.elect call = some c') :
    ∃ shardId sql liveNodes zk shard, c.calls call = some (.electing shardId sql liveNodes) ∧
      c.zk.electPrimary shardId liveNodes = some (zk, shard) ∧
      c' = { c with zk := zk }.setCall call (Call.chooseReplicas shard sql liveNodes) := by
  unfold elect at h
  split at h
  · rename_i shardId sql liveNodes hcall
    split at h
    · cases h
    · rename_i zk shard helect
      exact ⟨shardId, sql, liveNodes, zk, shard, hcall, helect, (Option.some.inj h).symm⟩
  · cases h

/-- The number it gets in the log of its shard. -/
theorem allocate_eq (h : c.allocate call requestId = some c') :
    ∃ shard sql replicas, c.calls call = some (.allocating shard sql replicas) ∧
      isBlank requestId = false ∧ requestId ∉ c.usedIds ∧
      c' = { c with
          zk := (c.zk.nextShardLogIndex shard.shardId).1
          usedIds := requestId :: c.usedIds }.setCall call
        (Call.dispatch shard sql replicas (c.zk.nextShardLogIndex shard.shardId).2
          requestId) := by
  unfold allocate at h
  split at h
  · rename_i shard sql replicas hcall
    split at h
    · rename_i hcond
      simp only [Bool.and_eq_true, Bool.not_eq_true', List.contains_eq_mem,
        decide_eq_false_iff_not] at hcond
      exact ⟨shard, sql, replicas, hcall, hcond.1, hcond.2, (Option.some.inj h).symm⟩
    · cases h
  · cases h

/-- A write for all nodes. -/
theorem broadcastWrite_eq (h : c.broadcastWrite call sql requestId = some c') :
    c.calls call = none ∧ isBlank requestId = false ∧ requestId ∉ c.usedIds ∧
      SqlUtils.isBroadcastDdl (SqlUtils.normalize sql) = true ∧
      c' = { c with usedIds := requestId :: c.usedIds }.setCall call
        (Call.broadcast (SqlUtils.normalize sql) c.zk.liveNodes requestId) := by
  unfold broadcastWrite at h
  dsimp only at h
  split at h
  · rename_i hcond
    simp only [Bool.and_eq_true, Bool.not_eq_true', Option.isNone_iff_eq_none,
      List.contains_eq_mem, decide_eq_false_iff_not] at hcond
    exact ⟨hcond.1.1.1.1, hcond.1.2, hcond.2, hcond.1.1.2, (Option.some.inj h).symm⟩
  · cases h

/-- A request sent. -/
theorem send_eq (h : c.send call = some c') :
    ∃ d target todo, c.calls call = some (.sending d) ∧ d.todo = target :: todo ∧
      c' = { c with
          requests := c.requests ++ [Envelope.mk call target (d.request target)] }.setCall call
        (.waiting { d with todo := todo } target) := by
  unfold send at h
  split at h
  · rename_i d hcall
    split at h
    · cases h
    · rename_i target todo htodo
      exact ⟨d, target, todo, hcall, htodo, (Option.some.inj h).symm⟩
  · cases h

/-- A request delivered and executed. -/
theorem deliver_eq (h : c.deliver place fault output = some c') :
    ∃ e, c.requests[place]? = some e ∧ c.status e.target.nodeId = .listening ∧
      c' = { (c.executeOn e.target.nodeId e.request fault output).1 with
        requests := c.requests.eraseIdx place
        replies := ⟨e.call, e.target,
          (c.executeOn e.target.nodeId e.request fault output).2⟩ :: c.replies } := by
  unfold deliver at h
  split at h
  · cases h
  · rename_i e hplace
    split at h
    · rename_i hstatus
      exact ⟨e, hplace, hstatus, (Option.some.inj h).symm⟩
    · cases h

/-- An answer received. -/
theorem receive_eq (h : c.receive call = some c') :
    ∃ d target r, c.calls call = some (.waiting d target) ∧ r ∈ c.replies ∧ r.call = call ∧
      r.target = target ∧
      c' = c.setCall call (.sending (d.record
        (if r.response.ok then r.response else .failure target.nodeId "HTTP 500"))) := by
  unfold receive at h
  split at h
  · rename_i d target hcall
    split at h
    · cases h
    · rename_i r hfind
      have hr := List.find?_some hfind
      simp only [Bool.and_eq_true, beq_iff_eq] at hr
      exact ⟨d, target, r, hcall, List.mem_of_find?_eq_some hfind, hr.1, hr.2,
        (Option.some.inj h).symm⟩
  · cases h

/-- The end of a write: reported with a quorum, refused without. -/
theorem finish_eq (h : c.finish call = some c') :
    ∃ d, c.calls call = some (.sending d) ∧ d.todo = [] ∧
      ((d.hasQuorum = true ∧ 0 ≤ d.shardId ∧
          c' = { c with
            zk := c.zk.updateCommitIndex d.shardId d.shardLogIndex
            committed := d :: c.committed }.setCall call (.replied d true)) ∨
        (d.hasQuorum = true ∧ d.shardId < 0 ∧ c' = c.setCall call (.replied d true)) ∨
        (d.hasQuorum = false ∧ c' = c.setCall call (.replied d false))) := by
  unfold finish at h
  split at h
  · rename_i d hcall
    split at h
    · rename_i htodo
      refine ⟨d, hcall, htodo, ?_⟩
      split at h
      · rename_i hquorum
        split at h
        · rename_i hshard
          exact Or.inl ⟨hquorum, hshard, (Option.some.inj h).symm⟩
        · rename_i hshard
          exact Or.inr (Or.inl ⟨hquorum, Int.lt_of_not_ge hshard, (Option.some.inj h).symm⟩)
      · rename_i hquorum
        exact Or.inr (Or.inr ⟨by simpa using hquorum, (Option.some.inj h).symm⟩)
    · cases h
  · cases h

/-- The request of a read. -/
def readRequest (sql : String) : ExecuteRequest where
  requestId := none
  shardId := 0
  shardLogIndex := 0
  raftTerm := 0
  sql := sql
  replay := false

theorem query_eq (h : c.query nodeId sql fault output = some c') :
    SqlUtils.isReadOnly (SqlUtils.normalize sql) = true ∧ c.status nodeId = .listening ∧
      c' = (c.executeOn nodeId (readRequest sql) fault output).1 := by
  unfold query at h
  split at h
  · rename_i hcond
    simp only [Bool.and_eq_true, beq_iff_eq] at hcond
    exact ⟨hcond.1, hcond.2, (Option.some.inj h).symm⟩
  · cases h

theorem adminSnapshot_eq (h : c.adminSnapshot nodeId = some c') :
    c.status nodeId = .listening ∧ c' = c.setNode nodeId (c.node nodeId).adminSnapshot := by
  unfold adminSnapshot at h
  split at h
  · rename_i hstatus
    exact ⟨hstatus, (Option.some.inj h).symm⟩
  · cases h

/-- The moves of a recovery, each with the phase it starts from: the new state of the node and
the next phase. -/
inductive Move (c : Cluster) (x : Recovery) (fails : Bool) : DataNode → Phase → Prop
  | announce : x.phase = .announcing →
      Move c x fails ((c.node x.nodeId).withState .RECOVERING)
        (if x.startup then .scanning else .refreshing)
  | refreshShards : x.phase = .refreshing →
      Move c x fails ((c.node x.nodeId).refreshShards (c.zk.shardsForNode x.nodeId)) .scanning
  | scan : x.phase = .scanning → Move c x fails (c.node x.nodeId) (.peers c.zk.liveNodes)
  | complete : x.phase = .peers [] →
      Move c x fails (if x.startup then (c.node x.nodeId).applyPendingWal.maybeSnapshot
        else (c.node x.nodeId).applyPendingWal) .registering
  | skip {peer : NodeInfo} {rest : List NodeInfo} : x.phase = .peers (peer :: rest) →
      (c.node x.nodeId).contacts peer = false → Move c x fails (c.node x.nodeId) (.peers rest)
  | fail {peer : NodeInfo} {rest : List NodeInfo} : x.phase = .peers (peer :: rest) →
      (c.node x.nodeId).contacts peer = true → fails = true →
      Move c x fails (c.node x.nodeId) (.peers rest)
  | fetch {peer : NodeInfo} {rest : List NodeInfo} : x.phase = .peers (peer :: rest) →
      (c.node x.nodeId).contacts peer = true → c.status peer.nodeId = .listening →
      Move c x fails (c.node x.nodeId)
        (.readingSnapshot peer (c.node peer.nodeId).snapshotManager.manifestFile rest)
  | readSnapshot {peer : NodeInfo} {manifest : SnapshotManifest} {rest : List NodeInfo} :
      x.phase = .readingSnapshot peer manifest rest → c.status peer.nodeId = .listening →
      Move c x fails (c.node x.nodeId)
        (.readingWal peer manifest (c.node peer.nodeId).snapshotManager.snapshotSql rest)
  | readWal {peer : NodeInfo} {manifest : SnapshotManifest} {snapshotSql : List Stmt}
      {rest : List NodeInfo} : x.phase = .readingWal peer manifest snapshotSql rest →
      c.status peer.nodeId = .listening →
      Move c x fails (c.node x.nodeId)
        (.fetched ⟨manifest, snapshotSql, (c.node peer.nodeId).walLog.readAll⟩ rest)
  | breakOff {rest : List NodeInfo} : x.phase.underWay = some rest → fails = true →
      Move c x fails (c.node x.nodeId) (.peers rest)
  | install {rs : RecoveryState} {rest : List NodeInfo} : x.phase = .fetched rs rest →
      (c.node x.nodeId).installs rs = true →
      Move c x fails ((c.node x.nodeId).createPeerSnapshot rs) (.advancing rs rest)
  | keep {rs : RecoveryState} {rest : List NodeInfo} : x.phase = .fetched rs rest →
      (c.node x.nodeId).installs rs = false → Move c x fails (c.node x.nodeId) (.filtering rs rest)
  | advance {rs : RecoveryState} {rest : List NodeInfo} : x.phase = .advancing rs rest →
      Move c x fails ((c.node x.nodeId).advanceLastSequence
        rs.snapshotManifest.lastCompactedWalSequence) (.filtering rs rest)
  | filter {rs : RecoveryState} {rest : List NodeInfo} : x.phase = .filtering rs rest →
      Move c x fails (c.node x.nodeId) (.appending ((c.node x.nodeId).recovered rs) rest)
  | next {rest : List NodeInfo} : x.phase = .appending [] rest →
      Move c x fails (c.node x.nodeId) (.peers rest)
  | append {entry : WalEntry} {entries : List WalEntry} {rest : List NodeInfo} :
      x.phase = .appending (entry :: entries) rest →
      Move c x fails ((c.node x.nodeId).appendRecovered entry) (.appending entries rest)

/-- A step of a recovery, one case for each phase of it. -/
theorem move_of_recoveryStep {x : Recovery} {n : DataNode} {phase : Phase}
    (h : c.recoveryStep x fails = some (n, phase)) : Move c x fails n phase := by
  unfold recoveryStep at h
  dsimp only at h
  -- one case for each phase, in the order of the definition
  split at h
  · rename_i hphase
    cases h
    exact .announce hphase
  · rename_i hphase
    cases h
    exact .refreshShards hphase
  · rename_i hphase
    cases h
    exact .scan hphase
  · rename_i hphase
    cases h
    exact .complete hphase
  · rename_i peer rest hphase
    by_cases hcontacts : (c.node x.nodeId).contacts peer = true
    · split at h
      · rename_i hfails
        cases h
        exact .fail hphase hcontacts (by simpa [hcontacts] using hfails)
      split at h
      · rename_i hstatus
        cases h
        exact .fetch hphase hcontacts hstatus
      · cases h
    · have hcontacts : (c.node x.nodeId).contacts peer = false := by simpa using hcontacts
      simp only [hcontacts, Bool.not_false, Bool.true_or, if_true] at h
      cases h
      exact .skip hphase hcontacts
  · rename_i peer manifest rest hphase
    split at h
    · rename_i hfails
      cases h
      exact .breakOff (by rw [hphase]; rfl) hfails
    split at h
    · rename_i hstatus
      cases h
      exact .readSnapshot hphase hstatus
    · cases h
  · rename_i peer manifest snapshotSql rest hphase
    split at h
    · rename_i hfails
      cases h
      exact .breakOff (by rw [hphase]; rfl) hfails
    split at h
    · rename_i hstatus
      cases h
      exact .readWal hphase hstatus
    · cases h
  · rename_i rs rest hphase
    split at h
    · rename_i hinstalls
      cases h
      exact .install hphase hinstalls
    · rename_i hinstalls
      cases h
      exact .keep hphase (by simpa using hinstalls)
  · rename_i rs rest hphase
    cases h
    exact .advance hphase
  · rename_i rs rest hphase
    cases h
    exact .filter hphase
  · rename_i rest hphase
    cases h
    exact .next hphase
  · rename_i entry entries rest hphase
    cases h
    exact .append hphase
  · cases h

/-- The end of a recovery. -/
theorem register_eq (h : c.register recovery = some c') :
    ∃ x, c.recoveries recovery = some x ∧ x.phase = .registering ∧
      c' = { (c.setNode x.nodeId ((c.node x.nodeId).withState .SERVING)).setRecovery recovery
          none with
        status := Function.update c.status x.nodeId .listening }.publish x.nodeId := by
  unfold register at h
  split at h
  · cases h
  · rename_i x hrec
    split at h
    · rename_i hphase
      exact ⟨x, hrec, hphase, (Option.some.inj h).symm⟩
    · cases h

/-- What a step can do, said once: the actions that are possible in `c`, each with what held before
and the state after. -/
inductive StepCases (c : Cluster) : Action → Cluster → Prop
  | write {call : Nat} {shardId : Int} {sql : String} : c.calls call = none →
      SqlUtils.isReadOnly (SqlUtils.normalize sql) = false →
      StepCases c (.write call shardId sql)
        (c.setCall call (.electing shardId (SqlUtils.normalize sql) c.zk.liveNodes))
  | elect {call : Nat} {shardId : Int} {sql : String} {liveNodes : List NodeInfo}
      {zk : ZkMetadataStore} {shard : ShardMetadata} :
      c.calls call = some (.electing shardId sql liveNodes) →
      c.zk.electPrimary shardId liveNodes = some (zk, shard) →
      StepCases c (.elect call)
        ({ c with zk := zk }.setCall call (Call.chooseReplicas shard sql liveNodes))
  | allocate {call : Nat} {requestId sql : String} {shard : ShardMetadata}
      {replicas : List NodeInfo} : c.calls call = some (.allocating shard sql replicas) →
      requestId ∉ c.usedIds →
      StepCases c (.allocate call requestId)
        ({ c with
          zk := (c.zk.nextShardLogIndex shard.shardId).1
          usedIds := requestId :: c.usedIds }.setCall call
            (Call.dispatch shard sql replicas (c.zk.nextShardLogIndex shard.shardId).2 requestId))
  | broadcastWrite {call : Nat} {sql requestId : String} : c.calls call = none →
      requestId ∉ c.usedIds → SqlUtils.isBroadcastDdl (SqlUtils.normalize sql) = true →
      StepCases c (.broadcastWrite call sql requestId)
        ({ c with usedIds := requestId :: c.usedIds }.setCall call
          (Call.broadcast (SqlUtils.normalize sql) c.zk.liveNodes requestId))
  | send {call : Nat} {d : Dispatch} {target : Target} {todo : List Target} :
      c.calls call = some (.sending d) → d.todo = target :: todo →
      StepCases c (.send call)
        ({ c with
          requests := c.requests ++ [Envelope.mk call target (d.request target)] }.setCall call
            (.waiting { d with todo := todo } target))
  | deliver {place : Nat} {fault : Option ExecuteFault} {output : String} {e : Envelope} :
      c.requests[place]? = some e → c.status e.target.nodeId = .listening →
      StepCases c (.deliver place fault output)
        { (c.executeOn e.target.nodeId e.request fault output).1 with
          requests := c.requests.eraseIdx place
          replies := ⟨e.call, e.target,
            (c.executeOn e.target.nodeId e.request fault output).2⟩ :: c.replies }
  | lose {place : Nat} :
      StepCases c (.lose place) { c with requests := c.requests.eraseIdx place }
  | receive {d : Dispatch} {r : Reply} : c.calls r.call = some (.waiting d r.target) →
      r ∈ c.replies →
      StepCases c (.receive r.call) (c.setCall r.call (.sending (d.record
        (if r.response.ok then r.response else .failure r.target.nodeId "HTTP 500"))))
  | giveUp {call : Nat} {error : String} {d : Dispatch} {target : Target} :
      c.calls call = some (.waiting d target) →
      StepCases c (.giveUp call error)
        (c.setCall call (.sending (d.record (.failure target.nodeId error))))
  | commit {call : Nat} {d : Dispatch} : c.calls call = some (.sending d) → d.todo = [] →
      d.hasQuorum = true → 0 ≤ d.shardId →
      StepCases c (.finish call)
        ({ c with
          zk := c.zk.updateCommitIndex d.shardId d.shardLogIndex
          committed := d :: c.committed }.setCall call (.replied d true))
  | finish {call : Nat} {d : Dispatch} {ok : Bool} : c.calls call = some (.sending d) →
      d.todo = [] → d.hasQuorum = ok → (ok = true → d.shardId < 0) →
      StepCases c (.finish call) (c.setCall call (.replied d ok))
  | query {nodeId sql output : String} {fault : Option ExecuteFault} {c' : Cluster} :
      SqlUtils.isReadOnly (SqlUtils.normalize sql) = true → c.status nodeId = .listening →
      c' = (c.executeOn nodeId (readRequest sql) fault output).1 →
      StepCases c (.query nodeId sql fault output) c'
  | adminSnapshot {nodeId : String} : c.status nodeId = .listening →
      StepCases c (.adminSnapshot nodeId) (c.setNode nodeId (c.node nodeId).adminSnapshot)
  | rebalance {replicationFactor : Nat} :
      StepCases c (.rebalance replicationFactor)
        { c with zk := c.zk.rebalance c.zk.liveNodes replicationFactor }
  | crash {nodeId : String} :
      StepCases c (.crash nodeId)
        { c with
          status := Function.update c.status nodeId .down
          recoveries := fun r => (c.recoveries r).filter (fun x => x.nodeId != nodeId) }
  | expire {nodeId : String} : StepCases c (.expire nodeId) { c with zk := c.zk.expire nodeId }
  | start {recovery : Nat} {nodeId : String} : c.recoveries recovery = none →
      c.status nodeId = .down →
      StepCases c (.start recovery nodeId)
        (({ c with status := Function.update c.status nodeId .starting }.setNode nodeId
          ((c.node nodeId).reload (c.zk.shardsForNode nodeId))).setRecovery recovery
            (some ⟨nodeId, true, .announcing⟩))
  | refresh {recovery : Nat} {nodeId : String} : c.recoveries recovery = none →
      c.status nodeId = .listening →
      StepCases c (.refresh recovery nodeId)
        (c.setRecovery recovery (some ⟨nodeId, false, .announcing⟩))
  | recover {recovery : Nat} {fails : Bool} {x : Recovery} {n : DataNode} {phase : Phase} :
      c.recoveries recovery = some x → Move c x fails n phase →
      StepCases c (.recover recovery fails)
        ((c.setNode x.nodeId n).setRecovery recovery (some { x with phase := phase }))
  | publish {recovery : Nat} {fails : Bool} {x : Recovery} {n : DataNode} {phase : Phase} :
      c.recoveries recovery = some x → Move c x fails n phase →
      StepCases c (.recover recovery fails)
        (((c.setNode x.nodeId n).setRecovery recovery
          (some { x with phase := phase })).publish x.nodeId)
  | register {recovery : Nat} {x : Recovery} : c.recoveries recovery = some x →
      x.phase = .registering →
      StepCases c (.register recovery)
        ({ (c.setNode x.nodeId ((c.node x.nodeId).withState .SERVING)).setRecovery recovery
            none with
          status := Function.update c.status x.nodeId .listening }.publish x.nodeId)
  | abortStart {recovery : Nat} {x : Recovery} : c.recoveries recovery = some x →
      StepCases c (.abort recovery)
        { c with
          status := Function.update c.status x.nodeId .down
          recoveries := fun r => (c.recoveries r).filter (fun y => y.nodeId != x.nodeId) }
  | abort {recovery : Nat} {x : Recovery} : c.recoveries recovery = some x →
      StepCases c (.abort recovery) (c.setRecovery recovery none)

/-- Every step is one of these. -/
theorem stepCases_of_step (h : c.step a = some c') : StepCases c a c' := by
  cases a with
  | write call shardId sql =>
    obtain ⟨hnone, hread, _, rfl⟩ := write_eq h
    exact .write hnone hread
  | elect call =>
    obtain ⟨_, _, _, _, _, hcall, helect, rfl⟩ := elect_eq h
    exact .elect hcall helect
  | allocate call requestId =>
    obtain ⟨_, _, _, hcall, _, hnew, rfl⟩ := allocate_eq h
    exact .allocate hcall hnew
  | broadcastWrite call sql requestId =>
    obtain ⟨hnone, _, hnew, hddl, rfl⟩ := broadcastWrite_eq h
    exact .broadcastWrite hnone hnew hddl
  | send call =>
    obtain ⟨_, _, _, hcall, htodo, rfl⟩ := send_eq h
    exact .send hcall htodo
  | deliver place fault output =>
    obtain ⟨_, he, hstatus, rfl⟩ := deliver_eq h
    exact .deliver he hstatus
  | lose place =>
    obtain rfl := Option.some.inj h
    exact .lose
  | receive call =>
    obtain ⟨_, _, _, hcall, hr, rfl, rfl, rfl⟩ := receive_eq h
    exact .receive hcall hr
  | giveUp call error =>
    change c.giveUp call error = some c' at h
    unfold giveUp at h
    split at h
    · rename_i hcall
      obtain rfl := Option.some.inj h
      exact .giveUp hcall
    · cases h
  | finish call =>
    obtain ⟨_, hcall, htodo, ⟨hquorum, hs, rfl⟩ | ⟨hquorum, hs, rfl⟩ | ⟨hquorum, rfl⟩⟩ :=
      finish_eq h
    · exact .commit hcall htodo hquorum hs
    · exact .finish hcall htodo hquorum (fun _ => hs)
    · exact .finish hcall htodo hquorum (fun hok => nomatch hok)
  | query nodeId sql fault output =>
    obtain ⟨hread, hstatus, heq⟩ := query_eq h
    exact .query hread hstatus heq
  | adminSnapshot nodeId =>
    obtain ⟨hstatus, rfl⟩ := adminSnapshot_eq h
    exact .adminSnapshot hstatus
  | rebalance replicationFactor =>
    obtain rfl := Option.some.inj h
    exact .rebalance
  | crash nodeId =>
    obtain rfl := Option.some.inj h
    exact .crash
  | expire nodeId =>
    obtain rfl := Option.some.inj h
    exact .expire
  | start recovery nodeId =>
    change c.start recovery nodeId = some c' at h
    unfold start at h
    split at h
    · rename_i hcond
      simp only [Bool.and_eq_true, Option.isNone_iff_eq_none, beq_iff_eq] at hcond
      obtain rfl := Option.some.inj h
      exact .start hcond.1 hcond.2
    · cases h
  | refresh recovery nodeId =>
    change c.refresh recovery nodeId = some c' at h
    unfold refresh at h
    split at h
    · rename_i hcond
      simp only [Bool.and_eq_true, Option.isNone_iff_eq_none, beq_iff_eq] at hcond
      obtain rfl := Option.some.inj h
      exact .refresh hcond.1 hcond.2
    · cases h
  | recover recovery fails =>
    change c.recover recovery fails = some c' at h
    unfold recover at h
    split at h
    · cases h
    · rename_i x hx
      split at h
      · cases h
      · rename_i n phase hmove
        dsimp only at h
        split at h
        · obtain rfl := Option.some.inj h
          exact .publish hx (move_of_recoveryStep hmove)
        · obtain rfl := Option.some.inj h
          exact .recover hx (move_of_recoveryStep hmove)
  | register recovery =>
    obtain ⟨_, hx, hphase, rfl⟩ := register_eq h
    exact .register hx hphase
  | abort recovery =>
    change c.abort recovery = some c' at h
    unfold abort at h
    split at h
    · cases h
    · rename_i x hx
      split at h
      · obtain rfl := Option.some.inj h
        exact .abortStart hx
      · obtain rfl := Option.some.inj h
        exact .abort hx

end Cluster

end DisMiniSql.Distributed
