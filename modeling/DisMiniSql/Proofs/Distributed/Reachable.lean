import DisMiniSql.Proofs.Distributed.Absorb
import DisMiniSql.Proofs.Distributed.Steps

/-!
# `DisMiniSql.Proofs.Distributed.Reachable`: what holds in every reachable cluster

`step_node` lists what an action can do to a node, `step_recoveries` what it can do to a
recovery. From these, `Cluster.Wf` holds in every reachable cluster (`Reachable.wf`): the log
of every node is well formed, and so is every recovery state that a node has fetched.
-/

set_option autoImplicit false

namespace DisMiniSql.Distributed

open DisMiniSql.Lib (Steps)

/-- What one step of the cluster can do to a node. -/
inductive DataNode.Step (n : DataNode) : DataNode → Prop
  | same : DataNode.Step n n
  | execute (shardTerm : Int → Option Nat) (request : ExecuteRequest)
      (fault : Option ExecuteFault) (output : String) :
      DataNode.Step n (n.execute shardTerm request fault output).node
  | adminSnapshot : DataNode.Step n n.adminSnapshot
  | withState (s : ReplicaState) : DataNode.Step n (n.withState s)
  | refreshShards (shards : List Int) : DataNode.Step n (n.refreshShards shards)
  | complete (startup : Bool) : DataNode.Step n
      (if startup then n.applyPendingWal.maybeSnapshot else n.applyPendingWal)
  | createPeerSnapshot (rs : RecoveryState) : DataNode.Step n (n.createPeerSnapshot rs)
  | advanceLastSequence (s : Nat) : DataNode.Step n (n.advanceLastSequence s)
  | appendRecovered (e : WalEntry) : DataNode.Step n (n.appendRecovered e)
  | reload (shards : List Int) : DataNode.Step n (n.reload shards)

namespace DataNode.Step

variable {n n' : DataNode}

/-- A step of a node keeps it well formed. -/
theorem wf (h : DataNode.Step n n') (hn : n.Wf) : n'.Wf := by
  cases h with
  | same => exact hn
  | execute shardTerm request fault output => exact hn.execute shardTerm request fault output
  | adminSnapshot => exact hn.adminSnapshot
  | withState s => exact ⟨hn.log, hn.lines⟩
  | refreshShards shards => exact ⟨hn.log, hn.lines⟩
  | complete startup =>
    cases startup with
    | false => exact hn.applyPendingWal
    | true => exact hn.applyPendingWal.maybeSnapshot
  | createPeerSnapshot rs => exact hn.createPeerSnapshot rs
  | advanceLastSequence s => exact hn.advanceLastSequence s
  | appendRecovered e => exact hn.appendRecovered e
  | reload shards => exact hn.reload shards

/-- And extends it. -/
theorem keeps (h : DataNode.Step n n') : n.Extends n' := by
  cases h with
  | same => exact DataNode.Extends.refl n
  | execute shardTerm request fault output => exact n.extends_execute shardTerm request fault output
  | adminSnapshot => exact n.extends_adminSnapshot
  | withState s => exact ⟨rfl, List.prefix_refl _⟩
  | refreshShards shards => exact ⟨rfl, List.prefix_refl _⟩
  | complete startup =>
    cases startup with
    | false => exact n.extends_applyPendingWal
    | true => exact n.extends_applyPendingWal.trans (DataNode.extends_maybeSnapshot _)
  | createPeerSnapshot rs => exact ⟨rfl, List.prefix_refl _⟩
  | advanceLastSequence s => exact n.extends_advanceLastSequence s
  | appendRecovered e => exact n.extends_appendRecovered e
  | reload shards => exact ⟨rfl, List.prefix_refl _⟩

end DataNode.Step

/-- The fetched state that a recovery works on, or the part of it that is read. -/
def Phase.peerState : Phase → Option RecoveryState
  | .readingWal _ manifest snapshotSql _ => some ⟨manifest, snapshotSql, []⟩
  | .fetched rs _ => some rs
  | .advancing rs _ => some rs
  | .filtering rs _ => some rs
  | _ => none

/-- The call that takes this action. -/
def Action.call : Action → Option Nat
  | .write call _ _ => some call
  | .elect call => some call
  | .allocate call _ => some call
  | .broadcastWrite call _ _ => some call
  | .send call => some call
  | .receive call => some call
  | .giveUp call _ => some call
  | .finish call => some call
  | _ => none

namespace Cluster

variable {c c' : Cluster} {a : Action}

theorem node_executeOn (c : Cluster) (nodeId : String) (request : ExecuteRequest)
    (fault : Option ExecuteFault) (output : String) :
    (c.executeOn nodeId request fault output).1.node = Function.update c.node nodeId
      ((c.node nodeId).execute c.shardTerm request fault output).node := by
  unfold executeOn
  dsimp only
  split
  · rfl
  · rfl

/-- A read is not logged. -/
theorem logRequest_readRequest (n : DataNode) (shardTerm : Int → Option Nat) {sql : String}
    (hread : SqlUtils.isReadOnly (SqlUtils.normalize sql) = true) :
    (n.logRequest shardTerm (readRequest sql)).1 = n := by
  unfold DataNode.logRequest readRequest
  dsimp only
  rw [if_neg Bool.false_ne_true, if_pos hread]

/-- What an action does to the node `i`, with what held before. -/
inductive NodeStep (c : Cluster) (i : String) : Action → DataNode → Prop
  | same {a : Action} : NodeStep c i a (c.node i)
  | deliver {place : Nat} {fault : Option ExecuteFault} {output : String} {env : Envelope} :
      c.requests[place]? = some env → env.target.nodeId = i →
      NodeStep c i (.deliver place fault output)
        ((c.node i).execute c.shardTerm env.request fault output).node
  | query {sql output : String} {fault : Option ExecuteFault} :
      SqlUtils.isReadOnly (SqlUtils.normalize sql) = true →
      NodeStep c i (.query i sql fault output)
        ((c.node i).execute c.shardTerm (readRequest sql) fault output).node
  | adminSnapshot : NodeStep c i (.adminSnapshot i) (c.node i).adminSnapshot
  | start {r : Nat} : c.status i = .down →
      NodeStep c i (.start r i) ((c.node i).reload (c.zk.shardsForNode i))
  | move {r : Nat} {fails : Bool} {x : Recovery} {n : DataNode} {phase : Phase} :
      c.recoveries r = some x → x.nodeId = i → Move c x fails n phase →
      NodeStep c i (.recover r fails) n
  | register {r : Nat} {x : Recovery} : c.recoveries r = some x → x.nodeId = i →
      NodeStep c i (.register r) ((c.node i).withState .SERVING)

/-- Every action does one of these to a node. -/
theorem nodeStep_of_step (h : c.step a = some c') (i : String) : c.NodeStep i a (c'.node i) := by
  -- only the node that acts can change
  have hupd : ∀ {j : String} {n : DataNode}, c.NodeStep j a n →
      c'.node = Function.update c.node j n → c.NodeStep i a (c'.node i) := by
    intro j n hn hnode
    rw [hnode]
    by_cases hi : i = j
    · subst hi
      rwa [Function.update_self]
    · rw [Function.update_of_ne hi]
      exact .same
  cases stepCases_of_step h with
  | @deliver _ fault output env henv _ =>
    exact hupd (.deliver henv rfl)
      (c.node_executeOn env.target.nodeId env.request fault output)
  | @query nodeId sql output fault _ hread _ heq =>
    exact hupd (.query hread)
      (by rw [heq]; exact c.node_executeOn nodeId (readRequest sql) fault output)
  | adminSnapshot _ => exact hupd .adminSnapshot rfl
  | start _ hstatus => exact hupd (.start hstatus) rfl
  | recover hx hmove => exact hupd (.move hx rfl hmove) rfl
  | publish hx hmove => exact hupd (.move hx rfl hmove) rfl
  | register hx _ => exact hupd (.register hx rfl) rfl
  | _ => exact .same

/-- The move of a recovery is a step of its node. -/
theorem step_of_move {x : Recovery} {fails : Bool} {n : DataNode} {phase : Phase}
    (h : Move c x fails n phase) : DataNode.Step (c.node x.nodeId) n := by
  cases h with
  | announce _ => exact .withState _
  | refreshShards _ => exact .refreshShards _
  | scan _ => exact .same
  | complete _ => exact .complete _
  | skip _ _ => exact .same
  | fail _ _ _ => exact .same
  | fetch _ _ _ => exact .same
  | readSnapshot _ _ => exact .same
  | readWal _ _ => exact .same
  | breakOff _ _ => exact .same
  | install _ _ => exact .createPeerSnapshot _
  | keep _ _ => exact .same
  | advance _ => exact .advanceLastSequence _
  | filter _ => exact .same
  | next _ => exact .same
  | append _ => exact .appendRecovered _

/-- What an action does to a node, in terms of the node alone. -/
theorem step_node (h : c.step a = some c') (i : String) :
    DataNode.Step (c.node i) (c'.node i) := by
  have hnode := nodeStep_of_step h i
  generalize c'.node i = n at hnode
  cases hnode with
  | same => exact .same
  | deliver _ _ => exact .execute _ _ _ _
  | query _ => exact .execute _ _ _ _
  | adminSnapshot => exact .adminSnapshot
  | start _ => exact .reload _
  | move _ hi hmove => exact hi ▸ step_of_move hmove
  | register _ _ => exact .withState _

theorem recoveries_executeOn (c : Cluster) (nodeId : String) (request : ExecuteRequest)
    (fault : Option ExecuteFault) (output : String) :
    (c.executeOn nodeId request fault output).1.recoveries = c.recoveries := by
  unfold executeOn
  dsimp only
  split
  · rfl
  · rfl

/-- What `execute` on a node leaves alone. -/
theorem frame_executeOn (c : Cluster) (nodeId : String) (request : ExecuteRequest)
    (fault : Option ExecuteFault) (output : String) :
    (c.executeOn nodeId request fault output).1.calls = c.calls ∧
      (c.executeOn nodeId request fault output).1.requests = c.requests ∧
      (c.executeOn nodeId request fault output).1.replies = c.replies ∧
      (c.executeOn nodeId request fault output).1.usedIds = c.usedIds ∧
      (c.executeOn nodeId request fault output).1.status = c.status ∧
      (c.executeOn nodeId request fault output).1.committed = c.committed ∧
      (c.executeOn nodeId request fault output).1.zk.shardLogIndexes = c.zk.shardLogIndexes ∧
      (c.executeOn nodeId request fault output).1.zk.shardNodes = c.zk.shardNodes := by
  unfold executeOn
  dsimp only
  split
  · exact ⟨rfl, rfl, rfl, rfl, rfl, rfl, rfl, rfl⟩
  · exact ⟨rfl, rfl, rfl, rfl, rfl, rfl, rfl, rfl⟩

/-- What an action does to a recovery that is there afterwards: nothing, or it has begun, or
it has taken its next step. -/
theorem step_recoveries (h : c.step a = some c') {r : Nat} {x : Recovery}
    (hx : c'.recoveries r = some x) :
    c.recoveries r = some x ∨ (x.phase = .announcing ∧ c'.status x.nodeId ≠ .down ∧
        (a = .start r x.nodeId ∨ a = .refresh r x.nodeId)) ∨
      ∃ y fails n phase, a = .recover r fails ∧ c.recoveries r = some y ∧
        Move c y fails n phase ∧ x = { y with phase := phase } ∧
        c'.node = Function.update c.node y.nodeId n := by
  -- a recovery that is set at one number, and the others
  have hset : ∀ {k : Nat} {y : Option Recovery}, Function.update c.recoveries k y r = some x →
      c.recoveries r = some x ∨ (r = k ∧ y = some x) := by
    intro k y hy
    by_cases hk : r = k
    · subst hk
      exact Or.inr ⟨rfl, by rwa [Function.update_self] at hy⟩
    · rw [Function.update_of_ne hk] at hy
      exact Or.inl hy
  have hcrash : ∀ {i : String}, (c.recoveries r).filter (fun y => y.nodeId != i) = some x →
      c.recoveries r = some x := fun hy => (Option.filter_eq_some_iff.mp hy).1
  cases stepCases_of_step h with
  | @deliver _ fault output e _ _ =>
    exact Or.inl (by rwa [← recoveries_executeOn c e.target.nodeId e.request fault output])
  | query _ _ heq =>
    rw [heq, recoveries_executeOn] at hx
    exact Or.inl hx
  | crash => exact Or.inl (hcrash hx)
  | abortStart _ => exact Or.inl (hcrash hx)
  | @start recovery nodeId _ _ =>
    obtain hold | ⟨rfl, hnew⟩ := hset hx
    · exact Or.inl hold
    · cases hnew
      refine Or.inr (Or.inl ⟨rfl, ?_, Or.inl rfl⟩)
      show Function.update c.status nodeId .starting nodeId ≠ .down
      rw [Function.update_self]
      decide
  | @refresh recovery nodeId _ hstatus =>
    obtain hold | ⟨rfl, hnew⟩ := hset hx
    · exact Or.inl hold
    · cases hnew
      refine Or.inr (Or.inl ⟨rfl, ?_, Or.inr rfl⟩)
      show c.status nodeId ≠ .down
      rw [hstatus]
      decide
  | recover hy hmove =>
    obtain hold | ⟨rfl, hnew⟩ := hset hx
    · exact Or.inl hold
    · exact Or.inr (Or.inr ⟨_, _, _, _, rfl, hy, hmove, (Option.some.inj hnew).symm, rfl⟩)
  | publish hy hmove =>
    obtain hold | ⟨rfl, hnew⟩ := hset hx
    · exact Or.inl hold
    · exact Or.inr (Or.inr ⟨_, _, _, _, rfl, hy, hmove, (Option.some.inj hnew).symm, rfl⟩)
  | register _ _ =>
    obtain hold | ⟨_, hnew⟩ := hset hx
    · exact Or.inl hold
    · cases hnew
  | abort _ =>
    obtain hold | ⟨_, hnew⟩ := hset hx
    · exact Or.inl hold
    · cases hnew
  | _ => exact Or.inl hx

/-- The entry is appended to the log of the node by this action: as the entry of a request
that is delivered, or as the next one that a recovery takes over. -/
inductive LogsEntry (c : Cluster) (nodeId : String) (e : WalEntry) : Action → Prop
  | deliver {place : Nat} {fault : Option ExecuteFault} {output : String} {env : Envelope} :
      c.requests[place]? = some env → env.target.nodeId = nodeId →
      (c.node nodeId).entryFor env.request e →
      ((c.node nodeId).logRequest c.shardTerm env.request).1 = (c.node nodeId).logs e →
      LogsEntry c nodeId e (.deliver place fault output)
  | recover {r : Nat} {fails : Bool} {x : Recovery} {entry : WalEntry}
      {entries : List WalEntry} {rest : List NodeInfo} :
      c.recoveries r = some x → x.nodeId = nodeId →
      x.phase = .appending (entry :: entries) rest →
      e = (c.node nodeId).walLog.localEntry entry → LogsEntry c nodeId e (.recover r fails)

/-- An action leaves the entries a node ever appended as they are, or adds one. -/
theorem step_history (h : c.step a = some c') (i : String) :
    (c'.node i).walLog.history = (c.node i).walLog.history ∨
      ∃ e, c.LogsEntry i e a ∧
        (c'.node i).walLog.history = (c.node i).walLog.history ++ [e] := by
  have hnode := nodeStep_of_step h i
  generalize c'.node i = n at hnode ⊢
  cases hnode with
  | same => exact Or.inl rfl
  | deliver henv hi =>
    rename_i place fault output env
    obtain heq | ⟨e, he, hlog, heq⟩ := DataNode.history_execute (c.node i) c.shardTerm
      env.request fault output
    · exact Or.inl heq
    · exact Or.inr ⟨e, .deliver henv hi he hlog, heq⟩
  | query hread =>
    -- a read is not logged
    rename_i sql output fault
    left
    have hsame := logRequest_readRequest (c.node i) c.shardTerm hread
    obtain heq | ⟨e, _, hlog, _⟩ := DataNode.history_execute (c.node i) c.shardTerm
      (readRequest sql) fault output
    · exact heq
    · rw [hsame] at hlog
      have hlen := congrArg (fun n : DataNode => n.walLog.history.length) hlog
      simp [DataNode.logs, WalLog.appendRaw] at hlen
  | adminSnapshot => exact Or.inl rfl
  | start _ => exact Or.inl rfl
  | move hx hi hmove =>
    rename_i r fails x phase
    subst hi
    cases hmove with
    | complete _ =>
      left
      have happ : (c.node x.nodeId).applyPendingWal.walLog.history =
          (c.node x.nodeId).walLog.history := by
        unfold DataNode.applyPendingWal
        split
        · rfl
        · rfl
      split
      · rw [DataNode.history_maybeSnapshot, happ]
      · exact happ
    | advance _ =>
      left
      unfold DataNode.advanceLastSequence WalLog.advanceLastSequence
      split
      · rfl
      · rfl
    | append hphase =>
      rename_i entry entries rest
      obtain ⟨heq, _⟩ | ⟨_, heq⟩ := DataNode.appendRecovered_cases (c.node x.nodeId) entry
      · exact Or.inl (by rw [heq])
      · exact Or.inr ⟨_, .recover hx rfl hphase rfl, by rw [heq]; rfl⟩
    | announce _ | refreshShards _ | scan _ | skip _ _ | fail _ _ _ | fetch _ _ _ | readSnapshot _ _
    | readWal _ _ | breakOff _ _ | install _ _ | keep _ _ | filter _ | next _ => exact Or.inl rfl
  | register _ _ => exact Or.inl rfl

/-- Only the call that acts changes. -/
theorem step_calls (h : c.step a = some c') {k : Nat} (hk : a.call ≠ some k) :
    c'.calls k = c.calls k := by
  -- the actions of a call set that call
  have hset : ∀ {call : Nat} {d : Cluster} {x : Call}, a.call = some call → d.calls = c.calls →
      (d.setCall call x).calls k = c.calls k := by
    intro call d x ha hd
    have hne : k ≠ call := fun hkc => hk (hkc ▸ ha)
    exact (Function.update_of_ne hne _ _).trans (congrFun hd k)
  cases stepCases_of_step h with
  | write _ _ => exact hset rfl rfl
  | elect _ _ => exact hset rfl rfl
  | allocate _ _ => exact hset rfl rfl
  | broadcastWrite _ _ _ => exact hset rfl rfl
  | send _ _ => exact hset rfl rfl
  | receive _ _ => exact hset rfl rfl
  | giveUp _ => exact hset rfl rfl
  | commit _ _ _ _ => exact hset rfl rfl
  | finish _ _ _ _ => exact hset rfl rfl
  | @deliver _ fault output e _ _ =>
    exact congrFun (c.frame_executeOn e.target.nodeId e.request fault output).1 k
  | @query nodeId sql output fault _ _ _ heq =>
    rw [heq, (c.frame_executeOn nodeId (readRequest sql) fault output).1]
  | _ => rfl

/-- What holds of every reachable cluster. -/
structure Wf (c : Cluster) : Prop where
  nodes : ∀ i, (c.node i).Wf
  ids : ∀ i, (c.node i).nodeId = i
  states : ∀ r x rs, c.recoveries r = some x → x.phase.peerState = some rs → rs.Wf

theorem Wf.new (nodeIds : List String) (shardCount replicationFactor : Nat) :
    (new nodeIds shardCount replicationFactor).Wf where
  nodes := fun _ => ⟨WalLog.Wf.empty, by simp [Cluster.new]⟩
  ids := fun _ => rfl
  states := by
    intro r x rs hx
    cases hx

/-- One case for each action: it is a step of one node, or of the store or a call alone. -/
theorem Wf.step (hc : c.Wf) (h : c.step a = some c') : c'.Wf where
  nodes := fun i => (step_node h i).wf (hc.nodes i)
  ids := fun i => (step_node h i).keeps.nodeId.trans (hc.ids i)
  states := by
    intro r x rs hx hrs
    obtain hold | ⟨hnew, _⟩ | ⟨y, fails, n, phase, _, hy, hmove, rfl, _⟩ := step_recoveries h hx
    · exact hc.states r x rs hold hrs
    · rw [hnew] at hrs
      cases hrs
    dsimp only at hrs
    -- a state is fetched from a node, or it is the one of the phase before
    cases hmove with
    | announce _ =>
      split at hrs
      · cases hrs
      · cases hrs
    | readSnapshot hphase _ =>
      cases hrs
      exact ⟨by simp, .nil, (hc.nodes _).recoveryState.lines⟩
    | @readWal peer _ _ _ hphase _ =>
      cases hrs
      have hpart := hc.states r y _ hy (by rw [hphase]; rfl)
      have hnode := (hc.nodes peer.nodeId).recoveryState
      exact ⟨hnode.normalized, hnode.distinct, hpart.lines⟩
    | install hphase _ =>
      cases hrs
      exact hc.states r y _ hy (by rw [hphase]; rfl)
    | keep hphase _ =>
      cases hrs
      exact hc.states r y _ hy (by rw [hphase]; rfl)
    | advance hphase =>
      cases hrs
      exact hc.states r y _ hy (by rw [hphase]; rfl)
    | refreshShards _ | scan _ | complete _ | skip _ _ | fail _ _ _ | fetch _ _ _ | breakOff _ _
    | filter _ | next _ | append _ =>
      cases hrs

/-- What holds of a new cluster and is kept by every step holds of every reachable cluster. -/
theorem Reachable.invariant {I : Cluster → Prop} (h : c.Reachable)
    (hnew : ∀ nodeIds shardCount replicationFactor, I (new nodeIds shardCount replicationFactor))
    (hstep : ∀ c a c', I c → c.step a = some c' → I c') : I c := by
  obtain ⟨nodeIds, shardCount, replicationFactor, actions, hrun⟩ := h
  exact hrun.invariant hstep (hnew nodeIds shardCount replicationFactor)

theorem Reachable.wf (h : c.Reachable) : c.Wf :=
  h.invariant Wf.new fun _ _ _ hc hstep => hc.step hstep

theorem steps_of_run {actions : List Action} (h : c.run actions = some c') :
    Steps (fun c a c' => c.step a = some c') c actions c' := by
  induction actions generalizing c with
  | nil =>
    obtain rfl := Option.some.inj h
    exact .nil c
  | cons a as ih =>
    obtain ⟨d, hstep, hrun⟩ := Option.bind_eq_some_iff.mp h
    exact .cons hstep (ih hrun)

/-- A test that the end of a concrete run passes is passed by a reachable cluster. -/
theorem exists_reachable_of_run {nodeIds : List String} {shardCount replicationFactor : Nat}
    {actions : List Action} {P : Cluster → Bool}
    (h : ((new nodeIds shardCount replicationFactor).run actions).any P = true) :
    ∃ c : Cluster, c.Reachable ∧ P c = true := by
  obtain ⟨c, hc, hP⟩ := (Option.any_eq_true P _).mp h
  exact ⟨c, ⟨nodeIds, shardCount, replicationFactor, actions, steps_of_run hc⟩, hP⟩

end Cluster

/-- The write that a call has reported successful. -/
def Call.succeeded : Call → Option Dispatch
  | .replied d true => some d
  | _ => none

theorem Call.eq_replied_of_succeeded {x : Call} {d : Dispatch} (h : x.succeeded = some d) :
    x = .replied d true := by
  unfold Call.succeeded at h
  split at h
  · rw [Option.some.inj h]
  · cases h

namespace Action

/-- A node starts and recovers in so many steps, none of which fails. -/
def startUp (recovery : Nat) (nodeId : String) (rounds : Nat) : List Action :=
  .start recovery nodeId :: List.replicate rounds (.recover recovery false) ++
    [.register recovery]

/-- A write up to its first send. -/
def beginWrite (call : Nat) (shardId : Int) (sql requestId : String) : List Action :=
  [.write call shardId sql, .elect call, .allocate call requestId]

/-- The next send of a call reaches its node, and the answer comes back. -/
def sendAndReceive (call : Nat) : List Action := [.send call, .deliver 0 none "", .receive call]

/-- The request of the next send is lost. -/
def sendAndLose (call : Nat) : List Action := [.send call, .lose 0, .giveUp call "lost"]

end Action

end DisMiniSql.Distributed
