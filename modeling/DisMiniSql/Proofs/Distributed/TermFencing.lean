import DisMiniSql.Proofs.Distributed.Provenance
import DisMiniSql.Proofs.Distributed.ZkCluster

/-!
# `DisMiniSql.Proofs.Distributed.TermFencing`: requests of an old term

`execute` compares the term of a request with that of the shard only in the branch that is not
a replay. So the request of the primary is fenced, and those of the followers are not:
`deliver_stale_iff` says which stale requests are appended, and `follower_logs_stale_write` is a
run in which a write that was stale before any node saw it is logged by a follower and reported
successful. `old_term_put_back` is another one, in which a rebalance writes back the record that it
read in the old term.

`stale_write_fenced` adds what follows for a whole run of the cluster, in which the operations of
`electPrimary`, `rebalance` and `updateCommitIndex` on ZooKeeper interleave with everything else. If
no follower logs a stale request, and no operation puts an old term back, a write that is stale
before any node has logged it never succeeds. An acknowledgement needs a logged entry (`CommitInv`),
and the request of a write carries the term the write was started in (`TicketInv`).
-/

set_option autoImplicit false

namespace DisMiniSql.Distributed

open DisMiniSql.Lib (Pool PoolAction Steps runWhere)

/-- The stored term of a shard is at least `t`. -/
def ZkMetadataStore.TermAtLeast (z : ZkMetadataStore) (s : Int) (t : Nat) : Prop :=
  ∃ m, z.shard s = some m ∧ t ≤ m.term

/-- What a write keeps from its first send to its end: its request id, its shard and the term
it was started in. -/
structure Ticket where
  requestId : String
  shardId : Int
  raftTerm : Nat
  deriving DecidableEq

/-- The ticket of a write. -/
def Dispatch.ticket (d : Dispatch) : Ticket where
  requestId := d.requestId
  shardId := d.shardId
  raftTerm := d.raftTerm

/-- The ticket of a call, once it sends. -/
def Call.ticket? : Call → Option Ticket
  | .sending d => some d.ticket
  | .waiting d _ => some d.ticket
  | .replied d _ => some d.ticket
  | _ => none

namespace Cluster

variable {c c' : Cluster} {a : Action}

/-- What an action does to the shard records. -/
inductive ZkStep (z : ZkMetadataStore) : ZkMetadataStore → Prop
  | same {z' : ZkMetadataStore} : z'.shardNodes = z.shardNodes → ZkStep z z'
  | elect {z' : ZkMetadataStore} {shardId : Int} {liveNodes : List NodeInfo}
      {m : ShardMetadata} : z.electPrimary shardId liveNodes = some (z', m) → ZkStep z z'
  | commit (shardId : Int) (k : Nat) : ZkStep z (z.updateCommitIndex shardId k)
  | rebalance (liveNodes : List NodeInfo) (rf : Nat) : ZkStep z (z.rebalance liveNodes rf)

/-- What an action may do to the records: the steps of the store, and nothing else. -/
theorem zkStep_of_step (h : c.step a = some c') : ZkStep c.zk c'.zk := by
  by_cases ha : ZkCluster.callsStore c a = false
  · exact .same (step_shardNodes h ha)
  -- one of the three methods runs
  cases stepCases_of_step h with
  | elect _ helect => exact .elect helect
  | @commit _ d _ _ _ _ => exact .commit d.shardId d.shardLogIndex
  | finish _ _ _ _ => exact .same rfl
  | @rebalance replicationFactor => exact .rebalance c.zk.liveNodes replicationFactor
  | _ => exact absurd rfl ha

/-- Such a step keeps one record for each shard. -/
theorem ZkStep.distinct {z z' : ZkMetadataStore} (h : ZkStep z z') (hz : z.Distinct) :
    z'.Distinct := by
  cases h with
  | same heq =>
    unfold ZkMetadataStore.Distinct
    rw [heq]
    exact hz
  | elect helect => exact hz.electPrimary helect
  | commit shardId k => exact hz.updateCommitIndex shardId k
  | rebalance liveNodes rf => exact hz.rebalance liveNodes rf

/-- The term is behind the one that ZooKeeper has for the shard. -/
def Stale (c : Cluster) (shardId : Int) (raftTerm : Nat) : Prop :=
  0 ≤ shardId ∧ c.zk.TermAtLeast shardId (raftTerm + 1)

/-- What the node does with a stale request: it appends it exactly if it is a replay of a
request it does not know. -/
theorem logRequest_stale {env : Envelope}
    (hstale : c.Stale env.request.shardId env.request.raftTerm) (n : DataNode) :
    (n.logRequest c.shardTerm env.request).1 = n ∨
      (env.request.replay = true ∧
        n.walLog.containsRequestId env.request.requestId = false) := by
  unfold DataNode.logRequest
  split
  · rename_i hreplay
    unfold DataNode.logReplay
    cases hknown : n.walLog.containsRequestId env.request.requestId with
    | true =>
      rw [if_pos rfl]
      exact Or.inl rfl
    | false => exact Or.inr ⟨hreplay, rfl⟩
  split
  · exact Or.inl rfl
  -- the branch of the primary is left before the append
  · obtain ⟨hs, m, hm, hterm⟩ := hstale
    unfold DataNode.logWrite
    split
    · exact Or.inl rfl
    split
    · exact Or.inl rfl
    split
    · exact Or.inl rfl
    · rename_i hfresh
      simp only [shardTerm, hm, Option.map_some, Option.getD_some, Bool.and_eq_true,
        decide_eq_true_eq, not_and, Nat.not_lt] at hfresh
      exact absurd (hfresh hs) (by omega)

/-- No request of an old term reaches a node as a replay, unless the node knows it. -/
def Fenced (c : Cluster) : Action → Prop
  | .deliver place _ _ => ∀ env, c.requests[place]? = some env →
      c.Stale env.request.shardId env.request.raftTerm → env.request.replay = true →
      (c.node env.target.nodeId).walLog.containsRequestId env.request.requestId = true
  | _ => True

/-- A stale request is appended by no node exactly if it is not a replay, or is known. -/
theorem deliver_stale_iff {place : Nat} {fault : Option ExecuteFault} {output : String}
    {env : Envelope} (h : c.step (.deliver place fault output) = some c')
    (henv : c.requests[place]? = some env)
    (hstale : c.Stale env.request.shardId env.request.raftTerm) :
    (∀ i, (c'.node i).walLog.history = (c.node i).walLog.history) ↔
      c.Fenced (.deliver place fault output) := by
  constructor
  · intro hsame other hother _ hreplay
    rw [henv] at hother
    cases hother
    cases hknown : (c.node env.target.nodeId).walLog.containsRequestId
        env.request.requestId with
    | true => rfl
    | false =>
      -- a replay is appended whatever its term
      obtain ⟨e, _, he⟩ := DataNode.logReplay_fresh hknown
      obtain ⟨x, hx, _, rfl⟩ := deliver_eq h
      rw [henv] at hx
      cases hx
      have hkeeps := ((c.node env.target.nodeId).extends_execute_of_logRequest c.shardTerm
        env.request fault output).history
      have hnode := hsame env.target.nodeId
      rw [show (Cluster.node _ env.target.nodeId) = _ from
        congrFun (c.node_executeOn env.target.nodeId env.request fault output) _,
        Function.update_self] at hnode
      rw [hnode, DataNode.logRequest, if_pos hreplay, he] at hkeeps
      have hlen := hkeeps.length_le
      simp only [DataNode.logs, WalLog.appendRaw, List.length_append,
        List.length_singleton] at hlen
      omega
  · intro hfenced i
    obtain heq | ⟨e, hlogs, heq⟩ := step_history h i
    · exact heq
    cases hlogs with
    | deliver hother htarget _ hlog =>
      rw [henv] at hother
      cases hother
      subst htarget
      obtain hnone | ⟨hreplay, hunknown⟩ := logRequest_stale hstale (c.node env.target.nodeId)
      · rw [hnone] at hlog
        have hlen := congrArg (fun n : DataNode => n.walLog.history.length) hlog
        simp [DataNode.logs, WalLog.appendRaw] at hlen
      · rw [hfenced env henv hstale hreplay] at hunknown
        cases hunknown

/-- The ticket of a call of the cluster. -/
def ticket (c : Cluster) (call : Nat) : Option Ticket := (c.calls call).bind Call.ticket?

/-- An id stays used. -/
theorem step_usedIds (h : c.step a = some c') : ∀ q ∈ c.usedIds, q ∈ c'.usedIds := by
  intro q hq
  cases keyStep_of_step h with
  | same _ _ hused _ => exact hused q hq
  | fresh _ _ _ _ _ hused _ =>
    rw [hused]
    exact List.mem_cons_of_mem _ hq
  | next _ _ _ _ _ _ _ _ _ hused _ =>
    rw [hused]
    exact List.mem_cons_of_mem _ hq

theorem ticket_setCall (c : Cluster) (k : Nat) (x : Call) :
    (c.setCall k x).ticket k = x.ticket? := by
  simp [ticket, setCall]

/-- A ticket stays as it is, or it is new and its request id was not used before. -/
theorem step_ticket (h : c.step a = some c') (k : Nat) :
    c'.ticket k = c.ticket k ∨ (a.call = some k ∧ c.ticket k = none ∧
      ∀ t, c'.ticket k = some t → t.requestId ∉ c.usedIds ∧ t.requestId ∈ c'.usedIds) := by
  by_cases hk : a.call ≠ some k
  · left
    rw [ticket, ticket, step_calls h hk]
  have ha := not_not.mp hk
  -- before the request id is there, and after it
  have hset : ∀ {d : Cluster} {x y : Call}, c.calls k = some x → y.ticket? = x.ticket? →
      (d.setCall k y).ticket k = c.ticket k := by
    intro d x y hx hy
    rw [ticket_setCall, hy, ticket, hx]
    rfl
  cases stepCases_of_step h with
  | write hnone _ =>
    cases ha
    left
    rw [ticket_setCall, ticket, hnone]
    rfl
  | elect hcall _ =>
    cases ha
    refine Or.inl (hset hcall ?_)
    unfold Call.chooseReplicas
    dsimp only
    split
    · rfl
    · rfl
  | allocate hcall hnew =>
    cases ha
    refine Or.inr ⟨rfl, by rw [ticket, hcall]; rfl, fun t ht => ?_⟩
    rw [ticket_setCall] at ht
    unfold Call.dispatch at ht
    split at ht
    · cases ht
      exact ⟨hnew, List.mem_cons_self⟩
    · cases ht
  | broadcastWrite hnone hnew _ =>
    cases ha
    refine Or.inr ⟨rfl, by rw [ticket, hnone]; rfl, fun t ht => ?_⟩
    rw [ticket_setCall] at ht
    unfold Call.broadcast at ht
    split at ht
    · cases ht
    · cases ht
      exact ⟨hnew, List.mem_cons_self⟩
  | send hcall _ =>
    cases ha
    exact Or.inl (hset hcall rfl)
  | receive hcall _ =>
    cases ha
    exact Or.inl (hset hcall rfl)
  | giveUp hcall =>
    cases ha
    exact Or.inl (hset hcall rfl)
  | commit hcall _ _ _ =>
    cases ha
    exact Or.inl (hset hcall rfl)
  | finish hcall _ _ _ =>
    cases ha
    exact Or.inl (hset hcall rfl)
  | _ => cases ha

/-- Some node has appended an entry with this request id. -/
def AppendedSomewhere (c : Cluster) (r : Option String) : Prop :=
  ∃ i, ∃ e ∈ (c.node i).walLog.history, e.requestId = r

theorem AppendedSomewhere.mono {r : Option String} (h : c.AppendedSomewhere r)
    (hext : c.Extends c') : c'.AppendedSomewhere r := by
  obtain ⟨i, e, he, hid⟩ := h
  exact ⟨i, e, (hext i).history.subset he, hid⟩

/-- The invariant: a request id belongs to one call, a request on the network has the ticket of
its call, and what a recovery has fetched is in a log. -/
structure TicketInv (c : Cluster) : Prop where
  wf : c.Wf
  zk : c.zk.Distinct
  used : ∀ k t, c.ticket k = some t → t.requestId ∈ c.usedIds
  unique : ∀ j k t u, c.ticket j = some t → c.ticket k = some u →
    t.requestId = u.requestId → j = k
  requests : ∀ e ∈ c.requests, ∃ t, c.ticket e.call = some t ∧
    e.request.requestId = some t.requestId ∧ e.request.shardId = t.shardId ∧
    e.request.raftTerm = t.raftTerm
  buffers : ∀ r x, c.recoveries r = some x → ∀ e ∈ x.phase.entries,
    c.AppendedSomewhere e.requestId

theorem ticket_mono (h : c.step a = some c') {k : Nat} {t : Ticket} (ht : c.ticket k = some t) :
    c'.ticket k = some t := by
  obtain heq | ⟨_, hnone, _⟩ := step_ticket h k
  · rw [heq, ht]
  · rw [hnone] at ht
    cases ht

theorem TicketInv.buffers_step (h : c.TicketInv) (hstep : c.step a = some c') :
    ∀ r x, c'.recoveries r = some x → ∀ e ∈ x.phase.entries,
      c'.AppendedSomewhere e.requestId := by
  intro r x hx e he
  refine AppendedSomewhere.mono ?_ (step_extends hstep)
  obtain ⟨y, hy, he⟩ | ⟨i, he⟩ := step_entries hstep hx he
  · exact h.buffers r y hy e he
  · exact ⟨i, e, (h.wf.nodes i).log.recorded e (WalLog.mem_readAll.mp he), rfl⟩

/-- Each action keeps the terms of requests in step with their tickets. -/
theorem TicketInv.step (h : c.TicketInv) (hstep : c.step a = some c') : c'.TicketInv where
  wf := h.wf.step hstep
  zk := (zkStep_of_step hstep).distinct h.zk
  used := by
    intro k t ht
    obtain heq | ⟨_, _, hnew⟩ := step_ticket hstep k
    · exact step_usedIds hstep _ (h.used k t (heq ▸ ht))
    · exact (hnew t ht).2
  unique := by
    intro j k t u ht hu hid
    by_contra hjk
    obtain hj | ⟨haj, _, hnewj⟩ := step_ticket hstep j
    · obtain hk | ⟨_, _, hnewk⟩ := step_ticket hstep k
      · exact hjk (h.unique j k t u (hj ▸ ht) (hk ▸ hu) hid)
      · exact (hnewk u hu).1 (hid ▸ h.used j t (hj ▸ ht))
    · obtain hk | ⟨hak, _, _⟩ := step_ticket hstep k
      · exact (hnewj t ht).1 (hid ▸ h.used k u (hk ▸ hu))
      · rw [haj] at hak
        exact hjk (Option.some.inj hak)
  requests := by
    intro e he
    obtain hold | ⟨call, d, target, rfl, hcall, rfl⟩ := step_requests hstep he
    · obtain ⟨t, ht, hrest⟩ := h.requests e hold
      exact ⟨t, ticket_mono hstep ht, hrest⟩
    · refine ⟨d.ticket, ticket_mono hstep ?_, rfl, rfl, rfl⟩
      rw [ticket, hcall]
      rfl
  buffers := h.buffers_step hstep

/-- What the calls on ZooKeeper leave alone. -/
structure OnStore (c c' : Cluster) : Prop where
  node : c'.node = c.node
  recoveries : c'.recoveries = c.recoveries
  requests : c'.requests = c.requests
  usedIds : c'.usedIds = c.usedIds
  ticket : ∀ k, c'.ticket k = c.ticket k
  callKey : c'.callKey = c.callKey
  issuedBy : c'.issuedBy = c.issuedBy
  shardLogIndexes : c'.zk.shardLogIndexes = c.zk.shardLogIndexes

/-- Steps of the store alone change no ticket. -/
theorem TicketInv.onStore (h : c.TicketInv) (hsame : c.OnStore c') (hz : c'.zk.Distinct) :
    c'.TicketInv where
  wf := by
    refine ⟨fun i => ?_, fun i => ?_, fun r x rs hx => ?_⟩
    · rw [hsame.node]
      exact h.wf.nodes i
    · rw [hsame.node]
      exact h.wf.ids i
    · rw [hsame.recoveries] at hx
      exact h.wf.states r x rs hx
  zk := hz
  used := by
    intro k t ht
    rw [hsame.usedIds]
    exact h.used k t (hsame.ticket k ▸ ht)
  unique := fun j k t u ht hu => h.unique j k t u (hsame.ticket j ▸ ht) (hsame.ticket k ▸ hu)
  requests := by
    intro e he
    obtain ⟨t, ht, hrest⟩ := h.requests e (hsame.requests ▸ he)
    exact ⟨t, (hsame.ticket e.call).trans ht, hrest⟩
  buffers := by
    intro r x hx e he
    obtain ⟨i, y, hy, hid⟩ := h.buffers r x (hsame.recoveries ▸ hx) e he
    refine ⟨i, y, ?_, hid⟩
    rw [hsame.node]
    exact hy

/-- And issue no write. -/
theorem Sources.onStore (h : c.Sources) (hsame : c.OnStore c') : c'.Sources := by
  have hissued : ∀ w, c.HasIssued w → c'.HasIssued w := by
    rintro w ⟨call, hw⟩
    refine ⟨call, ?_⟩
    rw [hsame.issuedBy]
    exact hw
  constructor
  · rw [hsame.issuedBy, hsame.usedIds]
    exact h.used
  · rw [hsame.issuedBy]
    exact h.unique
  · intro e he
    obtain ⟨w, hw, hrequest⟩ := h.requests e (hsame.requests ▸ he)
    exact ⟨w, hissued w hw, hrequest⟩
  · intro i
    rw [hsame.node]
    exact (h.nodes i).mono hissued
  · intro r x rs hx hrs
    exact (h.states r x rs (hsame.recoveries ▸ hx) hrs).mono hissued
  · intro r x hx e he
    obtain ⟨w, hw, hentry⟩ := h.taken r x (hsame.recoveries ▸ hx) e he
    exact ⟨w, hissued w hw, hentry⟩

theorem TicketInv.new (nodeIds : List String) (shardCount replicationFactor : Nat) :
    (new nodeIds shardCount replicationFactor).TicketInv where
  wf := Wf.new nodeIds shardCount replicationFactor
  zk := ZkMetadataStore.Distinct.initializeShards nodeIds shardCount replicationFactor
  used := fun k t (ht : none = some t) => nomatch ht
  unique := fun j k t u (ht : none = some t) => nomatch ht
  requests := by simp [Cluster.new]
  buffers := fun r x hx => nomatch hx

theorem Reachable.ticketInv (h : c.Reachable) : c.TicketInv :=
  h.invariant TicketInv.new fun _ _ _ hc hstep => hc.step hstep

/-- A fenced step does not log a write that is stale and that no node has logged. -/
theorem unlogged_of_fenced {call : Nat} {t : Ticket} (htickets : c.TicketInv)
    (hsent : c.ticket call = some t) (hstale : c.Stale t.shardId t.raftTerm)
    (hunlogged : ∀ i, ¬ c.Appended i t.requestId) (hfenced : c.Fenced a)
    (hstep : c.step a = some c') : ∀ i, ¬ c'.Appended i t.requestId := by
  rintro i ⟨e, he, hid⟩
  obtain heq | ⟨x, hlogs, heq⟩ := step_history hstep i
  · exact hunlogged i ⟨e, heq ▸ he, hid⟩
  have hnew : x.requestId = some t.requestId := by
    rw [heq] at he
    obtain he | he := List.mem_append.mp he
    · exact absurd ⟨e, he, hid⟩ (hunlogged i)
    · rw [← List.mem_singleton.mp he]
      exact hid
  cases hlogs with
  | deliver henv htarget hentry hlog =>
    rename_i env
    -- the request is the one of the write, so it is stale
    obtain ⟨u, hu, huid, hushard, huterm⟩ :=
      htickets.requests env (List.mem_of_getElem? henv)
    have hsame : u.requestId = t.requestId :=
      Option.some.inj (huid.symm.trans (hentry.2.1.symm.trans hnew))
    have hcall := htickets.unique _ _ _ _ hu hsent hsame
    rw [hcall, hsent] at hu
    cases hu
    have hstale : c.Stale env.request.shardId env.request.raftTerm := by
      rw [hushard, huterm]
      exact hstale
    have hkept := (deliver_stale_iff hstep henv hstale).mpr hfenced i
    rw [heq] at hkept
    simp at hkept
  | recover hx _ hphase hlocal =>
    -- what a recovery appends was in the log of a peer
    obtain ⟨j, y, hy, hyid⟩ := htickets.buffers _ _ hx _
      (by rw [hphase]; exact List.mem_cons_self)
    refine hunlogged j ⟨y, hy, hyid.trans ?_⟩
    rw [← hnew, hlocal]
    rfl

/-- Without an entry there is no acknowledgement, and without a quorum of them no success. -/
theorem not_replied_of_unlogged {call : Nat} {t : Ticket} (hcommits : c.CommitInv)
    (hsent : c.ticket call = some t) (hunlogged : ∀ i, ¬ c.Appended i t.requestId)
    (d : Dispatch) : c.calls call ≠ some (.replied d true) := by
  intro hcall
  have ht := hsent
  rw [ticket, hcall] at ht
  cases ht
  obtain ⟨hd, hquorum⟩ := hcommits.calls call _ hcall
  have hcount : quorumSize d.members.length ≤ d.successCount := by
    simpa [Dispatch.hasQuorum] using hquorum rfl
  have hpos : 0 < d.responses.countP (·.ok) := by
    unfold quorumSize Dispatch.successCount at hcount
    omega
  obtain ⟨r, hr, hok⟩ := List.countP_pos_iff.mp hpos
  exact hunlogged r.nodeId (hd.acks r hr hok)

/-- Nothing is logged before the first request arrives. -/
theorem unlogged_step (h : c.TicketInv) (hempty : ∀ i, (c.node i).walLog.history = [])
    (ha : ∀ place fault output, a ≠ .deliver place fault output)
    (hstep : c.step a = some c') : ∀ i, (c'.node i).walLog.history = [] := by
  intro i
  obtain heq | ⟨e, hlogs, _⟩ := step_history hstep i
  · rw [heq, hempty i]
  cases hlogs with
  | deliver _ _ _ _ => exact absurd rfl (ha _ _ _)
  | recover hx _ hphase _ =>
    obtain ⟨j, y, hy, _⟩ := h.buffers _ _ hx _ (by rw [hphase]; exact List.mem_cons_self)
    rw [hempty j] at hy
    cases hy

/-- A test for `Fenced`: no replay of an old term is delivered. -/
def fencedOn (c : Cluster) : Action → Bool
  | .deliver place _ _ => (c.requests[place]?).all (fun env => !env.request.replay ||
      decide ((c.shardTerm env.request.shardId).getD 0 ≤ env.request.raftTerm))
  | _ => true

theorem fenced_of_fencedOn (h : fencedOn c a = true) : c.Fenced a := by
  cases a with
  | deliver place fault output =>
    intro env henv hstale hreplay
    obtain ⟨_, m, hm, hterm⟩ := hstale
    simp [fencedOn, henv, hreplay, shardTerm, hm] at h
    omega
  | _ => trivial

end Cluster

/-- The operation does not put a record in place of one with a larger term. -/
def KeepsTerm (zk : ZooKeeper) (_ : ZkNote) : ZkOp → Prop
  | .setData shardId data version =>
    ∀ n ∈ zk.shards shardId, n.version = version → n.data.term ≤ data.term
  | _ => True

instance (zk : ZooKeeper) (g : ZkNote) : (o : ZkOp) → Decidable (KeepsTerm zk g o)
  | .getChildren => isTrue trivial
  | .getData _ => isTrue trivial
  | .existsNode _ => isTrue trivial
  | .create _ _ => isTrue trivial
  | .setData shardId data version => inferInstanceAs (Decidable
      (∀ n ∈ zk.shards shardId, n.version = version → n.data.term ≤ data.term))

namespace ZkCluster

variable {c c' : ZkCluster} {a : ZkAction}

/-- No request of an old term reaches a node as a replay, unless the node knows it. -/
def Fenced (c : ZkCluster) : ZkAction → Prop
  | .act b => c.cluster.Fenced b
  | _ => True

/-- No operation on ZooKeeper puts an old term back. -/
def TermsKept (c : ZkCluster) : ZkAction → Prop
  | .op k => c.pool.Meets KeepsTerm (.op k : PoolAction StoreCall)
  | _ => True

/-- A step is one of the cluster, or it does nothing but run a call on ZooKeeper. -/
theorem act_or_onStore (h : c.step a = some c') :
    (∃ b, a = .act b ∧ c.cluster.step b = some c'.cluster) ∨
      c.cluster.OnStore c'.cluster := by
  -- a call goes on, with the ticket and the key that it has
  have hgoesOn : ∀ {call : Nat} {x y : Call} {d : Cluster}, c.cluster.calls call = some x →
      d.node = c.cluster.node → d.recoveries = c.cluster.recoveries →
      d.requests = c.cluster.requests → d.usedIds = c.cluster.usedIds →
      d.zk.shardLogIndexes = c.cluster.zk.shardLogIndexes → y.ticket? = x.ticket? →
      y.key? = x.key? → y.issued? = x.issued? →
      d.calls = Function.update c.cluster.calls call (some y) → c.cluster.OnStore d := by
    intro call x y d hx h₁ h₂ h₃ h₄ h₅ hticket hkey hissued hcalls
    refine ⟨h₁, h₂, h₃, h₄, fun k => ?_, funext fun k => ?_, funext fun k => ?_, h₅⟩
    · unfold Cluster.ticket
      rw [hcalls]
      by_cases hk : k = call
      · subst hk
        rw [Function.update_self, hx]
        exact hticket
      · rw [Function.update_of_ne hk]
    · unfold Cluster.callKey
      rw [hcalls]
      by_cases hk : k = call
      · subst hk
        rw [Function.update_self, hx]
        exact hkey
      · rw [Function.update_of_ne hk]
    · unfold Cluster.issuedBy
      rw [hcalls]
      by_cases hk : k = call
      · subst hk
        rw [Function.update_self, hx]
        exact hissued
      · rw [Function.update_of_ne hk]
  cases stepCases_of_step h with
  | @act b _ _ hcluster => exact .inl ⟨b, rfl, hcluster⟩
  | @elected _ _ sql liveNodes shard hcall =>
    -- the call has chosen its replicas and sends nothing yet
    have hchosen : (Call.chooseReplicas shard sql liveNodes).ticket? = none ∧
        (Call.chooseReplicas shard sql liveNodes).key? = none ∧
        (Call.chooseReplicas shard sql liveNodes).issued? = none := by
      unfold Call.chooseReplicas
      dsimp only
      split
      · exact ⟨rfl, rfl, rfl⟩
      · exact ⟨rfl, rfl, rfl⟩
    exact .inr (hgoesOn hcall rfl rfl rfl rfl rfl hchosen.1 hchosen.2.1 hchosen.2.2 rfl)
  | @committed _ d hcall _ =>
    exact .inr (hgoesOn (y := .replied d true) hcall rfl rfl rfl rfl rfl rfl rfl rfl rfl)
  | _ => exact .inr ⟨rfl, rfl, rfl, rfl, fun _ => rfl, rfl, rfl, rfl⟩

/-- What every step of the cluster keeps, and what does not speak of the shard records, holds in
every run in which the methods on ZooKeeper interleave. -/
theorem Reachable.cluster_invariant {I : Cluster → Prop} (h : c.Reachable)
    (hnew : ∀ nodeIds shardCount replicationFactor,
      I (Cluster.new nodeIds shardCount replicationFactor))
    (hstep : ∀ c a c', I c → Cluster.step c a = some c' → I c')
    (hstore : ∀ c c', I c → Cluster.OnStore c c' → I c') : I c.cluster := by
  obtain ⟨nodeIds, shardCount, replicationFactor, actions, hrun⟩ := h
  refine hrun.invariant (I := fun c => I c.cluster) (fun c a c' hc hcstep => ?_)
    (hnew nodeIds shardCount replicationFactor)
  obtain ⟨b, -, hb⟩ | hsame := act_or_onStore hcstep
  · exact hstep c.cluster b c'.cluster hc hb
  · exact hstore c.cluster c'.cluster hc hsame

/-- The logs have the writes of the calls and nothing else, however the operations on ZooKeeper
interleave. -/
theorem Reachable.sources (h : c.Reachable) : c.cluster.Sources :=
  h.cluster_invariant Cluster.Sources.new (fun _ _ _ hc hstep => hc.step hstep)
    fun _ _ hc hsame => hc.onStore hsame

/-- The invariants of the cluster and of ZooKeeper. -/
structure Inv (c : ZkCluster) : Prop where
  synced : c.Synced
  tickets : c.cluster.TicketInv
  commits : c.cluster.CommitInv

theorem Inv.step (h : c.Inv) (hstep : c.step a = some c') : c'.Inv where
  synced := h.synced.step hstep
  commits := commitInv_step h.commits hstep
  tickets := by
    have hsynced := h.synced.step hstep
    obtain ⟨b, -, hb⟩ | hsame := act_or_onStore hstep
    · exact h.tickets.step hb
    · exact h.tickets.onStore hsame (hsynced.keyed.distinct_records hsynced.records)

theorem Inv.new (nodeIds : List String) (shardCount replicationFactor : Nat) :
    (new nodeIds shardCount replicationFactor).Inv where
  synced := Synced.new nodeIds shardCount replicationFactor
  tickets := Cluster.TicketInv.new nodeIds shardCount replicationFactor
  commits := Cluster.CommitInv.new nodeIds shardCount replicationFactor

theorem Reachable.inv (h : c.Reachable) : c.Inv := by
  obtain ⟨nodeIds, shardCount, replicationFactor, actions, hrun⟩ := h
  exact hrun.invariant (fun c a c' hc hstep => hc.step hstep)
    (Inv.new nodeIds shardCount replicationFactor)

/-- A term stays behind, unless an operation puts an old one back. -/
theorem stale_step (h : c.Inv) {s : Int} {t : Nat} (hstale : c.cluster.Stale s t)
    (hkept : c.TermsKept a) (hstep : c.step a = some c') : c'.cluster.Stale s t := by
  obtain ⟨hs, m, hm, hterm⟩ := hstale
  refine ⟨hs, ?_⟩
  unfold ZkMetadataStore.TermAtLeast
  rw [(h.synced.step hstep).shard s]
  rw [h.synced.shard s] at hm
  obtain ⟨n, hn, rfl⟩ := Option.map_eq_some_iff.mp hm
  have hsame : ∀ {d : ZkCluster}, d.pool.shared = c.pool.shared →
      ∃ m, (d.pool.shared.shards s).map (·.data) = some m ∧ t + 1 ≤ m.term := by
    intro d hd
    rw [hd, hn]
    exact ⟨n.data, rfl, hterm⟩
  cases stepCases_of_step hstep with
  | act _ _ => exact hsame rfl
  | elect => exact hsame rfl
  | elected _ => exact hsame rfl
  | commit _ _ _ _ => exact hsame rfl
  | committed _ _ => exact hsame rfl
  | rebalance => exact hsame rfl
  | @op k =>
    obtain heq | ⟨g, o, next, hk, heq⟩ := op_cases c.pool k
    · exact hsame (congrArg Pool.shared heq)
    have hshared : (c.runOp k).pool.shared = (c.pool.shared.sem o).2 := congrArg Pool.shared heq
    rw [hshared]
    obtain hold | ⟨d, rfl, hnew⟩ := ZkPool.shards_sem_cases hn o
    · rw [hold]
      exact ⟨n.data, rfl, hterm⟩
    · -- the record of the shard is replaced
      rw [hnew]
      have hle : n.data.term ≤ d.term := hkept g _ next hk n hn rfl
      exact ⟨d, rfl, hterm.trans hle⟩

/-- A write that is stale and that no node has logged. -/
structure Behind (c : ZkCluster) (call : Nat) (t : Ticket) : Prop where
  inv : c.Inv
  sent : c.cluster.ticket call = some t
  stale : c.cluster.Stale t.shardId t.raftTerm
  unlogged : ∀ i, ¬ c.cluster.Appended i t.requestId

/-- It remains so in a step that delivers no stale replay and puts no old term back. -/
theorem Behind.step {call : Nat} {t : Ticket} (h : c.Behind call t) (hfenced : c.Fenced a)
    (hkept : c.TermsKept a) (hstep : c.step a = some c') : c'.Behind call t where
  inv := h.inv.step hstep
  stale := stale_step h.inv h.stale hkept hstep
  sent := by
    obtain ⟨b, -, hb⟩ | hsame := act_or_onStore hstep
    · exact Cluster.ticket_mono hb h.sent
    · exact (hsame.ticket call).trans h.sent
  unlogged := by
    obtain ⟨b, rfl, hb⟩ | hsame := act_or_onStore hstep
    · exact Cluster.unlogged_of_fenced h.inv.tickets h.sent h.stale h.unlogged hfenced hb
    · intro i hi
      refine h.unlogged i ?_
      unfold Cluster.Appended at hi
      rwa [hsame.node] at hi

/-- Term fencing. A node that executes a stale request leaves its log alone exactly if the
request is not a replay, or is known. And a write that is stale before any node has logged it
is reported successful at the end of no run that delivers no stale replay to a node that does
not know it and that puts no old term back. -/
theorem stale_write_fenced {c : ZkCluster} (hc : c.Reachable) :
    (∀ place fault output c' env, c.step (.act (.deliver place fault output)) = some c' →
      c.cluster.requests[place]? = some env →
      c.cluster.Stale env.request.shardId env.request.raftTerm →
      ((∀ i, (c'.cluster.node i).walLog.history = (c.cluster.node i).walLog.history) ↔
        c.Fenced (.act (.deliver place fault output)))) ∧
    ∀ call t, c.cluster.ticket call = some t → c.cluster.Stale t.shardId t.raftTerm →
      (∀ i, ¬ c.cluster.Appended i t.requestId) → ∀ actions c',
      Steps (fun c a c' => (c.Fenced a ∧ c.TermsKept a) ∧ c.step a = some c') c actions c' →
      ∀ d, c'.cluster.calls call ≠ some (.replied d true) := by
  constructor
  · intro place fault output c' env hstep henv hstale
    cases stepCases_of_step hstep with
    | act _ hcluster => exact Cluster.deliver_stale_iff hcluster henv hstale
  · intro call t ht hstale hunlogged actions c' hrun
    have hbegin : c.Behind call t := ⟨hc.inv, ht, hstale, hunlogged⟩
    have hend : c'.Behind call t :=
      hrun.invariant (I := fun c => c.Behind call t)
        (fun _ _ _ h hstep => h.step hstep.1.1 hstep.1.2 hstep.2) hbegin
    exact Cluster.not_replied_of_unlogged hend.inv.commits hend.sent hend.unlogged

/-! ## Runs -/

/-- A test that a run passes if it delivers nothing. -/
def deliversNothing : ZkCluster → ZkAction → Bool
  | _, .act (.deliver _ _ _) => false
  | _, _ => true

theorem unlogged_step (h : c.Inv) (hempty : ∀ i, (c.cluster.node i).walLog.history = [])
    (ha : deliversNothing c a = true) (hstep : c.step a = some c') :
    ∀ i, (c'.cluster.node i).walLog.history = [] := by
  obtain ⟨b, rfl, hb⟩ | hsame := act_or_onStore hstep
  · refine Cluster.unlogged_step h.tickets hempty ?_ hb
    rintro place fault output rfl
    cases ha
  · intro i
    rw [hsame.node]
    exact hempty i

/-- `electPrimary` of a call runs to its end, in so many operations. -/
def electNow (call k operations : Nat) : List ZkAction :=
  .elect call :: List.replicate operations (.op k) ++ [.elected call]

open DisMiniSql.Distributed.Action (startUp) in
/-- Three nodes start, a rebalance reads the records of the shards, and a write is ready to be sent
in term 1. Then the record of its primary expires and another write elects a new one, in term 2. -/
def staleWrite : List ZkAction :=
  (startUp 0 "n1" 4 ++ startUp 1 "n2" 10 ++ startUp 2 "n3" 16).map .act ++
    [.rebalance 3, .op 0, .op 0] ++
    .act (.write 0 0 "insert into t values(1)") :: electNow 0 1 1 ++
    [.act (.allocate 0 "a"), .act (.expire "n1"), .act (.write 1 0 "insert into t values(2)")] ++
    electNow 1 2 5

/-- The write of `staleWrite` is stale, and no node has logged it. -/
theorem staleWrite_behind {c : ZkCluster}
    (h : runWhere step deliversNothing (new ["n1", "n2", "n3"] 1 3) staleWrite = some c)
    {t : Ticket} (hstale : 0 ≤ t.shardId ∧ t.raftTerm < (c.cluster.shardTerm t.shardId).getD 0) :
    c.Reachable ∧ c.cluster.Stale t.shardId t.raftTerm ∧
      ∀ i, ¬ c.cluster.Appended i t.requestId := by
  have hsteps := Steps.of_runWhere (I := fun _ => True)
    (P := fun c a => deliversNothing c a = true) (fun _ _ _ ha => ha)
    (fun _ _ _ _ _ _ => trivial) trivial h
  have hempty := hsteps.invariant
    (I := fun c => c.Inv ∧ ∀ i, (c.cluster.node i).walLog.history = [])
    (fun _ _ _ h hstep => ⟨h.1.step hstep.2, unlogged_step h.1 h.2 hstep.1 hstep.2⟩)
    ⟨Inv.new ["n1", "n2", "n3"] 1 3, fun _ => rfl⟩
  refine ⟨⟨["n1", "n2", "n3"], 1, 3, staleWrite, ?_⟩, ⟨hstale.1, ?_⟩, ?_⟩
  · exact hsteps.mono (fun _ _ _ hstep => hstep.2)
  · cases hm : c.cluster.zk.shard t.shardId with
    | none =>
      rw [Cluster.shardTerm, hm] at hstale
      exact absurd hstale.2 (Nat.not_lt_zero _)
    | some m =>
      rw [Cluster.shardTerm, hm] at hstale
      exact ⟨m, hm, hstale.2⟩
  · rintro i ⟨e, he, _⟩
    rw [hempty.2 i] at he
    cases he

/-- After `staleWrite`, the write is behind the term of its shard, and a test holds at the end
of the run `rest` from there. -/
def staleThen (rest : List ZkAction) (test : ZkCluster → ZkAction → Bool)
    (P : ZkCluster → Bool) : Bool :=
  (runWhere step deliversNothing (new ["n1", "n2", "n3"] 1 3) staleWrite).any (fun c =>
    (c.cluster.ticket 0).any (fun t => decide (0 ≤ t.shardId ∧
      t.raftTerm < (c.cluster.shardTerm t.shardId).getD 0)) && (runWhere step test c rest).any P)

/-- The shape of the examples: a write gets its ticket, the term moves on, the rest of the run
follows. -/
theorem exists_of_staleThen {rest : List ZkAction} {test : ZkCluster → ZkAction → Bool}
    {P : ZkCluster → Bool} (h : staleThen rest test P = true) :
    ∃ (c : ZkCluster) (t : Ticket) (c' : ZkCluster), c.Reachable ∧ c.cluster.ticket 0 = some t ∧
      c.cluster.Stale t.shardId t.raftTerm ∧ (∀ i, ¬ c.cluster.Appended i t.requestId) ∧
      runWhere step test c rest = some c' ∧ P c' = true := by
  obtain ⟨c, hc, h⟩ := (Option.any_eq_true _ _).mp h
  obtain ⟨ht, hrest⟩ := Bool.and_eq_true_iff.mp h
  obtain ⟨t, ht, hstale⟩ := (Option.any_eq_true _ _).mp ht
  obtain ⟨c', hc', hP⟩ := (Option.any_eq_true _ _).mp hrest
  obtain ⟨hreach, hstale, hunlogged⟩ := staleWrite_behind hc (of_decide_eq_true hstale)
  exact ⟨c, t, c', hreach, ht, hstale, hunlogged, hc', hP⟩

/-- A test for `Fenced`. -/
def fencedOn (c : ZkCluster) : ZkAction → Bool
  | .act b => Cluster.fencedOn c.cluster b
  | _ => true

theorem fenced_of_fencedOn (h : fencedOn c a = true) : c.Fenced a := by
  cases a with
  | act b => exact Cluster.fenced_of_fencedOn h
  | _ => trivial

instance (c : ZkCluster) : (a : ZkAction) → Decidable (c.TermsKept a)
  | .op k => inferInstanceAs (Decidable (c.pool.Meets KeepsTerm (.op k : PoolAction StoreCall)))
  | .act _ => isTrue trivial
  | .elect _ => isTrue trivial
  | .elected _ => isTrue trivial
  | .commit _ => isTrue trivial
  | .committed _ => isTrue trivial
  | .rebalance _ => isTrue trivial

/-- A test for both conditions. -/
def keptOn (c : ZkCluster) (a : ZkAction) : Bool := fencedOn c a && decide (c.TermsKept a)

theorem kept_of_keptOn (h : keptOn c a = true) : c.Fenced a ∧ c.TermsKept a := by
  obtain ⟨hfenced, hkept⟩ := Bool.and_eq_true_iff.mp h
  exact ⟨fenced_of_fencedOn hfenced, of_decide_eq_true hkept⟩

open DisMiniSql.Distributed.Action (sendAndReceive sendAndLose) in
/-- The stale write reaches its primary, which rejects it, and the other requests are lost. Then a
write of the new term is committed, its `updateCommitIndex` one operation at a time. -/
theorem stale_write_fenced_rejected :
    ∃ (c c' : ZkCluster) (t : Ticket) (actions : List ZkAction), c.Reachable ∧
      c.cluster.ticket 0 = some t ∧ c.cluster.Stale t.shardId t.raftTerm ∧
      (∀ i, ¬ c.cluster.Appended i t.requestId) ∧
      Steps (fun c a c' => (c.Fenced a ∧ c.TermsKept a) ∧ c.step a = some c') c actions c' ∧
      (c'.cluster.calls 0).isSome ∧ ∀ d, c'.cluster.calls 0 ≠ some (.replied d true) := by
  have hrun : staleThen ((sendAndReceive 0 ++ sendAndLose 0 ++ sendAndLose 0 ++
      [Action.finish 0, .allocate 1 "b"] ++ sendAndReceive 1 ++ sendAndReceive 1).map .act ++
      [.commit 1, .op 3, .op 3, .op 3, .committed 1])
      keptOn (fun c => (c.cluster.calls 0).isSome) = true := by
    decide +kernel
  obtain ⟨c, t, c', hc, ht, hstale, hunlogged, hrest, hsome⟩ := exists_of_staleThen hrun
  have hsteps := Steps.of_runWhere (I := fun _ => True)
    (fun _ _ _ ha => kept_of_keptOn ha) (fun _ _ _ _ _ _ => trivial) trivial hrest
  exact ⟨c, c', t, _, hc, ht, hstale, hunlogged, hsteps, hsome,
    (stale_write_fenced hc).2 0 t ht hstale hunlogged _ c' hsteps⟩

/-- After `staleWrite`, `n2` has appended the write in the end, and its success is reported. -/
def successAfter (rest : List ZkAction) (test : ZkCluster → ZkAction → Bool) : Bool :=
  staleThen rest test (fun c => decide (c.cluster.Appended "n2" "a") &&
    ((c.cluster.calls 0).bind Call.succeeded).any (fun _ =>
      (c.cluster.ticket 0).any (fun t => t.requestId == "a")))

/-- From a run that ends in a reported write, the state in which it was stale. -/
theorem exists_of_successAfter {rest : List ZkAction} {test : ZkCluster → ZkAction → Bool}
    {P : ZkCluster → ZkAction → Prop} (htest : ∀ c a, test c a = true → P c a)
    (h : successAfter rest test = true) :
    ∃ (c c' : ZkCluster) (t : Ticket) (d : Dispatch), c.Reachable ∧
      c.cluster.ticket 0 = some t ∧ c.cluster.Stale t.shardId t.raftTerm ∧
      (∀ i, ¬ c.cluster.Appended i t.requestId) ∧
      Steps (fun c a c' => P c a ∧ c.step a = some c') c rest c' ∧
      c'.cluster.Appended "n2" t.requestId ∧ c'.cluster.calls 0 = some (.replied d true) := by
  obtain ⟨c, t, c', hc, ht, hstale, hunlogged, hrest, hP⟩ := exists_of_staleThen h
  have hsteps := Steps.of_runWhere (I := fun _ => True) (P := P)
    (fun c a _ ha => htest c a ha) (fun _ _ _ _ _ _ => trivial) trivial hrest
  obtain ⟨happended, hreplied⟩ := Bool.and_eq_true_iff.mp hP
  -- the ticket is still the one of the stale write
  have hkept : c'.cluster.ticket 0 = some t := by
    refine hsteps.invariant (I := fun c => c.cluster.ticket 0 = some t) ?_ ht
    intro c a c' h hstep
    obtain ⟨b, -, hb⟩ | hsame := act_or_onStore hstep.2
    · exact Cluster.ticket_mono hb h
    · exact (hsame.ticket 0).trans h
  obtain ⟨d, hd, hid⟩ := (Option.any_eq_true _ _).mp hreplied
  obtain ⟨x, hx, hd⟩ := Option.bind_eq_some_iff.mp hd
  have hcall : c'.cluster.calls 0 = some (.replied d true) := Call.eq_replied_of_succeeded hd ▸ hx
  rw [hkept] at hid
  have hid : t.requestId = "a" := by simpa using hid
  exact ⟨c, c', t, d, hc, ht, hstale, hunlogged, hsteps,
    hid ▸ of_decide_eq_true happended, hcall⟩

open DisMiniSql.Distributed.Action (sendAndReceive) in
/-- The write is sent to its three nodes, all answers come back, and `updateCommitIndex` runs. -/
def sendToAll : List ZkAction :=
  (sendAndReceive 0 ++ sendAndReceive 0 ++ sendAndReceive 0).map .act ++
    [.commit 0, .op 3, .op 3, .op 3, .committed 0]

/-- The write is stale before any node has seen it. Its primary rejects it, the two followers
append it, and it is reported successful. -/
theorem follower_logs_stale_write :
    ∃ (c c' : ZkCluster) (t : Ticket) (actions : List ZkAction) (d : Dispatch), c.Reachable ∧
      c.cluster.ticket 0 = some t ∧ c.cluster.Stale t.shardId t.raftTerm ∧
      (∀ i, ¬ c.cluster.Appended i t.requestId) ∧
      Steps (fun c a c' => c.TermsKept a ∧ c.step a = some c') c actions c' ∧
      c'.cluster.Appended "n2" t.requestId ∧ c'.cluster.calls 0 = some (.replied d true) := by
  have hrun : successAfter sendToAll (fun c a => decide (c.TermsKept a)) = true := by
    decide +kernel
  obtain ⟨c, c', t, d, h⟩ := exists_of_successAfter (P := fun c a => c.TermsKept a)
    (fun _ _ ha => of_decide_eq_true ha) hrun
  exact ⟨c, c', t, sendToAll, d, h⟩

/-- The other way to it: the rebalance that has read the records in term 1 writes them back, so the
write is no longer stale when it arrives, and all three nodes append it. -/
theorem old_term_put_back :
    ∃ (c c' : ZkCluster) (t : Ticket) (actions : List ZkAction) (d : Dispatch), c.Reachable ∧
      c.cluster.ticket 0 = some t ∧ c.cluster.Stale t.shardId t.raftTerm ∧
      (∀ i, ¬ c.cluster.Appended i t.requestId) ∧
      Steps (fun c a c' => c.Fenced a ∧ c.step a = some c') c actions c' ∧
      c'.cluster.Appended "n2" t.requestId ∧ c'.cluster.calls 0 = some (.replied d true) := by
  have hrun : successAfter ([.op 0, .op 0] ++ sendToAll) fencedOn = true := by
    decide +kernel
  obtain ⟨c, c', t, d, h⟩ := exists_of_successAfter (P := fun c a => c.Fenced a)
    (fun _ _ ha => fenced_of_fencedOn ha) hrun
  exact ⟨c, c', t, [.op 0, .op 0] ++ sendToAll, d, h⟩

end ZkCluster

end DisMiniSql.Distributed
