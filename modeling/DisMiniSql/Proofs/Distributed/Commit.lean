import DisMiniSql.Proofs.Distributed.Reachable
import DisMiniSql.Proofs.Distributed.ZkMetadataStore

/-!
# `DisMiniSql.Proofs.Distributed.Commit`: a successful write is on a quorum

An acknowledgement can come from the primary path of `execute`, from the replay path or from
its shortcut for a known request id; in each case the node has appended an entry with that id
(`exists_history_of_execute_ok`). A call sends at most once to a node, and only to members of
the replica list. So the acknowledgements it counts are those of distinct members.

`CommitInv` is the invariant that carries this through any interleaving of calls, nodes and
losses. `routedWrite_commit` is the result.
-/

set_option autoImplicit false

namespace DisMiniSql.Distributed

open DisMiniSql.Lib (Steps)

namespace Call

/-- The request id of a call, once it has one. -/
def requestId? : Call → Option String
  | .sending d => some d.requestId
  | .waiting d _ => some d.requestId
  | .replied d _ => some d.requestId
  | _ => none

/-- The nodes over which the quorum is counted: the replicas of the record that `electPrimary` has
returned, or the nodes that were live at the start of a broadcast. -/
def members? : Call → Option (List String)
  | .allocating shard _ _ => some shard.replicas
  | .sending d => some d.members
  | .waiting d _ => some d.members
  | .replied d _ => some d.members
  | _ => none

end Call

namespace Cluster

variable {c c' : Cluster} {a : Action} {d : Dispatch} {pending : List Target}

/-- A node has appended an entry with this request id. -/
def Appended (c : Cluster) (nodeId requestId : String) : Prop :=
  ∃ e ∈ (c.node nodeId).walLog.history, e.requestId = some requestId

instance (c : Cluster) (nodeId requestId : String) : Decidable (c.Appended nodeId requestId) :=
  inferInstanceAs (Decidable (∃ e ∈ (c.node nodeId).walLog.history, e.requestId = some requestId))

/-- The nodes of `c'` have all entries of the nodes of `c`. -/
def Extends (c c' : Cluster) : Prop := ∀ i, (c.node i).Extends (c'.node i)

/-- A step adds to the logs of the nodes and takes nothing out. -/
theorem step_extends (h : c.step a = some c') : c.Extends c' := fun i => (step_node h i).keeps

/-- So what a node has appended stays appended. -/
theorem Appended.mono {nodeId requestId : String} (h : c.Appended nodeId requestId)
    (hext : c.Extends c') : c'.Appended nodeId requestId := by
  obtain ⟨e, he, hid⟩ := h
  exact ⟨e, (hext nodeId).history.subset he, hid⟩

/-- What holds of a write that is being sent; `pending` is the node it waits for. -/
structure DispatchOk (c : Cluster) (d : Dispatch) (pending : List Target) : Prop where
  write : SqlUtils.isReadOnly (SqlUtils.normalize d.sql) = false
  /-- The nodes that were sent to, are being sent to and will be sent to are distinct. -/
  distinct : 0 ≤ d.shardId →
    (d.responses.map (·.nodeId) ++ (pending ++ d.todo).map (·.nodeId)).Nodup
  members : 0 ≤ d.shardId →
    ∀ i ∈ d.responses.map (·.nodeId) ++ (pending ++ d.todo).map (·.nodeId), i ∈ d.members
  acks : ∀ r ∈ d.responses, r.ok = true → c.Appended r.nodeId d.requestId

/-- What holds of a call. -/
def CallOk (c : Cluster) : Call → Prop
  | .electing _ sql _ => SqlUtils.isReadOnly (SqlUtils.normalize sql) = false
  | .allocating shard sql replicas =>
    SqlUtils.isReadOnly (SqlUtils.normalize sql) = false ∧
      ∀ m ∈ replicas, m.nodeId ∈ shard.replicas
  | .sending d => c.DispatchOk d []
  | .waiting d target => c.DispatchOk d [target]
  | .replied d ok => c.DispatchOk d [] ∧ (ok = true → d.hasQuorum = true)
  | .rejected _ => True

/-- The request id of a call of the cluster. -/
def callId (c : Cluster) (call : Nat) : Option String := (c.calls call).bind Call.requestId?

/-- The invariant: what is on the network and in the calls. -/
structure CommitInv (c : Cluster) : Prop where
  wf : c.Wf
  calls : ∀ k x, c.calls k = some x → c.CallOk x
  requests : ∀ e ∈ c.requests, (e.request.replay = true ∨
    SqlUtils.isReadOnly (SqlUtils.normalize e.request.sql) = false) ∧
    ∃ q, c.callId e.call = some q ∧ e.request.requestId = some q
  replies : ∀ r ∈ c.replies, r.response.ok = true → r.response.nodeId = r.target.nodeId ∧
    ∃ q, c.callId r.call = some q ∧ c.Appended r.target.nodeId q

/-- And a good dispatch stays good. -/
theorem DispatchOk.mono (h : c.DispatchOk d pending) (hext : c.Extends c') :
    c'.DispatchOk d pending :=
  ⟨h.write, h.distinct, h.members, fun r hr hok => (h.acks r hr hok).mono hext⟩

/-- And a good call. -/
theorem CallOk.mono {x : Call} (h : c.CallOk x) (hext : c.Extends c') : c'.CallOk x := by
  cases x with
  | electing shardId sql liveNodes => exact h
  | allocating shard sql replicas => exact h
  | sending d => exact DispatchOk.mono h hext
  | waiting d target => exact DispatchOk.mono h hext
  | replied d ok => exact ⟨h.1.mono hext, h.2⟩
  | rejected error => trivial

/-- Steps that leave the calls and the network alone. -/
theorem CommitInv.frame (h : c.CommitInv) (hwf : c'.Wf) (hext : c.Extends c')
    (hcalls : c'.calls = c.calls) (hreq : ∀ e ∈ c'.requests, e ∈ c.requests)
    (hrep : c'.replies = c.replies) : c'.CommitInv where
  wf := hwf
  calls := fun k x hx => (h.calls k x (hcalls ▸ hx)).mono hext
  requests := fun e he => by
    simpa only [callId, hcalls] using h.requests e (hreq e he)
  replies := fun r hr hok => by
    obtain ⟨hid, q, hq, happ⟩ := h.replies r (hrep ▸ hr) hok
    exact ⟨hid, q, by rw [callId, hcalls]; exact hq, happ.mono hext⟩

/-- Steps that change one call and may send its request. -/
theorem CommitInv.setCall (h : c.CommitInv) {k : Nat} {x : Call} (hwf : c'.Wf)
    (hext : c.Extends c') (hcalls : c'.calls = Function.update c.calls k (some x))
    (hx : c'.CallOk x) (hid : ∀ q, c.callId k = some q → x.requestId? = some q)
    (hreq : ∀ e ∈ c'.requests, e ∈ c.requests ∨ ((e.request.replay = true ∨
      SqlUtils.isReadOnly (SqlUtils.normalize e.request.sql) = false) ∧
      e.call = k ∧ ∃ q, x.requestId? = some q ∧ e.request.requestId = some q))
    (hrep : c'.replies = c.replies) : c'.CommitInv := by
  have hkeep : ∀ {j : Nat} {q : String}, c.callId j = some q → c'.callId j = some q := by
    intro j q hq
    by_cases hj : j = k
    · subst hj
      rw [callId, hcalls, Function.update_self]
      exact hid q hq
    · rw [callId, hcalls, Function.update_of_ne hj]
      exact hq
  refine ⟨hwf, fun j y hy => ?_, fun e he => ?_, fun r hr hok => ?_⟩
  · rw [hcalls] at hy
    by_cases hj : j = k
    · subst hj
      rw [Function.update_self] at hy
      cases hy
      exact hx
    · rw [Function.update_of_ne hj] at hy
      exact (h.calls j y hy).mono hext
  · obtain he | ⟨hwrite, rfl, q, hq, hreqId⟩ := hreq e he
    · obtain ⟨hwrite, q, hq, hreqId⟩ := h.requests e he
      exact ⟨hwrite, q, hkeep hq, hreqId⟩
    · exact ⟨hwrite, q, by rw [callId, hcalls, Function.update_self]; exact hq, hreqId⟩
  · obtain ⟨hnode, q, hq, happ⟩ := h.replies r (hrep ▸ hr) hok
    exact ⟨hnode, q, hkeep hq, happ.mono hext⟩

variable {liveNodes : List NodeInfo}

/-- `chooseForWrite` chooses among the replicas. -/
theorem mem_replicas_of_mem_chooseForWrite {replicaIds : List String} {m : NodeInfo}
    (hm : m ∈ chooseForWrite replicaIds liveNodes) : m.nodeId ∈ replicaIds := by
  have hcand := (List.mem_insertionSort _).mp (List.mem_filter.mp hm).1
  obtain ⟨r, hr, hfind⟩ := List.mem_filterMap.mp hcand
  have hid : m.nodeId = r := by simpa using List.find?_some hfind
  rwa [hid]

variable {replicas : List NodeInfo}

/-- A target of the write is a live replica of the shard. -/
theorem mem_raftTargets {primary : Option String} {t : Target}
    (ht : t ∈ raftTargets primary replicas) : ∃ m ∈ replicas, m.nodeId = t.nodeId := by
  unfold raftTargets at ht
  obtain ht | ht := List.mem_append.mp ht
  · split at ht
    · rename_i hany
      obtain ⟨m, hm, hprim⟩ := List.any_eq_true.mp hany
      obtain ⟨p, hp, rfl⟩ := List.mem_map.mp ht
      rw [Option.mem_toList] at hp
      have : some m.nodeId = some p := by simpa [hp] using hprim
      exact ⟨m, hm, Option.some.inj this⟩
    · simp at ht
  · obtain ⟨m, hm, rfl⟩ := List.mem_map.mp ht
    exact ⟨m, (List.mem_filter.mp hm).1, rfl⟩

/-- `sendRaftStyle` sends to each replica once. -/
theorem nodup_raftTargets {primary : Option String} (h : (replicas.map (·.nodeId)).Nodup) :
    ((raftTargets primary replicas).map (·.nodeId)).Nodup := by
  have hothers : ((replicas.filter (fun m => some m.nodeId != primary)).map
      (·.nodeId)).Nodup := h.sublist (List.filter_sublist.map _)
  have hmap : ((replicas.filter (fun m => some m.nodeId != primary)).map
      (fun m => ({ nodeId := m.nodeId, replay := true } : Target))).map (·.nodeId) =
      (replicas.filter (fun m => some m.nodeId != primary)).map (·.nodeId) := by
    rw [List.map_map]
    rfl
  unfold raftTargets
  rw [List.map_append, hmap]
  split
  · cases primary with
    | none => simpa using hothers
    | some p =>
      simp only [Option.toList_some, List.map_cons, List.map_nil, List.singleton_append,
        List.nodup_cons]
      refine ⟨?_, hothers⟩
      intro hp
      obtain ⟨m, hm, hid⟩ := List.mem_map.mp hp
      have := (List.mem_filter.mp hm).2
      rw [hid] at this
      simp at this
  · simpa using hothers

/-- A `create` or `drop` is not read-only. -/
theorem not_isReadOnly_of_isBroadcastDdl {sql : String} (h : SqlUtils.isBroadcastDdl sql = true) :
    SqlUtils.isReadOnly sql = false := by
  unfold SqlUtils.isBroadcastDdl at h
  unfold SqlUtils.isReadOnly
  dsimp only at h ⊢
  generalize SqlUtils.firstKeyword sql = op at h ⊢
  rw [Bool.or_eq_true, beq_iff_eq, beq_iff_eq] at h
  obtain rfl | rfl := h
  · decide
  · decide

/-- The answer of the pending node is recorded. -/
theorem DispatchOk.record {t : Target} {r : ExecuteResponse} (h : c.DispatchOk d [t])
    (hnode : r.nodeId = t.nodeId) (hack : r.ok = true → c.Appended r.nodeId d.requestId) :
    c.DispatchOk (d.record r) [] where
  write := h.write
  distinct := fun hs => by
    have := h.distinct hs
    simpa [Dispatch.record, hnode] using this
  members := fun hs => by
    have := h.members hs
    simpa [Dispatch.record, hnode, or_assoc] using this
  acks := by
    intro x hx hok
    obtain hx | hx := List.mem_append.mp hx
    · exact h.acks x hx hok
    · rw [List.mem_singleton.mp hx] at hok ⊢
      exact hack hok

/-- A routed write starts with no acknowledgement and its replicas as targets. -/
theorem dispatchOk_dispatch {shard : ShardMetadata} {sql requestId : String} {shardLogIndex : Nat}
    (c : Cluster) (hread : SqlUtils.isReadOnly (SqlUtils.normalize sql) = false)
    (hrep : ∀ m ∈ replicas, m.nodeId ∈ shard.replicas) :
    c.CallOk (Call.dispatch shard sql replicas shardLogIndex requestId) := by
  unfold Call.dispatch
  split
  · rename_i hnodup
    refine ⟨hread, fun _ => ?_, fun _ => ?_, ?_⟩
    · simpa using nodup_raftTargets hnodup
    · intro i hi
      have hi : i ∈ (raftTargets shard.primary replicas).map (·.nodeId) := by simpa using hi
      obtain ⟨t, ht, rfl⟩ := List.mem_map.mp hi
      obtain ⟨m, hm, hid⟩ := mem_raftTargets ht
      exact hid ▸ hrep m hm
    · simp
  · trivial

/-- So does a broadcast. -/
theorem dispatchOk_broadcast {sql requestId : String} (c : Cluster)
    (hread : SqlUtils.isReadOnly (SqlUtils.normalize sql) = false) :
    c.CallOk (Call.broadcast sql liveNodes requestId) := by
  unfold Call.broadcast
  split
  · trivial
  · refine ⟨hread, ?_, ?_, by simp⟩
    · exact fun hs => absurd (show (0 : Int) ≤ -1 from hs) (by decide)
    · exact fun hs => absurd (show (0 : Int) ≤ -1 from hs) (by decide)

/-- The invariant at the delivery of a request. -/
theorem CommitInv.deliver (h : c.CommitInv) {place : Nat} {fault : Option ExecuteFault}
    {output : String} (hstep : c.step (.deliver place fault output) = some c') :
    c'.CommitInv := by
  have hwf := h.wf.step hstep
  have hext := step_extends hstep
  obtain ⟨e, he, _, rfl⟩ := deliver_eq hstep
  obtain ⟨hcalls, _⟩ := c.frame_executeOn e.target.nodeId e.request fault output
  obtain ⟨hwrite, q, hq, hreqId⟩ := h.requests e (List.mem_of_getElem? he)
  refine ⟨hwf, ?_, ?_, ?_⟩
  · intro k x hx
    exact (h.calls k x (by rwa [← hcalls])).mono hext
  · intro x hx
    simpa only [callId, hcalls] using h.requests x (List.mem_of_mem_eraseIdx hx)
  · intro r hr hok
    obtain rfl | hr := List.mem_cons.mp hr
    · have hnode := (c.node e.target.nodeId).nodeId_execute_response c.shardTerm e.request fault
        output
      refine ⟨hnode.trans (h.wf.ids _), q, by simpa only [callId, hcalls] using hq, ?_⟩
      obtain ⟨x, hx, hid⟩ := DataNode.exists_history_of_execute_ok (h.wf.nodes _) hwrite hok
      refine ⟨x, ?_, hid.trans hreqId⟩
      show x ∈ ((c.executeOn e.target.nodeId e.request fault output).1.node _).walLog.history
      rw [node_executeOn, Function.update_self]
      exact hx
    · obtain ⟨hid, p, hp, happ⟩ := h.replies r hr hok
      exact ⟨hid, p, by simpa only [callId, hcalls] using hp, happ.mono hext⟩

/-- A call has chosen its replicas, from any record of the shard. -/
theorem CommitInv.chosen (h : c.CommitInv) {call : Nat} {shardId : Int} {sql : String}
    {liveNodes : List NodeInfo} (hcall : c.calls call = some (.electing shardId sql liveNodes))
    (shard : ShardMetadata) (hwf : c'.Wf) (hext : c.Extends c')
    (hcalls : c'.calls =
      Function.update c.calls call (some (Call.chooseReplicas shard sql liveNodes)))
    (hreq : ∀ e ∈ c'.requests, e ∈ c.requests) (hrep : c'.replies = c.replies) :
    c'.CommitInv := by
  have hread : SqlUtils.isReadOnly (SqlUtils.normalize sql) = false := h.calls call _ hcall
  refine h.setCall hwf hext hcalls ?_ (fun q hq => ?_) (fun e he => Or.inl (hreq e he)) hrep
  · unfold Call.chooseReplicas
    dsimp only
    split
    · trivial
    · exact ⟨hread, fun m hm => mem_replicas_of_mem_chooseForWrite hm⟩
  · simp [callId, hcall, Call.requestId?] at hq

/-- A call has ended, with success only if there was a quorum. -/
theorem CommitInv.ended (h : c.CommitInv) {call : Nat}
    (hcall : c.calls call = some (.sending d)) {ok : Bool} (hok : ok = true → d.hasQuorum = true)
    (hwf : c'.Wf) (hext : c.Extends c')
    (hcalls : c'.calls = Function.update c.calls call (some (.replied d ok)))
    (hreq : ∀ e ∈ c'.requests, e ∈ c.requests) (hrep : c'.replies = c.replies) :
    c'.CommitInv := by
  have hd : c.DispatchOk d [] := h.calls call _ hcall
  refine h.setCall hwf hext hcalls ⟨hd.mono hext, hok⟩ (fun q hq => ?_)
    (fun e he => Or.inl (hreq e he)) hrep
  simpa [callId, hcall, Call.requestId?] using hq

/-- Every step keeps the invariant. -/
theorem CommitInv.step (h : c.CommitInv) (hstep : c.step a = some c') : c'.CommitInv := by
  have hwf := h.wf.step hstep
  have hext := step_extends hstep
  have hold : ∀ {l : List Envelope} {P : Envelope → Prop}, ∀ e ∈ l, e ∈ l ∨ P e :=
    fun e he => Or.inl he
  cases stepCases_of_step hstep with
  | @write call shardId sql hnone hread =>
    refine h.setCall hwf hext rfl ?_ (fun q hq => ?_) hold rfl
    · show SqlUtils.isReadOnly (SqlUtils.normalize (SqlUtils.normalize sql)) = false
      rw [SqlUtils.normalize_normalize]
      exact hread
    · simp [callId, hnone] at hq
  | elect hcall _ => exact h.chosen hcall _ hwf hext rfl (fun e he => he) rfl
  | @allocate call _ _ _ _ hcall _ =>
    obtain ⟨hread, hrep⟩ := h.calls call _ hcall
    refine h.setCall hwf hext rfl (dispatchOk_dispatch _ hread hrep) (fun q hq => ?_) hold rfl
    simp [callId, hcall, Call.requestId?] at hq
  | broadcastWrite hnone _ hddl =>
    refine h.setCall hwf hext rfl (dispatchOk_broadcast _ ?_) (fun q hq => ?_) hold rfl
    · rw [SqlUtils.normalize_normalize]
      exact not_isReadOnly_of_isBroadcastDdl hddl
    · simp [callId, hnone] at hq
  | @send call d target todo hcall htodo =>
    have hd : c.DispatchOk d [] := h.calls call _ hcall
    refine h.setCall hwf hext rfl ?_ (fun q hq => ?_) ?_ rfl
    · exact DispatchOk.mono ⟨hd.write, by simpa [htodo] using hd.distinct,
        by simpa [htodo] using hd.members, hd.acks⟩ hext
    · simpa [callId, hcall, Call.requestId?] using hq
    · intro e he
      obtain he | he := List.mem_append.mp he
      · exact Or.inl he
      · rw [List.mem_singleton.mp he]
        exact Or.inr ⟨Or.inr hd.write, rfl, d.requestId, rfl, rfl⟩
  | deliver _ _ => exact h.deliver hstep
  | lose => exact h.frame hwf hext rfl (fun e he => List.mem_of_mem_eraseIdx he) rfl
  | @receive d r hcall hr =>
    have hd : c.DispatchOk d [r.target] := h.calls _ _ hcall
    refine h.setCall hwf hext rfl ?_ (fun q hq => ?_) hold rfl
    · refine DispatchOk.mono ?_ hext
      -- an answer that is ok counts, and its node has appended
      by_cases hok : r.response.ok = true
      · obtain ⟨hnode, q, hq, happ⟩ := h.replies r hr hok
        have hq : d.requestId = q := by simpa [callId, hcall, Call.requestId?] using hq
        rw [if_pos hok]
        exact hd.record hnode (fun _ => by rw [hnode, hq]; exact happ)
      · rw [if_neg hok]
        refine hd.record rfl (fun hfail => ?_)
        cases hfail
    · simpa [callId, hcall, Call.requestId?, Dispatch.record] using hq
  | @giveUp call _ d target hcall =>
    have hd : c.DispatchOk d [target] := h.calls call _ hcall
    refine h.setCall hwf hext rfl ?_ (fun q hq => ?_) hold rfl
    · refine DispatchOk.mono (hd.record rfl (fun hfail => ?_)) hext
      cases hfail
    · simpa [callId, hcall, Call.requestId?, Dispatch.record] using hq
  | commit hcall _ hquorum _ =>
    exact h.ended hcall (fun _ => hquorum) hwf hext rfl (fun e he => he) rfl
  | finish hcall _ hquorum _ =>
    exact h.ended hcall (fun hok => hquorum.trans hok) hwf hext rfl (fun e he => he) rfl
  | @query nodeId sql output fault _ _ _ heq =>
    obtain ⟨hcalls, hreq, hrep, _⟩ := c.frame_executeOn nodeId (readRequest sql) fault output
    exact h.frame hwf hext (heq ▸ hcalls) (fun e he => hreq ▸ heq ▸ he) (heq ▸ hrep)
  | _ => exact h.frame hwf hext rfl (fun e he => he) rfl

/-- The new cluster. -/
theorem CommitInv.new (nodeIds : List String) (shardCount replicationFactor : Nat) :
    (new nodeIds shardCount replicationFactor).CommitInv where
  wf := Wf.new nodeIds shardCount replicationFactor
  calls := fun k x hx => nomatch hx
  requests := by simp [Cluster.new]
  replies := by simp [Cluster.new]

/-- The invariant holds in every reachable state. -/
theorem Reachable.commitInv (h : c.Reachable) : c.CommitInv :=
  h.invariant CommitInv.new fun _ _ _ hc hstep => hc.step hstep

/-- The quorum of the call is counted over these nodes, or the call was rejected. -/
def CountsOver (c : Cluster) (call : Nat) (members : List String) : Prop :=
  ∃ x, c.calls call = some x ∧ (x.members? = some members ∨ ∃ error, x = .rejected error)

/-- The nodes are chosen once. -/
theorem CountsOver.step {call : Nat} {members : List String} (h : c.CountsOver call members)
    (hstep : c.step a = some c') : c'.CountsOver call members := by
  obtain ⟨x, hx, hmembers⟩ := h
  by_cases ha : a.call = some call
  case neg => exact ⟨x, (step_calls hstep ha).trans hx, hmembers⟩
  have hset : ∀ {b : Cluster} {y : Call}, y.members? = some members ∨ (∃ e, y = .rejected e) →
      (b.setCall call y).CountsOver call members :=
    fun hy => ⟨_, Function.update_self .., hy⟩
  -- the call has its nodes, or it is over
  have hknown : ∀ {y : Call} {l : List String}, c.calls call = some y → y.members? = some l →
      l = members := by
    intro y l hy hl
    rw [hx] at hy
    cases hy
    obtain hmembers | ⟨_, rfl⟩ := hmembers
    · rw [hl] at hmembers
      exact Option.some.inj hmembers
    · cases hl
  have hnone : ∀ {y : Call}, c.calls call = some y → y.members? = none →
      ∃ e, y = .rejected e := by
    intro y hy hl
    rw [hx] at hy
    cases hy
    obtain hmembers | hrejected := hmembers
    · rw [hl] at hmembers
      cases hmembers
    · exact hrejected
  cases stepCases_of_step hstep with
  | write hfree _ =>
    cases ha
    rw [hx] at hfree
    cases hfree
  | elect hcall _ =>
    cases ha
    obtain ⟨_, hrejected⟩ := hnone hcall rfl
    cases hrejected
  | allocate hcall _ =>
    cases ha
    refine hset ?_
    unfold Call.dispatch
    split
    · exact Or.inl (congrArg some (hknown hcall rfl))
    · exact Or.inr ⟨_, rfl⟩
  | broadcastWrite hfree _ _ =>
    cases ha
    rw [hx] at hfree
    cases hfree
  | send hcall _ =>
    cases ha
    exact hset (Or.inl (congrArg some (hknown hcall rfl)))
  | receive hcall _ =>
    cases ha
    exact hset (Or.inl (congrArg some (hknown hcall rfl)))
  | giveUp hcall =>
    cases ha
    exact hset (Or.inl (congrArg some (hknown hcall rfl)))
  | commit hcall _ _ _ =>
    cases ha
    exact hset (Or.inl (congrArg some (hknown hcall rfl)))
  | finish hcall _ _ _ =>
    cases ha
    exact hset (Or.inl (congrArg some (hknown hcall rfl)))
  | _ => cases ha

/-- What is said of the nodes when the call has replied. -/
theorem CountsOver.members_eq {call : Nat} {members : List String} {actions : List Action}
    (h : c.CountsOver call members)
    (hrun : Steps (fun c a c' => c.step a = some c') c actions c') {ok : Bool}
    (hcall : c'.calls call = some (.replied d ok)) : d.members = members := by
  have hend : c'.CountsOver call members := hrun.invariant
    (I := fun c => c.CountsOver call members) (fun _ _ _ h hstep => h.step hstep) h
  obtain ⟨x, hx, hmembers⟩ := hend
  rw [hcall] at hx
  cases hx
  obtain hmembers | ⟨_, hrejected⟩ := hmembers
  · exact Option.some.inj hmembers
  · cases hrejected

/-- The stored commit index of a shard. -/
def commitIndex (c : Cluster) (shardId : Int) : Option Nat :=
  (c.zk.shard shardId).map (·.commitIndex)

/-- An election moves no commit index. -/
theorem commitIndex_electPrimary {z z' : ZkMetadataStore} {shardId : Int} {m : ShardMetadata}
    (h : z.electPrimary shardId liveNodes = some (z', m)) (s : Int) :
    (z'.shard s).map (·.commitIndex) = (z.shard s).map (·.commitIndex) := by
  obtain ⟨rfl, _⟩ | ⟨old, primary, hold, _, rfl, rfl⟩ := ZkMetadataStore.electPrimary_cases h
  · rfl
  · have hid := ZkMetadataStore.shardId_of_shard hold
    rw [ZkMetadataStore.shard_updateShard]
    split
    · rename_i hs
      rw [← show shardId = s from hid.symm.trans hs, hold]
      rfl
    · rfl

/-- A step of a call that moves a commit index is the end of a routed write that a quorum has
acknowledged. -/
theorem finish_of_commitIndex_ne {call : Nat} (ha : a.call = some call)
    (hstep : c.step a = some c') {s : Int} (hne : c'.commitIndex s ≠ c.commitIndex s) :
    ∃ d, a = .finish call ∧ c.calls call = some (.sending d) ∧
      quorumSize d.members.length ≤ d.successCount := by
  cases stepCases_of_step hstep with
  | elect _ helect => exact absurd (commitIndex_electPrimary helect s) hne
  | @allocate _ _ _ shard _ _ _ =>
    refine absurd ?_ hne
    show ((c.zk.nextShardLogIndex shard.shardId).1.shard s).map _ = _
    unfold ZkMetadataStore.nextShardLogIndex
    split
    · rfl
    · rfl
  | @commit k d hcall _ hquorum _ =>
    cases ha
    exact ⟨d, rfl, hcall, by simpa [Dispatch.hasQuorum] using hquorum⟩
  | write _ _ => exact absurd rfl hne
  | broadcastWrite _ _ _ => exact absurd rfl hne
  | send _ _ => exact absurd rfl hne
  | receive _ _ => exact absurd rfl hne
  | giveUp _ => exact absurd rfl hne
  | finish _ _ _ _ => exact absurd rfl hne
  | _ => cases ha

/-- Commit durability. If a routed write has reported success, then at least a majority of the
replica list it was sent under, all distinct, have appended an entry with its request id. This is
the list of the record that its `electPrimary` has returned. And no step of a write moves a commit
index, except its end after acknowledgements of a majority. -/
theorem routedWrite_commit {c : Cluster} (hc : c.Reachable) (call : Nat) :
    (∀ d, c.calls call = some (.replied d true) → 0 ≤ d.shardId →
      ∃ ids : List String, ids.Nodup ∧ (∀ i ∈ ids, i ∈ d.members) ∧
        d.members.length / 2 + 1 ≤ ids.length ∧ ∀ i ∈ ids, c.Appended i d.requestId) ∧
    (∀ shardId sql liveNodes zk shard c', c.calls call = some (.electing shardId sql liveNodes) →
      c.zk.electPrimary shardId liveNodes = some (zk, shard) → c.step (.elect call) = some c' →
      ∀ actions c'', Steps (fun c a c' => c.step a = some c') c' actions c'' →
        ∀ d ok, c''.calls call = some (.replied d ok) → d.members = shard.replicas) ∧
    ∀ a c', a.call = some call → c.step a = some c' →
      ∀ s, c'.commitIndex s ≠ c.commitIndex s →
        ∃ d, a = .finish call ∧ c.calls call = some (.sending d) ∧
          d.members.length / 2 + 1 ≤ d.successCount := by
  refine ⟨fun d hcall hs => ?_, ?_,
    fun a c' ha hstep s hne => finish_of_commitIndex_ne ha hstep hne⟩
  · obtain ⟨hd, hquorum⟩ := hc.commitInv.calls call _ hcall
    have hdistinct := (List.nodup_append.mp (hd.distinct hs)).1
    have hmembers : ∀ r ∈ d.responses, r.nodeId ∈ d.members := fun r hr =>
      hd.members hs _ (List.mem_append_left _ (List.mem_map_of_mem hr))
    -- the members whose acknowledgement was counted
    refine ⟨(d.responses.filter (·.ok)).map (·.nodeId),
      hdistinct.sublist (List.filter_sublist.map _), ?_, ?_, ?_⟩
    · intro i hi
      obtain ⟨r, hr, rfl⟩ := List.mem_map.mp hi
      exact hmembers r (List.mem_filter.mp hr).1
    · have hcount : quorumSize d.members.length ≤ d.successCount := by
        simpa [Dispatch.hasQuorum] using hquorum rfl
      rw [List.length_map, ← List.countP_eq_length_filter]
      exact hcount
    · intro i hi
      obtain ⟨r, hr, rfl⟩ := List.mem_map.mp hi
      exact hd.acks r (List.mem_filter.mp hr).1 (List.mem_filter.mp hr).2
  · intro shardId sql liveNodes zk shard c' hcall helect hstep actions c'' hrun d ok hreplied
    refine CountsOver.members_eq ?_ hrun hreplied
    obtain ⟨shardId', sql', liveNodes', zk', shard', hcall', helect', rfl⟩ := elect_eq hstep
    rw [hcall] at hcall'
    cases hcall'
    rw [helect] at helect'
    cases helect'
    refine ⟨_, Function.update_self .., ?_⟩
    unfold Call.chooseReplicas
    dsimp only
    split
    · exact Or.inr ⟨_, rfl⟩
    · exact Or.inl rfl

open DisMiniSql.Distributed.Action (startUp beginWrite sendAndReceive sendAndLose) in
/-- Of three replicas two answer, and the write is reported successful. -/
theorem routedWrite_commit_two_of_three :
    ∃ (c : Cluster) (d : Dispatch), c.Reachable ∧ c.calls 0 = some (.replied d true) ∧
      d.members = ["n1", "n2", "n3"] ∧ d.requestId = "a" ∧
      ∃ ids : List String, ids.Nodup ∧ (∀ i ∈ ids, i ∈ d.members) ∧
        d.members.length / 2 + 1 ≤ ids.length ∧ ∀ i ∈ ids, c.Appended i d.requestId := by
  have hrun : ((Cluster.new ["n1", "n2", "n3"] 1 3).run (startUp 0 "n1" 4 ++ startUp 1 "n2" 10 ++
      startUp 2 "n3" 16 ++ beginWrite 0 0 "insert into t values(1)" "a" ++ sendAndReceive 0 ++
      sendAndLose 0 ++ sendAndReceive 0 ++ [.finish 0])).any (fun c =>
        ((c.calls 0).bind Call.succeeded).any (fun d => decide (d.members = ["n1", "n2", "n3"] ∧
          d.requestId = "a" ∧ 0 ≤ d.shardId))) = true := by decide +kernel
  obtain ⟨c, hc, hP⟩ := exists_reachable_of_run hrun
  obtain ⟨d, hd, hP⟩ := (Option.any_eq_true _ _).mp hP
  obtain ⟨x, hx, hd⟩ := Option.bind_eq_some_iff.mp hd
  have hcall : c.calls 0 = some (.replied d true) := Call.eq_replied_of_succeeded hd ▸ hx
  obtain ⟨hmembers, hid, hs⟩ := of_decide_eq_true hP
  exact ⟨c, d, hc, hcall, hmembers, hid, (routedWrite_commit hc 0).1 d hcall hs⟩

end Cluster

end DisMiniSql.Distributed
