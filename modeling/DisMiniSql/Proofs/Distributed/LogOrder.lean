import DisMiniSql.Proofs.Distributed.Reachable
import DisMiniSql.Proofs.Distributed.ZkMetadataStore

/-!
# `DisMiniSql.Proofs.Distributed.LogOrder`: the order of a shard's entries on its replicas

A write allocates its `shardLogIndex` before it is sent, a node appends in the order of
arrival, and a recovery appends at the end of the log. Nothing in the code compares the index
of an entry with those before it. So two concurrent writes can be appended in different orders
(`replicas_disagree`).

`Ordered` is the discipline under which the order is that of the indexes: the writes of a shard
follow one another, and no recovery takes over an entry that is older than one the node has.
`ordered_run_agrees` shows for every run that keeps to it that each node appends the entries
of a shard by increasing index, so any two nodes have them in the same order. The invariant
`OrderInv` says that every entry anywhere comes from a call, that calls of one shard have
different indexes, and that what is being sent has the last one.
-/

set_option autoImplicit false

namespace DisMiniSql.Distributed

open DisMiniSql.Lib (Steps runWhere)

/-- The request id, the shard and the index of a write. -/
structure WriteKey where
  requestId : String
  shardId : Int
  shardLogIndex : Nat
  deriving DecidableEq

/-- The key of a write. -/
def Dispatch.key (d : Dispatch) : WriteKey where
  requestId := d.requestId
  shardId := d.shardId
  shardLogIndex := d.shardLogIndex

namespace Call

/-- The key of the write that a call sends, once it has its index and its request id. -/
def key? : Call → Option WriteKey
  | .sending d => some d.key
  | .waiting d _ => some d.key
  | .replied d _ => some d.key
  | _ => none

/-- The key of the write of a call that is not finished. -/
def active? : Call → Option WriteKey
  | .sending d => some d.key
  | .waiting d _ => some d.key
  | _ => none

end Call

/-- The entries that a recovery has fetched and may append. -/
def Phase.entries : Phase → List WalEntry
  | .fetched rs _ => rs.walEntries
  | .advancing rs _ => rs.walEntries
  | .filtering rs _ => rs.walEntries
  | .appending es _ => es
  | _ => []

namespace Cluster

variable {c c' : Cluster} {a : Action}

/-- The entries of a shard that a node has appended, in this order. -/
def shardLog (c : Cluster) (nodeId : String) (s : Int) : List WalEntry :=
  (c.node nodeId).walLog.history.filter (fun e => e.shardId == s)

/-- In the log, an entry of the request `p` stands before one of the request `q`. -/
def Before (log : List WalEntry) (p q : Option String) : Prop :=
  ∃ x y, [x, y].Sublist log ∧ x.requestId = p ∧ y.requestId = q

/-- No two nodes have appended entries of two requests on the shard in opposite orders. -/
def Agree (c : Cluster) (s : Int) : Prop :=
  ∀ i j p q, p ≠ q → Before (c.shardLog i s) p q → ¬ Before (c.shardLog j s) q p

/-- The key of a call. -/
def callKey (c : Cluster) (call : Nat) : Option WriteKey := (c.calls call).bind Call.key?

/-- The key of a call that is not finished. -/
def activeKey (c : Cluster) (call : Nat) : Option WriteKey := (c.calls call).bind Call.active?

/-- The writes of a shard follow one another: an index is allocated when no other write of the
shard is being sent and none of its requests is on the network. And a recovery appends an
entry only if the node has no entry of the shard with a larger index. -/
def Ordered (c : Cluster) : Action → Prop
  | .allocate call _ => ∀ shard sql replicas,
      c.calls call = some (.allocating shard sql replicas) →
      (∀ k w, c.activeKey k = some w → w.shardId ≠ shard.shardId) ∧
        ∀ e ∈ c.requests, e.request.shardId ≠ shard.shardId
  | .recover r _ => ∀ x entry entries rest, c.recoveries r = some x →
      x.phase = .appending (entry :: entries) rest →
      ∀ e ∈ c.shardLog x.nodeId entry.shardId, e.shardLogIndex ≤ entry.shardLogIndex
  | _ => True

/-- The request was written by a call on this shard under this index. -/
def Origin (c : Cluster) (r : Option String) (s : Int) (k : Nat) : Prop :=
  ∃ call w, c.callKey call = some w ∧ some w.requestId = r ∧ w.shardId = s ∧
    w.shardLogIndex = k

/-- What holds of the calls of a cluster: request ids are fresh, and so are the indexes of a
shard; what is being sent has the last index of its shard. -/
structure CallsInv (c : Cluster) : Prop where
  used : ∀ k w, c.callKey k = some w → w.requestId ∈ c.usedIds
  idUnique : ∀ j k v w, c.callKey j = some v → c.callKey k = some w →
    v.requestId = w.requestId → j = k
  bound : ∀ k w, c.callKey k = some w → 0 ≤ w.shardId →
    w.shardLogIndex ≤ c.zk.shardLogIndexes w.shardId
  indexUnique : ∀ j k v w, c.callKey j = some v → c.callKey k = some w → 0 ≤ v.shardId →
    v.shardId = w.shardId → v.shardLogIndex = w.shardLogIndex → j = k
  last : ∀ k w, c.activeKey k = some w → 0 ≤ w.shardId →
    w.shardLogIndex = c.zk.shardLogIndexes w.shardId

/-- The invariant of an ordered run. -/
structure OrderInv (c : Cluster) : Prop where
  wf : c.Wf
  calls : c.CallsInv
  requests : ∀ e ∈ c.requests, 0 ≤ e.request.shardId →
    c.Origin e.request.requestId e.request.shardId e.request.shardLogIndex ∧
      e.request.shardLogIndex = c.zk.shardLogIndexes e.request.shardId
  logs : ∀ i, ∀ e ∈ (c.node i).walLog.history, 0 ≤ e.shardId →
    c.Origin e.requestId e.shardId e.shardLogIndex
  buffers : ∀ r x, c.recoveries r = some x → ∀ e ∈ x.phase.entries, 0 ≤ e.shardId →
    c.Origin e.requestId e.shardId e.shardLogIndex
  sorted : ∀ i s, 0 ≤ s → (c.shardLog i s).Pairwise (fun x y => x.shardLogIndex ≤ y.shardLogIndex)

variable {r : Option String}

/-- The index of an entry is at most the last one of its shard. -/
theorem CallsInv.le_of_origin (h : c.CallsInv) {s : Int} {k : Nat} (ho : c.Origin r s k)
    (hs : 0 ≤ s) : k ≤ c.zk.shardLogIndexes s := by
  obtain ⟨call, w, hw, _, rfl, rfl⟩ := ho
  exact h.bound call w hw hs

/-- Entries of one request have one index. -/
theorem CallsInv.index_eq (h : c.CallsInv) {s s' : Int} {k k' : Nat} (ho : c.Origin r s k)
    (ho' : c.Origin r s' k') : k = k' := by
  obtain ⟨j, v, hv, hr, rfl, rfl⟩ := ho
  obtain ⟨j', w, hw, hr', rfl, rfl⟩ := ho'
  obtain rfl := h.idUnique j j' v w hv hw (Option.some.inj (hr.trans hr'.symm))
  rw [hv] at hw
  cases hw
  rfl

/-- Entries of a shard with one index are of one request. -/
theorem CallsInv.id_eq (h : c.CallsInv) {r' : Option String} {s : Int} {k : Nat} (hs : 0 ≤ s)
    (ho : c.Origin r s k) (ho' : c.Origin r' s k) : r = r' := by
  obtain ⟨j, v, hv, rfl, rfl, rfl⟩ := ho
  obtain ⟨j', w, hw, rfl, hshard, hindex⟩ := ho'
  obtain rfl := h.indexUnique j j' v w hv hw hs hshard.symm hindex.symm
  rw [hv] at hw
  cases hw
  rfl

/-- In a state of an ordered run, any two nodes agree on the order. -/
theorem OrderInv.agree (h : c.OrderInv) {s : Int} (hs : 0 ≤ s) : c.Agree s := by
  intro i j p q hpq ⟨x, y, hxy, hx, hy⟩ ⟨y', x', hyx, hy', hx'⟩
  have horigin : ∀ {i : String} {e : WalEntry}, e ∈ c.shardLog i s →
      c.Origin e.requestId s e.shardLogIndex := by
    intro i e he
    obtain ⟨hmem, hshard⟩ := List.mem_filter.mp he
    have hshard : e.shardId = s := by simpa using hshard
    exact hshard ▸ h.logs i e hmem (hshard ▸ hs)
  have ox := horigin (hxy.subset List.mem_cons_self)
  have oy := horigin (hxy.subset (List.mem_cons_of_mem _ List.mem_cons_self))
  have oy' := horigin (hyx.subset List.mem_cons_self)
  have ox' := horigin (hyx.subset (List.mem_cons_of_mem _ List.mem_cons_self))
  -- the two nodes order the same two indexes in both ways, so the indexes are equal
  have hle : x.shardLogIndex ≤ y.shardLogIndex := by
    simpa using (h.sorted i s hs).sublist hxy
  have hle' : y'.shardLogIndex ≤ x'.shardLogIndex := by
    simpa using (h.sorted j s hs).sublist hyx
  rw [hx] at ox
  rw [hx'] at ox'
  rw [hy] at oy
  rw [hy'] at oy'
  have hxx := h.calls.index_eq ox ox'
  have hyy := h.calls.index_eq oy oy'
  have heq : x.shardLogIndex = y.shardLogIndex := by omega
  rw [← heq] at oy
  exact hpq (h.calls.id_eq hs ox oy)

/-- What a step does to the keys of the calls: nothing, or a call gets its request id, and
with it, if it is routed, its key and the next index of its shard. -/
inductive KeyStep (c c' : Cluster) (a : Action) : Prop
  | same : c'.callKey = c.callKey → (∀ k w, c'.activeKey k = some w → c.activeKey k = some w) →
      (∀ q ∈ c.usedIds, q ∈ c'.usedIds) → c'.zk.shardLogIndexes = c.zk.shardLogIndexes →
      KeyStep c c' a
  | fresh {k : Nat} {w : WriteKey} : c.callKey k = none → w.requestId ∉ c.usedIds →
      w.shardId < 0 → c'.callKey = Function.update c.callKey k (some w) →
      (∀ j v, c'.activeKey j = some v → c.activeKey j = some v ∨ (j = k ∧ v = w)) →
      c'.usedIds = w.requestId :: c.usedIds →
      c'.zk.shardLogIndexes = c.zk.shardLogIndexes → KeyStep c c' a
  | next {call : Nat} {w : WriteKey} {requestId sql : String} {shard : ShardMetadata}
      {replicas : List NodeInfo} : a = .allocate call requestId →
      c.calls call = some (.allocating shard sql replicas) → shard.shardId = w.shardId →
      c.callKey call = none → w.requestId ∉ c.usedIds → 0 ≤ w.shardId →
      w.shardLogIndex = c.zk.shardLogIndexes w.shardId + 1 →
      (c'.callKey = Function.update c.callKey call (some w) ∨ c'.callKey = c.callKey) →
      (∀ k v, c'.activeKey k = some v → c.activeKey k = some v ∨ (k = call ∧ v = w)) →
      c'.usedIds = w.requestId :: c.usedIds →
      c'.zk.shardLogIndexes = Function.update c.zk.shardLogIndexes w.shardId w.shardLogIndex →
      KeyStep c c' a

theorem shardLogIndexes_electPrimary {z z' : ZkMetadataStore} {shardId : Int}
    {liveNodes : List NodeInfo} {m : ShardMetadata}
    (h : z.electPrimary shardId liveNodes = some (z', m)) :
    z'.shardLogIndexes = z.shardLogIndexes := by
  obtain ⟨rfl, _⟩ | ⟨_, _, _, _, _, rfl⟩ := ZkMetadataStore.electPrimary_cases h
  · rfl
  · exact ZkMetadataStore.shardLogIndexes_updateShard z m

theorem shardLogIndexes_updateCommitIndex (z : ZkMetadataStore) (shardId : Int) (k : Nat) :
    (z.updateCommitIndex shardId k).shardLogIndexes = z.shardLogIndexes := by
  obtain heq | ⟨_, _, _, heq⟩ := z.updateCommitIndex_cases shardId k
  · rw [heq]
  · rw [heq]
    exact ZkMetadataStore.shardLogIndexes_updateShard z _

variable {call : Nat}

/-- A call that has the key it had, if any. -/
theorem keyStep_moved {y : Call} (hcalls : c'.calls = Function.update c.calls call (some y))
    (hkey : y.key? = c.callKey call) (hact : ∀ w, y.active? = some w → c.activeKey call = some w)
    (hused : ∀ q ∈ c.usedIds, q ∈ c'.usedIds)
    (hzk : c'.zk.shardLogIndexes = c.zk.shardLogIndexes) : KeyStep c c' a := by
  refine .same ?_ ?_ hused hzk
  · funext k
    unfold callKey
    rw [hcalls]
    by_cases hk : k = call
    · subst hk
      rw [Function.update_self]
      exact hkey
    · rw [Function.update_of_ne hk]
  · intro k w hw
    unfold activeKey at hw
    rw [hcalls] at hw
    by_cases hk : k = call
    · subst hk
      rw [Function.update_self] at hw
      exact hact w hw
    · rwa [Function.update_of_ne hk] at hw

/-- A call that changes at most its phase. -/
theorem keyStep_setCall {x y : Call} (hx : c.calls call = some x)
    (hcalls : c'.calls = Function.update c.calls call (some y)) (hkey : y.key? = x.key?)
    (hact : ∀ w, y.active? = some w → x.active? = some w) (hused : ∀ q ∈ c.usedIds, q ∈ c'.usedIds)
    (hzk : c'.zk.shardLogIndexes = c.zk.shardLogIndexes) : KeyStep c c' a := by
  refine keyStep_moved hcalls ?_ (fun w hw => ?_) hused hzk
  · rw [callKey, hx]
    exact hkey
  · rw [activeKey, hx]
    exact hact w hw

variable {w : WriteKey}

/-- A call that gets its key. -/
theorem callKey_update {y : Call} (hy : y.key? = some w)
    (hcalls : c'.calls = Function.update c.calls call (some y)) :
    c'.callKey = Function.update c.callKey call (some w) := by
  funext k
  unfold callKey
  rw [hcalls]
  by_cases hk : k = call
  · subst hk
    rw [Function.update_self, Function.update_self]
    exact hy
  · rw [Function.update_of_ne hk, Function.update_of_ne hk]

/-- Changing one call changes its own key only. -/
theorem activeKey_update {y : Call} (hy : ∀ v, y.active? = some v → v = w)
    (hcalls : c'.calls = Function.update c.calls call (some y)) :
    ∀ k v, c'.activeKey k = some v → c.activeKey k = some v ∨ (k = call ∧ v = w) := by
  intro k v hv
  unfold activeKey at hv ⊢
  rw [hcalls] at hv
  by_cases hk : k = call
  · subst hk
    rw [Function.update_self] at hv
    exact Or.inr ⟨rfl, hy v hv⟩
  · rw [Function.update_of_ne hk] at hv
    exact Or.inl hv

/-- A step that touches neither the calls nor ZooKeeper's counters. -/
theorem keyStep_of_calls_eq (hcalls : c'.calls = c.calls) (hused : c'.usedIds = c.usedIds)
    (hzk : c'.zk.shardLogIndexes = c.zk.shardLogIndexes) : KeyStep c c' a := by
  refine .same ?_ ?_ (fun q hq => hused ▸ hq) hzk
  · funext k
    rw [callKey, callKey, hcalls]
  · intro k w hw
    rwa [activeKey, hcalls] at hw

/-- The allocation of an index as a step of the keys: the next number of the shard, or a refusal. -/
theorem keyStep_allocate {requestId : String} (h : c.allocate call requestId = some c') :
    KeyStep c c' (.allocate call requestId) := by
  obtain ⟨shard, sql, replicas, hcall, _, hnew, rfl⟩ := allocate_eq h
  have hnone : c.callKey call = none := by simp [callKey, hcall, Call.key?]
  -- a broadcast has no shard, so it gets no number
  by_cases hs : shard.shardId < 0
  · have hzk : c.zk.nextShardLogIndex shard.shardId = (c.zk, 0) := by
      simp [ZkMetadataStore.nextShardLogIndex, hs]
    rw [hzk]
    -- the map from ids to nodes refuses an id that occurs twice
    by_cases hnodup : (replicas.map (·.nodeId)).Nodup
    · have hdisp : Call.dispatch shard sql replicas 0 requestId = .sending
          { requestId := requestId, shardId := shard.shardId, shardLogIndex := 0,
            raftTerm := shard.term, sql := sql, members := shard.replicas,
            todo := raftTargets shard.primary replicas } := by
        rw [Call.dispatch, if_pos hnodup]
      exact .fresh (k := call) (w := ⟨requestId, shard.shardId, 0⟩) hnone hnew hs
        (callKey_update (y := Call.dispatch shard sql replicas 0 requestId) (by rw [hdisp]; rfl)
          rfl)
        (activeKey_update (y := Call.dispatch shard sql replicas 0 requestId) (fun v hv => by
          rw [hdisp] at hv
          exact (Option.some.inj hv).symm) rfl) rfl rfl
    · have hdisp : Call.dispatch shard sql replicas 0 requestId = .rejected "Duplicate key" := by
        rw [Call.dispatch, if_neg hnodup]
      exact keyStep_setCall hcall rfl (by rw [hdisp]; rfl) (fun w hw => by
        rw [hdisp] at hw
        cases hw) (fun q hq => List.mem_cons_of_mem _ hq) rfl
  · have hnext : c.zk.nextShardLogIndex shard.shardId =
        ({ c.zk with shardLogIndexes := fun s => if s = shard.shardId then
            c.zk.shardLogIndexes shard.shardId + 1 else c.zk.shardLogIndexes s },
          c.zk.shardLogIndexes shard.shardId + 1) := by
      simp [ZkMetadataStore.nextShardLogIndex, hs]
    have hcounters : (c.zk.nextShardLogIndex shard.shardId).1.shardLogIndexes =
        Function.update c.zk.shardLogIndexes shard.shardId
          (c.zk.shardLogIndexes shard.shardId + 1) := by
      rw [hnext]
      funext s
      by_cases hss : s = shard.shardId
      · rw [hss, Function.update_self]
        exact if_pos rfl
      · rw [Function.update_of_ne hss]
        exact if_neg hss
    have hindex : (c.zk.nextShardLogIndex shard.shardId).2 =
        c.zk.shardLogIndexes shard.shardId + 1 := by rw [hnext]
    rw [hindex]
    refine .next (w := ⟨requestId, shard.shardId, c.zk.shardLogIndexes shard.shardId + 1⟩) rfl
      hcall rfl hnone hnew (Int.not_lt.mp hs) rfl ?_ ?_ rfl hcounters
    · by_cases hnodup : (replicas.map (·.nodeId)).Nodup
      · left
        exact callKey_update (by rw [Call.dispatch, if_pos hnodup]; rfl) rfl
      · right
        funext k
        unfold callKey
        by_cases hk : k = call
        · subst hk
          simp [setCall, hcall, Call.dispatch, hnodup, Call.key?]
        · simp [setCall, Function.update_of_ne hk]
    · refine activeKey_update ?_ rfl
      intro v hv
      unfold Call.dispatch at hv
      split at hv
      · exact (Option.some.inj hv).symm
      · cases hv

/-- A broadcast as a step of the keys. -/
theorem keyStep_broadcastWrite {sql requestId : String}
    (h : c.broadcastWrite call sql requestId = some c') : KeyStep c c' a := by
  obtain ⟨hnone, _, hnew, _, rfl⟩ := broadcastWrite_eq h
  have hkey : c.callKey call = none := by simp [callKey, hnone]
  generalize SqlUtils.normalize sql = q
  by_cases hlive : c.zk.liveNodes.isEmpty = true
  · have hcall : Call.broadcast q c.zk.liveNodes requestId = .rejected "No live nodes" := by
      rw [Call.broadcast, if_pos hlive]
    rw [hcall]
    exact keyStep_moved rfl (by simp [callKey, hnone, Call.key?]) (by simp [Call.active?])
      (fun p hp => List.mem_cons_of_mem _ hp) rfl
  · have hcall : (Call.broadcast q c.zk.liveNodes requestId).key? =
        some ⟨requestId, -1, 0⟩ := by
      rw [Call.broadcast, if_neg hlive]
      rfl
    refine .fresh (k := call) (w := ⟨requestId, -1, 0⟩) hkey hnew
      (show (-1 : Int) < 0 by decide) (callKey_update hcall rfl) (activeKey_update ?_ rfl) rfl rfl
    intro v hv
    rw [Call.broadcast, if_neg hlive] at hv
    exact (Option.some.inj hv).symm

/-- Every step is one of the three. -/
theorem keyStep_of_step (h : c.step a = some c') : KeyStep c c' a := by
  cases stepCases_of_step h with
  | @write call shardId sql hnone _ =>
    exact keyStep_moved rfl (by simp [callKey, hnone, Call.key?]) (by simp [Call.active?])
      (fun q hq => hq) rfl
  | @elect call _ sql liveNodes _ shard hcall helect =>
    have hchoose : (Call.chooseReplicas shard sql liveNodes).key? = none ∧
        (Call.chooseReplicas shard sql liveNodes).active? = none := by
      unfold Call.chooseReplicas
      dsimp only
      split
      · exact ⟨rfl, rfl⟩
      · exact ⟨rfl, rfl⟩
    exact keyStep_setCall hcall rfl (hchoose.1.trans rfl)
      (fun w hw => by rw [hchoose.2] at hw; cases hw) (fun q hq => hq)
      (shardLogIndexes_electPrimary helect)
  | allocate _ _ => exact keyStep_allocate h
  | broadcastWrite _ _ _ => exact keyStep_broadcastWrite h
  | send hcall _ => exact keyStep_setCall hcall rfl rfl (fun w hw => hw) (fun q hq => hq) rfl
  | @deliver _ fault output e _ _ =>
    obtain ⟨hcalls, _, _, hused, _, _, hzk, _⟩ :=
      c.frame_executeOn e.target.nodeId e.request fault output
    exact keyStep_of_calls_eq hcalls hused hzk
  | receive hcall _ => exact keyStep_setCall hcall rfl rfl (fun w hw => hw) (fun q hq => hq) rfl
  | giveUp hcall => exact keyStep_setCall hcall rfl rfl (fun w hw => hw) (fun q hq => hq) rfl
  | commit hcall _ _ _ =>
    exact keyStep_setCall hcall rfl rfl (fun w hw => nomatch hw) (fun q hq => hq)
      (shardLogIndexes_updateCommitIndex _ _ _)
  | finish hcall _ _ _ =>
    exact keyStep_setCall hcall rfl rfl (fun w hw => nomatch hw) (fun q hq => hq) rfl
  | @query nodeId sql output fault _ _ _ heq =>
    obtain ⟨hcalls, _, _, hused, _, _, hzk, _⟩ :=
      c.frame_executeOn nodeId (readRequest sql) fault output
    rw [← heq] at hcalls hused hzk
    exact keyStep_of_calls_eq hcalls hused hzk
  | rebalance =>
    exact keyStep_of_calls_eq rfl rfl (ZkMetadataStore.shardLogIndexes_rebalance _ _ _)
  | _ => exact keyStep_of_calls_eq rfl rfl rfl

/-- Where the entries come from stays the same. -/
theorem Origin.step {s : Int} {k : Nat} (ho : c.Origin r s k) (h : KeyStep c c' a) :
    c'.Origin r s k := by
  obtain ⟨call, w, hw, hr, hs, hk⟩ := ho
  -- the call that gets its key has none before
  have hupd : ∀ {j : Nat} {v : WriteKey}, c.callKey j = none →
      c'.callKey = Function.update c.callKey j (some v) → c'.callKey call = some w := by
    intro j v hj hkey
    have hne : call ≠ j := by
      rintro rfl
      rw [hj] at hw
      cases hw
    rw [hkey, Function.update_of_ne hne, hw]
  cases h with
  | same hkey _ _ _ => exact ⟨call, w, hkey ▸ hw, hr, hs, hk⟩
  | fresh hnone _ _ hkey _ _ _ => exact ⟨call, w, hupd hnone hkey, hr, hs, hk⟩
  | next _ _ _ hnone _ _ _ hkey _ _ _ =>
    obtain hkey | hkey := hkey
    · exact ⟨call, w, hupd hnone hkey, hr, hs, hk⟩
    · exact ⟨call, w, hkey ▸ hw, hr, hs, hk⟩

/-- A key after a call has got one: the new key, or one from before. -/
theorem callKey_cases {k : Nat} {v : WriteKey}
    (hkey : c'.callKey = Function.update c.callKey call (some w)) (hv : c'.callKey k = some v) :
    (k = call ∧ v = w) ∨ (k ≠ call ∧ c.callKey k = some v) := by
  rw [hkey] at hv
  by_cases hk : k = call
  · subst hk
    rw [Function.update_self] at hv
    exact Or.inl ⟨rfl, (Option.some.inj hv).symm⟩
  · rw [Function.update_of_ne hk] at hv
    exact Or.inr ⟨hk, hv⟩

/-- No two writes of a shard have the same index, and no write has an index that the counter has
not reached. -/
structure IndexInv (c : Cluster) : Prop where
  bound : ∀ k w, c.callKey k = some w → 0 ≤ w.shardId →
    w.shardLogIndex ≤ c.zk.shardLogIndexes w.shardId
  unique : ∀ j k v w, c.callKey j = some v → c.callKey k = some w → 0 ≤ v.shardId →
    v.shardId = w.shardId → v.shardLogIndex = w.shardLogIndex → j = k

/-- One step of a key: a call begins, decides, reports or ends; in each the index of a reported
write is one of the shard's. -/
theorem IndexInv.step (h : c.IndexInv) (hstep : KeyStep c c' a) : c'.IndexInv := by
  cases hstep with
  | same hkey _ _ hzk =>
    exact ⟨fun k w hw => hzk ▸ h.bound k w (hkey ▸ hw),
      fun j k v w hv hw => h.unique j k v w (hkey ▸ hv) (hkey ▸ hw)⟩
  | fresh _ _ hneg hkey _ _ hzk =>
    constructor
    · intro k v hv hs
      obtain ⟨_, rfl⟩ | ⟨_, hv⟩ := callKey_cases hkey hv
      · omega
      · rw [hzk]
        exact h.bound k v hv hs
    · intro j k v u hv hu hs hshard hindex
      obtain ⟨_, rfl⟩ | ⟨_, hv⟩ := callKey_cases hkey hv
      · omega
      · obtain ⟨_, rfl⟩ | ⟨_, hu⟩ := callKey_cases hkey hu
        · omega
        · exact h.unique j k v u hv hu hs hshard hindex
  | @next call w _ _ _ _ _ _ _ _ _ _ hindex hkey _ _ hzk =>
    have hcases : ∀ {k : Nat} {v : WriteKey}, c'.callKey k = some v →
        (k = call ∧ v = w) ∨ c.callKey k = some v := by
      intro k v hv
      obtain hkey | hkey := hkey
      · exact (callKey_cases hkey hv).imp_right And.right
      · exact .inr (hkey ▸ hv)
    constructor
    · intro k v hv hs
      rw [hzk]
      obtain ⟨_, rfl⟩ | hv := hcases hv
      · rw [Function.update_self]
      · have hold := h.bound k v hv hs
        -- another write of the same shard, or of another one
        by_cases heq : v.shardId = w.shardId
        · rw [heq, Function.update_self, hindex, ← heq]
          omega
        · rwa [Function.update_of_ne heq]
    · intro j k v u hv hu hs hshard hidx
      -- the new index is larger than all others of the shard
      obtain ⟨rfl, rfl⟩ | hv := hcases hv
      · obtain ⟨rfl, _⟩ | hu := hcases hu
        · rfl
        · have hle := h.bound k u hu (hshard ▸ hs)
          rw [← hshard] at hle
          omega
      · obtain ⟨rfl, rfl⟩ | hu := hcases hu
        · have hle := h.bound j v hv hs
          rw [hshard] at hle
          omega
        · exact h.unique j k v u hv hu hs hshard hidx

/-- A call has the key that it had; one call may get a key, with a fresh request id. -/
theorem KeyStep.key_cases (hstep : KeyStep c c' a) :
    (∀ q ∈ c.usedIds, q ∈ c'.usedIds) ∧ ∃ call, ∀ k v, c'.callKey k = some v →
      (k = call ∧ v.requestId ∉ c.usedIds ∧ v.requestId ∈ c'.usedIds) ∨
        c.callKey k = some v := by
  cases hstep with
  | same hkey _ hused _ => exact ⟨hused, 0, fun k v hv => .inr (hkey ▸ hv)⟩
  | @fresh call w _ hnew _ hkey _ hused _ =>
    refine ⟨fun q hq => hused ▸ List.mem_cons_of_mem _ hq, call, fun k v hv => ?_⟩
    obtain ⟨rfl, rfl⟩ | ⟨_, hv⟩ := callKey_cases hkey hv
    · exact .inl ⟨rfl, hnew, hused ▸ List.mem_cons_self⟩
    · exact .inr hv
  | @next call w _ _ _ _ _ _ _ _ hnew _ _ hkey _ hused _ =>
    refine ⟨fun q hq => hused ▸ List.mem_cons_of_mem _ hq, call, fun k v hv => ?_⟩
    obtain hkey | hkey := hkey
    · obtain ⟨rfl, rfl⟩ | ⟨_, hv⟩ := callKey_cases hkey hv
      · exact .inl ⟨rfl, hnew, hused ▸ List.mem_cons_self⟩
      · exact .inr hv
    · exact .inr (hkey ▸ hv)

/-- In an ordered run each step keeps the active keys apart. The indexes do not need the order of
the run; that the active key has the last index does. -/
theorem CallsInv.step (h : c.CallsInv) (hord : c.Ordered a) (hstep : KeyStep c c' a) :
    c'.CallsInv := by
  have hindexes : c'.IndexInv := IndexInv.step ⟨h.bound, h.indexUnique⟩ hstep
  obtain ⟨hused, call, hcases⟩ := hstep.key_cases
  refine ⟨?_, ?_, hindexes.bound, hindexes.unique, ?_⟩
  · intro k v hv
    obtain ⟨_, _, hin⟩ | hv := hcases k v hv
    · exact hin
    · exact hused _ (h.used k v hv)
  · intro j k v u hv hu hid
    obtain ⟨rfl, hnew, _⟩ | hv := hcases j v hv
    · obtain ⟨rfl, _⟩ | hu := hcases k u hu
      · rfl
      · exact absurd (hid ▸ h.used k u hu) hnew
    · obtain ⟨rfl, hnew, _⟩ | hu := hcases k u hu
      · exact absurd (hid ▸ h.used j v hv) hnew
      · exact h.idUnique j k v u hv hu hid
  · cases hstep with
    | same _ hact _ hzk => exact fun k w hw => hzk ▸ h.last k w (hact k w hw)
    | fresh _ _ hneg _ hact _ hzk =>
      intro k v hv hs
      rw [hzk]
      obtain hv | ⟨_, rfl⟩ := hact k v hv
      · exact h.last k v hv hs
      · omega
    | next ha hcall hshard _ _ _ _ _ hact _ hzk =>
      subst ha
      intro k v hv hs
      obtain hv | ⟨_, rfl⟩ := hact k v hv
      · -- no other write of the shard is being sent
        rw [hzk, Function.update_of_ne (hshard ▸ (hord _ _ _ hcall).1 k v hv)]
        exact h.last k v hv hs
      · rw [hzk, Function.update_self]

/-- A request on the network was there before, or a call has just sent it. -/
theorem step_requests (h : c.step a = some c') {e : Envelope} (he : e ∈ c'.requests) :
    e ∈ c.requests ∨ ∃ call d target, a = .send call ∧ c.calls call = some (.sending d) ∧
      e = ⟨call, target, d.request target⟩ := by
  cases stepCases_of_step h with
  | @send call d target todo hcall _ =>
    obtain he | he := List.mem_append.mp he
    · exact Or.inl he
    · exact Or.inr ⟨call, d, target, rfl, hcall, List.mem_singleton.mp he⟩
  | deliver _ _ => exact Or.inl (List.mem_of_mem_eraseIdx he)
  | lose => exact Or.inl (List.mem_of_mem_eraseIdx he)
  | @query nodeId sql output fault _ _ _ heq =>
    obtain ⟨_, hreq, _⟩ := c.frame_executeOn nodeId (readRequest sql) fault output
    rw [heq, hreq] at he
    exact Or.inl he
  | _ => exact Or.inl he

/-- The counters move only where no request of the shard is on the network. -/
theorem OrderInv.counter_eq (hord : c.Ordered a) (hkeys : KeyStep c c' a) {e : Envelope}
    (he : e ∈ c.requests) :
    c'.zk.shardLogIndexes e.request.shardId = c.zk.shardLogIndexes e.request.shardId := by
  cases hkeys with
  | same _ _ _ hzk => rw [hzk]
  | fresh _ _ _ _ _ _ hzk => rw [hzk]
  | next ha hcall hshard _ _ _ _ _ _ _ hzk =>
    subst ha
    rw [hzk, Function.update_of_ne (hshard ▸ (hord _ _ _ hcall).2 e he)]

/-- The entry that a step appends comes from a call, and its index is not smaller than those of
the shard before it. -/
theorem OrderInv.logsEntry (h : c.OrderInv) (hord : c.Ordered a) {i : String} {e : WalEntry}
    (hlog : c.LogsEntry i e a) (hs : 0 ≤ e.shardId) :
    c.Origin e.requestId e.shardId e.shardLogIndex ∧
      ∀ x ∈ c.shardLog i e.shardId, x.shardLogIndex ≤ e.shardLogIndex := by
  cases hlog with
  | deliver henv htarget hentry hnode =>
    rename_i env
    obtain ⟨_, hid, hshard, hindex, _⟩ := hentry
    have hs' : 0 ≤ env.request.shardId := hshard ▸ hs
    obtain ⟨horigin, hlast⟩ := h.requests env (List.mem_of_getElem? henv) hs'
    rw [hid, hshard, hindex]
    refine ⟨horigin, fun x hx => ?_⟩
    obtain ⟨hx, hxs⟩ := List.mem_filter.mp hx
    have hxs : x.shardId = env.request.shardId := beq_iff_eq.mp hxs
    rw [hlast, ← hxs]
    exact h.calls.le_of_origin (h.logs i x hx (hxs ▸ hs')) (hxs ▸ hs')
  | recover hx hnode hphase he =>
    rename_i x entry entries rest
    subst he hnode
    have hmem := h.buffers _ x hx entry (by rw [hphase]; exact List.mem_cons_self) hs
    exact ⟨hmem, hord x entry entries rest hx hphase⟩

/-- An entry that a recovery has fetched was fetched before the step, or a node serves it. -/
theorem step_entries (hstep : c.step a = some c') {r : Nat} {x : Recovery}
    (hx : c'.recoveries r = some x) {e : WalEntry} (he : e ∈ x.phase.entries) :
    (∃ y, c.recoveries r = some y ∧ e ∈ y.phase.entries) ∨
      ∃ i, e ∈ (c.node i).walLog.readAll := by
  obtain hold | ⟨hnew, _⟩ | ⟨y, fails, n, phase, _, hy, hmove, rfl, _⟩ := step_recoveries hstep hx
  · exact Or.inl ⟨x, hold, he⟩
  · rw [hnew] at he
    cases he
  dsimp only at he
  cases hmove with
  | announce _ => split at he <;> cases he
  | readWal _ _ => exact Or.inr ⟨_, he⟩
  | install hphase _ => exact Or.inl ⟨y, hy, by rw [hphase]; exact he⟩
  | keep hphase _ => exact Or.inl ⟨y, hy, by rw [hphase]; exact he⟩
  | advance hphase => exact Or.inl ⟨y, hy, by rw [hphase]; exact he⟩
  | filter hphase => exact Or.inl ⟨y, hy, by rw [hphase]; exact (DataNode.mem_recovered.mp he).1⟩
  | append hphase => exact Or.inl ⟨y, hy, by rw [hphase]; exact List.mem_cons_of_mem _ he⟩
  | refreshShards _ | scan _ | complete _ | skip _ _ | fail _ _ _ | fetch _ _ _ | readSnapshot _ _
  | breakOff _ _ | next _ => cases he

theorem OrderInv.buffers_step (h : c.OrderInv) (hkeys : KeyStep c c' a)
    (hstep : c.step a = some c') : ∀ r x, c'.recoveries r = some x → ∀ e ∈ x.phase.entries,
      0 ≤ e.shardId → c'.Origin e.requestId e.shardId e.shardLogIndex := by
  intro r x hx e he hs
  refine Origin.step ?_ hkeys
  obtain ⟨y, hy, he⟩ | ⟨i, he⟩ := step_entries hstep hx he
  · exact h.buffers r y hy e he hs
  · -- what a node serves is in its own log
    exact h.logs i e ((h.wf.nodes i).log.recorded e (WalLog.mem_readAll.mp he)) hs

/-- An ordered step keeps the invariant. -/
theorem OrderInv.step (h : c.OrderInv) (hord : c.Ordered a) (hstep : c.step a = some c') :
    c'.OrderInv := by
  have hkeys := keyStep_of_step hstep
  refine ⟨h.wf.step hstep, h.calls.step hord hkeys, ?_, ?_, h.buffers_step hkeys hstep, ?_⟩
  · intro e he hs
    obtain hold | ⟨call, d, target, rfl, hcall, rfl⟩ := step_requests hstep he
    · obtain ⟨horigin, hlast⟩ := h.requests e hold hs
      exact ⟨horigin.step hkeys, hlast.trans (OrderInv.counter_eq hord hkeys hold).symm⟩
    · -- what is sent belongs to a call that is not finished
      have hkey : c.callKey call = some d.key := by simp [callKey, hcall, Call.key?]
      have hact : c.activeKey call = some d.key := by simp [activeKey, hcall, Call.active?]
      have hcounters : c'.zk.shardLogIndexes = c.zk.shardLogIndexes := by
        obtain ⟨_, _, _, _, _, rfl⟩ := send_eq hstep
        rfl
      refine ⟨Origin.step ⟨call, d.key, hkey, rfl, rfl, rfl⟩ hkeys, ?_⟩
      rw [hcounters]
      exact h.calls.last call d.key hact hs
  · intro i e he hs
    obtain heq | ⟨x, hx, heq⟩ := step_history hstep i
    · exact (h.logs i e (heq ▸ he) hs).step hkeys
    · rw [heq] at he
      obtain he | he := List.mem_append.mp he
      · exact (h.logs i e he hs).step hkeys
      · rw [List.mem_singleton.mp he] at hs ⊢
        exact (h.logsEntry hord hx hs).1.step hkeys
  · intro i s hs
    obtain heq | ⟨x, hx, heq⟩ := step_history hstep i
    · rw [shardLog, heq]
      exact h.sorted i s hs
    · rw [shardLog, heq, List.filter_append]
      refine List.pairwise_append.mpr ⟨h.sorted i s hs, ?_, ?_⟩
      · exact (List.pairwise_singleton _ x).sublist List.filter_sublist
      · intro y hy z hz
        obtain ⟨hz, hzs⟩ := List.mem_filter.mp hz
        obtain rfl := List.mem_singleton.mp hz
        obtain rfl : z.shardId = s := by simpa using hzs
        exact (h.logsEntry hord hx hs).2 y hy

/-- The new cluster. -/
theorem OrderInv.new (nodeIds : List String) (shardCount replicationFactor : Nat) :
    (new nodeIds shardCount replicationFactor).OrderInv where
  wf := Wf.new nodeIds shardCount replicationFactor
  calls := by
    refine ⟨?_, ?_, ?_, ?_, ?_⟩
    · exact fun k w (hw : none = some w) => nomatch hw
    · exact fun j k v w (hv : none = some v) => nomatch hv
    · exact fun k w (hw : none = some w) => nomatch hw
    · exact fun j k v w (hv : none = some v) => nomatch hv
    · exact fun k w (hw : none = some w) => nomatch hw
  requests := by simp [Cluster.new]
  logs := by simp [Cluster.new]
  buffers := fun r x hx => nomatch hx
  sorted := fun i s _ => List.Pairwise.nil

/-- In every run in which the writes of a shard follow one another and no recovery takes over an
entry older than one the node has, every node appends the entries of a shard by increasing
index, and any two nodes have the entries that both hold in the same order. -/
theorem ordered_run_agrees {nodeIds : List String} {shardCount replicationFactor : Nat}
    {actions : List Action} {c : Cluster}
    (hrun : Steps (fun c a c' => c.Ordered a ∧ c.step a = some c')
      (new nodeIds shardCount replicationFactor) actions c) {s : Int} (hs : 0 ≤ s) :
    c.Agree s ∧ ∀ i, (c.shardLog i s).Pairwise
      (fun x y => x.shardLogIndex ≤ y.shardLogIndex) := by
  have hinv : c.OrderInv := hrun.invariant (fun c a c' hc h => hc.step h.1 h.2)
    (OrderInv.new nodeIds shardCount replicationFactor)
  exact ⟨hinv.agree hs, fun i => hinv.sorted i s hs⟩

/-- A test for `Ordered` that looks only at the calls of this list, and allows no others. -/
def orderedOn (calls : List Nat) (c : Cluster) (a : Action) : Bool :=
  a.call.all (fun k => calls.contains k) &&
  match a with
  | .allocate call _ =>
    match c.calls call with
    | some (.allocating shard _ _) =>
      calls.all (fun k => (c.activeKey k).all (fun w => w.shardId != shard.shardId)) &&
        c.requests.all (fun e => e.request.shardId != shard.shardId)
    | _ => true
  | .recover r _ =>
    match c.recoveries r with
    | some ⟨nodeId, _, .appending (entry :: _) _⟩ =>
      (c.shardLog nodeId entry.shardId).all (fun e => e.shardLogIndex ≤ entry.shardLogIndex)
    | _ => true
  | _ => true

/-- The condition of an ordered run, tested on the calls there are. -/
theorem ordered_of_orderedOn {calls : List Nat} (hnone : ∀ k ∉ calls, c.calls k = none)
    (h : orderedOn calls c a = true) : c.Ordered a := by
  unfold orderedOn at h
  obtain ⟨_, h⟩ := Bool.and_eq_true_iff.mp h
  cases a with
  | allocate call requestId =>
    intro shard sql replicas hcall
    simp only [hcall, Bool.and_eq_true, List.all_eq_true, bne_iff_ne] at h
    refine ⟨fun k w hw => ?_, h.2⟩
    by_cases hk : k ∈ calls
    · have hall := h.1 k hk
      rw [hw] at hall
      simpa using hall
    · rw [activeKey, hnone k hk] at hw
      cases hw
  | recover r fails =>
    rintro ⟨nodeId, startup, phase⟩ entry entries rest hx rfl
    simpa only [hx, List.all_eq_true, decide_eq_true_eq] using h
  | _ => trivial

/-- A run that passes the test is ordered. -/
theorem steps_of_orderedOn {calls : List Nat} {nodeIds : List String}
    {shardCount replicationFactor : Nat} {actions : List Action}
    (h : runWhere step (orderedOn calls) (new nodeIds shardCount replicationFactor) actions =
      some c) :
    Steps (fun c a c' => c.Ordered a ∧ c.step a = some c')
      (new nodeIds shardCount replicationFactor) actions c := by
  refine Steps.of_runWhere (I := fun c => ∀ k ∉ calls, c.calls k = none)
    (fun c a hnone htest => ordered_of_orderedOn hnone htest) ?_ (fun k _ => rfl) h
  intro c a c' hnone htest hstep k hk
  rw [step_calls hstep ?_]
  · exact hnone k hk
  · intro ha
    have hcall := (Bool.and_eq_true_iff.mp htest).1
    rw [ha] at hcall
    exact hk (by simpa using hcall)

open DisMiniSql.Distributed.Action (startUp beginWrite sendAndReceive) in
/-- Two replicas and two writes, one after the other: both replicas have them in this order. -/
theorem ordered_run_agrees_two_writes :
    ∃ c : Cluster, (c.shardLog "n1" 0).map (·.requestId) = [some "a", some "b"] ∧
      (c.shardLog "n2" 0).map (·.requestId) = [some "a", some "b"] ∧ c.Agree 0 := by
  have hrun : (runWhere step (orderedOn [0, 1]) (new ["n1", "n2"] 1 2)
      (startUp 0 "n1" 4 ++ startUp 1 "n2" 10 ++
        beginWrite 0 0 "insert into t values(1)" "a" ++ sendAndReceive 0 ++ sendAndReceive 0 ++
        [.finish 0] ++
        beginWrite 1 0 "insert into t values(2)" "b" ++ sendAndReceive 1 ++ sendAndReceive 1 ++
        [.finish 1])).any (fun c =>
      decide ((c.shardLog "n1" 0).map (·.requestId) = [some "a", some "b"] ∧
        (c.shardLog "n2" 0).map (·.requestId) = [some "a", some "b"])) = true := by
    decide +kernel
  obtain ⟨c, hc, hlogs⟩ := (Option.any_eq_true _ _).mp hrun
  obtain ⟨hfirst, hsecond⟩ := of_decide_eq_true hlogs
  exact ⟨c, hfirst, hsecond, (ordered_run_agrees (steps_of_orderedOn hc) (le_refl 0)).1⟩

theorem before_of_map_eq {log : List WalEntry} {p q : Option String}
    (h : log.map (·.requestId) = [p, q]) : Before log p q := by
  obtain ⟨x, xs, rfl, hx, hxs⟩ := List.map_eq_cons_iff.mp h
  obtain ⟨y, ys, rfl, hy, hys⟩ := List.map_eq_cons_iff.mp hxs
  rw [List.map_eq_nil_iff.mp hys]
  exact ⟨x, y, List.Sublist.refl _, hx, hy⟩

open DisMiniSql.Distributed.Action (startUp beginWrite sendAndReceive) in
/-- Two concurrent writes: the requests for `n1` arrive in the order of the indexes, those for
`n2` in the other one. Nothing is lost and both writes succeed. -/
theorem replicas_disagree : ∃ c : Cluster, c.Reachable ∧ ¬ c.Agree 0 := by
  have hrun : ((new ["n1", "n2"] 1 2).run (startUp 0 "n1" 4 ++ startUp 1 "n2" 10 ++
      beginWrite 0 0 "insert into t values(1)" "a" ++
      beginWrite 1 0 "insert into t values(2)" "b" ++
      sendAndReceive 0 ++ sendAndReceive 1 ++ sendAndReceive 1 ++ sendAndReceive 0 ++
      [.finish 0, .finish 1])).any (fun c =>
        decide ((c.shardLog "n1" 0).map (·.requestId) = [some "a", some "b"] ∧
          (c.shardLog "n2" 0).map (·.requestId) = [some "b", some "a"])) = true := by
    decide +kernel
  obtain ⟨c, hc, hlogs⟩ := exists_reachable_of_run hrun
  obtain ⟨hfirst, hsecond⟩ := of_decide_eq_true hlogs
  exact ⟨c, hc, fun h => h "n1" "n2" (some "a") (some "b") (by decide)
    (before_of_map_eq hfirst) (before_of_map_eq hsecond)⟩

end Cluster

end DisMiniSql.Distributed
