import DisMiniSql.Proofs.Distributed.CommitIndex
import DisMiniSql.Proofs.Distributed.Rebalance
import DisMiniSql.Proofs.Distributed.ServingGate
import DisMiniSql.Proofs.Distributed.SnapshotList

/-!
# `DisMiniSql.Proofs.Distributed.SerialWrites`: a write with nothing in between

Between two operations of a serial run nothing is under way and every registered node serves.
`Grows` says what an operation that starts no recovery leaves: the replay list of each node has
grown by some statements, and the assignment and the registrations are as before.

* `grows_executeOn`: a node executes a request.
* `grows_deliveries`: a write is sent to one node after another.
* `grows_serialWrite`: a whole write adds its statement to the registered replicas of its shard.
-/

set_option autoImplicit false

namespace DisMiniSql.Distributed

namespace DataNode

variable {n : DataNode} {shardTerm : Int → Option Nat} {request : ExecuteRequest} {output : String}

theorem currentNodeInfo_maybeSnapshot (n : DataNode) :
    n.maybeSnapshot.currentNodeInfo = n.currentNodeInfo := by
  obtain heq | ⟨_, _, _, heq⟩ := n.maybeSnapshot_cases
  · rw [heq]
  · rw [heq]
    rfl

/-- A request changes neither the shards of the node nor its state. -/
theorem currentNodeInfo_execute (n : DataNode) (shardTerm : Int → Option Nat)
    (request : ExecuteRequest) (fault : Option ExecuteFault) (output : String) :
    (n.execute shardTerm request fault output).node.currentNodeInfo = n.currentNodeInfo := by
  have hlog : (n.logRequest shardTerm request).1.currentNodeInfo = n.currentNodeInfo := by
    obtain heq | ⟨e, _, heq⟩ := n.logRequest_cases shardTerm request
    · rw [heq]
    · rw [heq]
      rfl
  obtain heq | ⟨written, heq⟩ := n.execute_node_cases shardTerm request fault output
  · rw [heq, hlog]
  · rw [heq, currentNodeInfo_maybeSnapshot, ← hlog]
    cases written with
    | none => rfl
    | some e => rfl

theorem storesExactly_of_lines (h : ∀ x ∈ n.replaySql, x.IsLine) : n.StoresExactly :=
  SnapshotManager.readBack_eq_self_iff.mpr h

/-- A request that is accepted and meets no failure is answered with success. -/
theorem ok_execute (output : String) {written : Option WalEntry}
    (h : (n.logRequest shardTerm request).2 = .accepted written) :
    (n.execute shardTerm request none output).response.ok = true := by
  unfold execute
  dsimp only
  rw [h]
  simp [finishRequest, okResponse, ExecuteResponse.success]

/-- The node does not reject the write: it is a replay, or the node owns the shard and the term is
not behind. -/
def Accepts (n : DataNode) (shardTerm : Int → Option Nat) (request : ExecuteRequest) : Prop :=
  request.replay = true ∨
    (SqlUtils.isReadOnly (SqlUtils.normalize request.sql) = false ∧
      n.ownsShard request.shardId = true ∧ shardTerm request.shardId = some request.raftTerm)

theorem Accepts.writes (h : n.Accepts shardTerm request) : request.replay = true ∨
    SqlUtils.isReadOnly (SqlUtils.normalize request.sql) = false :=
  h.imp id fun h => h.1

/-- A new write that the node does not reject is logged. -/
theorem exists_logRequest_of_accepts (h : n.Accepts shardTerm request)
    (hfresh : n.walLog.containsRequestId request.requestId = false) :
    ∃ e, n.entryFor request e ∧
      n.logRequest shardTerm request = (n.logs e, .accepted (some e)) := by
  obtain ⟨error, herror⟩ | hlogged := logRequest_fresh shardTerm h.writes hfresh
  · exfalso
    obtain hreplay | ⟨hwrite, howns, hterm⟩ := h
    · obtain ⟨e, -, heq⟩ := logReplay_fresh hfresh
      unfold logRequest at herror
      rw [if_pos hreplay, heq] at herror
      cases congrArg Prod.snd herror
    · by_cases hreplay : request.replay = true
      · obtain ⟨e, -, heq⟩ := logReplay_fresh hfresh
        unfold logRequest at herror
        rw [if_pos hreplay, heq] at herror
        cases congrArg Prod.snd herror
      · -- none of the checks of a primary fails
        unfold logRequest logWrite at herror
        simp [hreplay, hwrite, howns, hterm] at herror
  · exact hlogged

/-- The replay list of a node that logs a new write. -/
theorem replaySql_execute_of_accepts (output : String) (hwhole : n.Whole)
    (h : n.Accepts shardTerm request)
    (hfresh : n.walLog.containsRequestId request.requestId = false)
    (hlines : ∀ x ∈ n.replaySql, x.IsLine) (hline : (requestStmt request).IsLine) :
    (n.execute shardTerm request none output).node.Whole ∧
      (n.execute shardTerm request none output).node.replaySql =
        n.replaySql ++ [requestStmt request] := by
  obtain ⟨e, hentry, hlogs⟩ := exists_logRequest_of_accepts h hfresh
  have hlogged : (n.logRequest shardTerm request).1.Whole := hwhole.logRequest shardTerm request
  have hreplay : (n.logRequest shardTerm request).1.replaySql =
      n.replaySql ++ [requestStmt request] := by
    rw [hlogged.replaySql, hwhole.replaySql, hlogs]
    show (n.walLog.history ++ [e]).map WalEntry.stmt = _
    rw [List.map_append, List.map_singleton, stmt_of_entryFor hentry]
  have hexact : (n.logRequest shardTerm request).1.StoresExactly := by
    refine storesExactly_of_lines fun x hx => ?_
    rw [hreplay] at hx
    obtain hx | hx := List.mem_append.mp hx
    · exact hlines x hx
    · rw [List.mem_singleton.mp hx]
      exact hline
  have hwhole' := hwhole.execute hexact none output
  refine ⟨hwhole', ?_⟩
  obtain ⟨error, herror⟩ | hhistory : (∃ error, n.execute shardTerm request none output =
      ⟨n, .failure n.nodeId error, false⟩) ∨ _ :=
    history_execute_fresh h.writes hfresh none output
  · have hok := ok_execute output (congrArg Prod.snd hlogs)
    rw [herror] at hok
    cases hok
  · rw [hwhole'.replaySql, hwhole.replaySql, hhistory]

end DataNode

namespace ZkMetadataStore

variable {z : ZkMetadataStore} {info m : NodeInfo}

/-- A node that registers what it has registered before. -/
theorem mem_registerNode_of_mem (hz : z.Named) (hinfo : info ∈ z.nodes) :
    m ∈ (z.registerNode info).nodes ↔ m ∈ z.nodes := by
  show m ∈ info :: z.nodes.filter _ ↔ _
  rw [List.mem_cons, List.mem_filter]
  constructor
  · intro h
    obtain rfl | ⟨hm, -⟩ := h
    · exact hinfo
    · exact hm
  · intro hm
    by_cases hid : m.nodeId = info.nodeId
    · exact Or.inl (List.inj_on_of_nodup_map hz hm hinfo hid)
    · exact Or.inr ⟨hm, by simpa using hid⟩

/-- A new record of a shard with the same replicas. -/
theorem places_updateShard (hz : z.Distinct) {old new : ShardMetadata}
    (hold : z.shard new.shardId = some old) (hreplicas : new.replicas = old.replicas) (s : Int)
    (i : String) : (z.updateShard new).Places s i ↔ z.Places s i := by
  have hid := shardId_of_shard hold
  have hmem := List.mem_of_find?_eq_some hold
  have hany : z.shardNodes.any (fun m => m.shardId == new.shardId) = true :=
    List.any_eq_true.mpr ⟨old, hmem, by simp [hid]⟩
  unfold Places updateShard
  rw [if_pos hany]
  constructor
  · intro h
    obtain ⟨m, hm, hs, hi⟩ := h
    obtain ⟨x, hx, rfl⟩ := List.mem_map.mp hm
    split at hs
    · rw [if_pos ‹_›, hreplicas] at hi
      exact ⟨old, hmem, hid.trans hs, hi⟩
    · rw [if_neg ‹_›] at hi
      exact ⟨x, hx, hs, hi⟩
  · intro h
    obtain ⟨m, hm, hs, hi⟩ := h
    refine ⟨_, List.mem_map_of_mem hm, ?_⟩
    split
    · rename_i heq
      obtain rfl := List.inj_on_of_nodup_map hz hm hmem (heq.trans hid.symm)
      exact ⟨hid ▸ hs, hreplicas ▸ hi⟩
    · exact ⟨hs, hi⟩

theorem shardIds_updateShard_of_shard {old new : ShardMetadata}
    (hold : z.shard new.shardId = some old) :
    (z.updateShard new).shardNodes.map (·.shardId) = z.shardNodes.map (·.shardId) := by
  refine shardIds_updateShard (List.any_eq_true.mpr ⟨old, List.mem_of_find?_eq_some hold, ?_⟩)
  rw [shardId_of_shard hold, beq_self_eq_true]

/-- The record of a shard says which nodes are its replicas. -/
theorem Distinct.places_iff (hz : z.Distinct) {m : ShardMetadata} {s : Int}
    (hm : z.shard s = some m) {i : String} : z.Places s i ↔ i ∈ m.replicas := by
  have hmem := List.mem_of_find?_eq_some hm
  have hid := shardId_of_shard hm
  constructor
  · intro h
    obtain ⟨x, hx, hs, hi⟩ := h
    rwa [List.inj_on_of_nodup_map hz hx hmem (hs.trans hid.symm)] at hi
  · exact fun hi => ⟨m, hmem, hid, hi⟩

/-- What an election leaves alone. -/
theorem electPrimary_frame (hz : z.Distinct) {z' : ZkMetadataStore} {s : Int}
    {liveNodes : List NodeInfo} {m : ShardMetadata}
    (h : z.electPrimary s liveNodes = some (z', m)) :
    z'.shard s = some m ∧ (∀ t i, z'.Places t i ↔ z.Places t i) ∧
      z'.shardNodes.map (·.shardId) = z.shardNodes.map (·.shardId) ∧ z'.nodes = z.nodes := by
  obtain ⟨rfl, hm⟩ | ⟨old, primary, hold, -, rfl, rfl⟩ := electPrimary_cases h
  · exact ⟨hm, fun _ _ => Iff.rfl, rfl, rfl⟩
  · have hid := shardId_of_shard hold
    have hnew : z.shard old.shardId = some old := hid ▸ hold
    refine ⟨?_, places_updateShard hz hnew rfl, shardIds_updateShard_of_shard hnew,
      nodes_updateShard _ _⟩
    rw [shard_updateShard, if_pos hid]

/-- What a new commit index leaves alone. -/
theorem updateCommitIndex_frame (hz : z.Distinct) (s : Int) (k : Nat) :
    (∀ t i, (z.updateCommitIndex s k).Places t i ↔ z.Places t i) ∧
      (z.updateCommitIndex s k).shardNodes.map (·.shardId) = z.shardNodes.map (·.shardId) ∧
      (z.updateCommitIndex s k).nodes = z.nodes := by
  obtain heq | ⟨old, hold, -, heq⟩ := z.updateCommitIndex_cases s k
  · rw [heq]
    exact ⟨fun _ _ => Iff.rfl, rfl, rfl⟩
  · have hnew : z.shard old.shardId = some old := shardId_of_shard hold ▸ hold
    rw [heq]
    exact ⟨places_updateShard hz hnew rfl, shardIds_updateShard_of_shard hnew,
      nodes_updateShard _ _⟩

end ZkMetadataStore

namespace Cluster

variable {c c' c'' : Cluster} {grown grown' : String → List Stmt}

/-- Each node has some more statements, and nothing else has changed that the later operations
depend on. -/
structure Grows (c : Cluster) (grown : String → List Stmt) (c' : Cluster) : Prop where
  whole : ∀ i, (c'.node i).Whole
  info : ∀ i, (c'.node i).currentNodeInfo = (c.node i).currentNodeInfo
  replaySql : ∀ i, (c'.node i).replaySql = (c.node i).replaySql ++ grown i
  status : c'.status = c.status
  recoveries : c'.recoveries = c.recoveries
  usedIds : ∀ r ∈ c.usedIds, r ∈ c'.usedIds
  places : ∀ s i, c'.zk.Places s i ↔ c.zk.Places s i
  shardIds : c'.zk.shardNodes.map (·.shardId) = c.zk.shardNodes.map (·.shardId)
  named : c'.zk.Named
  registered : ∀ m, m ∈ c'.zk.nodes ↔ m ∈ c.zk.nodes

/-- Two growths one after the other. -/
theorem Grows.trans (h : c.Grows grown c') (h' : c'.Grows grown' c'') :
    c.Grows (fun i => grown i ++ grown' i) c'' where
  whole := h'.whole
  info i := (h'.info i).trans (h.info i)
  replaySql i := by rw [h'.replaySql, h.replaySql, List.append_assoc]
  status := h'.status.trans h.status
  recoveries := h'.recoveries.trans h.recoveries
  usedIds r hr := h'.usedIds r (h.usedIds r hr)
  places s i := (h'.places s i).trans (h.places s i)
  shardIds := h'.shardIds.trans h.shardIds
  named := h'.named
  registered m := (h'.registered m).trans (h.registered m)

/-- A step of the coordinator that changes no record of ZooKeeper but the term of a shard, its
primary and its commit index. -/
theorem Grows.of_node_eq (hwhole : ∀ i, (c.node i).Whole) (hnamed : c.zk.Named)
    (hnode : c'.node = c.node) (hstatus : c'.status = c.status)
    (hrecoveries : c'.recoveries = c.recoveries) (husedIds : ∀ r ∈ c.usedIds, r ∈ c'.usedIds)
    (hplaces : ∀ s i, c'.zk.Places s i ↔ c.zk.Places s i)
    (hshardIds : c'.zk.shardNodes.map (·.shardId) = c.zk.shardNodes.map (·.shardId))
    (hnodes : c'.zk.nodes = c.zk.nodes) : c.Grows (fun _ => []) c' where
  whole i := hnode ▸ hwhole i
  info i := by rw [hnode]
  replaySql i := by rw [hnode, List.append_nil]
  status := hstatus
  recoveries := hrecoveries
  usedIds := husedIds
  places := hplaces
  shardIds := hshardIds
  named := by
    unfold ZkMetadataStore.Named
    rw [hnodes]
    exact hnamed
  registered m := by rw [hnodes]

/-- A node executes a request, after which its list has these statements more. -/
theorem grows_executeOn {k : String} {request : ExecuteRequest} {fault : Option ExecuteFault}
    {output : String} {xs : List Stmt} (hwhole : ∀ i, (c.node i).Whole) (hnamed : c.zk.Named)
    (hregistered : (c.node k).currentNodeInfo ∈ c.zk.nodes)
    (hnode : ((c.node k).execute c.shardTerm request fault output).node.Whole)
    (hlist : ((c.node k).execute c.shardTerm request fault output).node.replaySql =
      (c.node k).replaySql ++ xs) :
    c.Grows (fun i => if i = k then xs else []) (c.executeOn k request fault output).1 := by
  obtain ⟨-, -, -, hused, hstatus, -, -, hshards⟩ := c.frame_executeOn k request fault output
  have hupdate := c.node_executeOn k request fault output
  have hself : (c.executeOn k request fault output).1.node k =
      ((c.node k).execute c.shardTerm request fault output).node := by
    rw [hupdate, Function.update_self]
  have hother : ∀ i, i ≠ k → (c.executeOn k request fault output).1.node i = c.node i := by
    intro i hi
    rw [hupdate, Function.update_of_ne hi]
  have hinfo : ((c.node k).execute c.shardTerm request fault output).node.currentNodeInfo =
      (c.node k).currentNodeInfo := DataNode.currentNodeInfo_execute ..
  -- the node registers what it has registered before, or nothing
  have hzk : (c.executeOn k request fault output).1.zk = c.zk ∨
      (c.executeOn k request fault output).1.zk =
        c.zk.registerNode (c.node k).currentNodeInfo := by
    unfold executeOn
    dsimp only
    split
    · right
      show c.zk.registerNode (Function.update c.node k _ k).currentNodeInfo = _
      rw [Function.update_self, hinfo]
    · exact Or.inl rfl
  refine ⟨fun i => ?_, fun i => ?_, fun i => ?_, hstatus, c.recoveries_executeOn .., ?_, ?_, ?_, ?_,
    ?_⟩
  · by_cases hi : i = k
    · subst hi
      rwa [hself]
    · rw [hother i hi]
      exact hwhole i
  · by_cases hi : i = k
    · subst hi
      rw [hself, hinfo]
    · rw [hother i hi]
  · by_cases hi : i = k
    · subst hi
      rw [hself, hlist, if_pos rfl]
    · rw [hother i hi, if_neg hi, List.append_nil]
  · exact fun r hr => hused ▸ hr
  · intro s i
    unfold ZkMetadataStore.Places
    rw [hshards]
  · rw [hshards]
  · obtain heq | heq := hzk
    · rwa [heq]
    · rw [heq]
      exact hnamed.registerNode _
  · intro m
    obtain heq | heq := hzk
    · rw [heq]
    · rw [heq, ZkMetadataStore.mem_registerNode_of_mem hnamed hregistered]

/-- The target serves the shard of the write, and the write is new to it. -/
structure Receives (c : Cluster) (d : Dispatch) (t : Target) : Prop where
  registered : (c.node t.nodeId).currentNodeInfo ∈ c.zk.nodes
  accepts : (c.node t.nodeId).Accepts c.shardTerm (d.request t)
  fresh : (c.node t.nodeId).walLog.containsRequestId (some d.requestId) = false
  lines : ∀ x ∈ (c.node t.nodeId).replaySql, x.IsLine

theorem shardTerm_congr (h : c'.zk.shardNodes = c.zk.shardNodes) : c'.shardTerm = c.shardTerm := by
  funext s
  unfold shardTerm ZkMetadataStore.shard
  rw [h]

/-- The coordinator has sent the request of the write to the target and waits for the answer. -/
structure Waits (c : Cluster) (call : Nat) (d : Dispatch) (t : Target) (todo : List Target)
    (c₁ : Cluster) : Prop where
  node : c₁.node = c.node
  zk : c₁.zk = c.zk
  status : c₁.status = c.status
  recoveries : c₁.recoveries = c.recoveries
  usedIds : c₁.usedIds = c.usedIds
  requests : c₁.requests = [⟨call, t, d.request t⟩]
  call : c₁.calls call = some (.waiting { d with todo := todo } t)

/-- After a send the call waits for that answer alone. -/
theorem waits_of_send {call : Nat} {d : Dispatch} {t : Target} {todo : List Target}
    {c₁ : Cluster} (hrequests : c.requests = []) (hcall : c.calls call = some (.sending d))
    (htodo : d.todo = t :: todo) (hsend : c.send call = some c₁) :
    c.Waits call d t todo c₁ := by
  obtain ⟨d', t', todo', hcall', htodo', rfl⟩ := send_eq hsend
  obtain rfl : d = d' := Call.sending.inj (Option.some.inj (hcall.symm.trans hcall'))
  rw [htodo] at htodo'
  obtain ⟨rfl, rfl⟩ := List.cons.inj htodo'
  refine ⟨rfl, rfl, rfl, rfl, rfl, ?_, Function.update_self ..⟩
  show c.requests ++ [_] = _
  rw [hrequests, List.nil_append]

/-- The node executes the request of the write. -/
theorem grows_deliver {call : Nat} {output : String} {d : Dispatch} {t : Target}
    {todo : List Target} {c₁ c₂ : Cluster} (hwhole : ∀ i, (c.node i).Whole)
    (hnamed : c.zk.Named) (hline : d.stmt.IsLine) (hreceives : c.Receives d t)
    (hwaits : c.Waits call d t todo c₁) (hdeliver : c₁.deliver 0 none output = some c₂) :
    c.Grows (fun i => if i = t.nodeId then [d.stmt] else []) c₂ ∧ c₂.requests = [] ∧
      c₂.zk.shardNodes = c.zk.shardNodes ∧ (∀ i, i ≠ t.nodeId → c₂.node i = c.node i) ∧
      c₂.calls = c₁.calls := by
  obtain ⟨e, he, -, rfl⟩ := deliver_eq hdeliver
  rw [hwaits.requests] at he
  obtain rfl := Option.some.inj he
  have hterm : c₁.shardTerm = c.shardTerm := shardTerm_congr (by rw [hwaits.zk])
  obtain ⟨hcalls, -, -, -, -, -, -, hshards⟩ :=
    c₁.frame_executeOn t.nodeId (d.request t) none output
  have hupdate := c₁.node_executeOn t.nodeId (d.request t) none output
  obtain ⟨hnode, hlist⟩ := DataNode.replaySql_execute_of_accepts output
    (hwhole t.nodeId) hreceives.accepts hreceives.fresh hreceives.lines hline
  have hgrows : c₁.Grows (fun i => if i = t.nodeId then [d.stmt] else [])
      (c₁.executeOn t.nodeId (d.request t) none output).1 := by
    refine grows_executeOn (hwaits.node ▸ hwhole) (hwaits.zk ▸ hnamed) ?_ ?_ ?_
    · rw [hwaits.node, hwaits.zk]
      exact hreceives.registered
    · rw [hwaits.node, hterm]
      exact hnode
    · rw [hwaits.node, hterm]
      exact hlist
  have hfirst : c.Grows (fun _ => []) c₁ :=
    .of_node_eq hwhole hnamed hwaits.node hwaits.status hwaits.recoveries
      (fun r hr => hwaits.usedIds ▸ hr) (fun s i => by rw [hwaits.zk]) (by rw [hwaits.zk])
      (by rw [hwaits.zk])
  have hboth := hfirst.trans hgrows
  refine ⟨⟨hboth.whole, hboth.info, hboth.replaySql, hboth.status, hboth.recoveries,
    hboth.usedIds, hboth.places, hboth.shardIds, hboth.named, hboth.registered⟩, ?_, ?_, ?_, hcalls⟩
  · show c₁.requests.eraseIdx 0 = []
    rw [hwaits.requests]
    rfl
  · exact hshards.trans (by rw [hwaits.zk])
  · intro i hi
    show (c₁.executeOn t.nodeId (d.request t) none output).1.node i = _
    rw [hupdate, Function.update_of_ne hi, hwaits.node]

/-- The next send of a write, from the request to the answer. -/
theorem grows_delivery {call : Nat} {output : String} {d : Dispatch} {t : Target}
    {todo : List Target} (hwhole : ∀ i, (c.node i).Whole) (hnamed : c.zk.Named)
    (hrequests : c.requests = []) (hcall : c.calls call = some (.sending d))
    (hline : d.stmt.IsLine) (htodo : d.todo = t :: todo) (hreceives : c.Receives d t)
    (hrun : c.run (delivery call output) = some c') :
    c.Grows (fun i => if i = t.nodeId then [d.stmt] else []) c' ∧ c'.requests = [] ∧
      c'.zk.shardNodes = c.zk.shardNodes ∧ (∀ i, i ≠ t.nodeId → c'.node i = c.node i) ∧
      ∃ responses, c'.calls call = some (.sending
        { d with todo := todo, responses := responses }) := by
  obtain ⟨c₁, hsend, hrun⟩ := Option.bind_eq_some_iff.mp hrun
  obtain ⟨c₂, hdeliver, hrun⟩ := Option.bind_eq_some_iff.mp hrun
  obtain ⟨c₃, hreceive, hrun⟩ := Option.bind_eq_some_iff.mp hrun
  obtain rfl := Option.some.inj hrun
  have hwaits := waits_of_send hrequests hcall htodo hsend
  obtain ⟨hgrows, hrequests₂, hshards, hothers, hcalls⟩ :=
    grows_deliver hwhole hnamed hline hreceives hwaits hdeliver
  -- the answer is recorded
  obtain ⟨d₂, t₂, r, hwaiting, -, -, -, rfl⟩ := receive_eq hreceive
  rw [hcalls, hwaits.call] at hwaiting
  obtain ⟨rfl, rfl⟩ := Call.waiting.inj (Option.some.inj hwaiting)
  exact ⟨⟨hgrows.whole, hgrows.info, hgrows.replaySql, hgrows.status, hgrows.recoveries,
    hgrows.usedIds, hgrows.places, hgrows.shardIds, hgrows.named, hgrows.registered⟩,
    hrequests₂, hshards, hothers, _, Function.update_self ..⟩

/-- The sends of a write, one after another, and the answer to the client. -/
theorem grows_deliveries {call : Nat} {outputs : List String} {d : Dispatch}
    (hdistinct : c.zk.Distinct) (hwhole : ∀ i, (c.node i).Whole) (hnamed : c.zk.Named)
    (hrequests : c.requests = []) (hcall : c.calls call = some (.sending d))
    (hline : d.stmt.IsLine) (hnodup : (d.todo.map (·.nodeId)).Nodup)
    (hreceives : ∀ t ∈ d.todo, c.Receives d t)
    (hrun : c.run (outputs.flatMap (delivery call) ++ [.finish call]) = some c') :
    c.Grows (fun i => if i ∈ d.todo.map (·.nodeId) then [d.stmt] else []) c' ∧
      c'.requests = [] := by
  induction outputs generalizing c d with
  | nil =>
    obtain ⟨c₁, hfinish, hrun⟩ := Option.bind_eq_some_iff.mp hrun
    obtain rfl := Option.some.inj hrun
    obtain ⟨d', hcall', htodo, hcases⟩ := finish_eq hfinish
    obtain rfl : d = d' := Call.sending.inj (Option.some.inj (hcall.symm.trans hcall'))
    have hnone : (fun i => if i ∈ d.todo.map (·.nodeId) then [d.stmt] else []) =
        fun _ : String => ([] : List Stmt) := by
      funext i
      rw [htodo]
      rfl
    rw [hnone]
    obtain ⟨-, -, rfl⟩ | ⟨-, -, rfl⟩ | ⟨-, rfl⟩ := hcases
    · obtain ⟨hplaces, hshardIds, hnodes⟩ :=
        ZkMetadataStore.updateCommitIndex_frame hdistinct d.shardId d.shardLogIndex
      exact ⟨.of_node_eq hwhole hnamed rfl rfl rfl (fun _ => id) hplaces hshardIds hnodes,
        hrequests⟩
    · exact ⟨.of_node_eq hwhole hnamed rfl rfl rfl (fun _ => id) (fun _ _ => Iff.rfl) rfl rfl,
        hrequests⟩
    · exact ⟨.of_node_eq hwhole hnamed rfl rfl rfl (fun _ => id) (fun _ _ => Iff.rfl) rfl rfl,
        hrequests⟩
  | cons output outputs ih =>
    rw [List.flatMap_cons, List.append_assoc, run_append] at hrun
    obtain ⟨c₁, hdelivery, hrun⟩ := Option.bind_eq_some_iff.mp hrun
    -- there is a next target, as the send is possible
    obtain ⟨t, todo, htodo⟩ : ∃ t todo, d.todo = t :: todo := by
      obtain ⟨c₂, hsend, -⟩ := Option.bind_eq_some_iff.mp hdelivery
      obtain ⟨d', t, todo, hcall', htodo, -⟩ := send_eq hsend
      obtain rfl : d = d' := Call.sending.inj (Option.some.inj (hcall.symm.trans hcall'))
      exact ⟨t, todo, htodo⟩
    rw [htodo, List.map_cons, List.nodup_cons] at hnodup
    have ht : t ∈ d.todo := by
      rw [htodo]
      exact List.mem_cons_self
    obtain ⟨hgrows, hrequests₁, hshards, hothers, responses, hcall₁⟩ :=
      grows_delivery hwhole hnamed hrequests hcall hline htodo (hreceives t ht) hdelivery
    have hdistinct₁ : c₁.zk.Distinct := by
      unfold ZkMetadataStore.Distinct
      rw [hshards]
      exact hdistinct
    have hreceives₁ : ∀ t' ∈ todo,
        c₁.Receives { d with todo := todo, responses := responses } t' := by
      intro t' ht'
      have hne : t'.nodeId ≠ t.nodeId := by
        intro heq
        exact hnodup.1 (heq ▸ List.mem_map_of_mem ht')
      have hold := hreceives t' (by rw [htodo]; exact List.mem_cons_of_mem _ ht')
      refine ⟨?_, ?_, ?_, ?_⟩
      · rw [hothers _ hne]
        exact (hgrows.registered _).mpr hold.registered
      · rw [hothers _ hne, shardTerm_congr hshards]
        exact hold.accepts
      · rw [hothers _ hne]
        exact hold.fresh
      · rw [hothers _ hne]
        exact hold.lines
    obtain ⟨hrest, hrequests'⟩ := ih hdistinct₁ hgrows.whole hgrows.named hrequests₁ hcall₁
      hline hnodup.2 hreceives₁ hrun
    refine ⟨?_, hrequests'⟩
    have hboth := hgrows.trans hrest
    have heq : (fun i => (if i = t.nodeId then [d.stmt] else []) ++
        (if i ∈ todo.map (·.nodeId) then [d.stmt] else [])) =
          fun i => if i ∈ d.todo.map (·.nodeId) then [d.stmt] else [] := by
      funext i
      rw [htodo, List.map_cons]
      by_cases hi : i = t.nodeId
      · subst hi
        rw [if_pos rfl, if_neg hnodup.1, if_pos List.mem_cons_self, List.append_nil]
      · rw [if_neg hi, List.nil_append]
        simp [hi]
    exact heq ▸ hboth

theorem calls_setCall (c : Cluster) (call : Nat) (x : Call) :
    (c.setCall call x).calls call = some x := Function.update_self ..

theorem mem_liveIds {i : String} : i ∈ c.liveIds ↔ ∃ m ∈ c.zk.nodes, m.nodeId = i := by
  unfold liveIds ZkMetadataStore.liveNodes
  rw [List.mem_map]
  simp only [List.mem_insertionSort]

/-- Nothing is under way, and exactly the registered nodes run, each of which serves the shards that
it was given. -/
structure Quiet (c : Cluster) (given : Int → String → Prop) : Prop where
  reachable : c.Reachable
  requests : c.requests = []
  recoveries : ∀ r, c.recoveries r = none
  whole : ∀ i, (c.node i).Whole
  listening : ∀ i, c.status i = .listening ↔ i ∈ c.liveIds
  registered : ∀ m ∈ c.zk.nodes, m = (c.node m.nodeId).currentNodeInfo
  serving : ∀ m ∈ c.zk.nodes, m.replicaState = .SERVING
  shards : ∀ m ∈ c.zk.nodes, ∀ s, s ∈ m.shards ↔ given s m.nodeId

/-- The logs have lines with distinct request ids, all of which are used. -/
structure LogsWf (usedIds : List String) (logs : Int → List Stmt) : Prop where
  shard : ∀ s, ∀ x ∈ logs s, x.shardId = s
  line : ∀ s, ∀ x ∈ logs s, x.IsLine
  used : ∀ s, ∀ x ∈ logs s, ∃ r ∈ usedIds, x.requestId = some r
  unique : ∀ s, ∀ x ∈ logs s, ∀ t, ∀ y ∈ logs t, x.requestId = y.requestId → x = y
  nodup : ∀ s, (logs s).Nodup

/-- The cluster is quiet, each node has the beginning of the log of each shard, and a registered
replica has all of it. -/
structure Agrees (c : Cluster) (logs : Int → List Stmt) : Prop where
  quiet : c.Quiet c.zk.Places
  wf : LogsWf c.usedIds logs
  known : ∀ s, logs s ≠ [] → ∃ m ∈ c.zk.shardNodes, m.shardId = s
  isPrefix : ∀ i s, (c.node i).shardSql s <+: logs s
  complete : ∀ s i, c.zk.Places s i → i ∈ c.liveIds → (c.node i).shardSql s = logs s

section Write

variable {logs : Int → List Stmt} {call : Nat} {s : Int} {sql requestId : String}
  {given : Int → String → Prop}

/-- The statements of a node are in the logs. -/
theorem Agrees.mem_logs (h : c.Agrees logs) {i : String} {x : Stmt}
    (hx : x ∈ (c.node i).replaySql) : x ∈ logs x.shardId :=
  (h.isPrefix i x.shardId).subset (List.mem_filter.mpr ⟨hx, decide_eq_true rfl⟩)

/-- A node does not know a request id that has not been used. -/
theorem Agrees.fresh (h : c.Agrees logs) (hunused : requestId ∉ c.usedIds) (i : String) :
    (c.node i).walLog.containsRequestId (some requestId) = false := by
  by_contra hknown
  rw [Bool.not_eq_false] at hknown
  obtain ⟨e, he, hid⟩ := (h.quiet.reachable.wf.nodes i).log.exists_of_containsRequestId hknown
  have hx : e.stmt ∈ (c.node i).replaySql := by
    rw [(h.quiet.whole i).replaySql]
    exact List.mem_map_of_mem he
  obtain ⟨r, hr, heq⟩ := h.wf.used _ _ (h.mem_logs hx)
  obtain rfl : requestId = r := Option.some.inj (hid.symm.trans heq)
  exact hunused hr

/-- The write has its replicas, its index and its request id, and nothing has been sent. -/
structure Dispatched (c : Cluster) (call : Nat) (s : Int) (sql requestId : String)
    (shard : ShardMetadata) (c₁ : Cluster) : Prop where
  node : c₁.node = c.node
  status : c₁.status = c.status
  recoveries : c₁.recoveries = c.recoveries
  requests : c₁.requests = c.requests
  usedIds : c₁.usedIds = requestId :: c.usedIds
  nodes : c₁.zk.nodes = c.zk.nodes
  places : ∀ t i, c₁.zk.Places t i ↔ c.zk.Places t i
  shardIds : c₁.zk.shardNodes.map (·.shardId) = c.zk.shardNodes.map (·.shardId)
  record : c₁.zk.shard s = some shard
  unused : requestId ∉ c.usedIds
  writes : SqlUtils.isReadOnly (SqlUtils.normalize sql) = false
  notBlank : isBlank (SqlUtils.normalize sql) = false
  calls : ∃ index, c₁.calls call = some (Call.dispatch shard (SqlUtils.normalize sql)
    (chooseForWrite shard.replicas c.zk.liveNodes) index requestId)

/-- The three steps that begin a write end in one that is dispatched to the replicas of its shard.
-/
theorem exists_dispatched {c₁ : Cluster} (hdistinct : c.zk.Distinct)
    (hrun : c.run [.write call s sql, .elect call, .allocate call requestId] = some c₁) :
    ∃ shard, c.Dispatched call s sql requestId shard c₁ := by
  obtain ⟨a, hwrite, hrun⟩ := Option.bind_eq_some_iff.mp hrun
  obtain ⟨b, helect, hrun⟩ := Option.bind_eq_some_iff.mp hrun
  obtain ⟨d, hallocate, hrun⟩ := Option.bind_eq_some_iff.mp hrun
  obtain rfl := Option.some.inj hrun
  obtain ⟨-, hwrites, hnotBlank, rfl⟩ := write_eq hwrite
  obtain ⟨s', sql', liveNodes, zk, shard, hcall, hprimary, rfl⟩ := elect_eq helect
  rw [calls_setCall] at hcall
  obtain ⟨rfl, rfl, rfl⟩ := Call.electing.inj (Option.some.inj hcall)
  obtain ⟨hshard, hplaces, hshardIds, hnodes⟩ :=
    ZkMetadataStore.electPrimary_frame hdistinct hprimary
  obtain ⟨shard', sql', replicas, hchosen, -, hunused, rfl⟩ := allocate_eq hallocate
  rw [calls_setCall] at hchosen
  have hchoose := Option.some.inj hchosen
  unfold Call.chooseReplicas at hchoose
  dsimp only at hchoose
  split at hchoose
  · cases hchoose
  obtain ⟨rfl, rfl, rfl⟩ := Call.allocating.inj hchoose
  have hindex : ∀ z : ZkMetadataStore, (z.nextShardLogIndex shard.shardId).1.nodes = z.nodes ∧
      (z.nextShardLogIndex shard.shardId).1.shardNodes = z.shardNodes := by
    intro z
    unfold ZkMetadataStore.nextShardLogIndex
    split
    · exact ⟨rfl, rfl⟩
    · exact ⟨rfl, rfl⟩
  obtain ⟨hnodes', hshards'⟩ := hindex zk
  refine ⟨shard, rfl, rfl, rfl, rfl, rfl, hnodes'.trans hnodes, fun t i => ?_, ?_, ?_, hunused,
    hwrites, hnotBlank, _, calls_setCall ..⟩
  · rw [← hplaces]
    show (∃ m ∈ (zk.nextShardLogIndex shard.shardId).1.shardNodes, _) ↔ _
    rw [hshards']
    rfl
  · show (zk.nextShardLogIndex shard.shardId).1.shardNodes.map _ = _
    rw [hshards', hshardIds]
  · show (zk.nextShardLogIndex shard.shardId).1.shardNodes.find? _ = _
    rw [hshards']
    exact hshard

/-- The replicas that a write is sent to. -/
theorem Quiet.mem_chooseForWrite (h : c.Quiet given) {replicas : List String} {i : String} :
    i ∈ (chooseForWrite replicas c.zk.liveNodes).map (·.nodeId) ↔ i ∈ replicas ∧ i ∈ c.liveIds := by
  have hlive : ∀ m, m ∈ c.zk.liveNodes ↔ m ∈ c.zk.nodes := fun m => List.mem_insertionSort _
  rw [mem_liveIds]
  constructor
  · intro hi
    obtain ⟨m, hm, rfl⟩ := List.mem_map.mp hi
    refine ⟨mem_replicas_of_mem_chooseForWrite hm, m, ?_, rfl⟩
    have hcandidate := (List.mem_insertionSort _).mp (List.mem_filter.mp hm).1
    obtain ⟨r, -, hfind⟩ := List.mem_filterMap.mp hcandidate
    exact (hlive m).mp (List.mem_of_find?_eq_some hfind)
  · intro hi
    obtain ⟨hreplica, m, hm, rfl⟩ := hi
    obtain ⟨m', hfind⟩ : ∃ m', c.zk.liveNodes.find? (fun x => x.nodeId == m.nodeId) = some m' := by
      refine Option.isSome_iff_exists.mp (List.find?_isSome.mpr ⟨m, (hlive m).mpr hm, ?_⟩)
      exact beq_self_eq_true _
    have hid : m'.nodeId = m.nodeId := by simpa using List.find?_some hfind
    have hm' : m' ∈ c.zk.nodes := (hlive m').mp (List.mem_of_find?_eq_some hfind)
    refine List.mem_map.mpr ⟨m', List.mem_filter.mpr ⟨?_, ?_⟩, hid⟩
    · exact (List.mem_insertionSort _).mpr (List.mem_filterMap.mpr ⟨_, hreplica, hfind⟩)
    · rw [h.serving m' hm']
      rfl

/-- `sendRaftStyle` sends to all replicas that were chosen. -/
theorem mem_map_raftTargets {primary : Option String} {replicas : List NodeInfo} {i : String} :
    i ∈ (raftTargets primary replicas).map (·.nodeId) ↔ i ∈ replicas.map (·.nodeId) := by
  constructor
  · intro hi
    obtain ⟨t, ht, rfl⟩ := List.mem_map.mp hi
    obtain ⟨m, hm, hid⟩ := mem_raftTargets ht
    exact List.mem_map.mpr ⟨m, hm, hid⟩
  · intro hi
    obtain ⟨m, hm, rfl⟩ := List.mem_map.mp hi
    unfold raftTargets
    rw [List.map_append, List.mem_append]
    by_cases hprimary : some m.nodeId = primary
    · left
      have hany : replicas.any (fun x => some x.nodeId == primary) = true :=
        List.any_eq_true.mpr ⟨m, hm, by simp [hprimary]⟩
      rw [if_pos hany, ← hprimary]
      simp
    · right
      have hmem : m ∈ replicas.filter (fun x => some x.nodeId != primary) :=
        List.mem_filter.mpr ⟨hm, by simpa using hprimary⟩
      exact List.mem_map.mpr ⟨⟨m.nodeId, true⟩, List.mem_map.mpr ⟨m, hmem, rfl⟩, rfl⟩

/-- A registered replica of the shard takes the write. -/
theorem Agrees.receives (h : c.Agrees logs) {shard : ShardMetadata} {c₁ : Cluster} {d : Dispatch}
    {t : Target} (hc₁ : c.Dispatched call s sql requestId shard c₁)
    (hplaced : c.zk.Places s t.nodeId) (hlive : t.nodeId ∈ c.liveIds)
    (hid : d.requestId = requestId) (hshard : d.shardId = s) (hterm : d.raftTerm = shard.term)
    (hsql : d.sql = SqlUtils.normalize sql) : c₁.Receives d t := by
  subst hid hshard
  obtain ⟨m, hm, hnode⟩ := mem_liveIds.mp hlive
  have hinfo : (c.node t.nodeId).currentNodeInfo = m := by
    rw [← hnode]
    exact (h.quiet.registered m hm).symm
  refine ⟨?_, Or.inr ⟨?_, ?_, ?_⟩, ?_, ?_⟩
  · rw [hc₁.node, hc₁.nodes, hinfo]
    exact hm
  · show SqlUtils.isReadOnly (SqlUtils.normalize d.sql) = false
    rw [hsql, SqlUtils.normalize_normalize]
    exact hc₁.writes
  · have howned : d.shardId ∈ m.shards := (h.quiet.shards m hm d.shardId).mpr (hnode ▸ hplaced)
    rw [← hinfo] at howned
    rw [hc₁.node]
    exact Bool.or_eq_true_iff.mpr (Or.inr (List.contains_iff_mem.mpr howned))
  · show (c₁.zk.shard d.shardId).map (·.term) = some d.raftTerm
    rw [hc₁.record, hterm]
    rfl
  · rw [hc₁.node]
    exact h.fresh hc₁.unused t.nodeId
  · rw [hc₁.node]
    exact fun x hx => h.wf.line _ x (h.mem_logs hx)

/-- A write that is not rejected is being sent. -/
theorem exists_sending {outputs : List String} {c₁ : Cluster}
    (hrun : c₁.run (outputs.flatMap (delivery call) ++ [.finish call]) = some c') :
    ∃ d, c₁.calls call = some (.sending d) := by
  cases outputs with
  | nil =>
    obtain ⟨_, hfinish, -⟩ := Option.bind_eq_some_iff.mp hrun
    obtain ⟨d, hcall, -⟩ := finish_eq hfinish
    exact ⟨d, hcall⟩
  | cons output outputs =>
    obtain ⟨_, hsend, -⟩ := Option.bind_eq_some_iff.mp hrun
    obtain ⟨d, _, _, hcall, -⟩ := send_eq hsend
    exact ⟨d, hcall⟩

/-- A whole write: the registered replicas of the shard have one statement more. -/
theorem Agrees.grows_serialWrite {outputs : List String} (h : c.Agrees logs)
    (hline : ∀ ch ∈ (writeStmt s sql requestId).sql.toList, isLineTerminator ch = false)
    (hrun : c.run (serialWrite call s sql requestId outputs) = some c') :
    (∃ m ∈ c.zk.shardNodes, m.shardId = s) ∧ (writeStmt s sql requestId).IsLine ∧
      requestId ∉ c.usedIds ∧ requestId ∈ c'.usedIds ∧ c'.requests = [] ∧
      c.Grows (fun i => if c.zk.Places s i ∧ i ∈ c.liveIds then [writeStmt s sql requestId]
        else []) c' := by
  have hdistinct := h.quiet.reachable.ticketInv.zk
  have hnamed := h.quiet.reachable.addressInv.nodes
  unfold serialWrite at hrun
  rw [List.append_assoc, run_append] at hrun
  obtain ⟨c₁, hbegin, hrun⟩ := Option.bind_eq_some_iff.mp hrun
  obtain ⟨shard, hc₁⟩ := exists_dispatched hdistinct hbegin
  obtain ⟨d, hsending⟩ := exists_sending hrun
  obtain ⟨index, hcall⟩ := hc₁.calls
  have hd := Option.some.inj (hcall.symm.trans hsending)
  unfold Call.dispatch at hd
  split at hd
  · rename_i hnodup
    obtain rfl := Call.sending.inj hd
    have hid := ZkMetadataStore.shardId_of_shard hc₁.record
    have hdistinct₁ : c₁.zk.Distinct := by
      unfold ZkMetadataStore.Distinct
      rw [hc₁.shardIds]
      exact hdistinct
    have hplaces : ∀ i, c.zk.Places s i ↔ i ∈ shard.replicas := by
      intro i
      rw [← hc₁.places, hdistinct₁.places_iff hc₁.record]
    have hmem : ∀ i, i ∈ (raftTargets shard.primary
        (chooseForWrite shard.replicas c.zk.liveNodes)).map (·.nodeId) ↔
          c.zk.Places s i ∧ i ∈ c.liveIds := by
      intro i
      rw [mem_map_raftTargets, h.quiet.mem_chooseForWrite, hplaces]
    have hstmt : (Dispatch.stmt
        { requestId := requestId
          shardId := shard.shardId
          shardLogIndex := index
          raftTerm := shard.term
          sql := SqlUtils.normalize sql
          members := shard.replicas
          todo := raftTargets shard.primary (chooseForWrite shard.replicas c.zk.liveNodes) }) =
        writeStmt s sql requestId := by
      unfold Dispatch.stmt writeStmt
      rw [hid, SqlUtils.normalize_normalize]
    have hisLine : (writeStmt s sql requestId).IsLine := ⟨hline, hc₁.notBlank⟩
    have hnamed₁ : c₁.zk.Named := by
      unfold ZkMetadataStore.Named
      rw [hc₁.nodes]
      exact hnamed
    have hwhole₁ : ∀ i, (c₁.node i).Whole := hc₁.node ▸ h.quiet.whole
    -- each target is up and appends the statement
    obtain ⟨hgrows, hrequests⟩ := grows_deliveries hdistinct₁ hwhole₁ hnamed₁
      (hc₁.requests.trans h.quiet.requests) hsending (hstmt ▸ hisLine) (nodup_raftTargets hnodup)
      (fun t ht => h.receives hc₁ ((hmem _).mp (List.mem_map_of_mem ht)).1
        ((hmem _).mp (List.mem_map_of_mem ht)).2 rfl hid rfl rfl) hrun
    have hfirst : c.Grows (fun _ => []) c₁ :=
      .of_node_eq h.quiet.whole hnamed hc₁.node hc₁.status hc₁.recoveries
        (fun r hr => hc₁.usedIds ▸ List.mem_cons_of_mem _ hr) hc₁.places hc₁.shardIds hc₁.nodes
    refine ⟨?_, hisLine, hc₁.unused, ?_, hrequests, ?_⟩
    · -- the records of the shards have the same ids
      have hs : s ∈ c₁.zk.shardNodes.map (·.shardId) :=
        List.mem_map.mpr ⟨shard, List.mem_of_find?_eq_some hc₁.record, hid⟩
      rw [hc₁.shardIds] at hs
      obtain ⟨m, hm, heq⟩ := List.mem_map.mp hs
      exact ⟨m, hm, heq⟩
    · exact hgrows.usedIds _ (hc₁.usedIds ▸ List.mem_cons_self)
    · have hboth := hfirst.trans hgrows
      have heq : (fun i => ([] : List Stmt) ++ (if i ∈ (raftTargets shard.primary
          (chooseForWrite shard.replicas c.zk.liveNodes)).map (·.nodeId) then
            [writeStmt s sql requestId] else [])) =
          fun i => if c.zk.Places s i ∧ i ∈ c.liveIds then [writeStmt s sql requestId] else [] := by
        funext i
        rw [List.nil_append]
        exact if_congr (hmem i) rfl rfl
      rw [hstmt] at hboth
      exact heq ▸ hboth
  · -- a node id that occurs twice: nothing would be sent
    cases hd

/-- A quiet cluster whose nodes have grown is quiet when no request is left. -/
theorem Quiet.of_grows (h : c.Quiet c.zk.Places) (hgrows : c.Grows grown c')
    (hreachable : c'.Reachable) (hrequests : c'.requests = []) : c'.Quiet c'.zk.Places where
  reachable := hreachable
  requests := hrequests
  recoveries r := by rw [hgrows.recoveries, h.recoveries]
  whole := hgrows.whole
  listening i := by
    rw [hgrows.status, h.listening, mem_liveIds, mem_liveIds]
    simp only [hgrows.registered]
  registered m hm := by
    rw [hgrows.info]
    exact h.registered m ((hgrows.registered m).mp hm)
  serving m hm := h.serving m ((hgrows.registered m).mp hm)
  shards m hm t := by rw [hgrows.places, h.shards m ((hgrows.registered m).mp hm)]

theorem Grows.shardSql (h : c.Grows grown c') (i : String) (t : Int) : (c'.node i).shardSql t =
    (c.node i).shardSql t ++ (grown i).filter (·.shardId = t) := by
  unfold DataNode.shardSql
  rw [h.replaySql, List.filter_append]

theorem Grows.mem_liveIds_iff (h : c.Grows grown c') (i : String) :
    i ∈ c'.liveIds ↔ i ∈ c.liveIds := by
  rw [mem_liveIds, mem_liveIds]
  simp only [h.registered]

theorem Grows.known (h : c.Grows grown c') {t : Int} (ht : ∃ m ∈ c.zk.shardNodes, m.shardId = t) :
    ∃ m ∈ c'.zk.shardNodes, m.shardId = t := by
  have hmem : t ∈ c'.zk.shardNodes.map (·.shardId) := by
    rw [h.shardIds]
    exact List.mem_map.mpr ht
  exact List.mem_map.mp hmem

/-- An operation that logs nothing. -/
theorem Agrees.of_grows_nil (h : c.Agrees logs) (hgrows : c.Grows (fun _ => []) c')
    (hquiet : c'.Quiet c'.zk.Places) (husedIds : c'.usedIds = c.usedIds) : c'.Agrees logs where
  quiet := hquiet
  wf := husedIds ▸ h.wf
  known t ht := hgrows.known (h.known t ht)
  isPrefix i t := by
    rw [hgrows.shardSql, List.filter_nil, List.append_nil]
    exact h.isPrefix i t
  complete t i hplaced hlive := by
    rw [hgrows.shardSql, List.filter_nil, List.append_nil]
    exact h.complete t i ((hgrows.places t i).mp hplaced) ((hgrows.mem_liveIds_iff i).mp hlive)

theorem mem_update_append {t : Int} {x y : Stmt} :
    y ∈ Function.update logs s (logs s ++ [x]) t ↔ y ∈ logs t ∨ (t = s ∧ y = x) := by
  by_cases ht : t = s
  · subst ht
    rw [Function.update_self, List.mem_append, List.mem_singleton]
    simp
  · rw [Function.update_of_ne ht]
    simp [ht]

/-- A statement with a new request id at the end of a log. -/
theorem LogsWf.append {usedIds usedIds' : List String} {x : Stmt} {r : String}
    (h : LogsWf usedIds logs) (hshard : x.shardId = s) (hline : x.IsLine)
    (hid : x.requestId = some r) (hunused : r ∉ usedIds) (hkeeps : ∀ q ∈ usedIds, q ∈ usedIds')
    (hused : r ∈ usedIds') : LogsWf usedIds' (Function.update logs s (logs s ++ [x])) := by
  -- no statement of the logs has the new id
  have hother : ∀ t, ∀ y ∈ logs t, y.requestId ≠ x.requestId := by
    intro t y hy heq
    obtain ⟨q, hq, hqid⟩ := h.used t y hy
    rw [hqid, hid] at heq
    exact hunused (Option.some.inj heq ▸ hq)
  refine ⟨fun t y hy => ?_, fun t y hy => ?_, fun t y hy => ?_, fun t y hy u z hz heq => ?_,
    fun t => ?_⟩
  · obtain hy | ⟨rfl, rfl⟩ := mem_update_append.mp hy
    · exact h.shard t y hy
    · exact hshard
  · obtain hy | ⟨-, rfl⟩ := mem_update_append.mp hy
    · exact h.line t y hy
    · exact hline
  · obtain hy | ⟨-, rfl⟩ := mem_update_append.mp hy
    · obtain ⟨q, hq, hqid⟩ := h.used t y hy
      exact ⟨q, hkeeps q hq, hqid⟩
    · exact ⟨r, hused, hid⟩
  · obtain hold | ⟨-, hnew⟩ := mem_update_append.mp hy
    · obtain hold' | ⟨-, hnew'⟩ := mem_update_append.mp hz
      · exact h.unique t y hold u z hold' heq
      · exact absurd (hnew' ▸ heq) (hother t y hold)
    · obtain hold' | ⟨-, hnew'⟩ := mem_update_append.mp hz
      · exact absurd (hnew ▸ heq).symm (hother u z hold')
      · rw [hnew, hnew']
  · by_cases ht : t = s
    · subst ht
      rw [Function.update_self]
      refine List.nodup_append.mpr ⟨h.nodup t, List.nodup_singleton x, fun y hy z hz heq => ?_⟩
      rw [List.mem_singleton] at hz
      exact hother t y hy (by rw [heq, hz])
    · rw [Function.update_of_ne ht]
      exact h.nodup t

theorem reachable_run {actions : List Action} (h : c.Reachable)
    (hrun : c.run actions = some c') : c'.Reachable := by
  obtain ⟨nodeIds, shardCount, rf, before, hsteps⟩ := h
  exact ⟨nodeIds, shardCount, rf, before ++ actions, hsteps.append (steps_of_run hrun)⟩

/-- A write adds its statement to the log of its shard. -/
theorem Agrees.serialWrite {outputs : List String} (h : c.Agrees logs)
    (hline : ∀ ch ∈ (writeStmt s sql requestId).sql.toList, isLineTerminator ch = false)
    (hrun : c.run (serialWrite call s sql requestId outputs) = some c') :
    c'.Agrees (Function.update logs s (logs s ++ [writeStmt s sql requestId])) := by
  obtain ⟨hknown, hisLine, hunused, hused, hrequests, hgrows⟩ := h.grows_serialWrite hline hrun
  have hquiet := h.quiet.of_grows hgrows (reachable_run h.quiet.reachable hrun) hrequests
  have hshardSql : ∀ i t, (c'.node i).shardSql t = (c.node i).shardSql t ++
      if t = s ∧ c.zk.Places s i ∧ i ∈ c.liveIds then [writeStmt s sql requestId] else [] := by
    intro i t
    rw [hgrows.shardSql]
    by_cases ht : t = s
    · subst ht
      by_cases hi : c.zk.Places t i ∧ i ∈ c.liveIds
      · simp [hi, writeStmt]
      · simp [hi]
    · have hne : s ≠ t := fun heq => ht heq.symm
      by_cases hi : c.zk.Places s i ∧ i ∈ c.liveIds
      · simp [hi, ht, hne, writeStmt]
      · simp [hi, ht]
  refine ⟨hquiet, h.wf.append rfl hisLine rfl hunused hgrows.usedIds hused, fun t ht => ?_,
    fun i t => ?_, fun t i hplaced hlive => ?_⟩
  · by_cases hts : t = s
    · subst hts
      exact hgrows.known hknown
    · rw [Function.update_of_ne hts] at ht
      exact hgrows.known (h.known t ht)
  · rw [hshardSql]
    by_cases hts : t = s
    · subst hts
      rw [Function.update_self]
      by_cases hi : c.zk.Places t i ∧ i ∈ c.liveIds
      · have hlist : (c.node i).shardSql t = logs t := h.complete t i hi.1 hi.2
        simp [hi, hlist]
      · rw [if_neg fun hand => hi hand.2, List.append_nil]
        exact (h.isPrefix i t).trans (List.prefix_append _ _)
    · rw [if_neg fun hand => hts hand.1, List.append_nil, Function.update_of_ne hts]
      exact h.isPrefix i t
  · rw [hshardSql]
    have hold :=
      h.complete t i ((hgrows.places t i).mp hplaced) ((hgrows.mem_liveIds_iff i).mp hlive)
    by_cases hts : t = s
    · subst hts
      rw [if_pos ⟨rfl, (hgrows.places t i).mp hplaced, (hgrows.mem_liveIds_iff i).mp hlive⟩, hold,
        Function.update_self]
    · rw [if_neg fun hand => hts hand.1, List.append_nil, Function.update_of_ne hts, hold]

/-- A read leaves the list of the node as it is; it may take a snapshot. -/
theorem replaySql_execute_read {n : DataNode} (shardTerm : Int → Option Nat) (output : String)
    (hwhole : n.Whole) (hread : SqlUtils.isReadOnly (SqlUtils.normalize sql) = true)
    (hlines : ∀ x ∈ n.replaySql, x.IsLine) :
    (n.execute shardTerm (readRequest sql) none output).node.Whole ∧
      (n.execute shardTerm (readRequest sql) none output).node.replaySql = n.replaySql ++ [] := by
  have hsame := logRequest_readRequest n shardTerm hread
  have hwhole' : (n.execute shardTerm (readRequest sql) none output).node.Whole :=
    hwhole.execute (by rw [hsame]; exact DataNode.storesExactly_of_lines hlines) none output
  refine ⟨hwhole', ?_⟩
  rw [hwhole'.replaySql, hwhole.replaySql, List.append_nil]
  obtain heq | ⟨written, heq⟩ := n.execute_node_cases shardTerm (readRequest sql) none output
  · rw [heq, hsame]
  · rw [heq, DataNode.history_maybeSnapshot, hsame]
    cases written with
    | none => rfl
    | some e => rfl

/-- A read logs nothing. -/
theorem Agrees.read {nodeId output : String} (h : c.Agrees logs)
    (hread : c.query nodeId sql none output = some c') : c'.Agrees logs := by
  have hrun : c.run [.query nodeId sql none output] = some c' :=
    Option.bind_eq_some_iff.mpr ⟨c', hread, rfl⟩
  have hreachable := reachable_run h.quiet.reachable hrun
  obtain ⟨hreadOnly, hstatus, heq⟩ := query_eq hread
  obtain ⟨m, hm, hid⟩ := mem_liveIds.mp ((h.quiet.listening nodeId).mp hstatus)
  have hregistered : (c.node nodeId).currentNodeInfo ∈ c.zk.nodes := by
    rw [← hid, ← h.quiet.registered m hm]
    exact hm
  obtain ⟨hwhole, hlist⟩ := replaySql_execute_read c.shardTerm output
    (h.quiet.whole nodeId) hreadOnly fun x hx => h.wf.line _ x (h.mem_logs hx)
  have hgrows := grows_executeOn h.quiet.whole h.quiet.reachable.addressInv.nodes hregistered
    hwhole hlist
  obtain ⟨-, hrequests, -, husedIds, -⟩ :=
    c.frame_executeOn nodeId (readRequest sql) none output
  rw [← heq] at hgrows hrequests husedIds
  have hnothing : (fun i => if i = nodeId then ([] : List Stmt) else []) = fun _ => [] := by
    funext i
    exact ite_self []
  rw [hnothing] at hgrows
  exact h.of_grows_nil hgrows
    (h.quiet.of_grows hgrows hreachable (hrequests.trans h.quiet.requests)) husedIds

/-- A snapshot logs nothing. -/
theorem Agrees.snapshot {nodeId : String} (h : c.Agrees logs)
    (hsnapshot : c.adminSnapshot nodeId = some c') : c'.Agrees logs := by
  have hrun : c.run [.adminSnapshot nodeId] = some c' :=
    Option.bind_eq_some_iff.mpr ⟨c', hsnapshot, rfl⟩
  have hreachable := reachable_run h.quiet.reachable hrun
  obtain ⟨-, rfl⟩ := adminSnapshot_eq hsnapshot
  have hwhole := h.quiet.whole nodeId
  have hwhole' : (c.node nodeId).adminSnapshot.Whole := by
    refine hwhole.adminSnapshot (DataNode.storesExactly_of_lines fun x hx => ?_)
    exact h.wf.line _ x (h.mem_logs hx)
  have hlist : (c.node nodeId).adminSnapshot.replaySql = (c.node nodeId).replaySql := by
    rw [hwhole'.replaySql, hwhole.replaySql]
    rfl
  have hnode : ∀ i, (c.setNode nodeId (c.node nodeId).adminSnapshot).node i =
      if i = nodeId then (c.node i).adminSnapshot else c.node i := by
    intro i
    by_cases hi : i = nodeId
    · subst hi
      rw [if_pos rfl]
      exact Function.update_self ..
    · rw [if_neg hi]
      exact Function.update_of_ne hi ..
  have hgrows : c.Grows (fun _ => []) (c.setNode nodeId (c.node nodeId).adminSnapshot) := by
    refine ⟨fun i => ?_, fun i => ?_, fun i => ?_, rfl, rfl, fun _ => id, fun _ _ => Iff.rfl, rfl,
      h.quiet.reachable.addressInv.nodes, fun _ => Iff.rfl⟩
    · rw [hnode]
      split
      · rename_i hi
        subst hi
        exact hwhole'
      · exact h.quiet.whole i
    · rw [hnode]
      split
      · rfl
      · rfl
    · rw [hnode, List.append_nil]
      split
      · rename_i hi
        subst hi
        exact hlist
      · rfl
  exact h.of_grows_nil hgrows (h.quiet.of_grows hgrows hreachable h.quiet.requests) rfl

end Write

end Cluster

end DisMiniSql.Distributed
