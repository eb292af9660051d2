import DisMiniSql.Proofs.Distributed.LogOrder

/-!
# Where the statements of the nodes come from

A request can be lost, delivered late, taken over by a recovery from another node, compacted into a
snapshot and handed on with it. Whatever happens to it, it stays the write that it was:

* `every_statement_was_sent`: each entry of each log, and each statement that a node would replay,
  is the normalized text of a write that a client has sent, for the shard that the client has named.
  A statement of a snapshot may be one line of it.
* `entries_agree`: two entries with one request id, on any two nodes, are the same write.

`Issued` is what a call sends, and no step changes it (`step_issued`). `Sources` says that all that
the network, the logs, the snapshots and the running recoveries hold was issued by a call. `Asked`
goes on from the call to the client, so it speaks of the actions of the run.
-/

set_option autoImplicit false

namespace DisMiniSql.Distributed

open DisMiniSql.Lib (Steps)

/-- The write of a call: what all of its requests say. -/
structure Issued where
  requestId : String
  shardId : Int
  shardLogIndex : Nat
  sql : String
  deriving DecidableEq

/-- The write that is being sent. -/
def Dispatch.issued (d : Dispatch) : Issued where
  requestId := d.requestId
  shardId := d.shardId
  shardLogIndex := d.shardLogIndex
  sql := d.sql

/-- The write of a call, once it has a request id. -/
def Call.issued? : Call → Option Issued
  | .sending d => some d.issued
  | .waiting d _ => some d.issued
  | .replied d _ => some d.issued
  | _ => none

/-- The text is that of the write, or one of its lines. -/
def Issued.Text (w : Issued) (sql : String) : Prop :=
  sql = SqlUtils.normalize w.sql ∨ sql.toList ∈ lines (SqlUtils.normalize w.sql).toList

/-- The entry is the write, under any sequence number. -/
def Issued.IsEntry (w : Issued) (e : WalEntry) : Prop :=
  e.requestId = some w.requestId ∧ e.shardId = w.shardId ∧ e.shardLogIndex = w.shardLogIndex ∧
    e.sql = SqlUtils.normalize w.sql

/-- The statement is the write, or a line of it. -/
def Issued.IsStmt (w : Issued) (x : Stmt) : Prop :=
  x.requestId = some w.requestId ∧ x.shardId = w.shardId ∧ w.Text x.sql

namespace Issued

variable {w : Issued} {e : WalEntry} {x y : Stmt}

theorem IsEntry.stmt (h : w.IsEntry e) : w.IsStmt e.stmt := ⟨h.1, h.2.1, .inl h.2.2.2⟩

/-- The text is normalized once more when an entry is taken over. -/
theorem IsEntry.localEntry (h : w.IsEntry e) (l : WalLog) : w.IsEntry (l.localEntry e) := by
  obtain ⟨hid, hshard, hindex, hsql⟩ := h
  refine ⟨hid, hshard, hindex, ?_⟩
  show SqlUtils.normalize e.sql = _
  rw [hsql, SqlUtils.normalize_normalize]

/-- The lines of a line are the line. -/
theorem lines_of_mem_lines {l : List Char} {s : List Char} (h : l ∈ lines s) : lines l = [l] :=
  lines_of_not_isLineTerminator (not_isLineTerminator_of_mem_lines h)

theorem fields_of_mem_number {k : Nat} {ls : List (List Char)} (hy : y ∈ Stmt.number x k ls) :
    y.requestId = x.requestId ∧ y.shardId = x.shardId := by
  induction ls generalizing k with
  | nil => cases hy
  | cons l ls ih =>
    rw [Stmt.number] at hy
    rcases List.mem_cons.mp hy with rfl | hy
    · exact ⟨rfl, rfl⟩
    · exact ih hy

/-- A snapshot has the lines of a statement. -/
theorem IsStmt.toLines (h : w.IsStmt x) (hy : y ∈ x.toLines) : w.IsStmt y := by
  obtain ⟨hid, hshard, htext⟩ := h
  obtain ⟨hyid, hyshard⟩ := fields_of_mem_number hy
  obtain ⟨l, hl, hsql⟩ := Stmt.sql_of_mem_number hy
  refine ⟨hyid.trans hid, hyshard.trans hshard, .inr ?_⟩
  rw [hsql, String.toList_ofList]
  rcases htext with heq | hline
  · rwa [heq] at hl
  · rw [lines_of_mem_lines hline] at hl
    rwa [List.mem_singleton.mp hl]

end Issued

/-! ## Nodes -/

/-- The entries and the statements of the node come from writes that `P` holds of. -/
structure DataNode.From (P : Issued → Prop) (n : DataNode) : Prop where
  entries : ∀ e ∈ n.walLog.walFile, ∃ w, P w ∧ w.IsEntry e
  snapshot : ∀ x ∈ n.snapshotManager.snapshotSqlFile, ∃ w, P w ∧ w.IsStmt x

/-- The same of a recovery state. -/
structure RecoveryState.From (P : Issued → Prop) (rs : RecoveryState) : Prop where
  entries : ∀ e ∈ rs.walEntries, ∃ w, P w ∧ w.IsEntry e
  snapshot : ∀ x ∈ rs.snapshotSql, ∃ w, P w ∧ w.IsStmt x

theorem RecoveryState.From.mono {P Q : Issued → Prop} {rs : RecoveryState} (h : rs.From P)
    (hPQ : ∀ w, P w → Q w) : rs.From Q where
  entries := fun e he => (h.entries e he).imp fun w hw => ⟨hPQ w hw.1, hw.2⟩
  snapshot := fun x hx => (h.snapshot x hx).imp fun w hw => ⟨hPQ w hw.1, hw.2⟩

namespace DataNode.From

variable {P Q : Issued → Prop} {n : DataNode}

theorem mono (h : n.From P) (hPQ : ∀ w, P w → Q w) : n.From Q where
  entries := fun e he => (h.entries e he).imp fun w hw => ⟨hPQ w hw.1, hw.2⟩
  snapshot := fun x hx => (h.snapshot x hx).imp fun w hw => ⟨hPQ w hw.1, hw.2⟩

theorem snapshotSql (h : n.From P) {x : Stmt} (hx : x ∈ n.snapshotManager.snapshotSql) :
    ∃ w, P w ∧ w.IsStmt x :=
  h.snapshot x (List.mem_filter.mp hx).1

theorem recoveryState (h : n.From P) : n.recoveryState.From P where
  entries := fun e he => h.entries e (WalLog.mem_readAll.mp he)
  snapshot := fun _ hx => h.snapshotSql hx

theorem replaySql (h : n.From P) {x : Stmt} (hx : x ∈ n.replaySql) : ∃ w, P w ∧ w.IsStmt x := by
  rcases List.mem_append.mp hx with hx | hx
  · exact h.snapshotSql hx
  · obtain ⟨e, he, rfl⟩ := List.mem_map.mp hx
    have hfile := (List.mem_filter.mp (List.mem_filter.mp he).1).1
    obtain ⟨w, hw, hentry⟩ := h.entries e (WalLog.mem_readAll.mp hfile)
    exact ⟨w, hw, hentry.stmt⟩

theorem logs (h : n.From P) {e : WalEntry} (he : ∃ w, P w ∧ w.IsEntry e) : (n.logs e).From P where
  entries := by
    intro d hd
    rcases List.mem_append.mp hd with hd | hd
    · exact h.entries d hd
    · rwa [List.mem_singleton.mp hd]
  snapshot := h.snapshot

/-- A new snapshot has the lines of what it is made of, and the log has no new entries. -/
theorem createSnapshot (h : n.From P) {k s : Nat} {appliedSql : List Stmt}
    (happlied : ∀ x ∈ appliedSql, ∃ w, P w ∧ w.IsStmt x) :
    DataNode.From P { n with
      snapshotManager := n.snapshotManager.createSnapshot k appliedSql
      walLog := n.walLog.compactThrough s } where
  entries := fun e he => h.entries e (WalLog.mem_compactThrough.mp he).1
  snapshot := by
    intro y hy
    obtain ⟨x, hx, hline⟩ := List.mem_flatMap.mp hy
    obtain ⟨w, hw, hstmt⟩ := happlied x hx
    exact ⟨w, hw, hstmt.toLines hline⟩

/-- The snapshot that there is, and entries of the log. -/
theorem applied (h : n.From P) {entries : List WalEntry}
    (hsub : ∀ e ∈ entries, e ∈ n.walLog.readAll) :
    ∀ x ∈ n.snapshotManager.snapshotSql ++ entries.map WalEntry.stmt, ∃ w, P w ∧ w.IsStmt x := by
  intro x hx
  rcases List.mem_append.mp hx with hx | hx
  · exact h.snapshotSql hx
  · obtain ⟨e, he, rfl⟩ := List.mem_map.mp hx
    obtain ⟨w, hw, hentry⟩ := h.entries e (WalLog.mem_readAll.mp (hsub e he))
    exact ⟨w, hw, hentry.stmt⟩

theorem maybeSnapshot (h : n.From P) : n.maybeSnapshot.From P := by
  unfold DataNode.maybeSnapshot
  dsimp only
  split
  · exact h
  · exact h.createSnapshot (h.applied fun e he => (List.mem_filter.mp he).1)

theorem adminSnapshot (h : n.From P) : n.adminSnapshot.From P :=
  h.createSnapshot (h.applied fun _ he => he)

theorem createPeerSnapshot (h : n.From P) {rs : RecoveryState} (hrs : rs.From P) :
    (n.createPeerSnapshot rs).From P where
  entries := h.entries
  snapshot := by
    intro y hy
    obtain ⟨x, hx, hline⟩ := List.mem_flatMap.mp hy
    obtain ⟨w, hw, hstmt⟩ := hrs.snapshot x hx
    exact ⟨w, hw, hstmt.toLines hline⟩

theorem advanceLastSequence (h : n.From P) (s : Nat) : (n.advanceLastSequence s).From P := by
  refine ⟨?_, h.snapshot⟩
  unfold DataNode.advanceLastSequence WalLog.advanceLastSequence
  split
  · exact h.entries
  · exact h.entries

theorem applyPendingWal (h : n.From P) : n.applyPendingWal.From P := by
  unfold DataNode.applyPendingWal
  split
  · exact h
  · exact ⟨h.entries, h.snapshot⟩

theorem appendRecovered (h : n.From P) {e : WalEntry} (he : ∃ w, P w ∧ w.IsEntry e) :
    (n.appendRecovered e).From P := by
  obtain ⟨heq, -⟩ | ⟨-, heq⟩ := DataNode.appendRecovered_cases n e
  · rw [heq]
    exact h
  · rw [heq]
    obtain ⟨w, hw, hentry⟩ := he
    exact h.logs ⟨w, hw, hentry.localEntry n.walLog⟩

/-- The request is the write. -/
theorem execute (h : n.From P) {shardTerm : Int → Option Nat} {request : ExecuteRequest}
    {fault : Option ExecuteFault} {output : String}
    (hrequest : (n.logRequest shardTerm request).1 = n ∨ ∃ w, P w ∧
      request.requestId = some w.requestId ∧ request.shardId = w.shardId ∧
        request.shardLogIndex = w.shardLogIndex ∧ request.sql = w.sql) :
    (n.execute shardTerm request fault output).node.From P := by
  have hlogged : (n.logRequest shardTerm request).1.From P := by
    rcases hrequest with heq | ⟨w, hw, hid, hshard, hindex, hsql⟩
    · rw [heq]
      exact h
    · obtain heq | ⟨e, ⟨-, heid, heshard, heindex, hesql⟩, heq⟩ :=
        n.logRequest_cases shardTerm request
      · rw [heq]
        exact h
      · rw [heq]
        refine h.logs ⟨w, hw, heid.trans hid, heshard.trans hshard, heindex.trans hindex, ?_⟩
        rw [hesql, hsql]
  obtain heq | ⟨written, heq⟩ := n.execute_node_cases shardTerm request fault output
  · rw [heq]
    exact hlogged
  · rw [heq]
    refine maybeSnapshot ?_
    cases written with
    | none => exact hlogged
    | some e => exact ⟨hlogged.entries, hlogged.snapshot⟩

end DataNode.From

namespace Cluster

variable {c c' : Cluster} {a : Action} {done actions : List Action}

/-! ## Calls -/

/-- The write of a call of the cluster. -/
def issuedBy (c : Cluster) (call : Nat) : Option Issued := (c.calls call).bind Call.issued?

/-- Some call has issued the write. -/
def HasIssued (c : Cluster) (w : Issued) : Prop := ∃ call, c.issuedBy call = some w

theorem issuedBy_setCall (c : Cluster) (call : Nat) (x : Call) (k : Nat) :
    (c.setCall call x).issuedBy k = if k = call then x.issued? else c.issuedBy k := by
  unfold issuedBy setCall
  by_cases hk : k = call
  · subst hk
    simp
  · simp [hk]

/-- A step of a call that is at `x` and goes on to `y`, which is the same write. -/
theorem issuedBy_keep {call : Nat} {x y : Call} (hx : c.calls call = some x)
    (hxy : y.issued? = x.issued?) (hcalls : c'.calls = c.calls) (k : Nat) :
    (c'.setCall call y).issuedBy k = c.issuedBy k := by
  rw [issuedBy_setCall]
  split
  · next hk =>
    rw [hk, hxy]
    simp [issuedBy, hx]
  · unfold issuedBy
    rw [hcalls]

/-- The write of a call never changes. A new one has a request id that was not used before. -/
theorem step_issued (h : c.step a = some c') (k : Nat) :
    c'.issuedBy k = c.issuedBy k ∨ ∃ w, a.call = some k ∧ c.issuedBy k = none ∧
      c'.issuedBy k = some w ∧ w.requestId ∉ c.usedIds ∧ w.requestId ∈ c'.usedIds := by
  -- only a step of the call itself issues its write
  by_cases ha : a.call = some k
  case neg =>
    left
    unfold issuedBy
    rw [step_calls h ha]
  cases stepCases_of_step h with
  | write hnone _ =>
    left
    rw [issuedBy_setCall]
    split
    · next hk =>
      subst hk
      simp [issuedBy, hnone, Call.issued?]
    · rfl
  | elect hcall _ =>
    refine .inl (issuedBy_keep hcall ?_ rfl k)
    unfold Call.chooseReplicas
    dsimp only
    split <;> rfl
  | @allocate _ requestId sql shard replicas hcall hnew =>
    by_cases hnodup : (replicas.map (·.nodeId)).Nodup
    · right
      cases ha
      refine ⟨⟨requestId, shard.shardId, (c.zk.nextShardLogIndex shard.shardId).2, sql⟩, rfl,
        ?_, ?_, hnew, List.mem_cons_self⟩
      · simp [issuedBy, hcall, Call.issued?]
      · rw [issuedBy_setCall, if_pos rfl, Call.dispatch, if_pos hnodup]
        rfl
    · left
      refine issuedBy_keep hcall ?_ rfl k
      rw [Call.dispatch, if_neg hnodup]
      rfl
  | @broadcastWrite _ sql requestId hnone hnew _ =>
    cases ha
    by_cases hlive : c.zk.liveNodes.isEmpty = true
    · left
      rw [issuedBy_setCall, if_pos rfl, Call.broadcast, if_pos hlive]
      simp [issuedBy, hnone, Call.issued?]
    · right
      refine ⟨⟨requestId, -1, 0, SqlUtils.normalize sql⟩, rfl, ?_, ?_, hnew, List.mem_cons_self⟩
      · simp [issuedBy, hnone]
      · rw [issuedBy_setCall, if_pos rfl, Call.broadcast, if_neg hlive]
        rfl
  | send hcall _ =>
    refine .inl (issuedBy_keep hcall ?_ rfl k)
    rfl
  | receive hcall _ =>
    refine .inl (issuedBy_keep hcall ?_ rfl k)
    rfl
  | giveUp hcall =>
    refine .inl (issuedBy_keep hcall ?_ rfl k)
    rfl
  | commit hcall _ _ _ =>
    refine .inl (issuedBy_keep hcall ?_ rfl k)
    rfl
  | finish hcall _ _ _ =>
    refine .inl (issuedBy_keep hcall ?_ rfl k)
    rfl
  | _ => cases ha

/-- What was issued stays issued. -/
theorem issuedBy_step (h : c.step a = some c') {k : Nat} {w : Issued}
    (hw : c.issuedBy k = some w) : c'.issuedBy k = some w := by
  rcases step_issued h k with heq | ⟨_, -, hnone, -⟩
  · rw [heq, hw]
  · rw [hnone] at hw
    cases hw

theorem HasIssued.step (h : c.step a = some c') {w : Issued} (hw : c.HasIssued w) :
    c'.HasIssued w :=
  hw.imp fun _ => issuedBy_step h

/-- A request id stays used. -/
theorem usedIds_step (h : c.step a = some c') {r : String} (hr : r ∈ c.usedIds) :
    r ∈ c'.usedIds := by
  cases keyStep_of_step h with
  | same _ _ hused _ => exact hused r hr
  | fresh _ _ _ _ _ hused _ =>
    rw [hused]
    exact List.mem_cons_of_mem _ hr
  | next _ _ _ _ _ _ _ _ _ hused _ =>
    rw [hused]
    exact List.mem_cons_of_mem _ hr

/-! ## The whole cluster -/

/-- Everything that the cluster holds comes from a write of one of its calls, and no two calls share
a request id. -/
structure Sources (c : Cluster) : Prop where
  used : ∀ k w, c.issuedBy k = some w → w.requestId ∈ c.usedIds
  unique : ∀ j k v w, c.issuedBy j = some v → c.issuedBy k = some w →
    v.requestId = w.requestId → j = k
  requests : ∀ e ∈ c.requests, ∃ w, c.HasIssued w ∧ e.request.requestId = some w.requestId ∧
    e.request.shardId = w.shardId ∧ e.request.shardLogIndex = w.shardLogIndex ∧
      e.request.sql = w.sql
  nodes : ∀ i, (c.node i).From c.HasIssued
  states : ∀ r x rs, c.recoveries r = some x → x.phase.peerState = some rs → rs.From c.HasIssued
  taken : ∀ r x, c.recoveries r = some x → ∀ e ∈ x.phase.entries, ∃ w, c.HasIssued w ∧ w.IsEntry e

theorem Sources.new (nodeIds : List String) (shardCount replicationFactor : Nat) :
    (new nodeIds shardCount replicationFactor).Sources where
  used := fun k w hw => nomatch hw
  unique := fun j k v w hv => nomatch hv
  requests := by simp [Cluster.new]
  nodes := fun i => ⟨by simp [Cluster.new], by simp [Cluster.new]⟩
  states := fun r x rs hx => nomatch hx
  taken := fun r x hx => nomatch hx

/-- The node after a step. -/
theorem Sources.node_step (h : c.Sources) (hstep : c.step a = some c') (i : String) :
    (c'.node i).From c.HasIssued := by
  have hnode := nodeStep_of_step hstep i
  generalize c'.node i = n at hnode
  cases hnode with
  | same => exact h.nodes i
  | deliver henv hi =>
    obtain ⟨w, hw, hrequest⟩ := h.requests _ (List.mem_of_getElem? henv)
    exact (h.nodes i).execute (.inr ⟨w, hw, hrequest⟩)
  | query hread => exact (h.nodes i).execute (.inl (logRequest_readRequest _ _ hread))
  | adminSnapshot => exact (h.nodes i).adminSnapshot
  | start _ => exact ⟨(h.nodes i).entries, (h.nodes i).snapshot⟩
  | register _ _ => exact ⟨(h.nodes i).entries, (h.nodes i).snapshot⟩
  | move hx hi hmove =>
    rename_i r fails x phase
    subst hi
    have hn := h.nodes x.nodeId
    cases hmove with
    | complete _ =>
      split
      · exact hn.applyPendingWal.maybeSnapshot
      · exact hn.applyPendingWal
    | install hphase _ => exact hn.createPeerSnapshot (h.states r x _ hx (by rw [hphase]; rfl))
    | advance _ => exact hn.advanceLastSequence _
    | append hphase =>
      exact hn.appendRecovered (h.taken r x hx _ (by rw [hphase]; exact List.mem_cons_self))
    | announce _ => exact ⟨hn.entries, hn.snapshot⟩
    | refreshShards _ => exact ⟨hn.entries, hn.snapshot⟩
    | scan _ | skip _ _ | fail _ _ _ | fetch _ _ _ | readSnapshot _ _ | readWal _ _ | breakOff _ _
    | keep _ _ | filter _ | next _ => exact hn

/-- What a recovery has fetched, after its next step. -/
theorem Sources.states_step (h : c.Sources) (hstep : c.step a = some c') {r : Nat} {x : Recovery}
    {rs : RecoveryState} (hx : c'.recoveries r = some x) (hrs : x.phase.peerState = some rs) :
    rs.From c.HasIssued := by
  obtain hold | ⟨hnew, _⟩ | ⟨y, fails, n, phase, _, hy, hmove, rfl, _⟩ := step_recoveries hstep hx
  · exact h.states r x rs hold hrs
  · rw [hnew] at hrs
    cases hrs
  dsimp only at hrs
  cases hmove with
  | announce _ => split at hrs <;> cases hrs
  | readSnapshot _ _ =>
    cases hrs
    exact ⟨by simp, (h.nodes _).recoveryState.snapshot⟩
  | readWal hphase _ =>
    cases hrs
    have hpart := h.states r y _ hy (by rw [hphase]; rfl)
    exact ⟨(h.nodes _).recoveryState.entries, hpart.snapshot⟩
  | install hphase _ =>
    cases hrs
    exact h.states r y _ hy (by rw [hphase]; rfl)
  | keep hphase _ =>
    cases hrs
    exact h.states r y _ hy (by rw [hphase]; rfl)
  | advance hphase =>
    cases hrs
    exact h.states r y _ hy (by rw [hphase]; rfl)
  | refreshShards _ | scan _ | complete _ | skip _ _ | fail _ _ _ | fetch _ _ _ | breakOff _ _
  | filter _ | next _ | append _ =>
    cases hrs

/-- What a recovery is going to append, after its next step. -/
theorem Sources.taken_step (h : c.Sources) (hstep : c.step a = some c') {r : Nat} {x : Recovery}
    (hx : c'.recoveries r = some x) {e : WalEntry} (he : e ∈ x.phase.entries) :
    ∃ w, c.HasIssued w ∧ w.IsEntry e := by
  obtain ⟨y, hy, he⟩ | ⟨i, he⟩ := step_entries hstep hx he
  · exact h.taken r y hy e he
  · exact (h.nodes i).recoveryState.entries e he

/-- Each step keeps every entry explained by a write: an append takes its entry from a request that
was sent, a recovery from the logs of peers. -/
theorem Sources.step (h : c.Sources) (hstep : c.step a = some c') : c'.Sources where
  used := by
    intro k w hw
    rcases step_issued hstep k with heq | ⟨v, -, -, hv, -, hmem⟩
    · rw [heq] at hw
      exact usedIds_step hstep (h.used k w hw)
    · rw [hv] at hw
      cases hw
      exact hmem
  unique := by
    intro j k v w hv hw hid
    rcases step_issued hstep j with hj | ⟨v', haj, -, hv', hnew, -⟩
    · rw [hj] at hv
      rcases step_issued hstep k with hk | ⟨w', -, -, hw', hnew, -⟩
      · rw [hk] at hw
        exact h.unique j k v w hv hw hid
      · rw [hw'] at hw
        cases hw
        exact absurd (hid ▸ h.used j v hv) hnew
    · rcases step_issued hstep k with hk | ⟨w', hak, -⟩
      · rw [hk] at hw
        rw [hv'] at hv
        cases hv
        exact absurd (hid ▸ h.used k w hw) hnew
      · rw [haj] at hak
        exact Option.some.inj hak
  requests := by
    intro e he
    rcases step_requests hstep he with hold | ⟨call, d, target, rfl, hcall, rfl⟩
    · obtain ⟨w, hw, hrequest⟩ := h.requests e hold
      exact ⟨w, hw.step hstep, hrequest⟩
    · have hissued : c.issuedBy call = some d.issued := by simp [issuedBy, hcall, Call.issued?]
      exact ⟨d.issued, ⟨call, issuedBy_step hstep hissued⟩, rfl, rfl, rfl, rfl⟩
  nodes := fun i => (h.node_step hstep i).mono fun w hw => hw.step hstep
  states := by
    intro r x rs hx hrs
    exact (h.states_step hstep hx hrs).mono fun w hw => hw.step hstep
  taken := by
    intro r x hx e he
    obtain ⟨w, hw, hentry⟩ := h.taken_step hstep hx he
    exact ⟨w, hw.step hstep, hentry⟩

theorem Reachable.sources (h : c.Reachable) : c.Sources :=
  h.invariant Sources.new fun _ _ _ hc hstep => hc.step hstep

/-- A node appends what it is sent or takes over, so each entry that it ever had was issued. -/
theorem Sources.logged_step (h : c.Sources)
    (hlogged : ∀ i, ∀ e ∈ (c.node i).walLog.history, ∃ w, c.HasIssued w ∧ w.IsEntry e)
    (hstep : c.step a = some c') (i : String) :
    ∀ e ∈ (c'.node i).walLog.history, ∃ w, c'.HasIssued w ∧ w.IsEntry e := by
  have hold : ∀ e ∈ (c.node i).walLog.history, ∃ w, c'.HasIssued w ∧ w.IsEntry e := by
    intro e he
    obtain ⟨w, hw, hentry⟩ := hlogged i e he
    exact ⟨w, hw.step hstep, hentry⟩
  obtain heq | ⟨x, hlogs, heq⟩ := step_history hstep i
  · rwa [heq]
  intro e he
  rw [heq] at he
  obtain he | he := List.mem_append.mp he
  · exact hold e he
  rw [List.mem_singleton.mp he]
  cases hlogs with
  | deliver henv _ hentry _ =>
    obtain ⟨_, hid, hshard, hindex, hsql⟩ := hentry
    obtain ⟨w, hw, hwid, hwshard, hwindex, hwsql⟩ := h.requests _ (List.mem_of_getElem? henv)
    refine ⟨w, hw.step hstep, hid.trans hwid, hshard.trans hwshard, hindex.trans hwindex, ?_⟩
    rw [hsql, hwsql]
  | recover hx _ hphase hlocal =>
    obtain ⟨w, hw, hentry⟩ := h.taken _ _ hx _ (by rw [hphase]; exact List.mem_cons_self)
    rw [hlocal]
    exact ⟨w, hw.step hstep, hentry.localEntry _⟩

/-- Each entry that a node has ever appended is a write that a call has issued. -/
theorem Reachable.logged (h : c.Reachable) (i : String) :
    ∀ e ∈ (c.node i).walLog.history, ∃ w, c.HasIssued w ∧ w.IsEntry e := by
  have hend := h.invariant (I := fun c => c.Sources ∧
      ∀ i, ∀ e ∈ (c.node i).walLog.history, ∃ w, c.HasIssued w ∧ w.IsEntry e)
    (fun _ _ _ => ⟨Sources.new _ _ _, fun i e he => by cases he⟩)
    (fun c a c' hc hstep => ⟨hc.1.step hstep, hc.1.logged_step hc.2 hstep⟩)
  exact hend.2 i

/-! ## Clients -/

/-- A client has sent the statement for the shard, or for all nodes; the call is the one that the
coordinator began for it. -/
def Asked (actions : List Action) (call : Nat) (shardId : Int) (sql : String) : Prop :=
  ∃ raw, sql = SqlUtils.normalize raw ∧ (Action.write call shardId raw ∈ actions ∨
    ∃ requestId, Action.broadcastWrite call raw requestId ∈ actions ∧ shardId = -1)

/-- A client has asked for what the call does. -/
def CallAsked (actions : List Action) (call : Nat) : Call → Prop
  | .electing shardId sql _ => Asked actions call shardId sql
  | .allocating shard sql _ => Asked actions call shard.shardId sql
  | .sending d | .waiting d _ | .replied d _ => Asked actions call d.shardId d.sql
  | .rejected _ => True

/-- A client has asked for every call. -/
def CallsAsked (actions : List Action) (c : Cluster) : Prop :=
  ∀ call x, c.calls call = some x → CallAsked actions call x

theorem Asked.mono {call : Nat} {shardId : Int} {sql : String}
    (h : Asked done call shardId sql) (a : Action) : Asked (done ++ [a]) call shardId sql := by
  obtain ⟨raw, hsql, hwrite | ⟨requestId, hbroadcast, hshard⟩⟩ := h
  · exact ⟨raw, hsql, .inl (List.mem_append_left _ hwrite)⟩
  · exact ⟨raw, hsql, .inr ⟨requestId, List.mem_append_left _ hbroadcast, hshard⟩⟩

theorem CallAsked.mono {call : Nat} {x : Call} (h : CallAsked done call x) (a : Action) :
    CallAsked (done ++ [a]) call x := by
  cases x with
  | rejected error => exact trivial
  | _ => exact Asked.mono h a

/-- The call that is set is asked for, and the others were before. -/
theorem callsAsked_setCall (h : CallsAsked done c) (hcalls : c'.calls = c.calls) {call : Nat}
    {x : Call} (hx : CallAsked (done ++ [a]) call x) :
    CallsAsked (done ++ [a]) (c'.setCall call x) := by
  intro k y hy
  unfold setCall at hy
  by_cases hk : k = call
  · subst hk
    simp only [Function.update_self, Option.some.injEq] at hy
    exact hy ▸ hx
  · simp only [Function.update_of_ne hk, hcalls] at hy
    exact (h k y hy).mono a

/-- A step keeps every call explained by the actions so far; a new call is explained by the last of
them. -/
theorem callsAsked_step (h : CallsAsked done c) (hstep : c.step a = some c') :
    CallsAsked (done ++ [a]) c' := by
  have hlast : a ∈ done ++ [a] := List.mem_append_right _ (List.mem_singleton.mpr rfl)
  cases ha : a.call with
  | none =>
    intro k x hx
    have hne : a.call ≠ some k := by simp [ha]
    rw [step_calls hstep hne] at hx
    exact (h k x hx).mono a
  | some call =>
    cases stepCases_of_step hstep with
    | @write _ _ sql _ _ => exact callsAsked_setCall h rfl ⟨sql, rfl, .inl hlast⟩
    | @elect k shardId sql _ _ shard hcall helect =>
      have hasked : Asked (done ++ [.elect k]) k shardId sql := Asked.mono (h k _ hcall) _
      have hshard : shard.shardId = shardId := by
        obtain ⟨-, hfound⟩ | ⟨old, primary, hold, -, rfl, -⟩ :=
          ZkMetadataStore.electPrimary_cases helect
        · exact ZkMetadataStore.shardId_of_shard hfound
        · show old.shardId = shardId
          exact ZkMetadataStore.shardId_of_shard hold
      refine callsAsked_setCall h rfl ?_
      unfold Call.chooseReplicas
      dsimp only
      split
      · exact trivial
      · show Asked _ k shard.shardId sql
        rwa [hshard]
    | allocate hcall _ =>
      refine callsAsked_setCall h rfl ?_
      unfold Call.dispatch
      split
      · exact Asked.mono (h _ _ hcall) _
      · exact trivial
    | @broadcastWrite _ sql requestId _ _ _ =>
      refine callsAsked_setCall h rfl ?_
      unfold Call.broadcast
      split
      · exact trivial
      · exact ⟨sql, rfl, .inr ⟨requestId, hlast, rfl⟩⟩
    | send hcall _ => exact callsAsked_setCall h rfl (Asked.mono (h _ _ hcall) _)
    | receive hcall _ => exact callsAsked_setCall h rfl (Asked.mono (h _ _ hcall) _)
    | giveUp hcall => exact callsAsked_setCall h rfl (Asked.mono (h _ _ hcall) _)
    | commit hcall _ _ _ => exact callsAsked_setCall h rfl (Asked.mono (h _ _ hcall) _)
    | finish hcall _ _ _ => exact callsAsked_setCall h rfl (Asked.mono (h _ _ hcall) _)
    | _ => cases ha

/-- What was issued was asked for. -/
theorem asked_of_hasIssued (h : CallsAsked actions c) {w : Issued} (hw : c.HasIssued w) :
    ∃ call, Asked actions call w.shardId w.sql := by
  obtain ⟨call, hcall⟩ := hw
  obtain ⟨x, hx, hissued⟩ := Option.bind_eq_some_iff.mp hcall
  have hasked := h call x hx
  cases x with
  | sending d =>
    cases hissued
    exact ⟨call, hasked⟩
  | waiting d target =>
    cases hissued
    exact ⟨call, hasked⟩
  | replied d ok =>
    cases hissued
    exact ⟨call, hasked⟩
  | _ => cases hissued

/-! ## Results -/

/-- No node invents a statement. In every run, each entry of a log is the normalized text of a
statement that a client has sent for this shard, and each statement that a node would replay is such
a text or a line of it. -/
theorem every_statement_was_sent {nodeIds : List String} {shardCount replicationFactor : Nat}
    (hrun : Steps (fun c a c' => c.step a = some c') (new nodeIds shardCount replicationFactor)
      actions c) (i : String) :
    (∀ e ∈ (c.node i).walLog.walFile, ∃ call, Asked actions call e.shardId e.sql) ∧
      ∀ x ∈ (c.node i).replaySql, ∃ call sql, Asked actions call x.shardId sql ∧
        (x.sql = sql ∨ x.sql.toList ∈ lines sql.toList) := by
  have hsources : c.Sources := Reachable.sources ⟨_, _, _, actions, hrun⟩
  have hasked : CallsAsked actions c := by
    have hnew : CallsAsked [] (new nodeIds shardCount replicationFactor) :=
      fun call x hx => nomatch hx
    have htrace := hrun.invariant_trace (I := CallsAsked)
      (fun done c a c' h hstep => callsAsked_step h hstep) hnew
    rwa [List.nil_append] at htrace
  have hnormal : ∀ {call : Nat} {s : Int} {sql : String}, Asked actions call s sql →
      SqlUtils.normalize sql = sql := by
    intro call s sql h
    obtain ⟨raw, rfl, -⟩ := h
    exact SqlUtils.normalize_normalize raw
  constructor
  · intro e he
    obtain ⟨w, hw, -, hshard, -, hsql⟩ := (hsources.nodes i).entries e he
    obtain ⟨call, h⟩ := asked_of_hasIssued hasked hw
    rw [hshard, hsql, hnormal h]
    exact ⟨call, h⟩
  · intro x hx
    obtain ⟨w, hw, -, hshard, htext⟩ := (hsources.nodes i).replaySql hx
    obtain ⟨call, h⟩ := asked_of_hasIssued hasked hw
    rw [hshard]
    refine ⟨call, w.sql, h, ?_⟩
    rwa [Issued.Text, hnormal h] at htext

open DisMiniSql.Distributed.Action (startUp beginWrite sendAndReceive) in
/-- A write to three nodes: the log of the first has an entry, so somebody has sent its text. -/
theorem every_statement_was_sent_to_three :
    ∃ (actions : List Action) (c : Cluster) (e : WalEntry),
      Steps (fun c a c' => c.step a = some c') (new ["n1", "n2", "n3"] 1 3) actions c ∧
        e ∈ (c.node "n1").walLog.walFile ∧ ∃ call, Asked actions call e.shardId e.sql := by
  have hrun : ((Cluster.new ["n1", "n2", "n3"] 1 3).run (startUp 0 "n1" 4 ++ startUp 1 "n2" 10 ++
      startUp 2 "n3" 16 ++ beginWrite 0 0 "insert into t values(1)" "a" ++ sendAndReceive 0)).any
        (fun c => !(c.node "n1").walLog.walFile.isEmpty) = true := by decide +kernel
  obtain ⟨c, hc, hP⟩ := (Option.any_eq_true _ _).mp hrun
  have hne : (c.node "n1").walLog.walFile ≠ [] := by simpa using hP
  obtain ⟨e, he⟩ := List.exists_mem_of_ne_nil _ hne
  have hsteps := steps_of_run hc
  exact ⟨_, c, e, hsteps, he, (every_statement_was_sent hsteps "n1").1 e he⟩

/-- Two entries of one request are the same write. -/
theorem Sources.agree (h : c.Sources) {i j : String} {e e' : WalEntry}
    (he : e ∈ (c.node i).walLog.walFile) (he' : e' ∈ (c.node j).walLog.walFile)
    (hid : e.requestId = e'.requestId) :
    e.shardId = e'.shardId ∧ e.shardLogIndex = e'.shardLogIndex ∧ e.sql = e'.sql := by
  obtain ⟨w, ⟨k, hk⟩, hwid, hshard, hindex, hsql⟩ := (h.nodes i).entries e he
  obtain ⟨w', ⟨k', hk'⟩, hwid', hshard', hindex', hsql'⟩ := (h.nodes j).entries e' he'
  have heq : w.requestId = w'.requestId := by
    rw [hwid, hwid'] at hid
    exact Option.some.inj hid
  obtain rfl := h.unique k k' w w' hk hk' heq
  rw [hk] at hk'
  cases hk'
  exact ⟨hshard.trans hshard'.symm, hindex.trans hindex'.symm, hsql.trans hsql'.symm⟩

/-- One request id stands for one write in the whole cluster: two entries that have it, in the logs
of any two nodes, have the same shard, the same index and the same text. -/
theorem entries_agree (hc : c.Reachable) {i j : String} {e e' : WalEntry}
    (he : e ∈ (c.node i).walLog.walFile) (he' : e' ∈ (c.node j).walLog.walFile)
    (hid : e.requestId = e'.requestId) :
    e.shardId = e'.shardId ∧ e.shardLogIndex = e'.shardLogIndex ∧ e.sql = e'.sql :=
  hc.sources.agree he he' hid

open DisMiniSql.Distributed.Action (startUp beginWrite sendAndReceive) in
/-- A write that has reached two nodes: their entries agree. -/
theorem entries_agree_on_two_nodes :
    ∃ (c : Cluster) (e e' : WalEntry), c.Reachable ∧ e ∈ (c.node "n1").walLog.walFile ∧
      e' ∈ (c.node "n2").walLog.walFile ∧ e.requestId = e'.requestId ∧
      e.shardId = e'.shardId ∧ e.shardLogIndex = e'.shardLogIndex ∧ e.sql = e'.sql := by
  have hrun : ((Cluster.new ["n1", "n2", "n3"] 1 3).run (startUp 0 "n1" 4 ++ startUp 1 "n2" 10 ++
      startUp 2 "n3" 16 ++ beginWrite 0 0 "insert into t values(1)" "a" ++ sendAndReceive 0 ++
      sendAndReceive 0)).any (fun c => (c.node "n1").walLog.walFile.any (fun e =>
        (c.node "n2").walLog.walFile.any (fun e' => e.requestId == e'.requestId))) = true := by
    decide +kernel
  obtain ⟨c, hc, hP⟩ := exists_reachable_of_run hrun
  obtain ⟨e, he, hP⟩ := List.any_eq_true.mp hP
  obtain ⟨e', he', hP⟩ := List.any_eq_true.mp hP
  have hid : e.requestId = e'.requestId := by simpa using hP
  exact ⟨c, e, e', hc, he, he', hid, entries_agree hc he he' hid⟩

end Cluster

end DisMiniSql.Distributed
