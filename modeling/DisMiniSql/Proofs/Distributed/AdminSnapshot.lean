import DisMiniSql.Distributed.DataNode.Handlers
import DisMiniSql.Proofs.Distributed.SnapshotList

/-!
# `DisMiniSql.Proofs.Distributed.AdminSnapshot`: writes beside `/admin/snapshot`

The handler reads the log once and asks for the last number twice after that. A write that
falls between the first and the last of these calls is in neither the list that is stored nor
the part of the log that is kept (`adminSnapshot_drops_write`). An automatic snapshot between
the read of the old snapshot and that of the log takes away what the handler has not seen.

`adminSnapshot_keeps_writes` shows that nothing else goes wrong: in every run without these two,
and with statements of single lines, everything that was logged is in the replay list, at
every moment. `HandlerOk` says for each point of the handler what it still covers.
-/

set_option autoImplicit false

namespace DisMiniSql.Distributed

open DisMiniSql.Lib (Steps)

namespace DataNode

variable {n : DataNode}

/-- Everything that was logged is in the replay list. The files fit together, and what was
logged are single lines. Nothing is said about the shards of the node, its state or the
number of its entries. -/
structure Held (n : DataNode) : Prop where
  wf : n.Wf
  compacted : n.compactedWal ≤ n.walLog.lastSequence
  lines : ∀ e ∈ n.walLog.history, e.stmt.IsLine
  held : ∀ e ∈ n.walLog.history, e.stmt ∈ n.replaySql

/-- A node on an empty data directory, with any shards: nothing was logged yet. -/
theorem Held.new (nodeId : String) (shards : List Int) :
    Held { nodeId := nodeId, shards := shards } where
  wf := ⟨WalLog.Wf.empty, by simp⟩
  compacted := Nat.le_refl 0
  lines := by simp
  held := by simp

/-- The entries of a held log are lines. -/
theorem Held.logLines (h : n.Held) : ∀ e ∈ n.walLog.walFile, e.stmt.IsLine :=
  fun e he => h.lines e (h.wf.log.recorded e he)

/-- Appending a line keeps it so. -/
theorem Held.logs (h : n.Held) {e : WalEntry} (he : n.walLog.Appends e) (hline : e.stmt.IsLine) :
    (n.logs e).Held where
  wf := h.wf.logs he
  compacted := le_trans h.compacted (Nat.le_of_lt he.after)
  lines := by
    intro d hd
    obtain hd | hd := List.mem_append.mp hd
    · exact h.lines d hd
    · exact List.mem_singleton.mp hd ▸ hline
  held := by
    intro d hd
    rw [mem_replaySql_logs]
    obtain hd | hd := List.mem_append.mp hd
    · exact Or.inl (h.held d hd)
    · rw [List.mem_singleton.mp hd]
      exact Or.inr ⟨lt_of_le_of_lt h.compacted he.after, rfl⟩

/-- Marking a write as applied keeps it. -/
theorem Held.markApplied (h : n.Held) (written : Option WalEntry) :
    (n.markApplied written).Held := by
  cases written with
  | none => exact h
  | some e => exact ⟨h.wf.markApplied (some e), h.compacted, h.lines, h.held⟩

/-- The automatic snapshot too. -/
theorem Held.maybeSnapshot (h : n.Held) : n.maybeSnapshot.Held := by
  obtain heq | ⟨appliedSql, _, happlied, heq⟩ := n.maybeSnapshot_cases
  · rwa [heq]
  · rw [heq]
    exact ⟨h.wf.compactTo, Nat.le_refl _, h.lines,
      fun e he => mem_replaySql_compactTo h.wf happlied h.logLines (h.held e he)⟩

/-- A statement that the snapshot has stays in it. -/
theorem mem_snapshotSql_maybeSnapshot (h : n.Wf) {x : Stmt}
    (hx : x ∈ n.snapshotManager.snapshotSql) : x ∈ n.maybeSnapshot.snapshotManager.snapshotSql := by
  obtain heq | ⟨appliedSql, _, happlied, heq⟩ := n.maybeSnapshot_cases
  · rwa [heq]
  · rw [heq]
    exact SnapshotManager.mem_snapshotSql_createSnapshot (m := n.snapshotManager)
      (happlied.snapshot x hx) (SnapshotManager.isLine_of_mem_snapshotSql h.lines hx)

/-- Whether a request comes to the test of `maybeSnapshot` and passes it. -/
def reachesSnapshot (n : DataNode) (shardTerm : Int → Option Nat) (request : ExecuteRequest)
    (fault : Option ExecuteFault) : Bool :=
  match n.logRequest shardTerm request with
  | (n', .accepted written) =>
    !(written.isSome && !request.replay && fault == some .nodeUpdate) &&
      fault != some .engine && n'.snapshots .auto
  | _ => false

/-- Logging a request does not touch the snapshot. -/
theorem snapshotManager_logRequest (n : DataNode) (shardTerm : Int → Option Nat)
    (request : ExecuteRequest) :
    (n.logRequest shardTerm request).1.snapshotManager = n.snapshotManager := by
  obtain heq | ⟨e, _, heq⟩ := n.logRequest_cases shardTerm request
  · rw [heq]
  · rw [heq]
    rfl

/-- Marking changes the bound of what is applied, not the snapshot. -/
theorem snapshotSql_markApplied (n : DataNode) (written : Option WalEntry) :
    (n.markApplied written).snapshotManager.snapshotSql = n.snapshotManager.snapshotSql := by
  cases written with
  | none => rfl
  | some e => rfl

/-- Nor what an automatic snapshot would hold. -/
theorem snapshots_markApplied (n : DataNode) (written : Option WalEntry) :
    (n.markApplied written).snapshots .auto = n.snapshots .auto := by
  cases written with
  | none => rfl
  | some e => rfl

variable {shardTerm : Int → Option Nat} {request : ExecuteRequest}

/-- A request that takes no snapshot leaves the snapshot file alone. -/
theorem snapshotSql_execute {fault : Option ExecuteFault}
    (h : n.reachesSnapshot shardTerm request fault = false) (output : String) :
    (n.execute shardTerm request fault output).node.snapshotManager.snapshotSql =
      n.snapshotManager.snapshotSql := by
  have hmanager := n.snapshotManager_logRequest shardTerm request
  unfold reachesSnapshot at h
  unfold execute
  generalize n.logRequest shardTerm request = logged at h hmanager ⊢
  obtain ⟨n', outcome⟩ := logged
  dsimp only at hmanager ⊢
  cases outcome with
  | rejected error => exact congrArg _ hmanager
  | duplicate => exact congrArg _ hmanager
  | accepted written =>
    dsimp only at h ⊢
    -- below the threshold `maybeSnapshot` does nothing
    have hskip : n'.snapshots .auto = false →
        (n'.markApplied written).maybeSnapshot.snapshotManager.snapshotSql =
          n.snapshotManager.snapshotSql := by
      intro hauto
      rw [maybeSnapshot_eq, snapshots_markApplied, hauto, if_neg Bool.false_ne_true,
        snapshotSql_markApplied, hmanager]
    unfold finishRequest
    split
    · exact congrArg _ hmanager
    rename_i hupdate
    split
    · exact congrArg _ hmanager
    rename_i hengine
    have hauto : n'.snapshots .auto = false := by
      simpa [Bool.eq_false_iff.mpr hupdate, bne, Bool.eq_false_iff.mpr hengine] using h
    split
    · exact hskip hauto
    · exact hskip hauto

/-- Logging an entry changes the node. -/
theorem logs_ne (n : DataNode) (e : WalEntry) : n.logs e ≠ n := by
  intro heq
  have hlen := congrArg (fun n : DataNode => n.walLog.history.length) heq
  simp [DataNode.logs, WalLog.appendRaw] at hlen

/-- Logging a request keeps it when the request is a line. -/
theorem Held.logRequest (h : n.Held)
    (hline : (n.logRequest shardTerm request).1 ≠ n → (requestStmt request).IsLine) :
    (n.logRequest shardTerm request).1.Held := by
  obtain heq | ⟨e, he, heq⟩ := n.logRequest_cases shardTerm request
  · rwa [heq]
  · rw [heq] at hline ⊢
    refine h.logs he.1 ?_
    rw [stmt_of_entryFor he]
    exact hline (n.logs_ne e)

/-- So does a whole `/execute`, whatever fails in it. -/
theorem Held.execute (h : n.Held)
    (hline : (n.logRequest shardTerm request).1 ≠ n → (requestStmt request).IsLine)
    (fault : Option ExecuteFault) (output : String) :
    (n.execute shardTerm request fault output).node.Held := by
  have hlog := h.logRequest hline
  obtain heq | ⟨written, heq⟩ := n.execute_node_cases shardTerm request fault output
  · rwa [heq]
  · rw [heq]
    exact (hlog.markApplied written).maybeSnapshot

end DataNode

namespace AdminSnapshot

variable {s : AdminSnapshot} {a : AdminAction}

/-- No write is logged between the `readAll` of the handler and its second `lastSequence`, no
automatic snapshot is taken between its `snapshotSql` and its `readAll`, and what is logged is
a single line that is not blank. -/
def Undisturbed (s : AdminSnapshot) : AdminAction → Prop
  | .execute shardTerm request fault _ =>
    ((s.node.logRequest shardTerm request).1 ≠ s.node →
        (DataNode.requestStmt request).IsLine) ∧
      match s.handler with
      | .listed _ => s.node.reachesSnapshot shardTerm request fault = false
      | .read _ | .numbered _ _ | .created => (s.node.logRequest shardTerm request).1 = s.node
      | .idle | .compacting _ => True
  | .handler => True

/-- What the handler relies on at each point. -/
def HandlerOk (n : DataNode) : SnapshotHandler → Prop
  | .idle => True
  | .listed appliedSql => ∀ x ∈ n.snapshotManager.snapshotSql, x ∈ appliedSql
  | .read appliedSql => ∀ e ∈ n.walLog.history, e.stmt ∈ appliedSql
  | .numbered appliedSql k =>
    k ≤ n.walLog.lastSequence ∧ ∀ e ∈ n.walLog.history, e.stmt ∈ appliedSql
  | .created => ∀ e ∈ n.walLog.history, e.stmt ∈ n.snapshotManager.snapshotSql
  | .compacting k => k ≤ n.walLog.lastSequence ∧ ∀ e ∈ n.walLog.walFile, e.sequence ≤ k →
      e.stmt ∈ n.snapshotManager.snapshotSql

/-- The invariant. -/
structure Covered (s : AdminSnapshot) : Prop where
  node : s.node.Held
  handler : HandlerOk s.node s.handler

/-- The next call of the handler. -/
theorem Covered.handle (h : s.Covered) : s.handle.Covered := by
  obtain ⟨n, handler⟩ := s
  obtain ⟨hheld, hok⟩ := h
  dsimp only at hheld hok
  cases handler with
  | idle => exact ⟨hheld, fun x hx => hx⟩
  | listed appliedSql =>
    refine ⟨hheld, fun e he => ?_⟩
    -- a logged statement is in the old snapshot or still in the log
    obtain hx | ⟨d, hd, _, hx⟩ := DataNode.mem_replaySql.mp (hheld.held e he)
    · exact List.mem_append_left _ (hok _ hx)
    · refine List.mem_append_right _ ?_
      rw [← hx]
      exact List.mem_map_of_mem (WalLog.mem_readAll.mpr hd)
  | read appliedSql => exact ⟨hheld, Nat.le_refl _, hok⟩
  | numbered appliedSql k =>
    have hsql : ∀ e ∈ n.walLog.history,
        e.stmt ∈ (n.snapshotManager.createSnapshot k appliedSql).snapshotSql :=
      fun e he => SnapshotManager.mem_snapshotSql_createSnapshot (hok.2 e he) (hheld.lines e he)
    refine ⟨⟨⟨hheld.wf.log, SnapshotManager.singleLine_createSnapshot n.snapshotManager _ _⟩,
      hok.1, hheld.lines, fun e he => ?_⟩, hsql⟩
    exact DataNode.mem_replaySql.mpr (Or.inl (hsql e he))
  | created =>
    exact ⟨hheld, Nat.le_refl _, fun e he _ => hok e (hheld.wf.log.recorded e he)⟩
  | compacting k =>
    refine ⟨⟨⟨hheld.wf.log.compactThrough k, hheld.wf.lines⟩, hheld.compacted, hheld.lines,
      fun e he => ?_⟩, trivial⟩
    obtain hx | ⟨d, hd, hseq, hx⟩ := DataNode.mem_replaySql.mp (hheld.held e he)
    · exact DataNode.mem_replaySql.mpr (Or.inl hx)
    · rw [DataNode.mem_replaySql]
      by_cases hk : d.sequence ≤ k
      · left
        rw [← hx]
        exact hok.2 d hd hk
      · right
        exact ⟨d, WalLog.mem_compactThrough.mpr ⟨hd, Nat.lt_of_not_le hk⟩, hseq, hx⟩

/-- A point of the handler that does not compare with the snapshot file alone. -/
theorem HandlerOk.maybeSnapshot {n : DataNode} {x : SnapshotHandler} (hn : n.Held)
    (h : HandlerOk n x) (hx : ∀ appliedSql, x ≠ .listed appliedSql) :
    HandlerOk n.maybeSnapshot x := by
  have hhistory := n.history_maybeSnapshot
  have hlast : n.maybeSnapshot.walLog.lastSequence = n.walLog.lastSequence := by
    obtain heq | ⟨_, _, _, heq⟩ := n.maybeSnapshot_cases
    · rw [heq]
    · rw [heq]
      rfl
  have hfile : ∀ e ∈ n.maybeSnapshot.walLog.walFile, e ∈ n.walLog.walFile := by
    obtain heq | ⟨_, _, _, heq⟩ := n.maybeSnapshot_cases
    · rw [heq]
      exact fun e he => he
    · rw [heq]
      exact fun e he => (WalLog.mem_compactThrough.mp he).1
  cases x with
  | idle => trivial
  | listed appliedSql => exact absurd rfl (hx appliedSql)
  | read appliedSql =>
    intro e he
    exact h e (hhistory ▸ he)
  | numbered appliedSql k =>
    refine ⟨hlast ▸ h.1, fun e he => ?_⟩
    exact h.2 e (hhistory ▸ he)
  | created =>
    intro e he
    exact DataNode.mem_snapshotSql_maybeSnapshot hn.wf (h e (hhistory ▸ he))
  | compacting k =>
    refine ⟨hlast ▸ h.1, fun e he hk => ?_⟩
    exact DataNode.mem_snapshotSql_maybeSnapshot hn.wf (h.2 e (hfile e he) hk)

/-- A handler that has read the log is not disturbed when a write is marked. -/
theorem HandlerOk.markApplied {n : DataNode} {x : SnapshotHandler} (h : HandlerOk n x)
    (written : Option WalEntry) : HandlerOk (n.markApplied written) x := by
  cases written with
  | none => exact h
  | some e =>
    cases x with
    | idle | listed _ | read _ | numbered _ _ | created | compacting _ => exact h

/-- A new entry has a number that the handler does not compact. -/
theorem HandlerOk.logs {n : DataNode} {x : SnapshotHandler} (h : HandlerOk n x) {e : WalEntry}
    (he : n.walLog.Appends e)
    (hx : x = .idle ∨ (∃ l, x = .listed l) ∨ ∃ k, x = .compacting k) :
    HandlerOk (n.logs e) x := by
  obtain rfl | ⟨l, rfl⟩ | ⟨k, rfl⟩ := hx
  · trivial
  · exact h
  · refine ⟨le_trans h.1 (Nat.le_of_lt he.after), fun d hd hk => ?_⟩
    obtain hd | hd := List.mem_append.mp hd
    · exact h.2 d hd hk
    · rw [List.mem_singleton.mp hd] at hk
      exact absurd (lt_of_le_of_lt h.1 he.after) (Nat.not_lt_of_le hk)

/-- A request beside the handler. -/
theorem Covered.execute (h : s.Covered) {shardTerm : Int → Option Nat} {request : ExecuteRequest}
    {fault : Option ExecuteFault} {output : String}
    (ha : s.Undisturbed (.execute shardTerm request fault output)) :
    (s.step (.execute shardTerm request fault output)).Covered := by
  obtain ⟨n, handler⟩ := s
  obtain ⟨hheld, hok⟩ := h
  obtain ⟨hline, hpoint⟩ := ha
  dsimp only at hheld hok hline hpoint
  refine ⟨hheld.execute hline fault output, ?_⟩
  show HandlerOk (n.execute shardTerm request fault output).node handler
  have hlog : HandlerOk (n.logRequest shardTerm request).1 handler := by
    obtain heq | ⟨e, he, heq⟩ := n.logRequest_cases shardTerm request
    · rw [heq]
      exact hok
    · rw [heq]
      cases handler with
      | idle => trivial
      | listed l => exact hok.logs he.1 (Or.inr (Or.inl ⟨l, rfl⟩))
      | read _ | numbered _ _ | created =>
        -- nothing is logged at these points
        rw [← heq, hpoint]
        exact hok
      | compacting k => exact hok.logs he.1 (Or.inr (Or.inr ⟨k, rfl⟩))
  by_cases hlisted : ∃ l, handler = .listed l
  · obtain ⟨l, rfl⟩ := hlisted
    intro x hx
    rw [DataNode.snapshotSql_execute hpoint] at hx
    exact hok x hx
  · obtain heq | ⟨written, heq⟩ := n.execute_node_cases shardTerm request fault output
    · rw [heq]
      exact hlog
    · rw [heq]
      exact (hlog.markApplied written).maybeSnapshot
        ((hheld.logRequest hline).markApplied written)
        (fun l hl => hlisted ⟨l, hl⟩)

/-- Every step but an append between the handler's two reads keeps the writes covered by snapshot
and log. -/
theorem Covered.step (h : s.Covered) (ha : s.Undisturbed a) : (s.step a).Covered := by
  cases a with
  | execute shardTerm request fault output => exact h.execute ha
  | handler => exact h.handle

/-- The node may start with any shards, log and snapshot, as long as nothing that it has logged
is missing. Then, in every run of requests and calls of the handler in which no write is logged
between the `readAll` of the handler and its second `lastSequence`, no automatic snapshot is
taken between its `snapshotSql` and its `readAll`, and every logged statement is a single line
that is not blank, every statement that was logged is in the replay list. -/
theorem adminSnapshot_keeps_writes {n : DataNode} (hn : n.Held) {actions : List AdminAction}
    {s : AdminSnapshot}
    (hrun : Steps (fun (s : AdminSnapshot) a s' => s.Undisturbed a ∧ s' = s.step a)
      { node := n } actions s) :
    ∀ e ∈ s.node.walLog.history, e.stmt ∈ s.node.replaySql := by
  have h : s.Covered := by
    refine hrun.invariant (I := Covered) ?_ ⟨hn, trivial⟩
    rintro s a _ hs ⟨ha, rfl⟩
    exact hs.step ha
  exact h.node.held

/-- A primary of shard 0 in term 1. -/
def primaryNode : DataNode where
  nodeId := "n1"
  shards := [0]

/-- The request of a routed write, as the coordinator sends it to the primary. -/
def primaryWrite (requestId sql : String) : AdminAction :=
  .execute (fun _ => some 1)
    { requestId := some requestId, shardId := 0, shardLogIndex := 1, raftTerm := 1, sql := sql,
      replay := false } none ""

/-- Two writes, the second one at this point among the six calls of the handler. -/
def writeAt (k : Nat) : List AdminAction :=
  primaryWrite "a" "insert into t values(1)" :: List.replicate k .handler ++
    primaryWrite "b" "insert into t values(2)" :: List.replicate (6 - k) .handler

/-- A write after the second `lastSequence` of the handler is kept. -/
theorem adminSnapshot_keeps_writes_late_write :
    ∃ s : AdminSnapshot, s.handler = .idle ∧
      s.node.walLog.history.map (·.requestId) = [some "a", some "b"] ∧
      ∀ e ∈ s.node.walLog.history, e.stmt ∈ s.node.replaySql := by
  have hrun : Steps (fun (s : AdminSnapshot) a s' => s.Undisturbed a ∧ s' = s.step a)
      { node := primaryNode } (writeAt 5) ((writeAt 5).foldl step { node := primaryNode }) := by
    refine .cons ⟨⟨fun _ => by decide +kernel, trivial⟩, rfl⟩ (.cons ⟨trivial, rfl⟩
      (.cons ⟨trivial, rfl⟩ (.cons ⟨trivial, rfl⟩ (.cons ⟨trivial, rfl⟩ (.cons ⟨trivial, rfl⟩
      (.cons ⟨⟨fun _ => by decide +kernel, trivial⟩, rfl⟩ (.cons ⟨trivial, rfl⟩ (.nil _))))))))
  exact ⟨_, by decide +kernel, by decide +kernel,
    adminSnapshot_keeps_writes (DataNode.Held.new "n1" [0]) hrun⟩

/-- A write between the `readAll` of the handler and its first `lastSequence`: it is logged, and
after the handler it is nowhere. -/
theorem adminSnapshot_drops_write :
    ∃ (actions : List AdminAction) (s : AdminSnapshot),
      Steps (fun (s : AdminSnapshot) a s' => s' = s.step a)
        { node := primaryNode } actions s ∧
      s.handler = .idle ∧ s.node.walLog.history.map (·.requestId) = [some "a", some "b"] ∧
      s.node.replaySql.map (·.requestId) = [some "a"] :=
  ⟨writeAt 2, _, Steps.foldl step _ _, by decide +kernel, by decide +kernel, by decide +kernel⟩

end AdminSnapshot

end DisMiniSql.Distributed
