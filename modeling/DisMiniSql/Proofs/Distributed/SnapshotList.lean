import DisMiniSql.Distributed.DataNode.Lifecycle
import DisMiniSql.Lib.Run
import DisMiniSql.Proofs.Distributed.Absorb

/-!
# `DisMiniSql.Proofs.Distributed.SnapshotList`: a snapshot keeps the replay list

The replay list of a node is spread over the snapshot file, the log file and the compacted
number in the manifest. `Tidy` says how they fit together between two operations: the log is
in the order of its numbers, and all of it comes after the compacted number. `Complete` adds
that the snapshot and the log are the whole history.

`replaySql_eq_history` is the result for every run of requests, snapshots and restarts: the
replay list has the statements of all appended entries in the order of the appends, a snapshot
and a restart leave it alone, and a write adds its own statement at the end.
-/

set_option autoImplicit false

namespace DisMiniSql.Distributed

open DisMiniSql.Lib (Steps)

namespace DataNode

variable {n : DataNode} {e : WalEntry}

/-- The statements of the log file after the compacted number. -/
def pendingSql (n : DataNode) : List Stmt :=
  (n.walLog.readAll.filter (fun e => n.compactedWal < e.sequence)).map WalEntry.stmt

theorem replaySql_eq (n : DataNode) :
    n.replaySql = n.snapshotManager.snapshotSql ++ n.pendingSql := by
  simp [replaySql, replaySqlBefore, pendingSql]

/-- How the log, the compacted number and the last number fit together. -/
structure Tidy (n : DataNode) : Prop where
  sorted : n.walLog.walFile.Pairwise (fun a b => a.sequence < b.sequence)
  pending : ∀ e ∈ n.walLog.walFile, n.compactedWal < e.sequence
  last : ∀ e ∈ n.walLog.walFile, e.sequence ≤ n.walLog.lastSequence
  compacted : n.compactedWal ≤ n.walLog.lastSequence

theorem Tidy.new (nodeId : String) : Tidy { nodeId := nodeId } where
  sorted := List.Pairwise.nil
  pending := by simp
  last := by simp
  compacted := Nat.le_refl 0

theorem readAll_of_sorted {w : WalLog}
    (h : w.walFile.Pairwise (fun a b => a.sequence < b.sequence)) : w.readAll = w.walFile :=
  (h.imp (fun hab => Nat.le_of_lt hab)).insertionSort_eq

theorem Tidy.readAll (h : n.Tidy) : n.walLog.readAll = n.walLog.walFile :=
  readAll_of_sorted h.sorted

/-- The replay list is the snapshot and the whole log. -/
theorem Tidy.replaySql (h : n.Tidy) :
    n.replaySql = n.snapshotManager.snapshotSql ++ n.walLog.walFile.map WalEntry.stmt := by
  unfold DataNode.replaySql replaySqlBefore
  rw [h.readAll]
  have hall : n.walLog.walFile.filter (fun e => n.compactedWal < e.sequence) =
      n.walLog.walFile :=
    List.filter_eq_self.mpr fun e he => by simpa using h.pending e he
  rw [hall]
  simp

/-- Nodes with the same log and the same compacted number. -/
theorem Tidy.congr {n' : DataNode} (h : n.Tidy) (hlog : n'.walLog = n.walLog)
    (hcompacted : n'.compactedWal = n.compactedWal) : n'.Tidy :=
  ⟨hlog ▸ h.sorted, hlog ▸ hcompacted ▸ h.pending, hlog ▸ h.last, hlog ▸ hcompacted ▸ h.compacted⟩

/-- Logging a newer entry keeps it tidy. -/
theorem Tidy.logs (h : n.Tidy) (he : n.walLog.lastSequence < e.sequence) : (n.logs e).Tidy where
  sorted := by
    refine List.pairwise_append.mpr ⟨h.sorted, List.pairwise_singleton _ _, ?_⟩
    intro a ha b hb
    rw [List.mem_singleton.mp hb]
    exact lt_of_le_of_lt (h.last a ha) he
  pending := by
    intro a ha
    obtain ha | ha := List.mem_append.mp ha
    · exact h.pending a ha
    · rw [List.mem_singleton.mp ha]
      exact lt_of_le_of_lt h.compacted he
  last := by
    intro a ha
    show a.sequence ≤ e.sequence
    obtain ha | ha := List.mem_append.mp ha
    · exact le_trans (h.last a ha) (Nat.le_of_lt he)
    · rw [List.mem_singleton.mp ha]
  compacted := le_trans h.compacted (Nat.le_of_lt he)

theorem Tidy.walFile_compactTo (h : n.Tidy) (appliedSql : List Stmt) :
    (n.compactTo appliedSql).walLog.walFile = [] := by
  refine List.eq_nil_iff_forall_not_mem.mpr fun e he => ?_
  obtain ⟨hmem, hlt⟩ := WalLog.mem_compactThrough.mp he
  exact absurd (h.last e hmem) (Nat.not_le_of_lt hlt)

theorem Tidy.compactTo (h : n.Tidy) (appliedSql : List Stmt) : (n.compactTo appliedSql).Tidy := by
  have hfile := h.walFile_compactTo appliedSql
  refine ⟨?_, ?_, ?_, Nat.le_refl _⟩
  · rw [hfile]
    exact List.Pairwise.nil
  · rw [hfile]
    simp
  · rw [hfile]
    simp

theorem Tidy.reload (h : n.Tidy) (shardsForNode : List Int) : (n.reload shardsForNode).Tidy where
  sorted := h.sorted
  pending := h.pending
  last := fun e he => (h.last e he).trans_eq (WalLog.lastSequence_loadIndex h.last).symm
  compacted := h.compacted.trans_eq (WalLog.lastSequence_loadIndex h.last).symm

theorem Tidy.markApplied (h : n.Tidy) (written : Option WalEntry) :
    (n.markApplied written).Tidy := by
  cases written with
  | none => exact h
  | some e => exact h.congr rfl rfl

theorem Tidy.applyPendingWal (h : n.Tidy) : n.applyPendingWal.Tidy := by
  unfold DataNode.applyPendingWal
  split
  · exact h
  · exact h.congr rfl rfl

theorem Tidy.maybeSnapshot (h : n.Tidy) : n.maybeSnapshot.Tidy := by
  obtain heq | ⟨appliedSql, _, _, heq⟩ := n.maybeSnapshot_cases
  · rwa [heq]
  · rw [heq]
    exact h.compactTo appliedSql

/-- A start without peers. -/
theorem Tidy.start_nil (h : n.Tidy) (shardsForNode : List Int) :
    (n.start shardsForNode []).Tidy :=
  (h.reload shardsForNode).applyPendingWal.maybeSnapshot.congr rfl rfl

/-- What both kinds of snapshot are given. -/
theorem Tidy.appliedSql (h : n.Tidy) (kind : SnapshotKind) : n.appliedSql kind = n.replaySql := by
  rw [h.replaySql]
  cases kind with
  | auto =>
    unfold DataNode.appliedSql
    dsimp only
    rw [h.readAll, List.filter_eq_self.mpr fun e he => by simpa using h.last e he]
  | admin =>
    unfold DataNode.appliedSql
    dsimp only
    rw [h.readAll]

theorem maybeSnapshot_eq (n : DataNode) :
    n.maybeSnapshot = if n.snapshots .auto then n.compactTo (n.appliedSql .auto) else n := by
  unfold maybeSnapshot snapshots
  dsimp only
  by_cases hlow : n.walLog.lastSequence < n.compactedWal + 20
  · rw [if_pos hlow, if_neg (by simpa using hlow)]
  · rw [if_neg hlow, if_pos (by simpa using hlow)]
    rfl

theorem adminSnapshot_eq (n : DataNode) : n.adminSnapshot = n.compactTo (n.appliedSql .admin) :=
  rfl

section History

open SnapshotManager (readBack)

/-- The snapshot and the log are the whole history. -/
def Complete (n : DataNode) : Prop :=
  n.snapshotManager.snapshotSql ++ n.walLog.walFile.map WalEntry.stmt =
    n.walLog.history.map WalEntry.stmt

/-- `snapshot.sql` is an exact store of the replay list. -/
def StoresExactly (n : DataNode) : Prop := readBack n.replaySql = n.replaySql

instance (n : DataNode) : Decidable n.StoresExactly :=
  inferInstanceAs (Decidable (readBack n.replaySql = n.replaySql))

theorem Complete.logs (h : n.Complete) (e : WalEntry) : (n.logs e).Complete := by
  have h : n.snapshotManager.snapshotSql ++ n.walLog.walFile.map WalEntry.stmt =
    n.walLog.history.map WalEntry.stmt := h
  show n.snapshotManager.snapshotSql ++ (n.walLog.walFile ++ [e]).map WalEntry.stmt =
    (n.walLog.history ++ [e]).map WalEntry.stmt
  rw [List.map_append, List.map_append, ← List.append_assoc, h]

/-- `Tidy` and `Complete` together. -/
structure Whole (n : DataNode) : Prop where
  tidy : n.Tidy
  complete : n.Complete

theorem Whole.replaySql (h : n.Whole) : n.replaySql = n.walLog.history.map WalEntry.stmt :=
  h.tidy.replaySql.trans h.complete

theorem Whole.congr {n' : DataNode} (h : n.Whole) (hlog : n'.walLog = n.walLog)
    (hcompacted : n'.compactedWal = n.compactedWal)
    (hsql : n'.snapshotManager.snapshotSql = n.snapshotManager.snapshotSql) : n'.Whole := by
  refine ⟨h.tidy.congr hlog hcompacted, ?_⟩
  unfold Complete
  rw [hlog, hsql]
  exact h.complete

theorem Whole.compactTo (h : n.Whole) (hexact : n.StoresExactly) :
    (n.compactTo n.replaySql).Whole := by
  refine ⟨h.tidy.compactTo _, ?_⟩
  unfold Complete
  rw [h.tidy.walFile_compactTo]
  show readBack n.replaySql ++ [] = n.walLog.history.map WalEntry.stmt
  rw [List.append_nil, hexact, h.replaySql]

theorem Whole.maybeSnapshot (h : n.Whole) (hexact : n.StoresExactly) : n.maybeSnapshot.Whole := by
  rw [maybeSnapshot_eq, h.tidy.appliedSql]
  split
  · exact h.compactTo hexact
  · exact h

theorem Whole.adminSnapshot (h : n.Whole) (hexact : n.StoresExactly) : n.adminSnapshot.Whole := by
  rw [adminSnapshot_eq, h.tidy.appliedSql]
  exact h.compactTo hexact

theorem Whole.logRequest (h : n.Whole) (shardTerm : Int → Option Nat) (request : ExecuteRequest) :
    (n.logRequest shardTerm request).1.Whole := by
  obtain heq | ⟨e, he, heq⟩ := n.logRequest_cases shardTerm request
  · rwa [heq]
  · rw [heq]
    exact ⟨h.tidy.logs he.1.after, h.complete.logs e⟩

theorem Whole.markApplied (h : n.Whole) (written : Option WalEntry) :
    (n.markApplied written).Whole := by
  cases written with
  | none => exact h
  | some e => exact h.congr rfl rfl rfl

variable {request : ExecuteRequest}

/-- A whole `/execute`. -/
theorem Whole.execute (h : n.Whole) {shardTerm : Int → Option Nat}
    (hexact : (n.logRequest shardTerm request).1.StoresExactly) (fault : Option ExecuteFault)
    (output : String) : (n.execute shardTerm request fault output).node.Whole := by
  have hlog := h.logRequest shardTerm request
  obtain heq | ⟨written, heq⟩ := n.execute_node_cases shardTerm request fault output
  · rwa [heq]
  · rw [heq]
    refine (hlog.markApplied written).maybeSnapshot ?_
    unfold StoresExactly
    rw [replaySql_markApplied]
    exact hexact

theorem Whole.reload (h : n.Whole) (shardsForNode : List Int) : (n.reload shardsForNode).Whole :=
  ⟨h.tidy.reload shardsForNode, h.complete⟩

theorem Whole.applyPendingWal (h : n.Whole) : n.applyPendingWal.Whole := by
  unfold DataNode.applyPendingWal
  split
  · exact h
  · exact h.congr rfl rfl rfl

/-- The entries of a peer are appended one by one. -/
theorem Whole.foldl_appendRecovered (h : n.Whole) (es : List WalEntry) :
    (es.foldl appendRecovered n).Whole ∧
      (es.foldl appendRecovered n).compactedWal = n.compactedWal := by
  induction es generalizing n with
  | nil => exact ⟨h, rfl⟩
  | cons e es ih =>
    rw [List.foldl_cons]
    obtain ⟨heq, _⟩ | ⟨happ, heq⟩ := n.appendRecovered_cases e
    · rw [heq]
      exact ih h
    · rw [heq]
      exact ih ⟨h.tidy.logs happ.after, h.complete.logs _⟩

/-- A recovery that installs no snapshot of a peer. -/
theorem Whole.recoverFromPeers (h : n.Whole) (peers : List (NodeInfo × Option RecoveryState))
    (hinstalls : ∀ p ∈ peers, ∀ rs, p.2 = some rs → n.installs rs = false) :
    (n.recoverFromPeers peers).Whole := by
  unfold DataNode.recoverFromPeers
  induction peers generalizing n with
  | nil => exact h
  | cons p peers ih =>
    rw [List.foldl_cons]
    -- one peer keeps the compacted number, so the next ones are not newer either
    have hround : (n.recoverFromPeer p.1 p.2).Whole ∧
        (n.recoverFromPeer p.1 p.2).compactedWal = n.compactedWal := by
      unfold recoverFromPeer
      split
      · cases hp : p.2 with
        | none => exact ⟨h, rfl⟩
        | some rs =>
          have hnone := hinstalls p List.mem_cons_self rs hp
          have heq : n.installPeerSnapshotIfNewer rs = n := by
            unfold installPeerSnapshotIfNewer
            rw [hnone, if_neg Bool.false_ne_true]
          dsimp only
          unfold absorb
          rw [heq]
          exact h.foldl_appendRecovered _
      · exact ⟨h, rfl⟩
    refine ih hround.1 fun q hq rs hrs => ?_
    have hold := hinstalls q (List.mem_cons_of_mem _ hq) rs hrs
    unfold installs at hold ⊢
    rwa [hround.2]

/-- A start whose peers offer no newer snapshot. -/
theorem Whole.start (h : n.Whole) {shardsForNode : List Int}
    {peers : List (NodeInfo × Option RecoveryState)}
    (hinstalls : ∀ p ∈ peers, ∀ rs, p.2 = some rs → n.installs rs = false)
    (hexact : ((n.reload shardsForNode).recoverFromPeers peers).StoresExactly) :
    (n.start shardsForNode peers).Whole := by
  have hrecovered := (h.reload shardsForNode).recoverFromPeers peers hinstalls
  refine Whole.congr (hrecovered.applyPendingWal.maybeSnapshot ?_) rfl rfl rfl
  unfold StoresExactly
  rw [replaySql_applyPendingWal]
  exact hexact

theorem Whole.adminRefreshShards (h : n.Whole) {shardsForNode : List Int}
    {peers : List (NodeInfo × Option RecoveryState)}
    (hinstalls : ∀ p ∈ peers, ∀ rs, p.2 = some rs → n.installs rs = false) :
    (n.adminRefreshShards shardsForNode peers).Whole := by
  have hrefreshed : ((n.withState .RECOVERING).refreshShards shardsForNode).Whole :=
    h.congr rfl rfl rfl
  exact (hrefreshed.recoverFromPeers peers hinstalls).applyPendingWal.congr rfl rfl rfl

/-- The statement that a request is logged as. -/
def requestStmt (request : ExecuteRequest) : Stmt where
  requestId := request.requestId
  shardId := request.shardId
  sql := SqlUtils.normalize request.sql

theorem stmt_of_entryFor (he : n.entryFor request e) :
    e.stmt = requestStmt request := by
  obtain ⟨_, hid, hshard, _, hsql⟩ := he
  unfold WalEntry.stmt requestStmt
  rw [hid, hshard, hsql]

/-- What a run of requests, snapshots, refreshes and restarts may not do: crash inside an operation
or install the snapshot of a peer. And `snapshot.sql` is an exact store of what it is given. -/
def Serialised (n : DataNode) : NodeOp → Prop
  | .execute shardTerm request _ _ => (n.logRequest shardTerm request).1.StoresExactly
  | .adminSnapshot => n.StoresExactly
  | .adminRefreshShards _ peers => ∀ p ∈ peers, ∀ rs, p.2 = some rs → n.installs rs = false
  | .restart shardsForNode peers =>
    (∀ p ∈ peers, ∀ rs, p.2 = some rs → n.installs rs = false) ∧
      ((n.reload shardsForNode).recoverFromPeers peers).StoresExactly
  | .crash _ _ _ _ => False

theorem Whole.apply (h : n.Whole) {op : NodeOp} (hop : n.Serialised op) : (n.apply op).Whole := by
  cases op with
  | execute shardTerm request fault output => exact h.execute hop fault output
  | adminSnapshot => exact h.adminSnapshot hop
  | adminRefreshShards shardsForNode peers => exact h.adminRefreshShards hop
  | restart shardsForNode peers => exact h.start hop.1 hop.2
  | crash kind written shardsForNode peers => exact absurd hop id

theorem Whole.new (nodeId : String) : Whole { nodeId := nodeId } :=
  ⟨Tidy.new nodeId, rfl⟩

theorem history_start_nil (n : DataNode) (shardsForNode : List Int) :
    (n.start shardsForNode []).walLog.history = n.walLog.history := by
  show ((n.reload shardsForNode).applyPendingWal.maybeSnapshot).walLog.history = _
  rw [history_maybeSnapshot]
  unfold applyPendingWal
  split
  · rfl
  · rfl

/-- A write with a new request id is rejected and changes nothing, or its statement is added to
the history. -/
theorem history_execute_fresh {shardTerm : Int → Option Nat}
    (hwrite : request.replay = true ∨ SqlUtils.isReadOnly (SqlUtils.normalize request.sql) = false)
    (hfresh : n.walLog.containsRequestId request.requestId = false) (fault : Option ExecuteFault)
    (output : String) :
    (∃ error, n.execute shardTerm request fault output = ⟨n, .failure n.nodeId error, false⟩) ∨
      (n.execute shardTerm request fault output).node.walLog.history.map WalEntry.stmt =
        n.walLog.history.map WalEntry.stmt ++ [requestStmt request] := by
  obtain ⟨error, hrejected⟩ | ⟨e, hentry, hlogs⟩ := logRequest_fresh shardTerm hwrite hfresh
  · left
    refine ⟨error, ?_⟩
    unfold execute
    rw [hrejected]
  · right
    obtain heq | ⟨d, _, hd, heq⟩ := n.history_execute shardTerm request fault output
    · have hkeeps :=
        (n.extends_execute_of_logRequest shardTerm request fault output).history.length_le
      rw [heq, hlogs] at hkeeps
      simp only [DataNode.logs, WalLog.appendRaw, List.length_append,
        List.length_singleton] at hkeeps
      omega
    · rw [hlogs] at hd
      have hde : d = e := by
        have := congrArg (fun n : DataNode => n.walLog.history) hd
        simpa [DataNode.logs, WalLog.appendRaw] using this.symm
      rw [heq, hde, List.map_append, List.map_singleton, stmt_of_entryFor hentry]

/-- Snapshots preserve the replay list. In every run of requests, automatic and requested snapshots,
refreshes and clean restarts, the replay list has the statements of all entries appended since the
node was created, in the order of the appends. A snapshot and a restart that recovers nothing leave
it as it is, and a write with a new request id that is not rejected adds its own statement. -/
theorem replaySql_eq_history {nodeId : String} {ops : List NodeOp} {n : DataNode}
    (hrun : Steps (fun n op n' => n.Serialised op ∧ n' = n.apply op) { nodeId := nodeId } ops n) :
    n.replaySql = n.walLog.history.map WalEntry.stmt ∧
      (n.Serialised .adminSnapshot → (n.apply .adminSnapshot).replaySql = n.replaySql) ∧
      (∀ shardsForNode, n.Serialised (.restart shardsForNode []) →
        (n.apply (.restart shardsForNode [])).replaySql = n.replaySql) ∧
      ∀ shardTerm request fault output,
        n.Serialised (.execute shardTerm request fault output) →
        (request.replay = true ∨
          SqlUtils.isReadOnly (SqlUtils.normalize request.sql) = false) →
        n.walLog.containsRequestId request.requestId = false →
        (∃ error, n.execute shardTerm request fault output =
          ⟨n, .failure n.nodeId error, false⟩) ∨
        (n.apply (.execute shardTerm request fault output)).replaySql =
          n.replaySql ++ [requestStmt request] := by
  have h : n.Whole := by
    refine hrun.invariant (I := Whole) ?_ (Whole.new nodeId)
    rintro n op _ hn ⟨hop, rfl⟩
    exact hn.apply hop
  refine ⟨h.replaySql, fun hop => ?_, fun shardsForNode hop => ?_, ?_⟩
  · rw [(h.apply hop).replaySql, h.replaySql]
    rfl
  · rw [(h.apply hop).replaySql, h.replaySql]
    exact congrArg _ (n.history_start_nil shardsForNode)
  · intro shardTerm request fault output hop hwrite hfresh
    rw [(h.apply hop).replaySql, h.replaySql]
    exact history_execute_fresh hwrite hfresh fault output

/-- A write that the primary passes on to a follower. -/
def followerRequest (requestId sql : String) : ExecuteRequest where
  requestId := some requestId
  shardId := 0
  shardLogIndex := 1
  raftTerm := 1
  sql := sql
  replay := true

/-- A follower logs a write. -/
def followerWrite (requestId sql : String) : NodeOp :=
  .execute (fun _ => none) (followerRequest requestId sql) none ""

/-- A write, a snapshot, another write and a restart. -/
def twoWrites : List NodeOp :=
  [followerWrite "a" "insert into t values(1)", .adminSnapshot,
    followerWrite "b" "insert into t values(2)", .restart [0] []]

/-- The replay list after `twoWrites`: the first statement comes from the snapshot, the second
one from the log. -/
theorem replaySql_eq_history_two_writes :
    ∃ n : DataNode, n.walLog.history.map (·.requestId) = [some "a", some "b"] ∧
      n.snapshotManager.snapshotSql.map (·.requestId) = [some "a"] ∧
      n.replaySql = n.walLog.history.map WalEntry.stmt := by
  have hrun : Steps (fun (n : DataNode) op n' => n.Serialised op ∧ n' = n.apply op)
      { nodeId := "n1" } twoWrites (twoWrites.foldl apply { nodeId := "n1" }) := by
    refine .cons ⟨?_, rfl⟩ (.cons ⟨?_, rfl⟩ (.cons ⟨?_, rfl⟩ (.cons ⟨⟨?_, ?_⟩, rfl⟩ (.nil _))))
    · show StoresExactly _
      decide +kernel
    · show StoresExactly _
      decide +kernel
    · show StoresExactly _
      decide +kernel
    · simp
    · decide +kernel
  exact ⟨_, by decide +kernel, by decide +kernel, (replaySql_eq_history hrun).1⟩

end History

end DataNode

end DisMiniSql.Distributed
