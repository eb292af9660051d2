import Mathlib.Data.List.Flatten
import DisMiniSql.Proofs.Distributed.SnapshotList

/-!
# `DisMiniSql.Proofs.Distributed.SnapshotCrash`: a crash between two files of a snapshot

A snapshot writes `snapshot.sql`, then `snapshot.json`, then it truncates `wal.jsonl`. After the
first write the new list stands before the log that is in it. After the second one the manifest
hides that log, but the next snapshot reads the file without looking at the manifest, and puts
the statements behind the list once more.

`snapshot_crash_iff` says for every crash point when the replay list survives: outside these
two points always, if the statements are single lines, and at them only if there was nothing
to compact. The state is reduced to three lists: the snapshot, the log and the part of the log
after the compacted number.
-/

set_option autoImplicit false

namespace DisMiniSql.Distributed

open DisMiniSql.Lib (Steps)

namespace DataNode

open SnapshotManager (readBack)

variable {n : DataNode} {kind : SnapshotKind}

/-- The statements of the log file, in the order of their numbers. -/
def logSql (n : DataNode) : List Stmt := n.walLog.readAll.map WalEntry.stmt

/-- What holds of every node, also after crashes: the snapshot file has single lines, and the
last number is that of the log. -/
structure Sound (n : DataNode) : Prop where
  lines : ∀ x ∈ n.snapshotManager.snapshotSqlFile, x.SingleLine
  last : ∀ e ∈ n.walLog.walFile, e.sequence ≤ n.walLog.lastSequence

theorem Sound.new (nodeId : String) : Sound { nodeId := nodeId } := ⟨by simp, by simp⟩

theorem Sound.logs (h : n.Sound) {e : WalEntry} (he : n.walLog.lastSequence < e.sequence) :
    (n.logs e).Sound := by
  refine ⟨h.lines, fun a ha => ?_⟩
  show a.sequence ≤ e.sequence
  obtain ha | ha := List.mem_append.mp ha
  · exact le_trans (h.last a ha) (Nat.le_of_lt he)
  · rw [List.mem_singleton.mp ha]

theorem singleLine_flatMap_toLines (l : List Stmt) :
    ∀ x ∈ l.flatMap Stmt.toLines, x.SingleLine := by
  intro x hx
  obtain ⟨y, _, hy⟩ := List.mem_flatMap.mp hx
  exact Stmt.singleLine_of_mem_toLines hy

/-- A snapshot, complete or cut short by a crash. -/
theorem Sound.snapshotUpTo (h : n.Sound) (appliedSql : List Stmt) (written : SnapshotWrite) :
    (n.snapshotUpTo appliedSql written).Sound := by
  have hkept : ∀ e ∈ (n.walLog.compactThrough n.walLog.lastSequence).walFile,
      e.sequence ≤ n.walLog.lastSequence :=
    fun e he => h.last e (WalLog.mem_compactThrough.mp he).1
  cases written with
  | nothing => exact h
  | snapshotSql => exact ⟨singleLine_flatMap_toLines appliedSql, h.last⟩
  | manifest => exact ⟨singleLine_flatMap_toLines appliedSql, h.last⟩
  | walFile => exact ⟨singleLine_flatMap_toLines appliedSql, hkept⟩
  | walIndex => exact ⟨singleLine_flatMap_toLines appliedSql, hkept⟩

theorem Sound.compactTo (h : n.Sound) (appliedSql : List Stmt) : (n.compactTo appliedSql).Sound :=
  h.snapshotUpTo appliedSql .walFile

theorem Sound.maybeSnapshot (h : n.Sound) : n.maybeSnapshot.Sound := by
  obtain heq | ⟨appliedSql, _, _, heq⟩ := n.maybeSnapshot_cases
  · rwa [heq]
  · rw [heq]
    exact h.compactTo appliedSql

theorem Sound.snapshot (h : n.Sound) (kind : SnapshotKind) : (n.snapshot kind).Sound := by
  cases kind with
  | auto => exact h.maybeSnapshot
  | admin => exact h.compactTo _

/-- A whole `/execute`. -/
theorem Sound.execute (h : n.Sound) (shardTerm : Int → Option Nat) (request : ExecuteRequest)
    (fault : Option ExecuteFault) (output : String) :
    (n.execute shardTerm request fault output).node.Sound := by
  have hlog : (n.logRequest shardTerm request).1.Sound := by
    obtain heq | ⟨e, he, heq⟩ := n.logRequest_cases shardTerm request
    · rwa [heq]
    · rw [heq]
      exact h.logs he.1.after
  obtain heq | ⟨written, heq⟩ := n.execute_node_cases shardTerm request fault output
  · rwa [heq]
  · rw [heq]
    refine Sound.maybeSnapshot ?_
    cases written with
    | none => exact hlog
    | some e => exact ⟨hlog.lines, hlog.last⟩

theorem Sound.reload (h : n.Sound) (shardsForNode : List Int) : (n.reload shardsForNode).Sound :=
  ⟨h.lines, fun e he => (h.last e he).trans_eq (WalLog.lastSequence_loadIndex h.last).symm⟩

/-- A peer's snapshot. -/
theorem Sound.installPeerSnapshotIfNewer (h : n.Sound) (rs : RecoveryState) :
    (n.installPeerSnapshotIfNewer rs).Sound := by
  unfold DataNode.installPeerSnapshotIfNewer
  split
  · refine ⟨singleLine_flatMap_toLines rs.snapshotSql, ?_⟩
    unfold advanceLastSequence WalLog.advanceLastSequence
    split
    · rename_i hlt
      exact fun e he => le_trans (h.last e he) (Nat.le_of_lt hlt)
    · exact h.last
  · exact h

theorem Sound.appendRecovered (h : n.Sound) (e : WalEntry) : (n.appendRecovered e).Sound := by
  obtain ⟨heq, _⟩ | ⟨happ, heq⟩ := n.appendRecovered_cases e
  · rwa [heq]
  · rw [heq]
    exact h.logs happ.after

theorem Sound.recoverFromPeers (h : n.Sound) (peers : List (NodeInfo × Option RecoveryState)) :
    (n.recoverFromPeers peers).Sound :=
  recoverFromPeers_induction (fun _ rs hm => hm.installPeerSnapshotIfNewer rs)
    (fun _ e hm => hm.appendRecovered e) h peers

theorem Sound.applyPendingWal (h : n.Sound) : n.applyPendingWal.Sound := by
  unfold DataNode.applyPendingWal
  split
  · exact h
  · exact ⟨h.lines, h.last⟩

theorem Sound.start (h : n.Sound) (shardsForNode : List Int)
    (peers : List (NodeInfo × Option RecoveryState)) : (n.start shardsForNode peers).Sound := by
  have hend := ((h.reload shardsForNode).recoverFromPeers peers).applyPendingWal.maybeSnapshot
  exact ⟨hend.lines, hend.last⟩

theorem Sound.adminRefreshShards (h : n.Sound) (shardsForNode : List Int)
    (peers : List (NodeInfo × Option RecoveryState)) :
    (n.adminRefreshShards shardsForNode peers).Sound := by
  have hrefreshed : ((n.withState .RECOVERING).refreshShards shardsForNode).Sound :=
    ⟨h.lines, h.last⟩
  have hend := (hrefreshed.recoverFromPeers peers).applyPendingWal
  exact ⟨hend.lines, hend.last⟩

theorem Sound.crashIn (h : n.Sound) (kind : SnapshotKind) (written : SnapshotWrite) :
    (n.crashIn kind written).Sound := by
  unfold DataNode.crashIn
  split
  · exact h.snapshotUpTo _ written
  · exact h

theorem Sound.apply (h : n.Sound) (op : NodeOp) : (n.apply op).Sound := by
  cases op with
  | execute shardTerm request fault output => exact h.execute shardTerm request fault output
  | adminSnapshot => exact h.snapshot .admin
  | adminRefreshShards shardsForNode peers => exact h.adminRefreshShards shardsForNode peers
  | restart shardsForNode peers => exact h.start shardsForNode peers
  | crash kind written shardsForNode peers =>
    exact (h.crashIn kind written).start shardsForNode peers

/-- A state that a node reaches from its creation, with any requests, snapshots, refreshes,
restarts and crashes inside snapshots, and any answers of its peers. -/
def Reachable (n : DataNode) : Prop :=
  ∃ (nodeId : String) (ops : List NodeOp),
    Steps (fun n op n' => n' = n.apply op) ({ nodeId := nodeId } : DataNode) ops n

theorem Reachable.sound (h : n.Reachable) : n.Sound := by
  obtain ⟨nodeId, ops, hrun⟩ := h
  refine hrun.invariant (I := Sound) ?_ (Sound.new nodeId)
  rintro n op _ hn rfl
  exact hn.apply op

section Lists

/-- What a snapshot of either kind is given. -/
theorem Sound.appliedSql (h : n.Sound) (kind : SnapshotKind) :
    n.appliedSql kind = n.snapshotManager.snapshotSql ++ n.logSql := by
  cases kind with
  | auto =>
    unfold DataNode.appliedSql logSql
    dsimp only
    rw [List.filter_eq_self.mpr fun e he => by
      simpa using h.last e (WalLog.mem_readAll.mp he)]
  | admin => rfl

/-- What the snapshot file gives back of it. -/
theorem Sound.readBack_appliedSql (h : n.Sound) (kind : SnapshotKind) :
    readBack (n.appliedSql kind) = n.snapshotManager.snapshotSql ++ readBack n.logSql := by
  rw [h.appliedSql, SnapshotManager.readBack_append, SnapshotManager.readBack_eq_self_iff.mpr]
  exact fun x hx => SnapshotManager.isLine_of_mem_snapshotSql h.lines hx

theorem Sound.walFile_compactTo (h : n.Sound) (appliedSql : List Stmt) :
    (n.compactTo appliedSql).walLog.walFile = [] := by
  refine List.eq_nil_iff_forall_not_mem.mpr fun e he => ?_
  obtain ⟨hmem, hlt⟩ := WalLog.mem_compactThrough.mp he
  exact absurd (h.last e hmem) (Nat.not_le_of_lt hlt)

/-- The three lists of a node: its snapshot, its log and the part of its log that is
replayed. -/
structure Lists (n : DataNode) (snapshotSql logSql pendingSql : List Stmt) : Prop where
  snapshot : n.snapshotManager.snapshotSql = snapshotSql
  log : n.logSql = logSql
  pending : n.pendingSql = pendingSql

theorem lists (n : DataNode) : n.Lists n.snapshotManager.snapshotSql n.logSql n.pendingSql :=
  ⟨rfl, rfl, rfl⟩

/-- A snapshot that is taken: the log is in the snapshot, and the file is empty. -/
theorem Sound.lists_compactTo (h : n.Sound) (kind : SnapshotKind) :
    (n.compactTo (n.appliedSql kind)).Lists
      (n.snapshotManager.snapshotSql ++ readBack n.logSql) [] [] := by
  have hfile := h.walFile_compactTo (n.appliedSql kind)
  have hread : (n.compactTo (n.appliedSql kind)).walLog.readAll = [] := by
    rw [WalLog.readAll, hfile]
    rfl
  refine ⟨h.readBack_appliedSql kind, ?_, ?_⟩
  · rw [logSql, hread]
    rfl
  · rw [pendingSql, hread]
    rfl

theorem snapshot_eq (n : DataNode) (kind : SnapshotKind) :
    n.snapshot kind = if n.snapshots kind then n.compactTo (n.appliedSql kind) else n := by
  cases kind with
  | auto => exact n.maybeSnapshot_eq
  | admin => rfl

/-- Which lists survive every later snapshot: the replay list has to be this list, and so does
the list that the next snapshot writes. -/
theorem Sound.later_iff (h : n.Sound) {s w p : List Stmt} (hn : n.Lists s w p) (l : List Stmt) :
    (∀ later : List SnapshotKind, (later.foldl DataNode.snapshot n).replaySql = l) ↔
      s ++ p = l ∧ s ++ readBack w = l := by
  constructor
  · intro hall
    refine ⟨?_, ?_⟩
    · have hnow := hall []
      rwa [List.foldl_nil, replaySql_eq, hn.snapshot, hn.pending] at hnow
    · have hnext := hall [.admin]
      have hlists := h.lists_compactTo .admin
      have heq : (n.compactTo (n.appliedSql .admin)).replaySql = l := hnext
      rwa [replaySql_eq, hlists.snapshot, hlists.pending, List.append_nil, hn.snapshot,
        hn.log] at heq
  · rintro ⟨hnow, hnext⟩ later
    induction later generalizing n s w p with
    | nil => rw [List.foldl_nil, replaySql_eq, hn.snapshot, hn.pending, hnow]
    | cons kind later ih =>
      rw [List.foldl_cons]
      have hsound := h.snapshot kind
      rw [snapshot_eq] at hsound ⊢
      split at hsound
      · -- after a snapshot the file is empty, and every later one writes the same list
        rename_i htaken
        rw [if_pos htaken]
        have hlists := h.lists_compactTo kind
        rw [hn.snapshot, hn.log, hnext] at hlists
        exact ih hsound hlists (List.append_nil l) (List.append_nil l)
      · rename_i hskip
        rw [if_neg hskip]
        exact ih h hn hnow hnext

variable {shardsForNode : List Int} {peers : List (NodeInfo × Option RecoveryState)}

/-- The lists after a restart that recovers nothing: as before, or those of a snapshot if the
threshold is reached. -/
theorem Sound.lists_start (h : n.Sound)
    (hpeers : (n.reload shardsForNode).recoverFromPeers peers = n.reload shardsForNode) :
    (n.snapshots .auto = false ∧ (n.start shardsForNode peers).Lists
        n.snapshotManager.snapshotSql n.logSql n.pendingSql) ∨
      (n.snapshots .auto = true ∧ (n.start shardsForNode peers).Lists
        (n.snapshotManager.snapshotSql ++ readBack n.logSql) [] []) := by
  have hloaded : ((n.reload shardsForNode).applyPendingWal).Lists
      n.snapshotManager.snapshotSql n.logSql n.pendingSql := by
    unfold DataNode.applyPendingWal
    split
    · exact ⟨rfl, rfl, rfl⟩
    · exact ⟨rfl, rfl, rfl⟩
  have htest : ((n.reload shardsForNode).applyPendingWal).snapshots .auto =
      n.snapshots .auto := by
    have hlast := WalLog.lastSequence_loadIndex h.last
    have heq : ((n.reload shardsForNode).applyPendingWal).snapshots .auto =
        decide (n.compactedWal + 20 ≤ n.walLog.loadIndex.lastSequence) := by
      unfold DataNode.applyPendingWal
      split
      · rfl
      · rfl
    rw [heq, hlast]
    rfl
  have hsound := (h.reload shardsForNode).applyPendingWal
  have hstart : (n.start shardsForNode peers) =
      ((n.reload shardsForNode).applyPendingWal.snapshot .auto).withState .SERVING := by
    unfold DataNode.start
    rw [hpeers]
    rfl
  rw [hstart, snapshot_eq, htest]
  by_cases hauto : n.snapshots .auto = true
  · right
    rw [if_pos hauto]
    have hlists := hsound.lists_compactTo .auto
    rw [hloaded.snapshot, hloaded.log] at hlists
    exact ⟨hauto, hlists.snapshot, hlists.log, hlists.pending⟩
  · left
    rw [if_neg hauto]
    exact ⟨by simpa using hauto, hloaded.snapshot, hloaded.log, hloaded.pending⟩

/-- Which lists survive a restart and every later snapshot. -/
theorem Sound.start_later_iff (h : n.Sound) {s w p : List Stmt} (hn : n.Lists s w p)
    (hpeers : (n.reload shardsForNode).recoverFromPeers peers = n.reload shardsForNode)
    (l : List Stmt) :
    (∀ later : List SnapshotKind,
        (later.foldl DataNode.snapshot (n.start shardsForNode peers)).replaySql = l) ↔
      (n.snapshots .auto = false → s ++ p = l) ∧ s ++ readBack w = l := by
  have hsound := h.start shardsForNode peers
  obtain ⟨hauto, hlists⟩ | ⟨hauto, hlists⟩ := h.lists_start hpeers
  · rw [hsound.later_iff hlists, hn.snapshot, hn.log, hn.pending]
    simp [hauto]
  · rw [hsound.later_iff hlists, hn.snapshot, hn.log]
    simp [hauto, readBack]

theorem pendingSql_sublist (n : DataNode) : n.pendingSql.Sublist n.logSql :=
  List.filter_sublist.map _

theorem readBack_sublist {l l' : List Stmt} (h : l.Sublist l') :
    (readBack l).Sublist (readBack l') :=
  (h.flatMap _).filter _

/-- A log that is read back twice is what is replayed only if there is nothing. -/
theorem readBack_twice_iff {w p : List Stmt} (hsub : p.Sublist w) :
    readBack w ++ readBack w = p ↔ readBack w = p ∧ p = [] := by
  constructor
  · intro h
    -- all of `p` is read back as it is, so it is not longer than what is read back of `w`
    have hself : readBack p = p := by
      rw [SnapshotManager.readBack_eq_self_iff]
      intro x hx
      rw [← h, List.mem_append, or_self] at hx
      exact SnapshotManager.isLine_of_mem_readBack hx
    have hle := (readBack_sublist hsub).length_le
    rw [hself] at hle
    have hlen := congrArg List.length h
    rw [List.length_append] at hlen
    have hp : p = [] := List.eq_nil_of_length_eq_zero (by omega)
    have hw : readBack w = [] := List.eq_nil_of_length_eq_zero (by omega)
    exact ⟨hw.trans hp.symm, hp⟩
  · rintro ⟨hw, rfl⟩
    rw [hw]
    rfl

/-- The lists that a crash inside a snapshot leaves. -/
theorem Sound.lists_snapshotUpTo (h : n.Sound) (kind : SnapshotKind) :
    (n.snapshotUpTo (n.appliedSql kind) .snapshotSql).Lists
        (n.snapshotManager.snapshotSql ++ readBack n.logSql) n.logSql n.pendingSql ∧
      (n.snapshotUpTo (n.appliedSql kind) .manifest).Lists
        (n.snapshotManager.snapshotSql ++ readBack n.logSql) n.logSql [] ∧
      (n.snapshotUpTo (n.appliedSql kind) .walFile).Lists
        (n.snapshotManager.snapshotSql ++ readBack n.logSql) [] [] := by
  have hsql := h.readBack_appliedSql kind
  refine ⟨⟨hsql, rfl, rfl⟩, ⟨hsql, rfl, ?_⟩, h.lists_compactTo kind⟩
  -- the new manifest hides the whole log
  show (n.walLog.readAll.filter (fun e => decide (n.walLog.lastSequence < e.sequence))).map
    WalEntry.stmt = []
  rw [List.filter_eq_nil_iff.mpr fun e he => by
    simpa using h.last e (WalLog.mem_readAll.mp he)]
  rfl

/-- The crash points, in terms of the lists. -/
theorem Sound.crash_iff (h : n.Sound) (hbegins : n.snapshots kind = true)
    (written : SnapshotWrite) {shardsForNode : List Int}
    {peers : List (NodeInfo × Option RecoveryState)}
    (hpeers : ((n.crashIn kind written).reload shardsForNode).recoverFromPeers peers =
      (n.crashIn kind written).reload shardsForNode) :
    (∀ later : List SnapshotKind, (later.foldl DataNode.snapshot
        ((n.crashIn kind written).start shardsForNode peers)).replaySql = n.replaySql) ↔
      readBack n.logSql = n.pendingSql ∧
        (written = .snapshotSql ∨ written = .manifest → n.pendingSql = []) := by
  have hcrash : n.crashIn kind written = n.snapshotUpTo (n.appliedSql kind) written := by
    unfold DataNode.crashIn
    rw [if_pos hbegins]
  rw [hcrash] at hpeers ⊢
  have hsound := h.snapshotUpTo (n.appliedSql kind) written
  obtain ⟨hsql, hmanifest, hfile⟩ := h.lists_snapshotUpTo kind
  have htwice := readBack_twice_iff n.pendingSql_sublist
  rw [replaySql_eq]
  cases written with
  | nothing =>
    rw [hsound.start_later_iff n.lists hpeers]
    simp
  | snapshotSql =>
    rw [hsound.start_later_iff hsql hpeers, List.append_assoc, List.append_assoc,
      List.append_cancel_left_eq, List.append_cancel_left_eq, htwice]
    constructor
    · rintro ⟨_, hw, hp⟩
      exact ⟨hw, fun _ => hp⟩
    · rintro ⟨hw, hp⟩
      have hp := hp (Or.inl rfl)
      refine ⟨fun _ => ?_, hw, hp⟩
      rw [hw, hp]
      rfl
  | manifest =>
    have hskip : (n.snapshotUpTo (n.appliedSql kind) .manifest).snapshots .auto = false := by
      show decide (n.walLog.lastSequence + 20 ≤ n.walLog.lastSequence) = false
      simp
    rw [hsound.start_later_iff hmanifest hpeers, List.append_assoc, List.append_assoc,
      List.append_cancel_left_eq, List.append_cancel_left_eq, htwice, List.append_nil]
    simp only [hskip, forall_const, reduceCtorEq, or_true]
    exact ⟨fun hall => hall.2, fun hall => ⟨hall.1, hall⟩⟩
  | walFile | walIndex =>
    rw [hsound.start_later_iff hfile hpeers, show readBack [] = [] from rfl, List.append_nil,
      List.append_cancel_left_eq]
    simp only [reduceCtorEq, or_self, false_implies, and_true, and_iff_right_iff_imp]
    exact fun hw _ => hw

/-- The log is read back as the part that is replayed exactly if that part has single lines that
are not blank, and the rest is blank. -/
theorem readBack_log_iff {k : Nat} {es : List WalEntry} :
    readBack (es.map WalEntry.stmt) =
        (es.filter (fun e => decide (k < e.sequence))).map WalEntry.stmt ↔
      ∀ e ∈ es, (k < e.sequence → e.stmt.IsLine) ∧ (e.sequence ≤ k → isBlank e.sql = true) := by
  induction es with
  | nil => simp [readBack]
  | cons e es ih =>
    have hsplit : readBack ((e :: es).map WalEntry.stmt) =
        readBack [e.stmt] ++ readBack (es.map WalEntry.stmt) :=
      SnapshotManager.readBack_append [e.stmt] _
    rw [hsplit, List.forall_mem_cons]
    by_cases hk : k < e.sequence
    · rw [List.filter_cons_of_pos (by simpa using hk), List.map_cons]
      constructor
      · intro h
        have hline : e.stmt.IsLine := by
          have hmem : e.stmt ∈ readBack [e.stmt] ++ readBack (es.map WalEntry.stmt) :=
            h ▸ List.mem_cons_self
          rw [← SnapshotManager.readBack_append] at hmem
          exact SnapshotManager.isLine_of_mem_readBack hmem
        rw [SnapshotManager.readBack_singleton_of_isLine hline] at h
        exact ⟨⟨fun _ => hline, fun hle => absurd hk (Nat.not_lt_of_le hle)⟩,
          ih.mp (List.cons.inj h).2⟩
      · rintro ⟨⟨hline, _⟩, hrest⟩
        rw [SnapshotManager.readBack_singleton_of_isLine (hline hk), ih.mpr hrest]
        rfl
    · rw [List.filter_cons_of_neg (by simpa using hk)]
      constructor
      · intro h
        -- what is replayed is read back from the rest already
        have hself : readBack ((es.filter (fun e => decide (k < e.sequence))).map WalEntry.stmt) =
            (es.filter (fun e => decide (k < e.sequence))).map WalEntry.stmt := by
          rw [SnapshotManager.readBack_eq_self_iff]
          intro x hx
          rw [← h, ← SnapshotManager.readBack_append] at hx
          exact SnapshotManager.isLine_of_mem_readBack hx
        have hsub : ((es.filter (fun e => decide (k < e.sequence))).map WalEntry.stmt).Sublist
            (es.map WalEntry.stmt) := List.filter_sublist.map _
        have hle := (readBack_sublist hsub).length_le
        rw [hself, ← h, List.length_append] at hle
        have hnil : readBack [e.stmt] = [] := List.eq_nil_of_length_eq_zero (by omega)
        rw [hnil, List.nil_append] at h
        exact ⟨⟨fun hlt => absurd hlt hk,
          fun _ => SnapshotManager.readBack_singleton_eq_nil_iff.mp hnil⟩, ih.mp h⟩
      · rintro ⟨⟨_, hblank⟩, hrest⟩
        rw [SnapshotManager.readBack_singleton_eq_nil_iff.mpr (hblank (Nat.le_of_not_lt hk)),
          List.nil_append, ih.mpr hrest]

/-- Snapshot crash atomicity. For every reachable state, every snapshot and every crash point:
after a restart that recovers nothing, and after any later snapshots, the replay list is the
one from before, exactly if the log after the compacted number has single lines that are not
blank, the log up to it only blank statements, and nothing is after the compacted number where
the crash is between the writes of `snapshot.sql` and `wal.jsonl`. -/
theorem snapshot_crash_iff {n : DataNode} (h : n.Reachable) {kind : SnapshotKind}
    (hbegins : n.snapshots kind = true) (written : SnapshotWrite) {shardsForNode : List Int}
    {peers : List (NodeInfo × Option RecoveryState)}
    (hpeers : ((n.crashIn kind written).reload shardsForNode).recoverFromPeers peers =
      (n.crashIn kind written).reload shardsForNode) :
    (∀ later : List SnapshotKind, (later.foldl DataNode.snapshot
        ((n.crashIn kind written).start shardsForNode peers)).replaySql = n.replaySql) ↔
      (∀ e ∈ n.walLog.walFile, (n.compactedWal < e.sequence → e.stmt.IsLine) ∧
        (e.sequence ≤ n.compactedWal → isBlank e.sql = true)) ∧
      (written = .snapshotSql ∨ written = .manifest →
        ∀ e ∈ n.walLog.walFile, e.sequence ≤ n.compactedWal) := by
  rw [h.sound.crash_iff hbegins written hpeers]
  have hlines : readBack n.logSql = n.pendingSql ↔ ∀ e ∈ n.walLog.walFile,
      (n.compactedWal < e.sequence → e.stmt.IsLine) ∧
        (e.sequence ≤ n.compactedWal → isBlank e.sql = true) := by
    refine readBack_log_iff.trans ?_
    simp only [WalLog.mem_readAll]
  have hnothing : n.pendingSql = [] ↔ ∀ e ∈ n.walLog.walFile, e.sequence ≤ n.compactedWal := by
    simp [pendingSql]
  rw [hlines, hnothing]

/-- One logged write, and a snapshot that crashes after the truncation of the log: the replay
list is still the one statement. -/
theorem snapshot_crash_iff_one_write :
    ∃ n : DataNode, n.Reachable ∧ n.replaySql.map (·.requestId) = [some "a"] ∧
      ∀ later : List SnapshotKind, (later.foldl DataNode.snapshot
        ((n.crashIn .admin .walFile).start [0] [])).replaySql = n.replaySql := by
  have hreach :
      (apply { nodeId := "n1" } (followerWrite "a" "insert into t values(1)")).Reachable :=
    ⟨"n1", [followerWrite "a" "insert into t values(1)"], .cons rfl (.nil _)⟩
  refine ⟨_, hreach, by decide +kernel, ?_⟩
  refine (snapshot_crash_iff hreach rfl .walFile rfl).mpr ⟨?_, ?_⟩
  · decide +kernel
  · decide +kernel

/-- One logged write. If the snapshot crashes after `snapshot.sql`, the statement is replayed
twice after the restart. If it crashes after `snapshot.json`, the restart replays it once, and
the next snapshot doubles it. -/
theorem crash_doubles_statement :
    ∃ n : DataNode, n.Reachable ∧ n.replaySql.map (·.requestId) = [some "a"] ∧
      ((n.crashIn .admin .snapshotSql).start [0] []).replaySql.map (·.requestId) =
        [some "a", some "a"] ∧
      ((n.crashIn .admin .manifest).start [0] []).replaySql.map (·.requestId) = [some "a"] ∧
      (((n.crashIn .admin .manifest).start [0] []).snapshot .admin).replaySql.map
        (·.requestId) = [some "a", some "a"] := by
  refine ⟨apply { nodeId := "n1" } (followerWrite "a" "insert into t values(1)"), ?_, ?_⟩
  · exact ⟨"n1", [followerWrite "a" "insert into t values(1)"], .cons rfl (.nil _)⟩
  · decide +kernel

end Lists

end DataNode

end DisMiniSql.Distributed
