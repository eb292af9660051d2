import DisMiniSql.Distributed.DataNode.DataNodeServer
import DisMiniSql.Proofs.Distributed.WalLog

/-!
# `DisMiniSql.Proofs.Distributed.DataNode`: what the steps of a node do to its state

`execute` logs at most one entry (`logRequest_cases`) and may then take a snapshot
(`execute_node_cases`). `execute_ok` says that an answer `ok` to a write means that an entry
with its request id was appended, now or before.

The other functions on the node change one thing each. `DataNode.Wf` is kept by all of them;
for the replay list the lemmas say what stays in it.
-/

set_option autoImplicit false

namespace DisMiniSql.Distributed

/-- What every recovery state of a running node has. -/
structure RecoveryState.Wf (r : RecoveryState) : Prop where
  normalized : ∀ e ∈ r.walEntries, SqlUtils.normalize e.sql = e.sql
  distinct : r.walEntries.Pairwise
    (fun a b => blankId a.requestId = false → a.requestId ≠ b.requestId)
  lines : ∀ x ∈ r.snapshotSql, x.IsLine

namespace DataNode

variable {n : DataNode} {x : Stmt}

/-- What every step of a node keeps. -/
structure Wf (n : DataNode) : Prop where
  log : n.walLog.Wf
  lines : ∀ x ∈ n.snapshotManager.snapshotSqlFile, x.SingleLine

/-- What a node answers to `/recovery-state` is well formed. -/
theorem Wf.recoveryState (h : n.Wf) : n.recoveryState.Wf where
  normalized := fun e he => h.log.normalized e (WalLog.mem_readAll.mp he)
  distinct := by
    refine ((List.perm_insertionSort _ n.walLog.walFile).pairwise_iff ?_).mpr h.log.distinct
    intro a b hab hblank hba
    exact hab (hba ▸ hblank) hba.symm
  lines := fun x hx => SnapshotManager.isLine_of_mem_snapshotSql h.lines hx

/-- The replay list: the snapshot, and the log after the compacted number. -/
theorem mem_replaySql :
    x ∈ n.replaySql ↔ x ∈ n.snapshotManager.snapshotSql ∨
      ∃ e ∈ n.walLog.walFile, n.compactedWal < e.sequence ∧ e.stmt = x := by
  simp [replaySql, replaySqlBefore, and_assoc]

section Log

/-- The node with one more entry in its log. -/
def logs (n : DataNode) (e : WalEntry) : DataNode := { n with walLog := n.walLog.appendRaw e }

variable {e : WalEntry}

/-- Logging an entry keeps the node well formed. -/
theorem Wf.logs (h : n.Wf) (he : n.walLog.Appends e) : (n.logs e).Wf :=
  ⟨h.log.appendRaw he, h.lines⟩

/-- The replay after an entry is logged: it is new, unless the snapshot covers its sequence. -/
theorem mem_replaySql_logs :
    x ∈ (n.logs e).replaySql ↔
      x ∈ n.replaySql ∨ (n.compactedWal < e.sequence ∧ e.stmt = x) := by
  simp only [mem_replaySql, logs, WalLog.appendRaw, List.mem_append, List.mem_singleton,
    compactedWal]
  constructor
  · rintro (h | ⟨d, hd | rfl, hseq, hx⟩)
    · exact Or.inl (Or.inl h)
    · exact Or.inl (Or.inr ⟨d, hd, hseq, hx⟩)
    · exact Or.inr ⟨hseq, hx⟩
  · rintro ((h | ⟨d, hd, hseq, hx⟩) | ⟨hseq, hx⟩)
    · exact Or.inl h
    · exact Or.inr ⟨d, Or.inl hd, hseq, hx⟩
    · exact Or.inr ⟨e, Or.inr rfl, hseq, hx⟩

/-- The entry that `execute` logs for a request. -/
def entryFor (n : DataNode) (request : ExecuteRequest) (e : WalEntry) : Prop :=
  n.walLog.Appends e ∧ e.requestId = request.requestId ∧ e.shardId = request.shardId ∧
    e.shardLogIndex = request.shardLogIndex ∧ e.sql = SqlUtils.normalize request.sql

/-- What a primary write does to the node: nothing, or one entry. -/
theorem logWrite_cases (n : DataNode) (shardTerm : Int → Option Nat)
    (request : ExecuteRequest) :
    (n.logWrite shardTerm request).1 = n ∨
      ∃ e, n.entryFor request e ∧ (n.logWrite shardTerm request).1 = n.logs e := by
  unfold logWrite
  split
  · exact Or.inl rfl
  split
  · exact Or.inl rfl
  split
  · exact Or.inl rfl
  obtain ⟨heq, _⟩ | ⟨happ, heq⟩ := WalLog.append_cases n.walLog request.requestId
    request.shardId request.shardLogIndex (SqlUtils.normalize request.sql)
  · exact Or.inl (by simp only [heq])
  · exact Or.inr ⟨_, ⟨happ, rfl, rfl, rfl, SqlUtils.normalize_normalize _⟩,
      by simp only [heq, logs]⟩

/-- What a replay write does: nothing, or one entry. -/
theorem logReplay_cases (n : DataNode) (request : ExecuteRequest) :
    (n.logReplay request).1 = n ∨
      ∃ e, n.entryFor request e ∧ (n.logReplay request).1 = n.logs e := by
  unfold logReplay
  split
  · exact Or.inl rfl
  obtain ⟨heq, _⟩ | ⟨happ, heq⟩ := WalLog.appendRecovered_cases n.walLog (replayEntry request)
  · exact Or.inl (by simp only [heq])
  · exact Or.inr ⟨_, ⟨happ, rfl, rfl, rfl, SqlUtils.normalize_normalize _⟩,
      by simp only [heq, logs]⟩

/-- The first part of `execute` appends nothing or the entry of the request. -/
theorem logRequest_cases (n : DataNode) (shardTerm : Int → Option Nat)
    (request : ExecuteRequest) :
    (n.logRequest shardTerm request).1 = n ∨
      ∃ e, n.entryFor request e ∧ (n.logRequest shardTerm request).1 = n.logs e := by
  unfold logRequest
  split
  · exact n.logReplay_cases request
  split
  · exact Or.inl rfl
  · exact n.logWrite_cases shardTerm request

/-- An unknown entry is not in the file. -/
theorem findByRequestId_of_not_contains {w : WalLog} {r : Option String}
    (h : w.containsRequestId r = false) : w.findByRequestId r = none := by
  simp only [WalLog.containsRequestId, Bool.or_eq_false_iff] at h
  simpa using h.2

variable {request : ExecuteRequest}

/-- A replay of a request that the node does not know is appended. -/
theorem logReplay_fresh (hfresh : n.walLog.containsRequestId request.requestId = false) :
    ∃ e, n.entryFor request e ∧ n.logReplay request = (n.logs e, .accepted (some e)) := by
  have hfind : n.walLog.findByRequestId (replayEntry request).requestId = none :=
    findByRequestId_of_not_contains hfresh
  refine ⟨n.walLog.localEntry (replayEntry request), ⟨⟨hfind, ?_, ?_⟩, rfl, rfl, rfl, ?_⟩, ?_⟩
  · exact lt_of_lt_of_le (Nat.lt_succ_self _) (le_max_left _ _)
  · exact SqlUtils.normalize_normalize _
  · exact SqlUtils.normalize_normalize _
  · unfold logReplay WalLog.appendRecovered
    rw [if_neg (by rw [hfresh]; exact Bool.false_ne_true), hfind]
    rfl

/-- A write of the primary with a new request id is rejected, or appended. -/
theorem logWrite_fresh (shardTerm : Int → Option Nat)
    (hfresh : n.walLog.containsRequestId request.requestId = false) :
    (∃ error, n.logWrite shardTerm request = (n, .rejected error)) ∨
      ∃ e, n.entryFor request e ∧
        n.logWrite shardTerm request = (n.logs e, .accepted (some e)) := by
  have hfind := findByRequestId_of_not_contains hfresh
  unfold logWrite
  split
  · exact Or.inl ⟨_, rfl⟩
  split
  · exact Or.inl ⟨_, rfl⟩
  split
  · exact Or.inl ⟨_, rfl⟩
  right
  refine ⟨n.walLog.newEntry request.requestId request.shardId request.shardLogIndex
    (SqlUtils.normalize request.sql), ⟨⟨hfind, Nat.lt_succ_self _, ?_⟩, rfl, rfl, rfl, ?_⟩, ?_⟩
  · exact SqlUtils.normalize_normalize _
  · exact SqlUtils.normalize_normalize _
  · simp only [WalLog.append, hfind, logs]

/-- A write with a new request id is rejected, or appended. -/
theorem logRequest_fresh (shardTerm : Int → Option Nat)
    (hwrite : request.replay = true ∨ SqlUtils.isReadOnly (SqlUtils.normalize request.sql) = false)
    (hfresh : n.walLog.containsRequestId request.requestId = false) :
    (∃ error, n.logRequest shardTerm request = (n, .rejected error)) ∨
      ∃ e, n.entryFor request e ∧
        n.logRequest shardTerm request = (n.logs e, .accepted (some e)) := by
  unfold logRequest
  by_cases hreplay : request.replay = true
  · rw [if_pos hreplay]
    exact Or.inr (logReplay_fresh hfresh)
  · rw [if_neg hreplay, if_neg (by rw [hwrite.resolve_left hreplay]; exact Bool.false_ne_true)]
    exact logWrite_fresh shardTerm hfresh

/-- What the end of a request does: nothing where it failed, else the write is marked and a snapshot
may be taken. -/
theorem finishRequest_node_cases (n : DataNode) (request : ExecuteRequest)
    (written : Option WalEntry) (fault : Option ExecuteFault) (output : String) :
    (n.finishRequest request written fault output).node = n ∨
      (n.finishRequest request written fault output).node =
        (n.markApplied written).maybeSnapshot := by
  unfold finishRequest
  split
  · exact Or.inl rfl
  split
  · exact Or.inl rfl
  split
  · exact Or.inr rfl
  · exact Or.inr rfl

/-- `execute` logs the request and may then mark it applied and look at the snapshot
threshold. -/
theorem execute_node_cases (n : DataNode) (shardTerm : Int → Option Nat)
    (request : ExecuteRequest) (fault : Option ExecuteFault) (output : String) :
    (n.execute shardTerm request fault output).node = (n.logRequest shardTerm request).1 ∨
      ∃ written, (n.execute shardTerm request fault output).node =
        ((n.logRequest shardTerm request).1.markApplied written).maybeSnapshot := by
  unfold execute
  dsimp only
  cases (n.logRequest shardTerm request).2 with
  | rejected error => exact Or.inl rfl
  | duplicate => exact Or.inl rfl
  | accepted written =>
    obtain h | h := finishRequest_node_cases (n.logRequest shardTerm request).1 request written
      fault output
    · exact Or.inl h
    · exact Or.inr ⟨written, h⟩

/-- A request that is logged is in the history, from now on or from before. -/
theorem exists_history_of_logWrite (h : n.Wf) {shardTerm : Int → Option Nat}
    {written : Option WalEntry} (hacc : (n.logWrite shardTerm request).2 = .accepted written) :
    ∃ e ∈ (n.logWrite shardTerm request).1.walLog.history, e.requestId = request.requestId := by
  unfold logWrite at hacc ⊢
  split at hacc
  · cases hacc
  split at hacc
  · cases hacc
  split at hacc
  · cases hacc
  rename_i howns hread hterm
  rw [if_neg howns, if_neg hread, if_neg hterm]
  obtain ⟨heq, e, he, hid⟩ | ⟨_, heq⟩ := WalLog.append_cases n.walLog request.requestId
    request.shardId request.shardLogIndex (SqlUtils.normalize request.sql)
  · exact ⟨e, by simpa only [heq] using h.log.recorded e he, hid⟩
  · refine ⟨n.walLog.newEntry request.requestId request.shardId request.shardLogIndex
      (SqlUtils.normalize request.sql), ?_, rfl⟩
    simp only [heq, WalLog.appendRaw]
    exact List.mem_append_right _ (List.mem_singleton_self _)

/-- After a replay its id is in the log or its history. -/
theorem exists_history_of_logReplay (h : n.Wf) (request : ExecuteRequest) :
    ∃ e ∈ (n.logReplay request).1.walLog.history, e.requestId = request.requestId := by
  unfold logReplay
  split
  · rename_i hcontains
    exact h.log.exists_of_containsRequestId hcontains
  obtain ⟨heq, e, he, hid⟩ | ⟨_, heq⟩ := WalLog.appendRecovered_cases n.walLog (replayEntry request)
  · exact ⟨e, by simpa only [heq] using h.log.recorded e he, hid⟩
  · refine ⟨n.walLog.localEntry (replayEntry request), ?_, rfl⟩
    simp only [heq, WalLog.appendRaw]
    exact List.mem_append_right _ (List.mem_singleton_self _)

/-- Logging keeps the node's name. -/
theorem nodeId_logRequest (n : DataNode) (shardTerm : Int → Option Nat)
    (request : ExecuteRequest) : (n.logRequest shardTerm request).1.nodeId = n.nodeId := by
  obtain h | ⟨e, _, h⟩ := n.logRequest_cases shardTerm request
  · rw [h]
  · rw [h]
    rfl

/-- After any request that was not rejected its id is in the log or its history, as a new entry or
as an old one. -/
theorem exists_history_of_logRequest (h : n.Wf) {shardTerm : Int → Option Nat}
    (hwrite : request.replay = true ∨ SqlUtils.isReadOnly (SqlUtils.normalize request.sql) = false)
    (hlog : ∀ error, (n.logRequest shardTerm request).2 ≠ .rejected error) :
    ∃ e ∈ (n.logRequest shardTerm request).1.walLog.history,
      e.requestId = request.requestId := by
  unfold logRequest at hlog ⊢
  -- a replay first, then a primary write, which may be a duplicate
  by_cases hreplay : request.replay = true
  · rw [if_pos hreplay]
    exact exists_history_of_logReplay h request
  · have hread := hwrite.resolve_left hreplay
    simp only [hreplay, hread, Bool.false_eq_true, if_false] at hlog ⊢
    cases hres : (n.logWrite shardTerm request).2 with
    | rejected error => exact absurd hres (hlog error)
    | duplicate =>
      unfold logWrite at hres
      split at hres
      · cases hres
      split at hres
      · cases hres
      split at hres
      · cases hres
      · cases hres
    | accepted written => exact exists_history_of_logWrite h hres

end Log

section Snapshot

/-- The node after a snapshot of the statements `appliedSql` through the last number. -/
def compactTo (n : DataNode) (appliedSql : List Stmt) : DataNode :=
  { n with
    snapshotManager := n.snapshotManager.createSnapshot n.walLog.lastSequence appliedSql
    walLog := n.walLog.compactThrough n.walLog.lastSequence }

/-- The list has the old snapshot and every entry of the log that a snapshot compacts, and
nothing else. -/
structure Applied (n : DataNode) (appliedSql : List Stmt) : Prop where
  snapshot : ∀ x ∈ n.snapshotManager.snapshotSql, x ∈ appliedSql
  log : ∀ e ∈ n.walLog.walFile, e.sequence ≤ n.walLog.lastSequence → e.stmt ∈ appliedSql
  only : ∀ x ∈ appliedSql, x ∈ n.snapshotManager.snapshotSql ∨ ∃ e ∈ n.walLog.walFile, e.stmt = x

/-- The automatic snapshot: nothing, or after twenty entries a snapshot of what is applied. -/
theorem maybeSnapshot_cases (n : DataNode) :
    n.maybeSnapshot = n ∨ ∃ appliedSql, n.compactedWal + 20 ≤ n.walLog.lastSequence ∧
      n.Applied appliedSql ∧ n.maybeSnapshot = n.compactTo appliedSql := by
  unfold maybeSnapshot
  dsimp only
  split
  · exact Or.inl rfl
  · rename_i hreached
    refine Or.inr ⟨_, Nat.le_of_not_lt hreached, ⟨fun x hx => List.mem_append_left _ hx, ?_, ?_⟩,
      rfl⟩
    · intro e he hseq
      refine List.mem_append_right _ (List.mem_map_of_mem (List.mem_filter.mpr ?_))
      exact ⟨WalLog.mem_readAll.mpr he, by simpa using hseq⟩
    · intro x hx
      refine (List.mem_append.mp hx).imp_right fun hx => ?_
      obtain ⟨e, he, rfl⟩ := List.mem_map.mp hx
      exact ⟨e, WalLog.mem_readAll.mp (List.mem_of_mem_filter he), rfl⟩

/-- The snapshot on demand. -/
theorem adminSnapshot_cases (n : DataNode) :
    ∃ appliedSql, n.Applied appliedSql ∧ n.adminSnapshot = n.compactTo appliedSql := by
  refine ⟨_, ⟨fun x hx => List.mem_append_left _ hx, fun e he _ => ?_, fun x hx => ?_⟩, rfl⟩
  · exact List.mem_append_right _ (List.mem_map_of_mem (WalLog.mem_readAll.mpr he))
  · refine (List.mem_append.mp hx).imp_right fun hx => ?_
    obtain ⟨e, he, rfl⟩ := List.mem_map.mp hx
    exact ⟨e, WalLog.mem_readAll.mp he, rfl⟩

variable {appliedSql : List Stmt}

/-- A snapshot keeps the node well formed. -/
theorem Wf.compactTo (h : n.Wf) : (n.compactTo appliedSql).Wf :=
  ⟨h.log.compactThrough _, SnapshotManager.singleLine_createSnapshot n.snapshotManager _ _⟩

/-- A snapshot keeps the replay list if every statement of the log is one line. -/
theorem mem_replaySql_compactTo (h : n.Wf) (happ : n.Applied appliedSql)
    (hlines : ∀ e ∈ n.walLog.walFile, e.stmt.IsLine) (hx : x ∈ n.replaySql) :
    x ∈ (n.compactTo appliedSql).replaySql := by
  rw [mem_replaySql] at hx ⊢
  obtain hx | ⟨e, he, hseq, rfl⟩ := hx
  · left
    exact SnapshotManager.mem_snapshotSql_createSnapshot (m := n.snapshotManager)
      (happ.snapshot x hx) (SnapshotManager.isLine_of_mem_snapshotSql h.lines hx)
  · by_cases hlast : e.sequence ≤ n.walLog.lastSequence
    · left
      exact SnapshotManager.mem_snapshotSql_createSnapshot (m := n.snapshotManager)
        (happ.log e he hlast) (hlines e he)
    · right
      have hlast : n.walLog.lastSequence < e.sequence := Nat.lt_of_not_le hlast
      exact ⟨e, WalLog.mem_compactThrough.mpr ⟨he, hlast⟩, hlast, rfl⟩

/-- What a snapshot adds to the replay list was in the log, after or before the compacted
number. -/
theorem of_mem_replaySql_compactTo (h : n.Wf) (happ : n.Applied appliedSql)
    (hlines : ∀ e ∈ n.walLog.walFile, e.stmt.IsLine)
    (hx : x ∈ (n.compactTo appliedSql).replaySql) :
    x ∈ n.replaySql ∨ ∃ e ∈ n.walLog.walFile, e.stmt = x := by
  have hall : ∀ y ∈ appliedSql, y.IsLine := by
    intro y hy
    obtain hy | ⟨e, he, rfl⟩ := happ.only y hy
    · exact SnapshotManager.isLine_of_mem_snapshotSql h.lines hy
    · exact hlines e he
  have hsnapshot : (n.compactTo appliedSql).snapshotManager.snapshotSql = appliedSql :=
    SnapshotManager.snapshotSql_createSnapshot (m := n.snapshotManager) hall
  rw [mem_replaySql, hsnapshot] at hx
  obtain hx | ⟨e, he, _, rfl⟩ := hx
  · obtain hx | hx := happ.only x hx
    · exact Or.inl (mem_replaySql.mpr (Or.inl hx))
    · exact Or.inr hx
  · exact Or.inr ⟨e, (WalLog.mem_compactThrough.mp he).1, rfl⟩

end Snapshot

section Steps

/-- What no step of a node takes back: its id, and the entries it ever appended. -/
structure Extends (n n' : DataNode) : Prop where
  nodeId : n'.nodeId = n.nodeId
  history : n.walLog.history <+: n'.walLog.history

theorem Extends.refl (n : DataNode) : n.Extends n := ⟨rfl, List.prefix_refl _⟩

/-- Two extensions. -/
theorem Extends.trans {n₁ n₂ n₃ : DataNode} (h₁ : n₁.Extends n₂) (h₂ : n₂.Extends n₃) :
    n₁.Extends n₃ :=
  ⟨h₂.nodeId.trans h₁.nodeId, h₁.history.trans h₂.history⟩

/-- Logging extends the node. -/
theorem extends_logs (n : DataNode) (e : WalEntry) : n.Extends (n.logs e) :=
  ⟨rfl, List.prefix_append _ _⟩

/-- Marking keeps it well formed. -/
theorem Wf.markApplied (h : n.Wf) (written : Option WalEntry) : (n.markApplied written).Wf := by
  cases written with
  | none => exact h
  | some e => exact ⟨h.log, h.lines⟩

/-- Marking extends it. -/
theorem extends_markApplied (n : DataNode) (written : Option WalEntry) :
    n.Extends (n.markApplied written) := by
  cases written with
  | none => exact Extends.refl n
  | some e => exact ⟨rfl, List.prefix_refl _⟩

/-- And does not change its replay. -/
theorem replaySql_markApplied (n : DataNode) (written : Option WalEntry) :
    (n.markApplied written).replaySql = n.replaySql := by
  cases written with
  | none => rfl
  | some e => rfl

/-- The automatic snapshot keeps it well formed. -/
theorem Wf.maybeSnapshot (h : n.Wf) : n.maybeSnapshot.Wf := by
  obtain heq | ⟨_, _, _, heq⟩ := n.maybeSnapshot_cases
  · rwa [heq]
  · rw [heq]
    exact h.compactTo

/-- And extends it. -/
theorem extends_maybeSnapshot (n : DataNode) : n.Extends n.maybeSnapshot := by
  obtain heq | ⟨_, _, _, heq⟩ := n.maybeSnapshot_cases
  · rw [heq]
    exact Extends.refl n
  · rw [heq]
    exact ⟨rfl, List.prefix_refl _⟩

/-- The snapshot on demand keeps it well formed. -/
theorem Wf.adminSnapshot (h : n.Wf) : n.adminSnapshot.Wf := by
  obtain ⟨_, _, heq⟩ := n.adminSnapshot_cases
  rw [heq]
  exact h.compactTo

/-- And extends it. -/
theorem extends_adminSnapshot (n : DataNode) : n.Extends n.adminSnapshot :=
  ⟨rfl, List.prefix_refl _⟩

/-- Logging a request keeps it well formed. -/
theorem Wf.logRequest (h : n.Wf) (shardTerm : Int → Option Nat) (request : ExecuteRequest) :
    (n.logRequest shardTerm request).1.Wf := by
  obtain heq | ⟨e, he, heq⟩ := n.logRequest_cases shardTerm request
  · rwa [heq]
  · rw [heq]
    exact h.logs he.1

/-- And extends it. -/
theorem extends_logRequest (n : DataNode) (shardTerm : Int → Option Nat)
    (request : ExecuteRequest) : n.Extends (n.logRequest shardTerm request).1 := by
  obtain heq | ⟨e, _, heq⟩ := n.logRequest_cases shardTerm request
  · rw [heq]
    exact Extends.refl n
  · rw [heq]
    exact n.extends_logs e

/-- A whole `/execute` keeps it well formed. -/
theorem Wf.execute (h : n.Wf) (shardTerm : Int → Option Nat) (request : ExecuteRequest)
    (fault : Option ExecuteFault) (output : String) :
    (n.execute shardTerm request fault output).node.Wf := by
  obtain heq | ⟨written, heq⟩ := n.execute_node_cases shardTerm request fault output
  · rw [heq]
    exact h.logRequest shardTerm request
  · rw [heq]
    exact ((h.logRequest shardTerm request).markApplied written).maybeSnapshot

/-- The entries after the first part of `execute` stay. -/
theorem extends_execute_of_logRequest (n : DataNode) (shardTerm : Int → Option Nat)
    (request : ExecuteRequest) (fault : Option ExecuteFault) (output : String) :
    (n.logRequest shardTerm request).1.Extends
      (n.execute shardTerm request fault output).node := by
  obtain heq | ⟨written, heq⟩ := n.execute_node_cases shardTerm request fault output
  · rw [heq]
    exact Extends.refl _
  · rw [heq]
    exact (extends_markApplied _ written).trans (extends_maybeSnapshot _)

/-- And extends it. -/
theorem extends_execute (n : DataNode) (shardTerm : Int → Option Nat) (request : ExecuteRequest)
    (fault : Option ExecuteFault) (output : String) :
    n.Extends (n.execute shardTerm request fault output).node :=
  (n.extends_logRequest shardTerm request).trans
    (n.extends_execute_of_logRequest shardTerm request fault output)

/-- An answer of `execute` names the node. -/
theorem nodeId_execute_response (n : DataNode) (shardTerm : Int → Option Nat)
    (request : ExecuteRequest) (fault : Option ExecuteFault) (output : String) :
    (n.execute shardTerm request fault output).response.nodeId = n.nodeId := by
  have hlog := n.nodeId_logRequest shardTerm request
  unfold execute
  dsimp only
  cases (n.logRequest shardTerm request).2 with
  | rejected error => rfl
  | duplicate => rfl
  | accepted written =>
    dsimp only
    unfold finishRequest
    split
    · exact hlog
    split
    · exact hlog
    split
    · exact hlog
    · exact hlog

/-- If `execute` answers `ok` to a write, an entry with its request id was appended, by this
call or before. -/
theorem exists_history_of_execute_ok (h : n.Wf) {shardTerm : Int → Option Nat}
    {request : ExecuteRequest} {fault : Option ExecuteFault} {output : String}
    (hwrite : request.replay = true ∨
      SqlUtils.isReadOnly (SqlUtils.normalize request.sql) = false)
    (hok : (n.execute shardTerm request fault output).response.ok = true) :
    ∃ e ∈ (n.execute shardTerm request fault output).node.walLog.history,
      e.requestId = request.requestId := by
  have hlog : ∀ error, (n.logRequest shardTerm request).2 ≠ .rejected error := by
    intro error heq
    unfold execute at hok
    simp [heq, ExecuteResponse.failure] at hok
  obtain ⟨e, he, hid⟩ := exists_history_of_logRequest h hwrite hlog
  exact ⟨e, (n.extends_execute_of_logRequest shardTerm request fault output).history.subset he,
    hid⟩

/-- The automatic snapshot keeps the history. -/
theorem history_maybeSnapshot (n : DataNode) :
    n.maybeSnapshot.walLog.history = n.walLog.history := by
  obtain heq | ⟨_, _, _, heq⟩ := n.maybeSnapshot_cases
  · rw [heq]
  · rw [heq]
    rfl

/-- `execute` appends at most the entry of its request. -/
theorem history_execute (n : DataNode) (shardTerm : Int → Option Nat) (request : ExecuteRequest)
    (fault : Option ExecuteFault) (output : String) :
    (n.execute shardTerm request fault output).node.walLog.history = n.walLog.history ∨
      ∃ e, n.entryFor request e ∧ (n.logRequest shardTerm request).1 = n.logs e ∧
        (n.execute shardTerm request fault output).node.walLog.history =
          n.walLog.history ++ [e] := by
  have hlogged : (n.execute shardTerm request fault output).node.walLog.history =
      (n.logRequest shardTerm request).1.walLog.history := by
    obtain heq | ⟨written, heq⟩ := n.execute_node_cases shardTerm request fault output
    · rw [heq]
    · rw [heq, history_maybeSnapshot]
      cases written with
      | none => rfl
      | some e => rfl
  rw [hlogged]
  obtain heq | ⟨e, he, heq⟩ := n.logRequest_cases shardTerm request
  · exact Or.inl (by rw [heq])
  · refine Or.inr ⟨e, he, heq, ?_⟩
    rw [heq]
    rfl

/-- Installing a peer's snapshot keeps it well formed. -/
theorem Wf.createPeerSnapshot (h : n.Wf) (peerState : RecoveryState) :
    (n.createPeerSnapshot peerState).Wf :=
  ⟨h.log, SnapshotManager.singleLine_createSnapshot n.snapshotManager _ _⟩

/-- Moving the last sequence too. -/
theorem Wf.advanceLastSequence (h : n.Wf) (sequence : Nat) :
    (n.advanceLastSequence sequence).Wf :=
  ⟨h.log.advanceLastSequence sequence, h.lines⟩

/-- And extends the node. -/
theorem extends_advanceLastSequence (n : DataNode) (sequence : Nat) :
    n.Extends (n.advanceLastSequence sequence) := by
  refine ⟨rfl, ?_⟩
  unfold advanceLastSequence WalLog.advanceLastSequence
  split
  · exact List.prefix_refl _
  · exact List.prefix_refl _

/-- `appendRecovered` changes nothing, because an entry of the request is in the file, or logs
the entry under a new number. -/
theorem appendRecovered_cases (n : DataNode) (entry : WalEntry) :
    (n.appendRecovered entry = n ∧ ∃ e ∈ n.walLog.walFile, e.requestId = entry.requestId) ∨
      (n.walLog.Appends (n.walLog.localEntry entry) ∧
        n.appendRecovered entry = n.logs (n.walLog.localEntry entry)) := by
  obtain ⟨heq, hmem⟩ | ⟨happ, heq⟩ := WalLog.appendRecovered_cases n.walLog entry
  · exact Or.inl ⟨by simp only [appendRecovered, heq], hmem⟩
  · exact Or.inr ⟨happ, by simp only [appendRecovered, heq, logs]⟩

/-- Appending a recovered entry keeps it well formed. -/
theorem Wf.appendRecovered (h : n.Wf) (entry : WalEntry) : (n.appendRecovered entry).Wf := by
  obtain ⟨heq, _⟩ | ⟨happ, heq⟩ := n.appendRecovered_cases entry
  · rwa [heq]
  · rw [heq]
    exact h.logs happ

/-- And extends it. -/
theorem extends_appendRecovered (n : DataNode) (entry : WalEntry) :
    n.Extends (n.appendRecovered entry) := by
  obtain ⟨heq, _⟩ | ⟨_, heq⟩ := n.appendRecovered_cases entry
  · rw [heq]
    exact Extends.refl n
  · rw [heq]
    exact n.extends_logs _

/-- Installing a peer's snapshot keeps it well formed, if it is newer; else nothing happens. -/
theorem Wf.installPeerSnapshotIfNewer (h : n.Wf) (peerState : RecoveryState) :
    (n.installPeerSnapshotIfNewer peerState).Wf := by
  unfold DataNode.installPeerSnapshotIfNewer
  split
  · exact (h.createPeerSnapshot peerState).advanceLastSequence _
  · exact h

/-- And extends it. -/
theorem extends_installPeerSnapshotIfNewer (n : DataNode) (peerState : RecoveryState) :
    n.Extends (n.installPeerSnapshotIfNewer peerState) := by
  unfold installPeerSnapshotIfNewer
  split
  · have hadvance := (n.createPeerSnapshot peerState).extends_advanceLastSequence
      peerState.snapshotManifest.lastCompactedWalSequence
    exact ⟨hadvance.nodeId, hadvance.history⟩
  · exact Extends.refl n

/-- The rule of a recovery: what the installation of a snapshot and the appending of an entry keep
holds after one peer, whether it is asked or not and whether it answers or not. -/
theorem recoverFromPeer_induction {P : DataNode → Prop}
    (hinstall : ∀ m rs, P m → P (m.installPeerSnapshotIfNewer rs))
    (happend : ∀ m e, P m → P (m.appendRecovered e)) (h : P n) (peer : NodeInfo)
    (fetched : Option RecoveryState) : P (n.recoverFromPeer peer fetched) := by
  unfold recoverFromPeer
  split
  · cases fetched with
    | none => exact h
    | some rs => exact List.foldlRecOn _ _ (hinstall n rs h) fun m hm e _ => happend m e hm
  · exact h

/-- And so after all of them. -/
theorem recoverFromPeers_induction {P : DataNode → Prop}
    (hinstall : ∀ m rs, P m → P (m.installPeerSnapshotIfNewer rs))
    (happend : ∀ m e, P m → P (m.appendRecovered e)) (h : P n)
    (peers : List (NodeInfo × Option RecoveryState)) : P (n.recoverFromPeers peers) :=
  List.foldlRecOn peers _ h fun _ hm p _ =>
    recoverFromPeer_induction hinstall happend hm p.1 p.2

/-- Recovery keeps it well formed. -/
theorem Wf.recoverFromPeers (h : n.Wf) (peers : List (NodeInfo × Option RecoveryState)) :
    (n.recoverFromPeers peers).Wf :=
  recoverFromPeers_induction (fun _ rs hm => hm.installPeerSnapshotIfNewer rs)
    (fun _ e hm => hm.appendRecovered e) h peers

/-- And extends it. -/
theorem extends_recoverFromPeers (n : DataNode) (peers : List (NodeInfo × Option RecoveryState)) :
    n.Extends (n.recoverFromPeers peers) :=
  recoverFromPeers_induction (P := n.Extends)
    (fun m rs hm => hm.trans (m.extends_installPeerSnapshotIfNewer rs))
    (fun m e hm => hm.trans (m.extends_appendRecovered e)) (Extends.refl n) peers

/-- Applying the log at the start keeps it well formed. -/
theorem Wf.applyPendingWal (h : n.Wf) : n.applyPendingWal.Wf := by
  unfold DataNode.applyPendingWal
  split
  · exact h
  · exact ⟨h.log, h.lines⟩

/-- And extends it. -/
theorem extends_applyPendingWal (n : DataNode) : n.Extends n.applyPendingWal := by
  unfold applyPendingWal
  split
  · exact Extends.refl n
  · exact ⟨rfl, List.prefix_refl _⟩

/-- And does not change the replay. -/
theorem replaySql_applyPendingWal (n : DataNode) : n.applyPendingWal.replaySql = n.replaySql := by
  unfold applyPendingWal
  split
  · rfl
  · rfl

/-- Reading the shards again keeps it well formed. -/
theorem Wf.reload (h : n.Wf) (shardsForNode : List Int) : (n.reload shardsForNode).Wf :=
  ⟨h.log.loadIndex, h.lines⟩

end Steps

end DataNode

end DisMiniSql.Distributed
