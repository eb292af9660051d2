import DisMiniSql.Proofs.Distributed.Reachable

/-!
# `DisMiniSql.Proofs.Distributed.ServingGate`: what a node has when it registers as `SERVING`

A recovery asks its peers one after another, each once, and then registers. A write that is
committed after the fetch from its holders is missed (`serving_without_committed`); so is one
whose holders all fail to answer, one that is hidden by an installed snapshot, and one whose
holder is not among the peers. A peer reads its snapshot and its log one after the other, and what
a snapshot moves from the one to the other in between is in neither (`torn_fetch_misses_committed`).

`Guarded` excludes these steps one by one. The invariant `GateInv` is that each committed write of
the node's shards is on its replay list, or in what it has fetched, or in the answer that is under
way, or on the list of a peer it will still ask. At the registration only the first is left
(`serving_gate`).
-/

set_option autoImplicit false

namespace DisMiniSql.Distributed

open DisMiniSql.Lib (Steps runWhere)

/-- The statement that a node logs for a write. -/
def Dispatch.stmt (d : Dispatch) : Stmt where
  requestId := some d.requestId
  shardId := d.shardId
  sql := SqlUtils.normalize d.sql

/-- The statement that a node logs for a request. -/
def ExecuteRequest.stmt (request : ExecuteRequest) : Stmt where
  requestId := request.requestId
  shardId := request.shardId
  sql := SqlUtils.normalize request.sql

/-- The statement that a node logs for an entry of a peer. -/
def WalEntry.loggedStmt (e : WalEntry) : Stmt where
  requestId := e.requestId
  shardId := e.shardId
  sql := SqlUtils.normalize e.sql

theorem WalEntry.loggedStmt_eq {e : WalEntry} (h : SqlUtils.normalize e.sql = e.sql) :
    e.loggedStmt = e.stmt := by
  rw [loggedStmt, h, stmt]

namespace Phase

/-- The recovery has its list of peers. -/
def scanned : Phase → Bool
  | .announcing => false
  | .refreshing => false
  | .scanning => false
  | _ => true

/-- The peers that are still to be asked. -/
def rest : Phase → List NodeInfo
  | .peers rest => rest
  | .readingSnapshot _ _ rest => rest
  | .readingWal _ _ _ rest => rest
  | .fetched _ rest => rest
  | .advancing _ rest => rest
  | .filtering _ rest => rest
  | .appending _ rest => rest
  | _ => []

/-- The peer that is asked next or whose answer is under way, and those after it. -/
def asks : Phase → Option (NodeInfo × List NodeInfo)
  | .peers (peer :: rest) => some (peer, rest)
  | .readingSnapshot peer _ rest => some (peer, rest)
  | .readingWal peer _ _ rest => some (peer, rest)
  | _ => none

/-- The statements that are fetched and still to be put on the replay list. -/
def fetchedSql : Phase → List Stmt
  | .fetched rs _ => rs.snapshotSql ++ rs.walEntries.map WalEntry.loggedStmt
  | .advancing rs _ => rs.walEntries.map WalEntry.loggedStmt
  | .filtering rs _ => rs.walEntries.map WalEntry.loggedStmt
  | .appending es _ => es.map WalEntry.loggedStmt
  | _ => []

end Phase

namespace Cluster

variable {c c' : Cluster} {a : Action} {i : String} {n : DataNode} {s : Stmt}

/-- The statements of the writes that were reported successful. -/
def committedSql (c : Cluster) : List Stmt := c.committed.map Dispatch.stmt

/-- Another node that runs has the statement on its replay list. -/
def HeldElsewhere (c : Cluster) (nodeId : String) (s : Stmt) : Prop :=
  ∃ j, j ≠ nodeId ∧ c.status j ≠ .down ∧ s ∈ (c.node j).replaySql

/-- One of these peers, which the node asks, has the statement on its replay list. -/
def ComesFrom (c : Cluster) (n : DataNode) (peers : List NodeInfo) (s : Stmt) : Prop :=
  ∃ p ∈ peers, n.contacts p = true ∧ s ∈ (c.node p.nodeId).replaySql

/-- The answer that is under way will bring the statement: the peer has it on its replay list, and
what is not in the snapshot that is read is in the file that is still to be read. -/
def Serves (c : Cluster) : Phase → Stmt → Prop
  | .readingSnapshot peer _ _, s => s ∈ (c.node peer.nodeId).replaySql
  | .readingWal peer _ snapshotSql _, s => s ∈ (c.node peer.nodeId).replaySql ∧
      (s ∈ snapshotSql ∨ ∃ e ∈ (c.node peer.nodeId).walLog.walFile, e.stmt = s)
  | _, _ => False

/-- The statement is on the replay list of the recovering node, or is fetched, or will be. -/
def Covered (c : Cluster) (x : Recovery) (s : Stmt) : Prop :=
  s ∈ (c.node x.nodeId).replaySql ∨ s ∈ x.phase.fetchedSql ∨ c.Serves x.phase s ∨
    c.ComesFrom (c.node x.nodeId) x.phase.rest s

/-- The recovering node must have the statement when it registers: it is that of a committed
write of one of its shards, and another node that runs holds it. -/
structure Owed (c : Cluster) (x : Recovery) (s : Stmt) : Prop where
  committed : s ∈ c.committedSql
  owned : (c.node x.nodeId).ownsShard s.shardId = true
  held : c.HeldElsewhere x.nodeId s

/-- The next step of the recovery passes over the statement, which it has fetched: the snapshot is
not installed, the request id is known, or the entry is in the file already or gets a number that
the snapshot hides. -/
def PassedOver (c : Cluster) (x : Recovery) (s : Stmt) : Prop :=
  match x.phase with
  | .fetched rs _ => (c.node x.nodeId).installs rs = false ∧ s ∈ rs.snapshotSql
  | .filtering rs _ => ∃ e ∈ rs.walEntries, e.loggedStmt = s ∧
      (c.node x.nodeId).walLog.containsRequestId e.requestId = true
  | .appending (e :: _) _ => e.loggedStmt = s ∧
      ((∃ old ∈ (c.node x.nodeId).walLog.walFile, old.requestId = e.requestId) ∨
        ((c.node x.nodeId).walLog.localEntry e).sequence ≤ (c.node x.nodeId).compactedWal)
  | _ => False

/-- The action takes a snapshot of the log of the node `i`, which is then in the state `n`. -/
inductive TakesSnapshot (c : Cluster) (i : String) : DataNode → Action → Prop
  | admin : TakesSnapshot c i (c.node i) (.adminSnapshot i)
  | deliver {place : Nat} {fault : Option ExecuteFault} {output : String} {env : Envelope}
      {n : DataNode} : c.requests[place]? = some env → env.target.nodeId = i →
      n = ((c.node i).logRequest c.shardTerm env.request).1 →
      n.compactedWal + 20 ≤ n.walLog.lastSequence →
      TakesSnapshot c i n (.deliver place fault output)
  | query {sql output : String} {fault : Option ExecuteFault} :
      (c.node i).compactedWal + 20 ≤ (c.node i).walLog.lastSequence →
      TakesSnapshot c i (c.node i) (.query i sql fault output)
  | complete {r : Nat} {fails : Bool} {x : Recovery} : c.recoveries r = some x →
      x.nodeId = i → x.phase = .peers [] →
      (c.node i).compactedWal + 20 ≤ (c.node i).walLog.lastSequence →
      TakesSnapshot c i (c.node i) (.recover r fails)

/-- The action puts the statement on the replay list of the node `j`, or starts `j` with it. -/
inductive Gains (c : Cluster) (j : String) (s : Stmt) : Action → Prop
  | deliver {place : Nat} {fault : Option ExecuteFault} {output : String} {env : Envelope} :
      c.requests[place]? = some env → env.target.nodeId = j → env.request.stmt = s →
      Gains c j s (.deliver place fault output)
  | install {r : Nat} {fails : Bool} {x : Recovery} {rs : RecoveryState}
      {rest : List NodeInfo} : c.recoveries r = some x → x.nodeId = j →
      x.phase = .fetched rs rest → s ∈ rs.snapshotSql → Gains c j s (.recover r fails)
  | append {r : Nat} {fails : Bool} {x : Recovery} {e : WalEntry} {es : List WalEntry}
      {rest : List NodeInfo} : c.recoveries r = some x → x.nodeId = j →
      x.phase = .appending (e :: es) rest → e.loggedStmt = s → Gains c j s (.recover r fails)
  | snapshot {a : Action} {n : DataNode} {e : WalEntry} : c.TakesSnapshot j n a →
      e ∈ n.walLog.walFile → e.stmt = s → Gains c j s a
  | start {r : Nat} : s ∈ (c.node j).replaySql → Gains c j s (.start r j)

/-- What a step must not do while recoveries are under way. -/
structure Guarded (c : Cluster) (a : Action) : Prop where
  /-- No write is committed while a node of its shard that does not have it is between the scan of
  its peers and its registration. -/
  commits : ∀ call d, a = .finish call → c.calls call = some (.sending d) →
    d.hasQuorum = true → ∀ r x, c.recoveries r = some x → x.phase.scanned = true →
    (c.node x.nodeId).ownsShard d.shardId = true → d.stmt ∈ (c.node x.nodeId).replaySql
  /-- The list of peers has a holder of every write that the node must get. -/
  scans : ∀ r fails x, a = .recover r fails → c.recoveries r = some x → x.phase = .scanning →
    ∀ s, c.Owed x s → s ∈ (c.node x.nodeId).replaySql ∨
      c.ComesFrom (c.node x.nodeId) c.zk.liveNodes s
  /-- A fetch fails only from a peer without a write that the node must get and that no later peer
  has. -/
  fails : ∀ r x peer rest, a = .recover r true → c.recoveries r = some x →
    x.phase.asks = some (peer, rest) → ∀ s, c.Owed x s → s ∈ (c.node peer.nodeId).replaySql →
    s ∈ (c.node x.nodeId).replaySql ∨ c.ComesFrom (c.node x.nodeId) rest s
  /-- What is passed over is on the list already. -/
  passes : ∀ r fails x, a = .recover r fails → c.recoveries r = some x →
    ∀ s, c.Owed x s → c.PassedOver x s → s ∈ (c.node x.nodeId).replaySql
  /-- An installed snapshot hides no committed write. -/
  installs : ∀ r fails x rs rest, a = .recover r fails → c.recoveries r = some x →
    x.phase = .fetched rs rest → (c.node x.nodeId).installs rs = true →
    ∀ s ∈ c.committedSql, s ∈ (c.node x.nodeId).replaySql → s ∈ rs.snapshotSql ∨
      ∃ e ∈ (c.node x.nodeId).walLog.walFile,
        rs.snapshotManifest.lastCompactedWalSequence < e.sequence ∧ e.stmt = s
  /-- The shards of a node do not change under another recovery of the node. -/
  refreshes : ∀ r fails x, a = .recover r fails → c.recoveries r = some x →
    x.phase = .refreshing → ∀ q y, c.recoveries q = some y → y.nodeId = x.nodeId →
    y.phase.scanned = false
  /-- No statement of several lines goes into a snapshot. -/
  snapshots : ∀ i n, c.TakesSnapshot i n a → ∀ e ∈ n.walLog.walFile, e.stmt.IsLine
  /-- No node takes a snapshot while it has read its snapshot for a recovery, and not yet its
  log. -/
  reads : ∀ i n, c.TakesSnapshot i n a → ∀ r x peer manifest snapshotSql rest,
    c.recoveries r = some x → x.phase = .readingWal peer manifest snapshotSql rest →
    peer.nodeId ≠ i
  /-- A committed write comes to another running node only if the nodes of its shard that recover
  have it, or a running node has it already. -/
  gains : ∀ j s, c.Gains j s a → s ∈ c.committedSql → ∀ r x, c.recoveries r = some x →
    x.phase.scanned = true → x.nodeId ≠ j → (c.node x.nodeId).ownsShard s.shardId = true →
    s ∈ (c.node x.nodeId).replaySql ∨ c.HeldElsewhere x.nodeId s

/-- The invariant of a guarded run. -/
structure GateInv (c : Cluster) : Prop where
  wf : c.Wf
  running : ∀ r x, c.recoveries r = some x → c.status x.nodeId ≠ .down
  covered : ∀ r x, c.recoveries r = some x → x.phase.scanned = true →
    ∀ s, c.Owed x s → c.Covered x s

section Node

/-- What a snapshot does to the replay list: it keeps all, and may add entries of the log that
were hidden. -/
theorem replaySql_maybeSnapshot (hn : n.Wf)
    (hlines : n.compactedWal + 20 ≤ n.walLog.lastSequence →
      ∀ e ∈ n.walLog.walFile, e.stmt.IsLine) :
    (s ∈ n.replaySql → s ∈ n.maybeSnapshot.replaySql) ∧
      (s ∈ n.maybeSnapshot.replaySql → s ∈ n.replaySql ∨
        (n.compactedWal + 20 ≤ n.walLog.lastSequence ∧ ∃ e ∈ n.walLog.walFile, e.stmt = s)) := by
  obtain heq | ⟨appliedSql, hreached, happ, heq⟩ := n.maybeSnapshot_cases
  · rw [heq]
    exact ⟨id, Or.inl⟩
  · rw [heq]
    refine ⟨DataNode.mem_replaySql_compactTo hn happ (hlines hreached), fun hs => ?_⟩
    exact (DataNode.of_mem_replaySql_compactTo hn happ (hlines hreached) hs).imp_right
      (fun h => ⟨hreached, h⟩)

/-- What `execute` does to the replay list. -/
theorem replaySql_execute (hn : n.Wf) (shardTerm : Int → Option Nat) (request : ExecuteRequest)
    (fault : Option ExecuteFault) (output : String)
    (hlines : (n.logRequest shardTerm request).1.compactedWal + 20 ≤
        (n.logRequest shardTerm request).1.walLog.lastSequence →
      ∀ e ∈ (n.logRequest shardTerm request).1.walLog.walFile, e.stmt.IsLine) :
    (s ∈ n.replaySql → s ∈ (n.execute shardTerm request fault output).node.replaySql) ∧
      (s ∈ (n.execute shardTerm request fault output).node.replaySql →
        s ∈ n.replaySql ∨ ((n.logRequest shardTerm request).1 ≠ n ∧ request.stmt = s) ∨
        ((n.logRequest shardTerm request).1.compactedWal + 20 ≤
            (n.logRequest shardTerm request).1.walLog.lastSequence ∧
          ∃ e ∈ (n.logRequest shardTerm request).1.walLog.walFile, e.stmt = s)) := by
  generalize hm : (n.logRequest shardTerm request).1 = m at hlines ⊢
  have hmwf : m.Wf := hm ▸ hn.logRequest shardTerm request
  -- the first part keeps the list and may add the statement of the request
  have hlog : (s ∈ n.replaySql → s ∈ m.replaySql) ∧
      (s ∈ m.replaySql → s ∈ n.replaySql ∨ (m ≠ n ∧ request.stmt = s)) := by
    obtain heq | ⟨e, ⟨_, hid, hshard, _, hsql⟩, heq⟩ := n.logRequest_cases shardTerm request
    · rw [← hm, heq]
      exact ⟨id, Or.inl⟩
    · rw [hm] at heq
      have hstmt : e.stmt = request.stmt := by
        rw [WalEntry.stmt, ExecuteRequest.stmt, hid, hshard, hsql]
      have hne : m ≠ n := by
        intro hmn
        have hlen := congrArg (fun n : DataNode => n.walLog.history.length) (hmn.symm.trans heq)
        simp [DataNode.logs, WalLog.appendRaw] at hlen
      refine ⟨fun hs => heq ▸ DataNode.mem_replaySql_logs.mpr (Or.inl hs), fun hs => ?_⟩
      rw [heq] at hs
      exact (DataNode.mem_replaySql_logs.mp hs).imp_right
        (fun h => ⟨hne, hstmt.symm.trans h.2⟩)
  obtain heq | ⟨written, heq⟩ := n.execute_node_cases shardTerm request fault output
  · rw [heq, hm]
    exact ⟨hlog.1, fun hs => (hlog.2 hs).imp_right Or.inl⟩
  · rw [hm] at heq
    have hsame : (m.markApplied written).walLog = m.walLog ∧
        (m.markApplied written).compactedWal = m.compactedWal := by
      cases written with
      | none => exact ⟨rfl, rfl⟩
      | some e => exact ⟨rfl, rfl⟩
    obtain ⟨hkeep, hadd⟩ := replaySql_maybeSnapshot (s := s) (hmwf.markApplied written)
      (by rw [hsame.1, hsame.2]; exact hlines)
    rw [DataNode.replaySql_markApplied, hsame.1, hsame.2] at hadd
    rw [DataNode.replaySql_markApplied] at hkeep
    rw [heq]
    refine ⟨fun hs => hkeep (hlog.1 hs), fun hs => ?_⟩
    obtain hs | hs := hadd hs
    · exact (hlog.2 hs).imp_right Or.inl
    · exact Or.inr (Or.inr hs)

/-- The steps before the fetches leave the replay list alone, and so do `advanceLastSequence`
and `applyPendingWal`. -/
theorem replaySql_advanceLastSequence (n : DataNode) (sequence : Nat) :
    (n.advanceLastSequence sequence).replaySql = n.replaySql := by
  unfold DataNode.advanceLastSequence WalLog.advanceLastSequence
  split
  · rfl
  · rfl

theorem applyPendingWal_same (n : DataNode) :
    n.applyPendingWal.walLog = n.walLog ∧ n.applyPendingWal.compactedWal = n.compactedWal := by
  unfold DataNode.applyPendingWal
  split
  · exact ⟨rfl, rfl⟩
  · exact ⟨rfl, rfl⟩

/-- The replay list after a snapshot of a peer is installed. -/
theorem mem_replaySql_createPeerSnapshot {rs : RecoveryState} (hrs : rs.Wf) :
    s ∈ (n.createPeerSnapshot rs).replaySql ↔ s ∈ rs.snapshotSql ∨
      ∃ e ∈ n.walLog.walFile,
        rs.snapshotManifest.lastCompactedWalSequence < e.sequence ∧ e.stmt = s := by
  have hsnapshot : (n.createPeerSnapshot rs).snapshotManager.snapshotSql = rs.snapshotSql :=
    SnapshotManager.snapshotSql_createSnapshot (m := n.snapshotManager) hrs.lines
  rw [DataNode.mem_replaySql, hsnapshot]
  rfl

/-- What a step of a recovery does to the replay list of its node. -/
theorem replaySql_move (hwf : c.Wf) (hg : c.Guarded a) {r : Nat} {fails : Bool} {x : Recovery}
    {phase : Phase} (ha : a = .recover r fails) (hx : c.recoveries r = some x)
    (hmove : Move c x fails n phase) :
    (s ∈ c.committedSql → s ∈ (c.node x.nodeId).replaySql → s ∈ n.replaySql) ∧
      (s ∈ n.replaySql → s ∈ (c.node x.nodeId).replaySql ∨ c.Gains x.nodeId s a) := by
  cases hmove with
  | complete hphase =>
    have hsame := applyPendingWal_same (c.node x.nodeId)
    split
    · obtain ⟨hkeep, hadd⟩ := replaySql_maybeSnapshot (s := s)
        (hwf.nodes x.nodeId).applyPendingWal (by
          rw [hsame.1, hsame.2]
          exact fun hreached => hg.snapshots x.nodeId _
            (ha ▸ .complete hx rfl hphase hreached))
      rw [DataNode.replaySql_applyPendingWal, hsame.1, hsame.2] at hadd
      rw [DataNode.replaySql_applyPendingWal] at hkeep
      refine ⟨fun _ hs => hkeep hs, fun hs => (hadd hs).imp_right ?_⟩
      rintro ⟨hreached, e, he, hes⟩
      exact ha ▸ .snapshot (.complete hx rfl hphase hreached) he hes
    · rw [DataNode.replaySql_applyPendingWal]
      exact ⟨fun _ => id, Or.inl⟩
  | install hphase hinstalls =>
    rename_i rs rest
    have hrs : rs.Wf := hwf.states r x rs hx (by rw [hphase]; rfl)
    rw [mem_replaySql_createPeerSnapshot hrs]
    refine ⟨hg.installs r fails x rs rest ha hx hphase hinstalls s, ?_⟩
    rintro (hs | ⟨e, he, hseq, hes⟩)
    · exact Or.inr (ha ▸ .install hx rfl hphase hs)
    · left
      have hcompacted : (c.node x.nodeId).compactedWal <
          rs.snapshotManifest.lastCompactedWalSequence := by
        simpa [DataNode.installs] using hinstalls
      exact DataNode.mem_replaySql.mpr (Or.inr ⟨e, he, hcompacted.trans hseq, hes⟩)
  | advance _ =>
    rw [replaySql_advanceLastSequence]
    exact ⟨fun _ => id, Or.inl⟩
  | append hphase =>
    rename_i entry entries rest
    obtain ⟨heq, _⟩ | ⟨_, heq⟩ := DataNode.appendRecovered_cases (c.node x.nodeId) entry
    · rw [heq]
      exact ⟨fun _ => id, Or.inl⟩
    · rw [heq, DataNode.mem_replaySql_logs]
      exact ⟨fun _ => Or.inl, fun hs => hs.imp_right
        (fun h => ha ▸ .append hx rfl hphase h.2)⟩
  | announce _ | refreshShards _ | scan _ | skip _ _ | fail _ _ _ | fetch _ _ _ | readSnapshot _ _
  | readWal _ _ | breakOff _ _ | keep _ _ | filter _ | next _ => exact ⟨fun _ => id, Or.inl⟩

/-- A guarded step takes no committed write from a replay list, and what it adds is gained. -/
theorem replaySql_nodeStep (hwf : c.Wf) (hg : c.Guarded a) (h : c.NodeStep i a n) :
    (s ∈ c.committedSql → s ∈ (c.node i).replaySql → s ∈ n.replaySql) ∧
      (s ∈ n.replaySql → s ∈ (c.node i).replaySql ∨ c.Gains i s a) := by
  cases h with
  | same => exact ⟨fun _ => id, Or.inl⟩
  | deliver henv hi =>
    rename_i place fault output env
    obtain ⟨hkeep, hadd⟩ := replaySql_execute (s := s) (hwf.nodes i) c.shardTerm env.request
      fault output (fun hreached => hg.snapshots i _ (.deliver henv hi rfl hreached))
    refine ⟨fun _ => hkeep, fun hs => (hadd hs).imp_right ?_⟩
    rintro (⟨_, hstmt⟩ | ⟨hreached, e, he, hes⟩)
    · exact .deliver henv hi hstmt
    · exact .snapshot (.deliver henv hi rfl hreached) he hes
  | query hread =>
    rename_i sql output fault
    have hsame := logRequest_readRequest (c.node i) c.shardTerm hread
    have hspec := replaySql_execute (s := s) (hwf.nodes i) c.shardTerm (readRequest sql)
      fault output
    rw [hsame] at hspec
    obtain ⟨hkeep, hadd⟩ := hspec (fun hreached => hg.snapshots i _ (.query hreached))
    refine ⟨fun _ => hkeep, fun hs => (hadd hs).imp_right ?_⟩
    rintro (⟨hne, _⟩ | ⟨hreached, e, he, hes⟩)
    · exact absurd rfl hne
    · exact .snapshot (.query hreached) he hes
  | adminSnapshot =>
    obtain ⟨appliedSql, happ, heq⟩ := (c.node i).adminSnapshot_cases
    have hlines := hg.snapshots i _ .admin
    rw [heq]
    refine ⟨fun _ => DataNode.mem_replaySql_compactTo (hwf.nodes i) happ hlines, fun hs => ?_⟩
    refine (DataNode.of_mem_replaySql_compactTo (hwf.nodes i) happ hlines hs).imp_right ?_
    rintro ⟨e, he, hes⟩
    exact .snapshot .admin he hes
  | start _ => exact ⟨fun _ => id, Or.inl⟩
  | move hx hi hmove => exact hi ▸ replaySql_move hwf hg rfl hx hmove
  | register _ _ => exact ⟨fun _ => id, Or.inl⟩

/-- The shards of a node change only when it starts or refreshes them. -/
theorem shards_nodeStep (h : c.NodeStep i a n) :
    n.shards = (c.node i).shards ∨ c.status i = .down ∨
      ∃ r fails x, a = .recover r fails ∧ c.recoveries r = some x ∧ x.nodeId = i ∧
        x.phase = .refreshing := by
  have hmaybe : ∀ m : DataNode, m.maybeSnapshot.shards = m.shards := by
    intro m
    obtain heq | ⟨_, _, _, heq⟩ := m.maybeSnapshot_cases
    · rw [heq]
    · rw [heq]
      rfl
  have hexecute : ∀ request fault output,
      ((c.node i).execute c.shardTerm request fault output).node.shards = (c.node i).shards := by
    intro request fault output
    have hlog : ((c.node i).logRequest c.shardTerm request).1.shards = (c.node i).shards := by
      obtain heq | ⟨e, _, heq⟩ := (c.node i).logRequest_cases c.shardTerm request
      · rw [heq]
      · rw [heq]
        rfl
    obtain heq | ⟨written, heq⟩ := (c.node i).execute_node_cases c.shardTerm request fault output
    · rw [heq, hlog]
    · rw [heq, hmaybe, ← hlog]
      cases written with
      | none => rfl
      | some e => rfl
  have happly : ∀ m : DataNode, m.applyPendingWal.shards = m.shards := by
    intro m
    unfold DataNode.applyPendingWal
    split
    · rfl
    · rfl
  cases h with
  | same => exact Or.inl rfl
  | deliver _ _ => exact Or.inl (hexecute _ _ _)
  | query _ => exact Or.inl (hexecute _ _ _)
  | adminSnapshot => exact Or.inl rfl
  | start hstatus => exact Or.inr (Or.inl hstatus)
  | register _ _ => exact Or.inl rfl
  | move hx hi hmove =>
    subst hi
    cases hmove with
    | refreshShards hphase => exact Or.inr (Or.inr ⟨_, _, _, rfl, hx, rfl, hphase⟩)
    | complete _ =>
      left
      split
      · rw [hmaybe, happly]
      · exact happly _
    | append hphase =>
      rename_i entry entries rest
      left
      obtain ⟨heq, _⟩ | ⟨_, heq⟩ := DataNode.appendRecovered_cases (c.node _) entry
      · rw [heq]
      · rw [heq]
        rfl
    | announce _ | scan _ | skip _ _ | fail _ _ _ | fetch _ _ _ | readSnapshot _ _ | readWal _ _
    | breakOff _ _ | keep _ _ | filter _ | next _ | install _ _ | advance _ => exact Or.inl rfl

/-- A node that takes no snapshot keeps the entries of its file. -/
theorem walFile_nodeStep (hsnapshot : ∀ m, ¬ c.TakesSnapshot i m a) (h : c.NodeStep i a n) :
    ∀ e ∈ (c.node i).walLog.walFile, e ∈ n.walLog.walFile := by
  -- `maybeSnapshot` does nothing here
  have hmaybe : ∀ m : DataNode, (m.compactedWal + 20 ≤ m.walLog.lastSequence → False) →
      m.maybeSnapshot = m := by
    intro m hm
    obtain heq | ⟨_, hreached, _⟩ := m.maybeSnapshot_cases
    · exact heq
    · exact (hm hreached).elim
  have hexecute : ∀ request fault output,
      (((c.node i).logRequest c.shardTerm request).1.compactedWal + 20 ≤
        ((c.node i).logRequest c.shardTerm request).1.walLog.lastSequence → False) →
      ∀ e ∈ (c.node i).walLog.walFile,
        e ∈ ((c.node i).execute c.shardTerm request fault output).node.walLog.walFile := by
    intro request fault output hreached e he
    have hlog : e ∈ ((c.node i).logRequest c.shardTerm request).1.walLog.walFile := by
      obtain heq | ⟨x, _, heq⟩ := (c.node i).logRequest_cases c.shardTerm request
      · rwa [heq]
      · rw [heq]
        exact List.mem_append_left _ he
    obtain heq | ⟨written, heq⟩ := (c.node i).execute_node_cases c.shardTerm request fault output
    · rwa [heq]
    · cases written with
      | none =>
        rw [heq, hmaybe (((c.node i).logRequest c.shardTerm request).1.markApplied none) hreached]
        exact hlog
      | some x =>
        rw [heq,
          hmaybe (((c.node i).logRequest c.shardTerm request).1.markApplied (some x)) hreached]
        exact hlog
  cases h with
  | same => exact fun e he => he
  | deliver henv hi =>
    exact hexecute _ _ _ fun hreached => hsnapshot _ (.deliver henv hi rfl hreached)
  | query hread =>
    rename_i sql output fault
    refine hexecute _ _ _ fun hreached => hsnapshot _ (.query ?_)
    rwa [logRequest_readRequest _ _ hread] at hreached
  | adminSnapshot => exact absurd .admin (hsnapshot _)
  | start _ => exact fun e he => he
  | register _ _ => exact fun e he => he
  | @move r fails x n phase hx hi hmove =>
    subst hi
    cases hmove with
    | complete hphase =>
      intro e he
      have hsame := applyPendingWal_same (c.node x.nodeId)
      split
      · rw [hmaybe, hsame.1]
        · exact he
        · rw [hsame.1, hsame.2]
          exact fun hreached => hsnapshot _ (.complete hx rfl hphase hreached)
      · rw [hsame.1]
        exact he
    | append hphase =>
      rename_i entry entries rest
      intro e he
      obtain ⟨heq, _⟩ | ⟨_, heq⟩ := DataNode.appendRecovered_cases (c.node _) entry
      · rwa [heq]
      · rw [heq]
        exact List.mem_append_left _ he
    | advance _ =>
      intro e he
      unfold DataNode.advanceLastSequence WalLog.advanceLastSequence
      split
      · exact he
      · exact he
    | announce _ | refreshShards _ | scan _ | skip _ _ | fail _ _ _ | fetch _ _ _ | readSnapshot _ _
    | readWal _ _ | breakOff _ _ | install _ _ | keep _ _ | filter _ | next _ =>
      exact fun e he => he

end Node

section Step

/-- What an action does to the status of a node: nothing, or the node ends with its recoveries,
or it starts, or it listens after a recovery. -/
theorem step_status (h : c.step a = some c') (j : String) :
    c'.status j = c.status j ∨
      (c'.status j = .down ∧ ∀ r x, c'.recoveries r = some x → x.nodeId ≠ j) ∨
      (∃ r, a = .start r j ∧ c'.status j = .starting) ∨
      ∃ r x, a = .register r ∧ c.recoveries r = some x ∧ x.nodeId = j ∧
        c'.status j = .listening := by
  have hcrash : ∀ {k : String}, c' = { c with
      status := Function.update c.status k .down
      recoveries := fun r => (c.recoveries r).filter (fun x => x.nodeId != k) } →
      c'.status j = c.status j ∨
        (c'.status j = .down ∧ ∀ r x, c'.recoveries r = some x → x.nodeId ≠ j) := by
    rintro k rfl
    by_cases hj : j = k
    · subst hj
      refine Or.inr ⟨Function.update_self .., fun r x hx => ?_⟩
      simpa using (Option.filter_eq_some_iff.mp hx).2
    · exact Or.inl (Function.update_of_ne hj ..)
  cases stepCases_of_step h with
  | @deliver _ fault output e _ _ =>
    obtain ⟨_, _, _, _, hstatus, _⟩ :=
      c.frame_executeOn e.target.nodeId e.request fault output
    exact Or.inl (congrFun hstatus j)
  | @query nodeId sql output fault _ _ _ heq =>
    obtain ⟨_, _, _, _, hstatus, _⟩ := c.frame_executeOn nodeId (readRequest sql) fault output
    rw [heq, hstatus]
    exact Or.inl rfl
  | crash => exact (hcrash rfl).imp_right Or.inl
  | abortStart _ => exact (hcrash rfl).imp_right Or.inl
  | @start recovery nodeId _ _ =>
    by_cases hj : j = nodeId
    · subst hj
      exact Or.inr (Or.inr (Or.inl ⟨recovery, rfl, Function.update_self ..⟩))
    · exact Or.inl (Function.update_of_ne hj ..)
  | @register recovery x hx _ =>
    by_cases hj : j = x.nodeId
    · subst hj
      exact Or.inr (Or.inr (Or.inr ⟨recovery, x, rfl, hx, rfl, Function.update_self ..⟩))
    · exact Or.inl (Function.update_of_ne hj ..)
  | _ => exact Or.inl rfl

/-- A statement is that of a committed write from now on only if its call has just finished,
and then no node has changed. -/
theorem step_committedSql (h : c.step a = some c') (hs : s ∈ c'.committedSql) :
    s ∈ c.committedSql ∨ (c'.node = c.node ∧ ∃ call d, a = .finish call ∧
      c.calls call = some (.sending d) ∧ d.hasQuorum = true ∧ s = d.stmt) := by
  have hsame : c'.committed = c.committed → s ∈ c.committedSql := by
    intro heq
    rwa [committedSql, heq] at hs
  cases stepCases_of_step h with
  | @deliver _ fault output e _ _ =>
    obtain ⟨_, _, _, _, _, hcommitted, _⟩ :=
      c.frame_executeOn e.target.nodeId e.request fault output
    exact Or.inl (hsame hcommitted)
  | @query nodeId sql output fault _ _ _ heq =>
    obtain ⟨_, _, _, _, _, hcommitted, _⟩ :=
      c.frame_executeOn nodeId (readRequest sql) fault output
    exact Or.inl (hsame (by rw [heq, hcommitted]))
  | @commit call d hcall _ hquorum _ =>
    obtain hnew | hold := List.mem_cons.mp hs
    · exact Or.inr ⟨rfl, call, d, rfl, hcall, hquorum, hnew⟩
    · exact Or.inl hold
  | _ => exact Or.inl hs

/-- A recovery runs on a node that runs. -/
theorem GateInv.running_step (h : c.GateInv) (hstep : c.step a = some c') :
    ∀ r x, c'.recoveries r = some x → c'.status x.nodeId ≠ .down := by
  intro r x hx hdown
  have hold : c.status x.nodeId ≠ .down := by
    obtain hold | ⟨_, hstatus, _⟩ | ⟨y, _, _, _, _, hy, _, rfl, _⟩ := step_recoveries hstep hx
    · exact h.running r x hold
    · exact absurd hdown hstatus
    · exact h.running r y hy
  obtain heq | ⟨_, hnone⟩ | ⟨_, _, hstart⟩ | ⟨_, _, _, _, _, hlisten⟩ :=
    step_status hstep x.nodeId
  · exact hold (heq ▸ hdown)
  · exact hnone r x hx rfl
  · rw [hstart] at hdown
    cases hdown
  · rw [hlisten] at hdown
    cases hdown

/-- A node that is held elsewhere was so before, or another node has gained the statement. -/
theorem GateInv.heldElsewhere_of_step (h : c.GateInv) (hg : c.Guarded a)
    (hstep : c.step a = some c') (hheld : c'.HeldElsewhere i s) :
    c.HeldElsewhere i s ∨ ∃ j, i ≠ j ∧ c.Gains j s a := by
  obtain ⟨j, hj, hrun, hs⟩ := hheld
  obtain hs | hgains := (replaySql_nodeStep h.wf hg (nodeStep_of_step hstep j)).2 hs
  · obtain heq | ⟨hdown, _⟩ | ⟨r, rfl, _⟩ | ⟨r, x, _, hx, hxj, _⟩ := step_status hstep j
    · exact Or.inl ⟨j, hj, heq ▸ hrun, hs⟩
    · exact absurd hdown hrun
    · exact Or.inr ⟨j, Ne.symm hj, .start hs⟩
    · exact Or.inl ⟨j, hj, hxj ▸ h.running r x hx, hs⟩
  · exact Or.inr ⟨j, Ne.symm hj, hgains⟩

/-- What a node will get from its peers stays so, if no list loses it and the shards of the node
stay the same. -/
theorem ComesFrom.mono {n' : DataNode} {peers : List NodeInfo} (h : c.ComesFrom n peers s)
    (hkeep : ∀ j, s ∈ (c.node j).replaySql → s ∈ (c'.node j).replaySql)
    (hid : n'.nodeId = n.nodeId) (hshards : n'.shards = n.shards) : c'.ComesFrom n' peers s := by
  obtain ⟨p, hp, hcontacts, hs⟩ := h
  refine ⟨p, hp, ?_, hkeep p.nodeId hs⟩
  rw [DataNode.contacts, hid, hshards]
  exact hcontacts

/-- The shards of a node do not change while it recovers. -/
theorem GateInv.shards_eq (h : c.GateInv) (hg : c.Guarded a) (hstep : c.step a = some c')
    {r : Nat} {x : Recovery} (hx : c.recoveries r = some x) (hscanned : x.phase.scanned = true) :
    (c'.node x.nodeId).shards = (c.node x.nodeId).shards := by
  obtain heq | hdown | ⟨q, fails, y, rfl, hy, hyx, hphase⟩ :=
    shards_nodeStep (nodeStep_of_step hstep x.nodeId)
  · exact heq
  · exact absurd hdown (h.running r x hx)
  · have hfalse := hg.refreshes q fails y rfl hy hphase r x hx hyx.symm
    rw [hscanned] at hfalse
    cases hfalse

/-- One step of a recovery: a covered statement gets on the list, or stays fetched or to be
fetched. -/
theorem GateInv.covered_move (h : c.GateInv) {r : Nat} {fails : Bool}
    (hg : c.Guarded (.recover r fails)) {y : Recovery} (hy : c.recoveries r = some y)
    {phase : Phase} (hmove : Move c y fails n phase) (hscanned : phase.scanned = true)
    (howed : c.Owed y s) :
    s ∈ n.replaySql ∨ s ∈ phase.fetchedSql ∨ c.Serves phase s ∨
      c.ComesFrom (c.node y.nodeId) phase.rest s := by
  have hkeep := (replaySql_move h.wf hg rfl hy hmove).1 howed.committed
  have hpass := hg.passes r fails y rfl hy s howed
  -- where the statement was before the step: what is on the list stays there
  have hcov : ∀ {Q : Prop} {before : Phase}, y.phase = before → before.scanned = true →
      (s ∈ n.replaySql → Q) → (s ∈ before.fetchedSql → Q) → (c.Serves before s → Q) →
      (c.ComesFrom (c.node y.nodeId) before.rest s → Q) → Q := by
    rintro Q _ rfl hbefore hlist hfetched hserves hrest
    obtain hs | hs | hs | hs := h.covered r y hy hbefore s howed
    · exact hlist (hkeep hs)
    · exact hfetched hs
    · exact hserves hs
    · exact hrest hs
  -- the peer does not answer
  have hfail : ∀ {peer : NodeInfo} {rest : List NodeInfo}, fails = true →
      y.phase.asks = some (peer, rest) → s ∈ (c.node peer.nodeId).replaySql →
      s ∈ (c.node y.nodeId).replaySql ∨ c.ComesFrom (c.node y.nodeId) rest s := by
    rintro peer rest rfl hasks hs
    exact hg.fails r y peer rest rfl hy hasks s howed hs
  unfold PassedOver at hpass
  cases hmove with
  | announce _ =>
    split at hscanned
    · cases hscanned
    · cases hscanned
  | refreshShards _ => cases hscanned
  | scan hphase =>
    obtain hs | hs := hg.scans r fails y rfl hy hphase s howed
    · exact Or.inl hs
    · exact Or.inr (Or.inr (Or.inr hs))
  | complete hphase =>
    refine hcov hphase rfl Or.inl (fun hs => by cases hs) (fun hs => by cases hs) ?_
    rintro ⟨p, hp, _⟩
    cases hp
  | skip hphase hcontacts =>
    refine hcov hphase rfl Or.inl (fun hs => by cases hs) (fun hs => by cases hs) ?_
    rintro ⟨p, hp, hp', hs⟩
    obtain rfl | hp := List.mem_cons.mp hp
    · rw [hcontacts] at hp'
      cases hp'
    · exact Or.inr (Or.inr (Or.inr ⟨p, hp, hp', hs⟩))
  | fail hphase _ hfails =>
    refine hcov hphase rfl Or.inl (fun hs => by cases hs) (fun hs => by cases hs) ?_
    rintro ⟨p, hp, hp', hs⟩
    obtain rfl | hp := List.mem_cons.mp hp
    · exact (hfail hfails (by rw [hphase]; rfl) hs).imp_right fun hs => Or.inr (Or.inr hs)
    · exact Or.inr (Or.inr (Or.inr ⟨p, hp, hp', hs⟩))
  | fetch hphase _ _ =>
    refine hcov hphase rfl Or.inl (fun hs => by cases hs) (fun hs => by cases hs) ?_
    rintro ⟨p, hp, hp', hs⟩
    obtain rfl | hp := List.mem_cons.mp hp
    · exact Or.inr (Or.inr (Or.inl hs))
    · exact Or.inr (Or.inr (Or.inr ⟨p, hp, hp', hs⟩))
  | readSnapshot hphase _ =>
    refine hcov hphase rfl Or.inl (fun hs => by cases hs) (fun hs => ?_)
      (fun hs => Or.inr (Or.inr (Or.inr hs)))
    -- it is in the snapshot, or in the file that is read next
    refine Or.inr (Or.inr (Or.inl ⟨hs, ?_⟩))
    refine (DataNode.mem_replaySql.mp hs).imp_right ?_
    rintro ⟨e, he, _, rfl⟩
    exact ⟨e, he, rfl⟩
  | @readWal peer _ _ _ hphase hstatus =>
    refine hcov hphase rfl Or.inl (fun hs => by cases hs) (fun hs => ?_)
      (fun hs => Or.inr (Or.inr (Or.inr hs)))
    refine Or.inr (Or.inl (List.mem_append.mpr ?_))
    refine hs.2.imp_right ?_
    rintro ⟨e, he, rfl⟩
    have hsql := (h.wf.nodes peer.nodeId).log.normalized e he
    exact List.mem_map.mpr ⟨e, WalLog.mem_readAll.mpr he, WalEntry.loggedStmt_eq hsql⟩
  | breakOff hunder hfails =>
    cases hphase : y.phase with
    | readingSnapshot peer manifest rest =>
      rw [hphase] at hfail hunder
      cases hunder
      exact hcov hphase rfl Or.inl (fun hs => by cases hs)
        (fun hs => (hfail hfails rfl hs).imp_right fun hs => Or.inr (Or.inr hs))
        (fun hs => Or.inr (Or.inr (Or.inr hs)))
    | readingWal peer manifest snapshotSql rest =>
      rw [hphase] at hfail hunder
      cases hunder
      exact hcov hphase rfl Or.inl (fun hs => by cases hs)
        (fun hs => (hfail hfails rfl hs.1).imp_right fun hs => Or.inr (Or.inr hs))
        (fun hs => Or.inr (Or.inr (Or.inr hs)))
    | _ =>
      rw [hphase] at hunder
      cases hunder
  | @install rs rest hphase hinstalls =>
    have hrs : rs.Wf := h.wf.states r y rs hy (by rw [hphase]; rfl)
    refine hcov hphase rfl Or.inl (fun hs => ?_) (fun hs => by cases hs)
      (fun hs => Or.inr (Or.inr (Or.inr hs)))
    obtain hs | hs := List.mem_append.mp hs
    · exact Or.inl ((mem_replaySql_createPeerSnapshot hrs).mpr (Or.inl hs))
    · exact Or.inr (Or.inl hs)
  | keep hphase hinstalls =>
    rw [hphase] at hpass
    refine hcov hphase rfl Or.inl (fun hs => ?_) (fun hs => by cases hs)
      (fun hs => Or.inr (Or.inr (Or.inr hs)))
    obtain hs | hs := List.mem_append.mp hs
    · exact Or.inl (hpass ⟨hinstalls, hs⟩)
    · exact Or.inr (Or.inl hs)
  | advance hphase =>
    exact hcov hphase rfl Or.inl (fun hs => Or.inr (Or.inl hs)) (fun hs => by cases hs)
      (fun hs => Or.inr (Or.inr (Or.inr hs)))
  | filter hphase =>
    rw [hphase] at hpass
    refine hcov hphase rfl Or.inl (fun hs => ?_) (fun hs => by cases hs)
      (fun hs => Or.inr (Or.inr (Or.inr hs)))
    obtain ⟨e, he, rfl⟩ := List.mem_map.mp hs
    cases hknown : (c.node y.nodeId).walLog.containsRequestId e.requestId with
    | true => exact Or.inl (hpass ⟨e, he, rfl, hknown⟩)
    | false =>
      exact Or.inr (Or.inl (List.mem_map_of_mem
        (DataNode.mem_recovered.mpr ⟨he, howed.owned, hknown⟩)))
  | next hphase =>
    exact hcov hphase rfl Or.inl (fun hs => by cases hs) (fun hs => by cases hs)
      (fun hs => Or.inr (Or.inr (Or.inr hs)))
  | @append entry _ _ hphase =>
    rw [hphase] at hpass
    refine hcov hphase rfl Or.inl (fun hs => ?_) (fun hs => by cases hs)
      (fun hs => Or.inr (Or.inr (Or.inr hs)))
    obtain rfl | hs := List.mem_cons.mp hs
    · -- the entry is passed over, or its number is after the compacted one
      obtain ⟨_, hold⟩ | ⟨_, heq⟩ := DataNode.appendRecovered_cases (c.node y.nodeId) entry
      · exact Or.inl (hkeep (hpass ⟨rfl, Or.inl hold⟩))
      · by_cases hseq : ((c.node y.nodeId).walLog.localEntry entry).sequence ≤
            (c.node y.nodeId).compactedWal
        · exact Or.inl (hkeep (hpass ⟨rfl, Or.inr hseq⟩))
        · left
          rw [heq]
          exact DataNode.mem_replaySql_logs.mpr (Or.inr ⟨Nat.lt_of_not_le hseq, rfl⟩)
    · exact Or.inr (Or.inl hs)

/-- The answer that is under way still brings the statement after a step, if no list loses it and
the peer takes no snapshot. -/
theorem Serves.step (hg : c.Guarded a) (hstep : c.step a = some c') {r : Nat} {x : Recovery}
    (hx : c.recoveries r = some x)
    (hkeep : ∀ j, s ∈ (c.node j).replaySql → s ∈ (c'.node j).replaySql)
    (h : c.Serves x.phase s) : c'.Serves x.phase s := by
  cases hphase : x.phase with
  | readingSnapshot peer manifest rest =>
    rw [hphase] at h
    exact hkeep _ h
  | readingWal peer manifest snapshotSql rest =>
    rw [hphase] at h
    obtain ⟨hs, hparts⟩ := h
    refine ⟨hkeep _ hs, hparts.imp_right ?_⟩
    rintro ⟨e, he, hes⟩
    have hsnapshot : ∀ m, ¬ c.TakesSnapshot peer.nodeId m a := fun m hm =>
      hg.reads _ m hm r x peer manifest snapshotSql rest hx hphase rfl
    exact ⟨e, walFile_nodeStep hsnapshot (nodeStep_of_step hstep _) e he, hes⟩
  | _ =>
    rw [hphase] at h
    cases h

/-- What the recovery has just begun to fetch, it fetches from a node that has not changed. -/
theorem Serves.move {y : Recovery} {fails : Bool} {phase : Phase} (hmove : Move c y fails n phase)
    (hnode : c'.node = Function.update c.node y.nodeId n) (h : c.Serves phase s) :
    c'.Serves phase s := by
  cases hmove with
  | announce _ =>
    split at h
    · cases h
    · cases h
  | fetch _ _ _ | readSnapshot _ _ =>
    have hsame : c'.node = c.node := by rw [hnode, Function.update_eq_self]
    unfold Serves at h ⊢
    rw [hsame]
    exact h
  | refreshShards _ | scan _ | complete _ | skip _ _ | fail _ _ _ | readWal _ _ | breakOff _ _
  | install _ _ | keep _ _ | advance _ | filter _ | next _ | append _ => cases h

/-- A guarded step keeps the invariant. -/
theorem GateInv.step (h : c.GateInv) (hg : c.Guarded a) (hstep : c.step a = some c') :
    c'.GateInv := by
  refine ⟨h.wf.step hstep, h.running_step hstep, ?_⟩
  intro r x hx hscanned s howed
  have hids : ∀ j, (c'.node j).nodeId = (c.node j).nodeId := fun j =>
    ((h.wf.step hstep).ids j).trans (h.wf.ids j).symm
  obtain hold | ⟨hnew, _⟩ | ⟨y, fails, n, phase, rfl, hy, hmove, rfl, hnode⟩ :=
    step_recoveries hstep hx
  · have hshards := h.shards_eq hg hstep hold hscanned
    have howned : (c.node x.nodeId).ownsShard s.shardId = true := by
      have howned := howed.owned
      rwa [DataNode.ownsShard, hshards] at howned
    obtain hs | ⟨hnodes, call, d, rfl, hcall, hquorum, rfl⟩ :=
      step_committedSql hstep howed.committed
    · -- an old write: it was covered, or it is gained elsewhere and covered
      have hkeep : ∀ j, s ∈ (c.node j).replaySql → s ∈ (c'.node j).replaySql := fun j =>
        (replaySql_nodeStep h.wf hg (nodeStep_of_step hstep j)).1 hs
      have hcov : c.Covered x s := by
        obtain hheld | ⟨j, hj, hgains⟩ := h.heldElsewhere_of_step hg hstep howed.held
        · exact h.covered r x hold hscanned s ⟨hs, howned, hheld⟩
        · obtain hown | hheld := hg.gains j s hgains hs r x hold hscanned hj howned
          · exact Or.inl hown
          · exact h.covered r x hold hscanned s ⟨hs, howned, hheld⟩
      obtain hs | hs | hs | hs := hcov
      · exact Or.inl (hkeep _ hs)
      · exact Or.inr (Or.inl hs)
      · exact Or.inr (Or.inr (Or.inl (hs.step hg hstep hold hkeep)))
      · exact Or.inr (Or.inr (Or.inr (hs.mono hkeep (hids _) hshards)))
    · -- a write that has just been committed
      left
      rw [hnodes]
      exact hg.commits call d rfl hcall hquorum r x hold hscanned howned
  · rw [hnew] at hscanned
    cases hscanned
  · -- the recovery has taken its next step
    have hstatus : c'.status = c.status := by
      cases stepCases_of_step hstep with
      | recover _ _ => rfl
      | publish _ _ => rfl
    have hself : c'.node y.nodeId = n := by rw [hnode, Function.update_self]
    have hcommitted : s ∈ c.committedSql := by
      obtain hs | ⟨_, _, _, ha, _⟩ := step_committedSql hstep howed.committed
      · exact hs
      · cases ha
    have hshards : n.shards = (c.node y.nodeId).shards := by
      have hnodeStep := nodeStep_of_step hstep y.nodeId
      rw [hself] at hnodeStep
      obtain heq | hdown | ⟨q, _, z, ha, hz, _, hphase⟩ := shards_nodeStep hnodeStep
      · exact heq
      · exact absurd hdown (h.running r y hy)
      · -- a refresh of the shards leads to the scan
        cases ha
        rw [hy] at hz
        cases hz
        cases hmove with
        | refreshShards _ => cases hscanned
        | announce h' | scan h' | complete h' | skip h' _ | fail h' _ _ | fetch h' _ _
        | readSnapshot h' _ | readWal h' _ | install h' _ | keep h' _ | advance h' | filter h'
        | next h' | append h' =>
          cases hphase.symm.trans h'
        | breakOff h' _ => cases hphase ▸ h'
    have howned : (c.node y.nodeId).ownsShard s.shardId = true := by
      have howned := howed.owned
      rwa [hself, DataNode.ownsShard, hshards] at howned
    have hheld : c.HeldElsewhere y.nodeId s := by
      obtain ⟨j, hj, hrun, hs⟩ := howed.held
      rw [hstatus] at hrun
      rw [hnode, Function.update_of_ne hj] at hs
      exact ⟨j, hj, hrun, hs⟩
    have hkeep : ∀ j, s ∈ (c.node j).replaySql → s ∈ (c'.node j).replaySql := fun j =>
      (replaySql_nodeStep h.wf hg (nodeStep_of_step hstep j)).1 hcommitted
    obtain hs | hs | hs | hs := h.covered_move hg hy hmove hscanned ⟨hcommitted, howned, hheld⟩
    · left
      rw [hself]
      exact hs
    · exact Or.inr (Or.inl hs)
    · exact Or.inr (Or.inr (Or.inl (hs.move hmove hnode)))
    · refine Or.inr (Or.inr (Or.inr (hs.mono hkeep (hids _) ?_)))
      rw [hself, hshards]

theorem GateInv.new (nodeIds : List String) (shardCount replicationFactor : Nat) :
    (new nodeIds shardCount replicationFactor).GateInv where
  wf := Wf.new nodeIds shardCount replicationFactor
  running := fun _ _ hx => nomatch hx
  covered := fun _ _ hx => nomatch hx

end Step

section Runs

variable {recoveries : List Nat}

/-- `n3` starts and asks its peers without a failure, and each of them takes a snapshot just when it
has read its old one. -/
def tornFetch : List Action :=
  .start 2 "n3" :: List.replicate 4 (.recover 2 false) ++ [.adminSnapshot "n1"] ++
    List.replicate 6 (.recover 2 false) ++ [.adminSnapshot "n2"] ++
    List.replicate 6 (.recover 2 false)

open DisMiniSql.Distributed.Action (startUp beginWrite sendAndReceive) in
/-- The write is committed before `n3` starts, and `n1` and `n2` have it all the time. In the
answers that `n3` gets it is neither in the snapshot nor in the log. -/
theorem torn_fetch_misses_committed :
    ∃ (c c' c'' : Cluster) (d : Dispatch), c.Reachable ∧ c.status "n3" = .down ∧
      d ∈ c.committed ∧ c.run tornFetch = some c' ∧ c'.step (.register 2) = some c'' ∧
      (c'.node "n3").ownsShard d.shardId = true ∧ c'.HeldElsewhere "n3" d.stmt ∧
      d.stmt ∉ (c''.node "n3").replaySql := by
  have hrun : ((new ["n1", "n2", "n3"] 1 3).run
      (startUp 0 "n1" 4 ++ startUp 1 "n2" 10 ++
        beginWrite 0 0 "insert into t values(1)" "a" ++ sendAndReceive 0 ++ sendAndReceive 0 ++
        [.finish 0])).any (fun c => decide (c.status "n3" = .down) &&
      c.committed.any (fun d => (c.run tornFetch).any (fun c' =>
        (c'.step (.register 2)).any (fun c'' =>
          decide ((c'.node "n3").ownsShard d.shardId = true ∧ "n1" ≠ "n3" ∧
            c'.status "n1" ≠ .down ∧ d.stmt ∈ (c'.node "n1").replaySql ∧
            d.stmt ∉ (c''.node "n3").replaySql))))) = true := by
    decide +kernel
  obtain ⟨c, hc, htest⟩ := exists_reachable_of_run hrun
  obtain ⟨hdown, htest⟩ := Bool.and_eq_true_iff.mp htest
  obtain ⟨d, hd, htest⟩ := List.any_eq_true.mp htest
  obtain ⟨c', hc', htest⟩ := (Option.any_eq_true _ _).mp htest
  obtain ⟨c'', hreg, htest⟩ := (Option.any_eq_true _ _).mp htest
  obtain ⟨howns, hne, hstatus, hs, hmissing⟩ := of_decide_eq_true htest
  exact ⟨c, c', c'', d, hc, of_decide_eq_true hdown, hd, hc', hreg, howns,
    ⟨"n1", hne, hstatus, hs⟩, hmissing⟩

end Runs

end Cluster

end DisMiniSql.Distributed
