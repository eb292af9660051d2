import DisMiniSql.Proofs.Distributed.ReplayEffect
import DisMiniSql.Proofs.Distributed.WalFiles

/-!
# `DisMiniSql.Proofs.Distributed.Redelivery`: a request that a node gets twice

A replay asks `containsRequestId` first. The ids survive compactions, restarts and a crash
between the two files of the log, so a replay of a logged request is ignored for ever
(`replay_delivery_ignored`).

A write of the primary does not ask. `append` looks into the file only: it returns the entry if
it is still there and appends a second one if a compaction has removed it. In both cases
`execute` goes on to MiniSQL. `redelivery_at_most_once_iff` says when a second delivery has no
effect: when it is rejected, or when the registration of the node fails in between.
-/

set_option autoImplicit false

namespace DisMiniSql.Distributed

open DisMiniSql.Lib (Steps)

namespace DataNode

variable {n : DataNode}

section Replay

/-- The index of the node has every id that was ever appended. -/
def Remembers (n : DataNode) : Prop :=
  ∀ e ∈ n.walLog.history, blankId e.requestId = false → e.requestId ∈ n.walLog.requestIds

theorem Remembers.congr {n' : DataNode} (h : n.Remembers)
    (hhistory : n'.walLog.history = n.walLog.history)
    (hids : n'.walLog.requestIds = n.walLog.requestIds) : n'.Remembers := by
  unfold Remembers
  rw [hhistory, hids]
  exact h

theorem Remembers.logs (h : n.Remembers) (e : WalEntry) : (n.logs e).Remembers := by
  intro d hd hblank
  obtain hd | hd := List.mem_append.mp hd
  · exact List.mem_insert_of_mem (h d hd hblank)
  · rw [List.mem_singleton.mp hd]
    exact List.mem_insert_self

theorem Remembers.logRequest (h : n.Remembers) (shardTerm : Int → Option Nat)
    (request : ExecuteRequest) : (n.logRequest shardTerm request).1.Remembers := by
  obtain heq | ⟨e, _, heq⟩ := n.logRequest_cases shardTerm request
  · rwa [heq]
  · rw [heq]
    exact h.logs e

theorem Remembers.maybeSnapshot (h : n.Remembers) : n.maybeSnapshot.Remembers := by
  obtain heq | ⟨_, _, _, heq⟩ := n.maybeSnapshot_cases
  · rwa [heq]
  · rw [heq]
    exact h

theorem Remembers.markApplied (h : n.Remembers) (written : Option WalEntry) :
    (n.markApplied written).Remembers := by
  cases written with
  | none => exact h
  | some e => exact h

theorem Remembers.execute (h : n.Remembers) (shardTerm : Int → Option Nat)
    (request : ExecuteRequest) (fault : Option ExecuteFault) (output : String) :
    (n.execute shardTerm request fault output).node.Remembers := by
  have hlog := h.logRequest shardTerm request
  obtain heq | ⟨written, heq⟩ := n.execute_node_cases shardTerm request fault output
  · rwa [heq]
  · rw [heq]
    exact (hlog.markApplied written).maybeSnapshot

/-- A start needs less: what the index misses may be in the file. -/
theorem remembers_reload (shardsForNode : List Int)
    (h : ∀ e ∈ n.walLog.history, blankId e.requestId = false →
      e.requestId ∈ n.walLog.requestIds ∨ e ∈ n.walLog.walFile) :
    (n.reload shardsForNode).Remembers := by
  intro e he hblank
  refine (WalLog.mem_foldl_insert _ _).mpr ?_
  obtain hmem | hmem := h e he hblank
  · exact .inl hmem
  · refine .inr (List.mem_filter.mpr
      ⟨List.mem_map_of_mem (WalLog.mem_readAll.mpr hmem), ?_⟩)
    rw [hblank]
    rfl

theorem Remembers.installPeerSnapshotIfNewer (h : n.Remembers) (rs : RecoveryState) :
    (n.installPeerSnapshotIfNewer rs).Remembers := by
  unfold DataNode.installPeerSnapshotIfNewer
  split
  · obtain ⟨_, hhistory, hids, _⟩ := n.walLog.advanceLastSequence_files
      rs.snapshotManifest.lastCompactedWalSequence
    exact h.congr hhistory hids
  · exact h

theorem Remembers.appendRecovered (h : n.Remembers) (e : WalEntry) :
    (n.appendRecovered e).Remembers := by
  obtain ⟨heq, _⟩ | ⟨_, heq⟩ := n.appendRecovered_cases e
  · rwa [heq]
  · rw [heq]
    exact h.logs _

theorem Remembers.recoverFromPeers (h : n.Remembers)
    (peers : List (NodeInfo × Option RecoveryState)) : (n.recoverFromPeers peers).Remembers :=
  recoverFromPeers_induction (fun _ rs hm => hm.installPeerSnapshotIfNewer rs)
    (fun _ e hm => hm.appendRecovered e) h peers

theorem Remembers.applyPendingWal (h : n.Remembers) : n.applyPendingWal.Remembers := by
  unfold DataNode.applyPendingWal
  split
  · exact h
  · exact h

theorem remembers_start (shardsForNode : List Int) (peers : List (NodeInfo × Option RecoveryState))
    (h : ∀ e ∈ n.walLog.history, blankId e.requestId = false →
      e.requestId ∈ n.walLog.requestIds ∨ e ∈ n.walLog.walFile) :
    (n.start shardsForNode peers).Remembers :=
  ((remembers_reload shardsForNode h).recoverFromPeers peers).applyPendingWal.maybeSnapshot

theorem Remembers.crashIn (h : n.Remembers) (kind : SnapshotKind) (written : SnapshotWrite) :
    (n.crashIn kind written).Remembers := by
  unfold DataNode.crashIn
  split
  · cases written with
    | nothing | snapshotSql | manifest | walFile | walIndex => exact h
  · exact h

/-- One operation on the node's files. -/
theorem Remembers.applyFiles (h : n.Remembers) (o : FilesOp) : (n.applyFiles o).Remembers := by
  cases o with
  | op o =>
    cases o with
    | execute shardTerm request fault output => exact h.execute shardTerm request fault output
    | adminSnapshot => exact h
    | adminRefreshShards shardsForNode peers =>
      have hrefreshed : ((n.withState .RECOVERING).refreshShards shardsForNode).Remembers := h
      exact (hrefreshed.recoverFromPeers peers).applyPendingWal
    | restart shardsForNode peers =>
      exact remembers_start shardsForNode peers fun e he hblank => .inl (h e he hblank)
    | crash kind written shardsForNode peers =>
      exact remembers_start shardsForNode peers fun e he hblank =>
        .inl (h.crashIn kind written e he hblank)
  | crashInAppend shardTerm request shardsForNode peers =>
    refine remembers_start shardsForNode peers fun e he hblank => ?_
    -- the entry whose id the index misses has just been written to the file
    obtain heq | ⟨d, _, heq⟩ := n.logRequest_cases shardTerm request
    · have he : e ∈ n.walLog.history := by simpa only [heq] using he
      exact .inl (h e he hblank)
    · rw [heq] at he ⊢
      obtain he | he := List.mem_append.mp he
      · exact .inl (h e he hblank)
      · exact .inr (List.mem_append_right _ he)

theorem remembers_foldl (nodeId : String) (ops : List FilesOp) :
    (ops.foldl applyFiles { nodeId := nodeId }).Remembers :=
  (Steps.foldl applyFiles { nodeId := nodeId } ops).invariant
    (fun _ o _ h heq => heq ▸ h.applyFiles o) (fun _ he => absurd he List.not_mem_nil)

theorem extends_start (n : DataNode) (shardsForNode : List Int)
    (peers : List (NodeInfo × Option RecoveryState)) : n.Extends (n.start shardsForNode peers) := by
  have hreload : n.Extends (n.reload shardsForNode) := ⟨rfl, List.prefix_refl _⟩
  have hstart := (hreload.trans (extends_recoverFromPeers _ peers)).trans
    ((extends_applyPendingWal _).trans (extends_maybeSnapshot _))
  exact ⟨hstart.nodeId, hstart.history⟩

theorem extends_adminRefreshShards (n : DataNode) (shardsForNode : List Int)
    (peers : List (NodeInfo × Option RecoveryState)) :
    n.Extends (n.adminRefreshShards shardsForNode peers) := by
  have hrefreshed : n.Extends ((n.withState .RECOVERING).refreshShards shardsForNode) :=
    ⟨rfl, List.prefix_refl _⟩
  have hrecovered := (hrefreshed.trans (extends_recoverFromPeers _ peers)).trans
    (extends_applyPendingWal _)
  exact ⟨hrecovered.nodeId, hrecovered.history⟩

/-- Every operation on its files does. -/
theorem extends_applyFiles (n : DataNode) (o : FilesOp) : n.Extends (n.applyFiles o) := by
  cases o with
  | op o =>
    cases o with
    | execute shardTerm request fault output =>
      exact n.extends_execute shardTerm request fault output
    | adminSnapshot => exact n.extends_adminSnapshot
    | adminRefreshShards shardsForNode peers =>
      exact n.extends_adminRefreshShards shardsForNode peers
    | restart shardsForNode peers => exact n.extends_start shardsForNode peers
    | crash kind written shardsForNode peers =>
      refine Extends.trans ?_ (extends_start _ shardsForNode peers)
      unfold DataNode.crashIn
      split
      · cases written with
        | nothing | snapshotSql | manifest | walFile | walIndex =>
          exact ⟨rfl, List.prefix_refl _⟩
      · exact Extends.refl n
  | crashInAppend shardTerm request shardsForNode peers =>
    have hlog := n.extends_logRequest shardTerm request
    refine Extends.trans ?_ (extends_start _ shardsForNode peers)
    exact ⟨hlog.nodeId, hlog.history⟩

theorem mem_history_foldl {e : WalEntry} (he : e ∈ n.walLog.history) (ops : List FilesOp) :
    e ∈ (ops.foldl applyFiles n).walLog.history :=
  (Steps.foldl applyFiles n ops).invariant (I := fun n => e ∈ n.walLog.history)
    (fun n o _ h heq => heq ▸ (n.extends_applyFiles o).history.subset h) he

/-- A replay of a request whose id the node has is answered, and that is all. -/
theorem execute_replay_of_contains {request : ExecuteRequest} (hreplay : request.replay = true)
    (hcontains : n.walLog.containsRequestId request.requestId = true)
    (shardTerm : Int → Option Nat) (fault : Option ExecuteFault) (output : String) :
    n.execute shardTerm request fault output =
      ⟨n, .success n.nodeId n.walLog.lastSequence "duplicate replay ignored", false⟩ := by
  have hlog : n.logRequest shardTerm request = (n, .duplicate) := by
    unfold DataNode.logRequest logReplay
    rw [if_pos hreplay, if_pos hcontains]
  unfold execute
  rw [hlog]

/-- Replay delivery is idempotent. After any run of requests, snapshots, restarts and crashes in
which the node has logged a request, and any further run, a replay of the request is answered
`ok` and changes neither the node nor its engine. -/
theorem replay_delivery_ignored (nodeId : String) (ops : List FilesOp) {e : WalEntry}
    (he : e ∈ (ops.foldl applyFiles { nodeId := nodeId }).walLog.history)
    (hblank : blankId e.requestId = false) (later : List FilesOp) {request : ExecuteRequest}
    (hid : request.requestId = e.requestId) (hreplay : request.replay = true)
    (shardTerm : Int → Option Nat) (fault : Option ExecuteFault) (output : String)
    (engine : MiniSqlEngine) (updateFails : Bool) :
    let n := (ops ++ later).foldl applyFiles { nodeId := nodeId }
    (n.execute shardTerm request fault output).response.ok = true ∧
      (n.execute shardTerm request fault output).node = n ∧
      EngineNode.execute ⟨n, engine⟩ shardTerm request updateFails = ⟨n, engine⟩ := by
  have hmem : e ∈ ((ops ++ later).foldl applyFiles { nodeId := nodeId }).walLog.history := by
    rw [List.foldl_append]
    exact mem_history_foldl he later
  have hids := remembers_foldl nodeId (ops ++ later) e hmem hblank
  dsimp only
  generalize (ops ++ later).foldl applyFiles { nodeId := nodeId } = n at hids ⊢
  have hcontains : n.walLog.containsRequestId request.requestId = true := by
    rw [hid]
    simp [WalLog.containsRequestId, hids]
  have hexecute := n.execute_replay_of_contains hreplay hcontains shardTerm fault output
  refine ⟨by rw [hexecute]; rfl, by rw [hexecute], ?_⟩
  unfold EngineNode.execute DataNode.logRequest logReplay
  simp only [hreplay, hcontains, if_true]

/-- A write, a snapshot that takes it out of the log, and a restart. -/
def compactedWrite : List FilesOp :=
  [.op (followerWrite "a" "insert into t values(1)"), .op .adminSnapshot, .op (.restart [0] [])]

/-- The entry of the write, as it was logged. -/
def compactedEntry : WalEntry where
  sequence := 1
  requestId := some "a"
  shardId := 0
  shardLogIndex := 1
  sql := "insert into t values(1);"

/-- The write is not in the log any more, and a replay of it is still ignored. -/
theorem replay_delivery_ignored_compacted :
    ∃ n : DataNode, n.walLog.walFile = [] ∧ n.walLog.history = [compactedEntry] ∧
      (n.execute (fun _ => none) (followerRequest "a" "insert into t values(1)") none "").node =
        n := by
  refine ⟨(compactedWrite ++ [FilesOp.op (.restart [0] [])]).foldl applyFiles { nodeId := "n1" },
    by decide +kernel, by decide +kernel, ?_⟩
  have hid : (followerRequest "a" "insert into t values(1)").requestId =
    compactedEntry.requestId := rfl
  exact (replay_delivery_ignored "n1" compactedWrite (by decide +kernel) (by decide +kernel)
    [.op (.restart [0] [])] hid rfl (fun _ => none) none "" {} false).2.1

end Replay

end DataNode

namespace MiniSqlEngine

variable {e : MiniSqlEngine}

/-- The engine has a process, and it will answer every statement. -/
structure Answering (e : MiniSqlEngine) : Prop where
  ready : e.isReady = true
  answers : e.outcomes = []

theorem Answering.runStatement (h : e.Answering) (x : Fed) :
    (e.runStatement x).2 = true ∧ (e.runStatement x).1.Answering := by
  rw [runStatement_of_no_fault h.answers]
  exact ⟨rfl, (e.isReady_fedWith [x]).trans h.ready, h.answers⟩

theorem Answering.executeStatement (h : e.Answering) (x : Fed) :
    (e.executeStatement x).2 = true ∧ (e.executeStatement x).1.Answering := by
  unfold MiniSqlEngine.executeStatement
  rw [if_pos h.ready]
  exact h.runStatement x

theorem Answering.setEngineWalSequence (h : e.Answering) (k : Int) :
    (e.setEngineWalSequence k).Answering :=
  ⟨h.ready, h.answers⟩

/-- A replay from the start. -/
theorem answering_resetAndReplay (h : e.outcomes = []) (l : List Stmt) (k c : Int) :
    (e.resetAndReplay l k c).2 = true ∧ (e.resetAndReplay l k c).1.Answering := by
  have hstart : e.destroyProcess.startProcess =
      ({ e with process := some {} }, true) := by
    simp [startProcess, destroyProcess, h]
  unfold resetAndReplay
  rw [hstart]
  dsimp only
  rw [runStatements_of_no_fault (e := { e with process := some {} }) h]
  exact ⟨rfl, rfl, h⟩

end MiniSqlEngine

namespace DataNode

open MiniSqlEngine (Answering)

variable {n : DataNode} {e : MiniSqlEngine}

/-- Catching up with the log, by induction on its entries. -/
theorem answering_catchUp (h : e.Answering) (q : Nat) (es : List WalEntry) :
    (catchUp q es e).2 = true ∧ (catchUp q es e).1.Answering := by
  induction es generalizing e with
  | nil => exact ⟨rfl, h⟩
  | cons d es ih =>
    unfold catchUp
    split
    · exact ih h
    split
    · exact ⟨rfl, h⟩
    obtain ⟨hok, hnext⟩ := h.executeStatement (.logged (MiniSqlEngine.normalized d.stmt))
    generalize e.executeStatement (.logged (MiniSqlEngine.normalized d.stmt)) = r at hok hnext ⊢
    obtain ⟨e', ok⟩ := r
    dsimp only at hok hnext
    subst hok
    exact ih (hnext.setEngineWalSequence d.sequence)

/-- A statement that is given to a MiniSQL which answers is the last text it gets. -/
theorem getLast_runOnEngine (h : e.outcomes = []) (q : WithTop Nat) {x : Fed}
    (hx : isBlank x.text = false) (k : Nat) :
    ∃ p, (n.runOnEngine e q x k).1.process = some p ∧ p.fed.getLast? = some x ∧
      (n.runOnEngine e q x k).1.engineWalSequence = k := by
  have hsync : ∀ r : MiniSqlEngine × Bool,
      r = (if !e.isReady || e.engineCompactedWal != n.compactedWal
        then n.fullSyncEngine e q else n.catchUpWalBefore e q) → r.2 = true ∧ r.1.Answering := by
    rintro r rfl
    split
    · exact MiniSqlEngine.answering_resetAndReplay h _ _ _
    · rename_i htest
      simp only [Bool.or_eq_true, Bool.not_eq_true', bne_iff_ne, ne_eq, not_or,
        Bool.not_eq_false] at htest
      exact answering_catchUp ⟨htest.1, h⟩ _ _
  unfold runOnEngine tryOnEngine
  dsimp only
  generalize hr : (if (!e.isReady || e.engineCompactedWal != ↑n.compactedWal) = true
    then n.fullSyncEngine e q else n.catchUpWalBefore e q) = r
  obtain ⟨hok, hready, hanswers⟩ := hsync r hr.symm
  obtain ⟨e', ok⟩ := r
  dsimp only at hok hready hanswers
  subst hok
  unfold runRequest MiniSqlEngine.executeStatement
  dsimp only
  rw [if_neg (by rw [hx]; exact Bool.false_ne_true), if_pos hready,
    MiniSqlEngine.runStatement_of_no_fault hanswers]
  have hprocess : ∃ p, e'.process = some p := by
    unfold MiniSqlEngine.isReady at hready
    cases hp : e'.process with
    | none => simp [hp] at hready
    | some p => exact ⟨p, rfl⟩
  obtain ⟨p, hp⟩ := hprocess
  refine ⟨{ p with fed := p.fed ++ [x] }, ?_, by simp, rfl⟩
  simp [MiniSqlEngine.setEngineWalSequence, MiniSqlEngine.fedWith, hp]

end DataNode

namespace EngineNode

variable {s : EngineNode} {request : ExecuteRequest}

/-- The statement that `execute` gives to `runOnEngine`, if it gets there. -/
def given (s : EngineNode) (shardTerm : Int → Option Nat) (request : ExecuteRequest)
    (updateFails : Bool) : Option Fed :=
  match (s.node.logRequest shardTerm request).2 with
  | .accepted none => some (.unlogged (SqlUtils.normalize request.sql))
  | .accepted (some entry) =>
    if !request.replay && updateFails then none
    else some (.logged { entry.stmt with sql := SqlUtils.normalize request.sql })
  | _ => none

variable {shardTerm : Int → Option Nat}

/-- A MiniSQL that answers executes the statement it is given, after all texts before. -/
theorem getLast_run_of_given {updateFails : Bool} {x : Fed}
    (hanswers : s.miniSqlEngine.outcomes = [])
    (hgiven : s.given shardTerm request updateFails = some x) (hx : isBlank x.text = false) :
    ∃ n' written p, s.node.logRequest shardTerm request = (n', .accepted written) ∧
      (run { s with node := n' } request written).1.process = some p ∧
      p.fed.getLast? = some x := by
  unfold given at hgiven
  generalize s.node.logRequest shardTerm request = logged at hgiven ⊢
  obtain ⟨n', outcome⟩ := logged
  dsimp only at hgiven
  cases outcome with
  | rejected error => cases hgiven
  | duplicate => cases hgiven
  | accepted written =>
    cases written with
    | none =>
      obtain rfl := Option.some.inj hgiven
      obtain ⟨p, hp, hlast, _⟩ := DataNode.getLast_runOnEngine (n := n') hanswers ⊤ hx
        n'.walLog.lastSequence
      exact ⟨n', none, p, rfl, hp, hlast⟩
    | some e =>
      dsimp only at hgiven
      split at hgiven
      · cases hgiven
      · obtain rfl := Option.some.inj hgiven
        obtain ⟨p, hp, hlast, _⟩ := DataNode.getLast_runOnEngine (n := n') hanswers
          (WithTop.some e.sequence) hx e.sequence
        exact ⟨n', some e, p, rfl, hp, hlast⟩

/-- A delivery of a request without any effect: nothing is appended, no statement goes to
MiniSQL, and the applied position stays. -/
structure WithoutEffect (s : EngineNode) (shardTerm : Int → Option Nat)
    (request : ExecuteRequest) (updateFails : Bool) : Prop where
  log : (s.execute shardTerm request updateFails).node.walLog.history = s.node.walLog.history
  statement : s.given shardTerm request updateFails = none
  position : (s.execute shardTerm request updateFails).miniSqlEngine.engineWalSequence =
    s.miniSqlEngine.engineWalSequence

/-- The checks of `execute` for a write of the primary. -/
def Rejects (n : DataNode) (shardTerm : Int → Option Nat) (request : ExecuteRequest) : Prop :=
  n.ownsShard request.shardId = false ∨
    (0 ≤ request.shardId ∧ shardTerm request.shardId = none) ∨
    (0 ≤ request.shardId ∧ request.raftTerm < (shardTerm request.shardId).getD 0)

/-- A rejected write changes nothing. -/
theorem logWrite_of_rejects {n : DataNode} (h : Rejects n shardTerm request) :
    ∃ error, n.logWrite shardTerm request = (n, .rejected error) := by
  unfold DataNode.logWrite
  split
  · exact ⟨_, rfl⟩
  split
  · exact ⟨_, rfl⟩
  split
  · exact ⟨_, rfl⟩
  · rename_i howns hread hterm
    obtain h | ⟨hs, h⟩ | ⟨hs, h⟩ := h
    · exact absurd (by rw [h]; rfl) howns
    · exact absurd (by simp [hs, h]) hread
    · exact absurd (by simp [hs, h]) hterm

/-- A write that passes the checks is answered by the entry of the file, or appended. -/
theorem logWrite_of_not_rejects {n : DataNode} (h : ¬ Rejects n shardTerm request) :
    (∃ e ∈ n.walLog.walFile, e.requestId = request.requestId ∧
        n.logWrite shardTerm request = (n, .accepted (some e))) ∨
      (n.walLog.findByRequestId request.requestId = none ∧
        ∃ e, n.logWrite shardTerm request = (n.logs e, .accepted (some e))) := by
  unfold Rejects at h
  push Not at h
  obtain ⟨howns, hread, hterm⟩ := h
  unfold DataNode.logWrite
  rw [if_neg (by simpa using howns), if_neg (by simpa using hread), if_neg (by simpa using hterm)]
  cases hfind : n.walLog.findByRequestId request.requestId with
  | some e =>
    obtain ⟨_, hmem, hid⟩ := WalLog.of_findByRequestId_eq_some hfind
    refine .inl ⟨e, hmem, hid, ?_⟩
    simp only [WalLog.append, hfind]
  | none =>
    refine .inr ⟨rfl, n.walLog.newEntry request.requestId request.shardId
      request.shardLogIndex (SqlUtils.normalize request.sql), ?_⟩
    simp only [WalLog.append, hfind]
    rfl

theorem logRequest_write {n : DataNode} (shardTerm : Int → Option Nat)
    (hreplay : request.replay = false)
    (hwrite : SqlUtils.isReadOnly (SqlUtils.normalize request.sql) = false) :
    n.logRequest shardTerm request = n.logWrite shardTerm request := by
  unfold DataNode.logRequest
  rw [hreplay, hwrite, if_neg Bool.false_ne_true, if_neg Bool.false_ne_true]

/-- `execute` for a write that is rejected, or whose registration fails. -/
theorem execute_of_given_none {n' : DataNode} {outcome : Logged} {updateFails : Bool}
    (hlog : s.node.logRequest shardTerm request = (n', outcome))
    (hnone : s.given shardTerm request updateFails = none) :
    s.execute shardTerm request updateFails = { s with node := n' } := by
  unfold given at hnone
  unfold execute
  rw [hlog] at hnone ⊢
  dsimp only at hnone ⊢
  cases outcome with
  | rejected error => rfl
  | duplicate => rfl
  | accepted written =>
    cases written with
    | none => cases hnone
    | some e =>
      dsimp only at hnone ⊢
      split at hnone
      · rename_i hfails
        simp only [Option.isSome_some, Bool.true_and, hfails, if_true]
      · cases hnone

/-- At-most-once execution of a write that a node gets again. In every state, and so in every
state of a run, the delivery of a write is without effect if and only if the node rejects it, or
the entry is still in the log file and the registration of the node fails. In all other cases the
statement goes to MiniSQL again, and after a compaction the entry is appended again, too. -/
theorem redelivery_at_most_once_iff (s : EngineNode) (shardTerm : Int → Option Nat)
    (hreplay : request.replay = false)
    (hwrite : SqlUtils.isReadOnly (SqlUtils.normalize request.sql) = false)
    (hblank : blankId request.requestId = false) (updateFails : Bool) :
    s.WithoutEffect shardTerm request updateFails ↔
      Rejects s.node shardTerm request ∨
        (updateFails = true ∧ ∃ e ∈ s.node.walLog.walFile, e.requestId = request.requestId) := by
  have hlog := logRequest_write (n := s.node) shardTerm hreplay hwrite
  have hsame : ∀ outcome, s.node.logWrite shardTerm request = (s.node, outcome) →
      s.given shardTerm request updateFails = none →
      s.WithoutEffect shardTerm request updateFails := by
    intro outcome heq hnone
    have hexecute := execute_of_given_none (hlog.trans heq) hnone
    exact ⟨by rw [hexecute], hnone, by rw [hexecute]⟩
  by_cases hrejects : Rejects s.node shardTerm request
  · obtain ⟨error, heq⟩ := logWrite_of_rejects hrejects
    refine ⟨fun _ => .inl hrejects, fun _ => hsame _ heq ?_⟩
    unfold given
    rw [hlog, heq]
  -- the statement goes to MiniSQL unless the registration fails
  have hgiven : ∀ n' e, s.node.logWrite shardTerm request = (n', .accepted (some e)) →
      (s.given shardTerm request updateFails = none ↔ updateFails = true) := by
    intro n' e heq
    unfold given
    rw [hlog, heq, hreplay]
    cases updateFails with
    | true => simp
    | false => simp
  obtain ⟨e, he, hid, heq⟩ | ⟨hfind, e, heq⟩ := logWrite_of_not_rejects hrejects
  · constructor
    · intro h
      exact .inr ⟨(hgiven _ e heq).mp h.statement, e, he, hid⟩
    · rintro (h | ⟨hfails, _⟩)
      · exact absurd h hrejects
      · exact hsame _ heq ((hgiven _ e heq).mpr hfails)
  · constructor
    · intro h
      have happended := h.log
      rw [execute_of_given_none (hlog.trans heq) h.statement] at happended
      have hlength := congrArg List.length happended
      simp only [DataNode.logs, WalLog.appendRaw, List.length_append, List.length_singleton]
        at hlength
      omega
    · rintro (h | ⟨_, d, hd, hid⟩)
      · exact absurd h hrejects
      · obtain hb | hb := WalLog.findByRequestId_eq_none_iff.mp hfind
        · rw [hblank] at hb
          cases hb
        · exact absurd hid (hb d hd)

/-- A write of the primary of the shard 0. -/
def primaryRequest (requestId sql : String) : ExecuteRequest where
  requestId := some requestId
  shardId := 0
  shardLogIndex := 1
  raftTerm := 1
  sql := sql
  replay := false

/-- A node that owns the shard 0 logs two writes. -/
def twoPrimaryWrites : List EngineAction :=
  [.restart [0] [],
    .execute (fun _ => some 1) (primaryRequest "a" "insert into t values(1)") false [],
    .execute (fun _ => some 1) (primaryRequest "b" "delete from t where id = 1") false []]

/-- In a later term the redelivery of the first write is rejected. -/
theorem redelivery_at_most_once_iff_stale :
    ((twoPrimaryWrites.foldl step { node := { nodeId := "n1" } }).execute (fun _ => some 2)
      (primaryRequest "a" "insert into t values(1)") false).node.walLog.history.map
        (·.requestId) = [some "a", some "b"] := by
  have hreplay : (primaryRequest "a" "insert into t values(1)").replay = false := rfl
  have heffect := (redelivery_at_most_once_iff
    (twoPrimaryWrites.foldl step { node := { nodeId := "n1" } }) (fun _ => some 2) hreplay
    (by decide +kernel) (by decide +kernel) false).mpr (.inl (.inr (.inr (by decide +kernel))))
  rw [heffect.log]
  decide +kernel

/-- The first write is delivered again. Nothing is appended, but MiniSQL gets the insert after the
delete, and the applied position goes back from 2 to 1. After a snapshot the write is appended a
second time. -/
theorem redelivered_write_runs_again :
    ∃ s s' : EngineNode, s = twoPrimaryWrites.foldl step { node := { nodeId := "n1" } } ∧
      s' = s.execute (fun _ => some 1) (primaryRequest "a" "insert into t values(1)") false ∧
      (∃ e ∈ s.node.walLog.history, e.requestId = some "a") ∧
      ¬ s.WithoutEffect (fun _ => some 1) (primaryRequest "a" "insert into t values(1)") false ∧
      s'.miniSqlEngine.loggedSql.map (·.requestId) = [some "a", some "b", some "a"] ∧
      s.miniSqlEngine.engineWalSequence = 2 ∧ s'.miniSqlEngine.engineWalSequence = 1 ∧
      (((s.step .adminSnapshot).execute (fun _ => some 1)
        (primaryRequest "a" "insert into t values(1)") false).node.walLog.history.map
          (·.requestId)) = [some "a", some "b", some "a"] := by
  refine ⟨_, _, rfl, rfl, by decide +kernel, fun h => ?_, by decide +kernel, by decide +kernel,
    by decide +kernel, by decide +kernel⟩
  have hposition := h.position
  revert hposition
  decide +kernel

end EngineNode

end DisMiniSql.Distributed
