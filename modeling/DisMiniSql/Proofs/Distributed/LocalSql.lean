import DisMiniSql.Distributed.DataNode.LocalSql
import DisMiniSql.Proofs.Distributed.DataNode

/-!
# `DisMiniSql.Proofs.Distributed.LocalSql`: the console of a data node and its requests

`executeLocalSql` runs on the process that also serves `/execute`. It brings MiniSQL up to date
with the log first, and leaves it as the statement leaves it.

What later requests can see of the engine is the process in which their statement finds MiniSQL:
for a request that is not in the log the process with the whole log applied, for one that is in
the log the process with the entries before it applied (`found`). It is told by the log, by the
running process and by what MiniSQL makes of texts. `isolated_iff` says that a local statement
does not show if each of these requests finds the same databases and the same answers on the pipe
with and without it, and that it shows if one of them finds other databases.
-/

set_option autoImplicit false

namespace DisMiniSql.Distributed

open DisMiniSql.MiniSql (ExecuteEngine)

variable {τ : Type} {m : Repl τ}

namespace Repl

/-- A text that is written to a process: what is read, and the process afterwards. -/
def write (m : Repl τ) (x : ReplSession τ) (text : String) :
    Except String (String × ReplSession τ) :=
  match x.engine with
  | none => .error "MiniSQL REPL communication failed"
  | some s =>
    match (x.runStatement m text.toList).returned, (m.loop s (inputLines text.toList)).2 with
    | some answer, _ => .ok (String.ofList answer, (x.runStatement m text.toList).session)
    | none, .error message => .error message
    | none, .ok _ => .error "MiniSQL REPL timed out"

/-- A list of texts, one after another. -/
def replay (m : Repl τ) (x : ReplSession τ) : List String → Except String (ReplSession τ)
  | [] => .ok x
  | text :: rest =>
    match m.write x text with
    | .ok (_, x') => m.replay x' rest
    | .error message => .error message

/-- A statement: its output, and the process afterwards. -/
def statement (m : Repl τ) (x : ReplSession τ) (sql : String) :
    Except String (String × ReplSession τ) :=
  if x.engine.isSome then m.write x (SqlUtils.normalize sql)
  else .error "MiniSQL engine is not running; rebuild required"

/-- The statement of a request, which may be blank. -/
def request (m : Repl τ) (x : ReplSession τ) (sql : String) :
    Except String (String × ReplSession τ) :=
  if isBlank sql then .ok ("", x) else m.statement x sql

end Repl

namespace LiveEngine

variable {e : LiveEngine τ}

/-- An engine that is in use, for this compacted number. -/
def settled (d : Option String) (compactedWal : Int) (x : ReplSession τ) (w : Int) :
    LiveEngine τ where
  defaultDatabase := d
  process := some x
  engineWalSequence := w
  engineCompactedWal := compactedWal
  invalidated := false

/-- The engine has to be rebuilt before its next use. -/
structure Down (d : Option String) (e : LiveEngine τ) : Prop where
  defaultDatabase : e.defaultDatabase = d
  not_ready : e.isReady = false

theorem isReady_settled (d : Option String) (c w : Int) (x : ReplSession τ) :
    (settled d c x w).isReady = x.engine.isSome := rfl

/-- An engine that is ready has this form. -/
theorem eq_settled (h : e.isReady = true) :
    ∃ x, e = settled e.defaultDatabase e.engineCompactedWal x e.engineWalSequence ∧
      e.process = some x := by
  obtain ⟨d, process, w, c, invalidated⟩ := e
  unfold isReady at h
  rw [Bool.and_eq_true] at h
  obtain ⟨s, hs⟩ := Option.isSome_iff_exists.mp h.2
  have hvalid : invalidated = false := by simpa using h.1
  obtain ⟨x, hprocess, -⟩ := Option.bind_eq_some_iff.mp hs
  have hprocess : process = some x := hprocess
  subst hvalid hprocess
  exact ⟨x, rfl, rfl⟩

/-- A text is answered, or the engine is down. -/
theorem runStatement_eq {x : ReplSession τ} (hx : e.process = some x) (text : String) :
    (∃ output x', m.write x text = .ok (output, x') ∧
        e.runStatement m text = ({ e with process := some x' }, .ok output)) ∨
      ∃ message e', m.write x text = .error message ∧
        e.runStatement m text = (e', .error message) ∧ Down e.defaultDatabase e' := by
  unfold Repl.write runStatement
  rw [hx]
  dsimp only
  cases x.engine with
  | none => exact Or.inr ⟨_, _, rfl, rfl, rfl, rfl⟩
  | some s =>
    dsimp only
    cases (x.runStatement m text.toList).returned with
    | some answer => exact Or.inl ⟨_, _, rfl, rfl⟩
    | none =>
      cases (m.loop s (inputLines text.toList)).2 with
      | error message => exact Or.inr ⟨_, _, rfl, rfl, rfl, by simp [isReady]⟩
      | ok last => exact Or.inr ⟨_, _, rfl, rfl, rfl, by simp [isReady, miniSql]⟩

/-- The loop of `resetAndReplay` on a process. -/
theorem runStatements_eq (e : LiveEngine τ) (x : ReplSession τ) (texts : List String)
    (hx : e.process = some x) :
    (∃ x', m.replay x texts = .ok x' ∧
        e.runStatements m texts = ({ e with process := some x' }, .ok ())) ∨
      ∃ message e', m.replay x texts = .error message ∧
        e.runStatements m texts = (e', .error message) ∧ Down e.defaultDatabase e' := by
  induction texts generalizing e x with
  | nil =>
    refine Or.inl ⟨x, rfl, ?_⟩
    rw [← hx]
    rfl
  | cons text rest ih =>
    unfold Repl.replay runStatements
    obtain ⟨output, x', hwrite, hrun⟩ | ⟨message, e', hwrite, hrun, hdown⟩ :=
      runStatement_eq (m := m) hx text
    · rw [hwrite, hrun]
      exact ih { e with process := some x' } x' rfl
    · rw [hwrite, hrun]
      exact Or.inr ⟨message, e', rfl, rfl, hdown⟩

/-- A statement on an engine that is in use. -/
theorem executeStatement_settled (d : Option String) (c w : Int) (x : ReplSession τ)
    (sql : String) :
    (∃ output x', m.statement x sql = .ok (output, x') ∧
        (settled d c x w).executeStatement m sql = (settled d c x' w, .ok output)) ∨
      ∃ message e', m.statement x sql = .error message ∧
        (settled d c x w).executeStatement m sql = (e', .error message) ∧ Down d e' := by
  unfold Repl.statement executeStatement
  rw [isReady_settled]
  by_cases halive : x.engine.isSome = true
  · rw [if_pos halive, if_pos halive]
    exact runStatement_eq (e := settled d c x w) rfl (SqlUtils.normalize sql)
  · rw [if_neg halive, if_neg halive]
    exact Or.inr ⟨_, _, rfl, rfl, rfl, Bool.eq_false_iff.mpr halive⟩

/-- The process, if it needs no full replay. -/
def running (e : LiveEngine τ) (compactedWal : Nat) : Option (ReplSession τ) :=
  if e.isReady = true ∧ e.engineCompactedWal = compactedWal then e.process else none

end LiveEngine

namespace DataNode

open LiveEngine (settled Down)

variable {n : DataNode} {e : LiveEngine τ} {b : WithTop Nat}

/-- The process after a full replay up to the bound. -/
def full (m : Repl τ) (n : DataNode) (d : Option String) (b : WithTop Nat) :
    Except String (ReplSession τ) :=
  m.replay { engine := some {} } ((MiniSqlEngine.expandStatements { defaultDatabase := d }
    (n.replaySqlBefore b)).map Fed.text)

/-- The statements of the log that a process with this number has not had yet, up to the bound. -/
def pending (bound : Nat) : Int → List WalEntry → List String
  | _, [] => []
  | w, entry :: entries =>
    if (entry.sequence : Int) ≤ w then pending bound w entries
    else if bound ≤ entry.sequence then []
    else entry.sql :: pending bound entry.sequence entries

/-- Statements of the log on a process. -/
def catchUpOn (m : Repl τ) (x : ReplSession τ) : List String → Except String (ReplSession τ)
  | [] => .ok x
  | sql :: rest =>
    match m.statement x sql with
    | .ok (_, x') => catchUpOn m x' rest
    | .error message => .error message

/-- The process in which the statement of a request with this bound finds MiniSQL: the running one,
brought up to date, or, if there is none or MiniSQL ends on the way, one after a full replay. `none`
if the log cannot be replayed. -/
def found (m : Repl τ) (n : DataNode) (e : LiveEngine τ) (b : WithTop Nat) :
    Option (ReplSession τ) :=
  match e.running n.compactedWal with
  | none => (n.full m e.defaultDatabase b).toOption
  | some x =>
    match catchUpOn m x (pending (b.untopD (n.walLog.lastSequence + 1)) e.engineWalSequence
      n.walLog.readAll) with
    | .ok x' => some x'
    | .error _ => (n.full m e.defaultDatabase b).toOption

/-- What comes of a statement that finds MiniSQL like this. If it fails, it is run again after a
full replay. -/
def outcome (m : Repl τ) (n : DataNode) (d : Option String) (b : WithTop Nat)
    (v : Option (ReplSession τ)) (sql : String) : Except String (String × ReplSession τ) :=
  match v.map (fun x => m.request x sql) with
  | some (.ok r) => .ok r
  | _ => (n.full m d b).bind (fun x => m.request x sql)

/-- A full sync ends in one of two ways: the engine settled on the replay, or a message and the
engine down. -/
theorem fullSyncLive_eq (e : LiveEngine τ) :
    (∃ x, n.full m e.defaultDatabase b = .ok x ∧ n.fullSyncLive m e b =
        (settled e.defaultDatabase n.compactedWal x (n.replayThrough b), .ok ())) ∨
      ∃ message e', n.full m e.defaultDatabase b = .error message ∧
        n.fullSyncLive m e b = (e', .error message) ∧ Down e.defaultDatabase e' := by
  unfold fullSyncLive LiveEngine.resetAndReplay full
  dsimp only
  obtain ⟨x, hreplay, hrun⟩ | ⟨message, e', hreplay, hrun, hdown⟩ :=
    LiveEngine.runStatements_eq (m := m) { e with process := some { engine := some {} } }
      { engine := some {} }
      ((MiniSqlEngine.expandStatements { defaultDatabase := e.defaultDatabase }
        (n.replaySqlBefore b)).map Fed.text) rfl
  · rw [hrun]
    exact Or.inl ⟨x, hreplay, rfl⟩
  · rw [hrun]
    exact Or.inr ⟨message, e', hreplay, rfl, hdown⟩

/-- The loop of `catchUpWalBefore` runs the pending statements. -/
theorem catchUpLive_settled (d : Option String) (c : Int) (bound : Nat) (entries : List WalEntry)
    (x : ReplSession τ) (w : Int) :
    (∃ x' w', catchUpOn m x (pending bound w entries) = .ok x' ∧
        catchUpLive m bound entries (settled d c x w) = (settled d c x' w', .ok ())) ∨
      ∃ message e', catchUpOn m x (pending bound w entries) = .error message ∧
        catchUpLive m bound entries (settled d c x w) = (e', .error message) ∧ Down d e' := by
  induction entries generalizing x w with
  | nil => exact Or.inl ⟨x, w, rfl, rfl⟩
  | cons entry entries ih =>
    unfold catchUpLive pending
    have hw : (settled d c x w).engineWalSequence = w := rfl
    rw [hw]
    split
    · exact ih x w
    split
    · exact Or.inl ⟨x, w, rfl, rfl⟩
    unfold catchUpOn
    obtain ⟨output, x', hstatement, hexec⟩ | ⟨message, e', hstatement, hexec, hdown⟩ :=
      LiveEngine.executeStatement_settled (m := m) d c w x entry.sql
    · rw [hstatement, hexec]
      exact ih x' entry.sequence
    · rw [hstatement, hexec]
      exact Or.inr ⟨message, e', rfl, rfl, hdown⟩

/-- The engine is in use after a sync, or is down. -/
theorem syncLive_cases (e : LiveEngine τ) :
    (∃ x w, n.syncLive m e b = (settled e.defaultDatabase n.compactedWal x w, .ok ()) ∧
        n.found m e b = some x) ∨
      ∃ message e', n.syncLive m e b = (e', .error message) ∧ Down e.defaultDatabase e' ∧
        n.found m e b = (n.full m e.defaultDatabase b).toOption := by
  unfold found LiveEngine.running
  by_cases hready : (!e.isReady || e.engineCompactedWal != n.compactedWal) = true
  · have hsync : n.syncLive m e b = n.fullSyncLive m e b := if_pos hready
    have hrunning : ¬ (e.isReady = true ∧ e.engineCompactedWal = n.compactedWal) := by
      intro h
      simp [h.1, h.2] at hready
    rw [hsync, if_neg hrunning]
    obtain ⟨x, hfull, hlive⟩ | ⟨message, e', hfull, hlive, hdown⟩ :=
      n.fullSyncLive_eq (m := m) (b := b) e
    · rw [hlive, hfull]
      exact Or.inl ⟨x, _, rfl, rfl⟩
    · rw [hlive]
      exact Or.inr ⟨message, e', rfl, hdown, rfl⟩
  · have hsync : n.syncLive m e b = catchUpLive m
        (b.untopD (n.walLog.lastSequence + 1)) n.walLog.readAll e := if_neg hready
    simp only [Bool.or_eq_true, Bool.not_eq_true', bne_iff_ne, not_or, ne_eq, not_not,
      Bool.not_eq_false] at hready
    obtain ⟨x, hsettled, hprocess⟩ := LiveEngine.eq_settled hready.1
    rw [hready.2] at hsettled
    rw [hsync, if_pos hready, hprocess]
    obtain ⟨x', w, hcatch, hlive⟩ | ⟨message, e', hcatch, hlive, hdown⟩ :=
      catchUpLive_settled (m := m) e.defaultDatabase n.compactedWal
        (b.untopD (n.walLog.lastSequence + 1)) n.walLog.readAll x e.engineWalSequence
    · rw [← hsettled] at hlive
      dsimp only
      rw [hcatch, hlive]
      exact Or.inl ⟨x', w, rfl, rfl⟩
    · rw [← hsettled] at hlive
      dsimp only
      rw [hcatch, hlive]
      exact Or.inr ⟨message, e', rfl, hdown, rfl⟩

/-- One statement on a settled engine: its output and the engine settled on the new session, or a
message and the engine down. -/
theorem runLive_settled (d : Option String) (c w : Int) (x : ReplSession τ)
    (sql : String) (applied : Nat) :
    (∃ output x', m.request x sql = .ok (output, x') ∧
        runLive m (settled d c x w) sql applied = (settled d c x' applied, .ok output)) ∨
      ∃ message e', m.request x sql = .error message ∧
        runLive m (settled d c x w) sql applied = (e', .error message) ∧ Down d e' := by
  unfold runLive Repl.request
  by_cases hsql : isBlank sql = true
  · rw [if_pos hsql, if_pos hsql]
    exact Or.inl ⟨"", x, rfl, rfl⟩
  rw [if_neg hsql, if_neg hsql]
  obtain ⟨output, x', hstatement, hexec⟩ | ⟨message, e', hstatement, hexec, hdown⟩ :=
    LiveEngine.executeStatement_settled (m := m) d c w x sql
  · rw [hexec, hstatement]
    exact Or.inl ⟨output, x', rfl, rfl⟩
  · rw [hexec, hstatement]
    exact Or.inr ⟨message, e', rfl, rfl, hdown⟩

/-- A retry is a full sync and the statement; it ends in the same two ways. -/
theorem retryLive_eq (e : LiveEngine τ) (sql : String) (applied : Nat) :
    (∃ output x, (n.full m e.defaultDatabase b).bind (fun x => m.request x sql) =
          .ok (output, x) ∧
        n.retryLive m e b sql applied =
          (settled e.defaultDatabase n.compactedWal x applied, .ok output)) ∨
      ∃ message e', (n.full m e.defaultDatabase b).bind (fun x => m.request x sql) =
          .error message ∧
        n.retryLive m e b sql applied = (e', .error message) ∧ Down e.defaultDatabase e' := by
  unfold retryLive
  obtain ⟨x, hfull, hsync⟩ | ⟨message, e', hfull, hsync, hdown⟩ :=
    n.fullSyncLive_eq (m := m) (b := b) e
  · rw [hsync, hfull]
    exact runLive_settled e.defaultDatabase n.compactedWal (n.replayThrough b) x sql applied
  · rw [hsync, hfull]
    exact Or.inr ⟨message, e', rfl, rfl, hdown⟩

/-- `runOnEngine` depends on the engine only through the process in which the statement finds
MiniSQL. -/
theorem runOnLive_eq (e : LiveEngine τ) (sql : String) (applied : Nat) :
    (∃ output x, n.outcome m e.defaultDatabase b (n.found m e b) sql = .ok (output, x) ∧
        n.runOnLive m e b sql applied =
          (settled e.defaultDatabase n.compactedWal x applied, .ok output)) ∨
      ∃ message e', n.outcome m e.defaultDatabase b (n.found m e b) sql = .error message ∧
        n.runOnLive m e b sql applied = (e', .error message) ∧ Down e.defaultDatabase e' := by
  unfold runOnLive outcome
  obtain ⟨x, w, hsync, hfound⟩ | ⟨message, e', hsync, hdown, hfound⟩ :=
    n.syncLive_cases (m := m) (b := b) e
  · rw [hsync, hfound]
    dsimp only [Option.map_some]
    obtain ⟨output, x', hrequest, hrun⟩ | ⟨message, e', hrequest, hrun, hdown⟩ :=
      runLive_settled (m := m) e.defaultDatabase n.compactedWal w x sql applied
    · rw [hrun, hrequest]
      exact Or.inl ⟨output, x', rfl, rfl⟩
    · rw [hrun, hrequest]
      dsimp only
      rw [← hdown.defaultDatabase]
      exact n.retryLive_eq e' sql applied
  · rw [hsync, hfound]
    dsimp only
    have hretry := n.retryLive_eq (m := m) (b := b) e' sql applied
    rw [hdown.defaultDatabase] at hretry
    -- the statement is only run after the full replay
    cases hfull : n.full m e.defaultDatabase b with
    | error message =>
      rw [hfull] at hretry
      exact hretry
    | ok x =>
      rw [hfull] at hretry
      dsimp only [Except.toOption, Option.map_some]
      cases hrequest : m.request x sql with
      | error message =>
        dsimp only
        exact hretry
      | ok r =>
        dsimp only [Except.bind] at hretry
        rw [hrequest] at hretry
        exact hretry

/-- An engine that is down is rebuilt. -/
theorem found_of_down {d : Option String} (h : Down d e) :
    n.found m e b = (n.full m d b).toOption := by
  have hrunning : e.running n.compactedWal = none := by
    refine if_neg fun hready => ?_
    rw [h.not_ready] at hready
    exact Bool.false_ne_true hready.1
  unfold found
  rw [hrunning, h.defaultDatabase]

/-- No number of the file is beyond the last one. -/
def Numbered (n : DataNode) : Prop := ∀ e ∈ n.walLog.walFile, e.sequence ≤ n.walLog.lastSequence

/-- There is nothing to catch up with. -/
theorem pending_of_le {bound : Nat} {w : Int} {entries : List WalEntry}
    (h : ∀ entry ∈ entries, (entry.sequence : Int) ≤ w) : pending bound w entries = [] := by
  induction entries with
  | nil => rfl
  | cons entry entries ih =>
    unfold pending
    rw [if_pos (h entry List.mem_cons_self)]
    exact ih fun x hx => h x (List.mem_cons_of_mem _ hx)

/-- A process that has the whole log. -/
theorem found_settled (hn : n.Numbered) (d : Option String) {x : ReplSession τ}
    (hx : x.engine.isSome = true) :
    n.found m (settled d n.compactedWal x n.walLog.lastSequence) b = some x := by
  have hrunning : (settled d n.compactedWal x n.walLog.lastSequence).running n.compactedWal =
      some x := if_pos ⟨hx, rfl⟩
  have hpending : pending (b.untopD (n.walLog.lastSequence + 1))
      (settled d n.compactedWal x n.walLog.lastSequence).engineWalSequence n.walLog.readAll =
        [] := by
    refine pending_of_le fun entry hentry => ?_
    exact Int.ofNat_le.mpr (hn entry (WalLog.mem_readAll.mp hentry))
  unfold found
  rw [hrunning, hpending]
  rfl

section Fresh

variable {entry : WalEntry}

/-- A newer entry stays behind what is sorted before it. -/
theorem orderedInsert_append {x : WalEntry} (hx : x.sequence ≤ entry.sequence)
    (l : List WalEntry) :
    List.orderedInsert (fun a b : WalEntry => a.sequence ≤ b.sequence) x (l ++ [entry]) =
      List.orderedInsert (fun a b : WalEntry => a.sequence ≤ b.sequence) x l ++ [entry] := by
  induction l with
  | nil => simp [hx]
  | cons y l ih =>
    by_cases hy : x.sequence ≤ y.sequence
    · simp [hy]
    · simp [hy, ih]

/-- An entry with the largest number comes last. -/
theorem readAll_logs (h : ∀ x ∈ n.walLog.walFile, x.sequence ≤ entry.sequence) :
    (n.logs entry).walLog.readAll = n.walLog.readAll ++ [entry] := by
  show (n.walLog.walFile ++ [entry]).insertionSort _ = n.walLog.walFile.insertionSort _ ++ [entry]
  revert h
  generalize n.walLog.walFile = file
  intro h
  induction file with
  | nil => rfl
  | cons x file ih =>
    rw [List.cons_append, List.insertionSort_cons, List.insertionSort_cons,
      ih fun y hy => h y (List.mem_cons_of_mem _ hy)]
    exact orderedInsert_append (h x List.mem_cons_self) _

/-- The statements before the new entry are all that there were. -/
theorem replaySqlBefore_logs (hn : n.Numbered) (hentry : n.walLog.lastSequence < entry.sequence) :
    (n.logs entry).replaySqlBefore (WithTop.some entry.sequence) = n.replaySqlBefore ⊤ := by
  have hlt : ∀ x ∈ n.walLog.walFile, x.sequence < entry.sequence := fun x hx =>
    (hn x hx).trans_lt hentry
  have hread := n.readAll_logs fun x hx => Nat.le_of_lt (hlt x hx)
  show n.snapshotManager.snapshotSql ++ _ = n.snapshotManager.snapshotSql ++ _
  congr 2
  rw [hread, List.filter_append, List.filter_append]
  have hbefore : ((n.walLog.readAll.filter (fun x => decide ((n.logs entry).compactedWal <
      x.sequence))).filter (fun x => WithTop.some x.sequence < WithTop.some entry.sequence)) =
      n.walLog.readAll.filter (fun x => decide ((n.logs entry).compactedWal < x.sequence)) := by
    refine List.filter_eq_self.mpr fun x hx => ?_
    have hx := WalLog.mem_readAll.mp (List.mem_of_mem_filter hx)
    exact decide_eq_true (WithTop.coe_lt_coe.mpr (hlt x hx))
  have hall : ((n.walLog.readAll.filter (fun x => decide (n.compactedWal < x.sequence))).filter
      (fun x => decide (WithTop.some x.sequence < (⊤ : WithTop Nat)))) =
      n.walLog.readAll.filter (fun x => decide (n.compactedWal < x.sequence)) :=
    List.filter_eq_self.mpr fun x _ => decide_eq_true (WithTop.coe_lt_top _)
  have hnew : (([entry].filter (fun x => decide ((n.logs entry).compactedWal <
      x.sequence))).filter (fun x => WithTop.some x.sequence < WithTop.some entry.sequence)) =
      [] := by
    refine List.filter_eq_nil_iff.mpr fun x hx => ?_
    rw [List.mem_singleton.mp (List.mem_of_mem_filter hx)]
    simp
  rw [hbefore, hall, hnew, List.append_nil]
  rfl

theorem full_logs (hn : n.Numbered) (hentry : n.walLog.lastSequence < entry.sequence)
    (d : Option String) :
    (n.logs entry).full m d (WithTop.some entry.sequence) = n.full m d ⊤ := by
  unfold full
  rw [replaySqlBefore_logs hn hentry]

/-- The loop stops before the new entry. -/
theorem pending_append {bound : Nat} {entries : List WalEntry}
    (h : ∀ x ∈ entries, x.sequence < entry.sequence ∧ x.sequence < bound) (w : Int) :
    pending entry.sequence w (entries ++ [entry]) = pending bound w entries := by
  induction entries generalizing w with
  | nil =>
    show pending entry.sequence w [entry] = []
    unfold pending
    split
    · rfl
    · rw [if_pos (Nat.le_refl _)]
  | cons x entries ih =>
    have hx := h x List.mem_cons_self
    have hrest := ih fun y hy => h y (List.mem_cons_of_mem _ hy)
    rw [List.cons_append]
    unfold pending
    rw [if_neg (Nat.not_le.mpr hx.1), if_neg (Nat.not_le.mpr hx.2)]
    split
    · exact hrest w
    · rw [hrest]

/-- A request that is not in the log finds MiniSQL with the whole log. -/
theorem found_logs (hn : n.Numbered) (hentry : n.walLog.lastSequence < entry.sequence)
    (e : LiveEngine τ) :
    (n.logs entry).found m e (WithTop.some entry.sequence) = n.found m e ⊤ := by
  have hlt : ∀ x ∈ n.walLog.walFile, x.sequence < entry.sequence := fun x hx =>
    (hn x hx).trans_lt hentry
  have hread := n.readAll_logs fun x hx => Nat.le_of_lt (hlt x hx)
  have hpending : pending ((WithTop.some entry.sequence).untopD
        ((n.logs entry).walLog.lastSequence + 1)) e.engineWalSequence
        (n.logs entry).walLog.readAll =
      pending ((⊤ : WithTop Nat).untopD (n.walLog.lastSequence + 1)) e.engineWalSequence
        n.walLog.readAll := by
    rw [hread]
    refine pending_append (fun x hx => ?_) _
    have hx := WalLog.mem_readAll.mp hx
    exact ⟨hlt x hx, Nat.lt_succ_of_le (hn x hx)⟩
  unfold found
  rw [hpending, full_logs hn hentry]
  rfl

end Fresh

/-- The bounds of the requests that a node may get: none for a request that is not in the log,
and the number of its entry for one that is. -/
def IsBound (n : DataNode) (b : WithTop Nat) : Prop :=
  b = ⊤ ∨ ∃ r entry, n.walLog.findByRequestId r = some entry ∧ b = WithTop.some entry.sequence

/-- What the first part of `execute` leads to. -/
theorem logRequest_result (n : DataNode) (shardTerm : Int → Option Nat)
    (request : ExecuteRequest) :
    (∃ error, n.logRequest shardTerm request = (n, .rejected error)) ∨
      n.logRequest shardTerm request = (n, .duplicate) ∨
      n.logRequest shardTerm request = (n, .accepted none) ∨
      (∃ r entry, n.walLog.findByRequestId r = some entry ∧
        n.logRequest shardTerm request = (n, .accepted (some entry))) ∨
      ∃ entry, n.walLog.lastSequence < entry.sequence ∧
        n.logRequest shardTerm request = (n.logs entry, .accepted (some entry)) := by
  unfold logRequest
  split
  · unfold logReplay
    split
    · exact Or.inr (Or.inl rfl)
    refine Or.inr (Or.inr (Or.inr ?_))
    unfold WalLog.appendRecovered
    cases hfind : n.walLog.findByRequestId (replayEntry request).requestId with
    | some entry => exact Or.inl ⟨_, entry, hfind, rfl⟩
    | none =>
      refine Or.inr ⟨n.walLog.localEntry (replayEntry request), ?_, rfl⟩
      exact lt_of_lt_of_le (Nat.lt_succ_self _) (le_max_left _ _)
  split
  · exact Or.inr (Or.inr (Or.inl rfl))
  unfold logWrite
  split
  · exact Or.inl ⟨_, rfl⟩
  split
  · exact Or.inl ⟨_, rfl⟩
  split
  · exact Or.inl ⟨_, rfl⟩
  refine Or.inr (Or.inr (Or.inr ?_))
  unfold WalLog.append
  cases hfind : n.walLog.findByRequestId request.requestId with
  | some entry => exact Or.inl ⟨_, entry, hfind, rfl⟩
  | none => exact Or.inr ⟨_, Nat.lt_succ_self _, rfl⟩

theorem Numbered.logs (hn : n.Numbered) {entry : WalEntry}
    (hentry : n.walLog.lastSequence < entry.sequence) : (n.logs entry).Numbered := by
  intro x hx
  obtain hx | hx := List.mem_append.mp hx
  · exact ((hn x hx).trans_lt hentry).le
  · rw [List.mem_singleton.mp hx]
    exact Nat.le_refl _

/-- So does the end of a request, with or without a snapshot. -/
theorem Numbered.finish (hn : n.Numbered) (written : Option WalEntry) :
    (n.markApplied written).maybeSnapshot.Numbered := by
  have hmark : (n.markApplied written).Numbered := by
    cases written with
    | none => exact hn
    | some entry => exact hn
  generalize n.markApplied written = n' at hmark
  unfold DataNode.maybeSnapshot
  dsimp only
  split
  · exact hmark
  · intro x hx
    have hx := (List.mem_insertionSort _).mp hx
    exact hmark x (WalLog.mem_readAll.mp (List.mem_of_mem_filter hx))

end DataNode

namespace LiveNode

open LiveEngine (settled Down)

/-- No request can tell the engines apart. -/
structure Alike (m : Repl τ) (n : DataNode) (e e' : LiveEngine τ) : Prop where
  defaultDatabase : e.defaultDatabase = e'.defaultDatabase
  found : ∀ b, n.IsBound b → n.found m e b = n.found m e' b

theorem Alike.of_down {n : DataNode} {d : Option String} {e e' : LiveEngine τ} (h : Down d e)
    (h' : Down d e') : Alike m n e e' where
  defaultDatabase := h.defaultDatabase.trans h'.defaultDatabase.symm
  found := fun _ _ => (DataNode.found_of_down h).trans (DataNode.found_of_down h').symm

/-- A request that was accepted, on two engines in which its statement finds the same. -/
theorem executeAccepted_alike {n : DataNode} {e e' : LiveEngine τ} (hn : n.Numbered)
    (hd : e.defaultDatabase = e'.defaultDatabase) (request : ExecuteRequest)
    (written : Option WalEntry)
    (hfound : n.found m e (sequenceExclusive written) = n.found m e' (sequenceExclusive written)) :
    ((⟨n, e⟩ : LiveNode τ).executeAccepted m request written).2 =
        ((⟨n, e'⟩ : LiveNode τ).executeAccepted m request written).2 ∧
      ∃ n' f f', n'.Numbered ∧ Alike m n' f f' ∧
        ((⟨n, e⟩ : LiveNode τ).executeAccepted m request written).1 = ⟨n', f⟩ ∧
        ((⟨n, e'⟩ : LiveNode τ).executeAccepted m request written).1 = ⟨n', f'⟩ := by
  have hrun := n.runOnLive_eq (m := m) (b := sequenceExclusive written) e
    (SqlUtils.normalize request.sql) ((written.map (·.sequence)).getD n.walLog.lastSequence)
  have hrun' := n.runOnLive_eq (m := m) (b := sequenceExclusive written) e'
    (SqlUtils.normalize request.sql) ((written.map (·.sequence)).getD n.walLog.lastSequence)
  rw [← hd, ← hfound] at hrun'
  unfold executeAccepted
  dsimp only
  obtain ⟨output, x, hout, hlive⟩ | ⟨message, f, hout, hlive, hdown⟩ := hrun
  · obtain ⟨output', x', hout', hlive'⟩ | ⟨message', f', hout', _, _⟩ := hrun'
    · cases hout.symm.trans hout'
      rw [hlive, hlive']
      exact ⟨rfl, _, _, _, hn.finish written, ⟨rfl, fun _ _ => rfl⟩, rfl, rfl⟩
    · cases hout.symm.trans hout'
  · obtain ⟨output', x', hout', _⟩ | ⟨message', f', hout', hlive', hdown'⟩ := hrun'
    · cases hout.symm.trans hout'
    · cases hout.symm.trans hout'
      rw [hlive, hlive']
      exact ⟨rfl, n, f, f', hn, Alike.of_down hdown hdown', rfl, rfl⟩

/-- One request on two engines that are alike. -/
theorem execute_alike {n : DataNode} {e e' : LiveEngine τ} (hn : n.Numbered)
    (h : Alike m n e e') (r : LiveRequest) :
    ((⟨n, e⟩ : LiveNode τ).execute m r).2 = ((⟨n, e'⟩ : LiveNode τ).execute m r).2 ∧
      ∃ n' f f', n'.Numbered ∧ Alike m n' f f' ∧
        ((⟨n, e⟩ : LiveNode τ).execute m r).1 = ⟨n', f⟩ ∧
        ((⟨n, e'⟩ : LiveNode τ).execute m r).1 = ⟨n', f'⟩ := by
  unfold execute
  dsimp only
  obtain ⟨error, hlog⟩ | hlog | hlog | ⟨id, entry, hfind, hlog⟩ | ⟨entry, hentry, hlog⟩ :=
    n.logRequest_result r.shardTerm r.request
  · rw [hlog]
    exact ⟨rfl, n, e, e', hn, h, rfl, rfl⟩
  · rw [hlog]
    exact ⟨rfl, n, e, e', hn, h, rfl, rfl⟩
  · rw [hlog]
    exact executeAccepted_alike hn h.defaultDatabase r.request none (h.found _ (Or.inl rfl))
  · rw [hlog]
    exact executeAccepted_alike hn h.defaultDatabase r.request (some entry)
      (h.found _ (Or.inr ⟨id, entry, hfind, rfl⟩))
  · rw [hlog]
    refine executeAccepted_alike (hn.logs hentry) h.defaultDatabase r.request (some entry) ?_
    show (n.logs entry).found m e (WithTop.some entry.sequence) =
      (n.logs entry).found m e' (WithTop.some entry.sequence)
    rw [DataNode.found_logs hn hentry, DataNode.found_logs hn hentry]
    exact h.found ⊤ (Or.inl rfl)

theorem results_alike {n : DataNode} {e e' : LiveEngine τ} (hn : n.Numbered)
    (h : Alike m n e e') (requests : List LiveRequest) :
    results m ⟨n, e⟩ requests = results m ⟨n, e'⟩ requests := by
  induction requests generalizing n e e' with
  | nil => rfl
  | cons r rs ih =>
    obtain ⟨hresult, n', f, f', hn', hf, hleft, hright⟩ := execute_alike hn h r
    unfold results
    rw [hresult, hleft, hright, ih hn' hf]

/-- A blank request shows in which state its statement would have found MiniSQL. -/
theorem executeAccepted_blank {n : DataNode} {e : LiveEngine τ} {request : ExecuteRequest}
    (hblank : isBlank (SqlUtils.normalize request.sql) = true) (written : Option WalEntry) :
    (∃ x, n.found m e (sequenceExclusive written) = some x ∧
        ((⟨n, e⟩ : LiveNode τ).executeAccepted m request written).2.response.ok = true ∧
        ((⟨n, e⟩ : LiveNode τ).executeAccepted m request written).2.left = x.engine) ∨
      (n.found m e (sequenceExclusive written) = none ∧
        ((⟨n, e⟩ : LiveNode τ).executeAccepted m request written).2.response.ok = false) := by
  have hrequest : ∀ x, m.request x (SqlUtils.normalize request.sql) = .ok ("", x) :=
    fun x => if_pos hblank
  have hrun := n.runOnLive_eq (m := m) (b := sequenceExclusive written) e
    (SqlUtils.normalize request.sql) ((written.map (·.sequence)).getD n.walLog.lastSequence)
  unfold executeAccepted
  dsimp only
  unfold DataNode.outcome at hrun
  cases hfound : n.found m e (sequenceExclusive written) with
  | some x =>
    rw [hfound] at hrun
    dsimp only [Option.map_some] at hrun
    rw [hrequest] at hrun
    obtain ⟨output, x', hout, hlive⟩ | ⟨message, f, hout, _, _⟩ := hrun
    · cases hout
      rw [hlive]
      exact Or.inl ⟨x, rfl, rfl, rfl⟩
    · cases hout
  | none =>
    rw [hfound] at hrun
    dsimp only [Option.map_none] at hrun
    cases hfull : n.full m e.defaultDatabase (sequenceExclusive written) with
    | ok x =>
      -- a log that can be replayed is found replayed
      obtain ⟨x', w, _, hsome⟩ | ⟨_, _, _, _, hsome⟩ :=
        n.syncLive_cases (m := m) (b := sequenceExclusive written) e
      · cases hfound.symm.trans hsome
      · rw [hfull] at hsome
        cases hfound.symm.trans hsome
    | error message =>
      rw [hfull] at hrun
      obtain ⟨output, x', hout, _⟩ | ⟨message', f, _, hlive, _⟩ := hrun
      · cases hout
      · rw [hlive]
        exact Or.inr ⟨rfl, rfl⟩

/-- A blank request with this id. -/
def blankRequest (requestId : Option String) : LiveRequest where
  shardTerm := fun _ => none
  request :=
    { requestId := requestId, shardId := -1, shardLogIndex := 0, raftTerm := 0, sql := ""
      replay := false }

theorem logRequest_blank (n : DataNode) (requestId : Option String) :
    n.logRequest (blankRequest requestId).shardTerm (blankRequest requestId).request =
      ({ n with walLog := (n.walLog.append requestId (-1) 0 (SqlUtils.normalize "")).1 },
        .accepted (some (n.walLog.append requestId (-1) 0 (SqlUtils.normalize "")).2)) := by
  have hread : SqlUtils.isReadOnly (SqlUtils.normalize "") = false := by decide
  simp [DataNode.logRequest, DataNode.logWrite, blankRequest, hread, DataNode.ownsShard]

/-- Engines that answer blank requests alike have the same databases for them. -/
theorem found_eq_of_results {n : DataNode} {e e' : LiveEngine τ} (hn : n.Numbered)
    (h : ∀ r, ((⟨n, e⟩ : LiveNode τ).execute m r).2 = ((⟨n, e'⟩ : LiveNode τ).execute m r).2)
    {b : WithTop Nat} (hb : n.IsBound b) :
    (n.found m e b).map (·.engine) = (n.found m e' b).map (·.engine) := by
  have hblank : ∀ id, isBlank (SqlUtils.normalize (blankRequest id).request.sql) = true := by
    intro id
    show isBlank (SqlUtils.normalize "") = true
    decide
  have hfound : ∀ (n' : DataNode) (id : Option String) (written : Option WalEntry),
      n.logRequest (blankRequest id).shardTerm (blankRequest id).request =
        (n', .accepted written) →
      (n'.found m e (sequenceExclusive written)).map (·.engine) =
        (n'.found m e' (sequenceExclusive written)).map (·.engine) := by
    intro n' id written hlog
    have hresult := h (blankRequest id)
    unfold execute at hresult
    dsimp only at hresult
    rw [hlog] at hresult
    dsimp only at hresult
    obtain ⟨x, hfound, hok, hleft⟩ | ⟨hfound, hok⟩ :=
      executeAccepted_blank (m := m) (n := n') (e := e) (hblank id) written
    · obtain ⟨x', hfound', _, hleft'⟩ | ⟨_, hok'⟩ :=
        executeAccepted_blank (m := m) (n := n') (e := e') (hblank id) written
      · rw [hfound, hfound', Option.map_some, Option.map_some, ← hleft, ← hleft', hresult]
      · rw [hresult, hok'] at hok
        cases hok
    · obtain ⟨_, _, hok', _⟩ | ⟨hfound', _⟩ :=
        executeAccepted_blank (m := m) (n := n') (e := e') (hblank id) written
      · rw [hresult, hok'] at hok
        cases hok
      · rw [hfound, hfound']
  obtain rfl | ⟨id, entry, hfind, rfl⟩ := hb
  · -- a request without an id is appended
    have hlog := logRequest_blank n none
    have happend : n.walLog.append none (-1) 0 (SqlUtils.normalize "") =
        (n.walLog.appendRaw (n.walLog.newEntry none (-1) 0 (SqlUtils.normalize "")),
          n.walLog.newEntry none (-1) 0 (SqlUtils.normalize "")) := rfl
    rw [happend] at hlog
    have hfresh : n.walLog.lastSequence <
        (n.walLog.newEntry none (-1) 0 (SqlUtils.normalize "")).sequence := Nat.lt_succ_self _
    generalize n.walLog.newEntry none (-1) 0 (SqlUtils.normalize "") = entry at hlog hfresh
    have hlogged : ((n.logs entry).found m e (WithTop.some entry.sequence)).map (·.engine) =
        ((n.logs entry).found m e' (WithTop.some entry.sequence)).map (·.engine) :=
      hfound (n.logs entry) none (some entry) hlog
    rwa [DataNode.found_logs hn hfresh, DataNode.found_logs hn hfresh] at hlogged
  · -- a request of the log finds its entry
    have hlog := logRequest_blank n id
    have happend : n.walLog.append id (-1) 0 (SqlUtils.normalize "") = (n.walLog, entry) := by
      unfold WalLog.append
      rw [hfind]
    rw [happend] at hlog
    exact hfound n id (some entry) hlog

/-- The process in which a later request finds MiniSQL after the local text. MiniSQL executes the
lines of the text in the process with the whole log, or, if it ends on them there, in one after a
full replay; if it is gone afterwards, the log is replayed again. -/
def foundAfter (m : Repl τ) (s : LiveNode τ) (sql : String) (b : WithTop Nat) :
    Option (ReplSession τ) :=
  match s.node.outcome m s.engine.defaultDatabase ⊤ (s.node.found m s.engine ⊤) sql with
  | .ok (_, x) =>
    if x.engine.isSome then some x else (s.node.full m s.engine.defaultDatabase b).toOption
  | .error _ => (s.node.full m s.engine.defaultDatabase b).toOption

/-- Every request finds the databases, their tables and the current database that it would find
without the text. -/
def SameTables (m : Repl τ) (s : LiveNode τ) (sql : String) : Prop :=
  ∀ b, s.node.IsBound b →
    (foundAfter m s sql b).map (·.engine) = (s.node.found m s.engine b).map (·.engine)

/-- Every request finds the answers on the pipe that it would find without the text. -/
def SamePipe (m : Repl τ) (s : LiveNode τ) (sql : String) : Prop :=
  ∀ b, s.node.IsBound b →
    (foundAfter m s sql b).map (·.stdout) = (s.node.found m s.engine b).map (·.stdout)

/-- What a later request finds after a local statement: the engine of before with the statement on
top, or one synced from the log. -/
theorem found_executeLocalSql {s : LiveNode τ} (hn : s.node.Numbered) (sql : String)
    (b : WithTop Nat) :
    s.node.found m (s.executeLocalSql m sql).1.engine b = foundAfter m s sql b := by
  unfold executeLocalSql foundAfter
  dsimp only
  obtain ⟨output, x, hout, hlive⟩ | ⟨message, f, hout, hlive, hdown⟩ :=
    s.node.runOnLive_eq (m := m) (b := ⊤) s.engine sql s.node.walLog.lastSequence
  · rw [hlive, hout]
    dsimp only
    -- the process ran before the statement, or had to be started for it
    by_cases halive : x.engine.isSome = true
    · rw [if_pos halive]
      exact DataNode.found_settled hn s.engine.defaultDatabase halive
    · rw [if_neg halive]
      exact DataNode.found_of_down ⟨rfl, Bool.eq_false_iff.mpr halive⟩
  · rw [hlive, hout]
    exact DataNode.found_of_down hdown

/-- A local statement leaves the node's default database alone. -/
theorem defaultDatabase_executeLocalSql (s : LiveNode τ) (sql : String) :
    (s.executeLocalSql m sql).1.engine.defaultDatabase = s.engine.defaultDatabase := by
  unfold executeLocalSql
  dsimp only
  obtain ⟨output, x, _, hlive⟩ | ⟨message, f, _, hlive, hdown⟩ :=
    s.node.runOnLive_eq (m := m) (b := ⊤) s.engine sql s.node.walLog.lastSequence
  · rw [hlive]
    rfl
  · rw [hlive]
    exact hdown.defaultDatabase

/-- A text that shows in the tables shows. -/
theorem sameTables_of_isolated {s : LiveNode τ} (hn : s.node.Numbered) {sql : String}
    (h : s.Isolated m sql) : s.SameTables m sql := by
  intro b hb
  rw [← found_executeLocalSql hn sql b]
  refine found_eq_of_results hn (fun r => ?_) hb
  have hresults := h [r]
  unfold results at hresults
  exact (List.cons.inj hresults).1

/-- Requests that find the same databases and the same pipe are answered alike. -/
theorem isolated_of_same {s : LiveNode τ} (hn : s.node.Numbered) {sql : String}
    (htables : s.SameTables m sql) (hpipe : s.SamePipe m sql) : s.Isolated m sql := by
  intro requests
  refine results_alike (n := s.node) hn ⟨defaultDatabase_executeLocalSql s sql, fun b hb => ?_⟩
    requests
  rw [found_executeLocalSql hn sql b]
  have hengine := htables b hb
  have hstdout := hpipe b hb
  cases hafter : foundAfter m s sql b with
  | none =>
    rw [hafter, Option.map_none, eq_comm, Option.map_eq_none_iff] at hengine
    exact hengine.symm
  | some x =>
    cases hfound : s.node.found m s.engine b with
    | none =>
      rw [hafter, hfound] at hengine
      cases hengine
    | some x' =>
      rw [hafter, hfound] at hengine hstdout
      obtain ⟨engine, stdout⟩ := x
      obtain ⟨engine', stdout'⟩ := x'
      obtain rfl : engine = engine' := Option.some.inj hengine
      obtain rfl : stdout = stdout' := Option.some.inj hstdout
      rfl

/-- On a node that has its whole log, with nothing left on the pipe: a text that is answered does
not show exactly if it leaves the databases and the current one as they are, provided that it
leaves nothing on the pipe. -/
theorem isolated_settled_iff {n : DataNode} (hn : n.Numbered) (d : Option String)
    {x x' : ReplSession τ} {sql output : String} (hx : x.engine.isSome = true)
    (hx' : x'.engine.isSome = true) (hsql : m.request x sql = .ok (output, x'))
    (hpipe : x'.stdout = x.stdout) :
    (⟨n, settled d n.compactedWal x n.walLog.lastSequence⟩ : LiveNode τ).Isolated m sql ↔
      x'.engine = x.engine := by
  have hfound (b : WithTop Nat) :
      n.found m (settled d n.compactedWal x n.walLog.lastSequence) b = some x :=
    DataNode.found_settled hn d hx
  have hafter (b : WithTop Nat) :
      foundAfter m ⟨n, settled d n.compactedWal x n.walLog.lastSequence⟩ sql b = some x' := by
    unfold foundAfter DataNode.outcome
    dsimp only
    rw [hfound, Option.map_some, hsql]
    dsimp only
    rw [if_pos hx']
  constructor
  · intro h
    have htables := sameTables_of_isolated hn h ⊤ (Or.inl rfl)
    rw [hafter, hfound] at htables
    exact Option.some.inj htables
  · intro h
    refine isolated_of_same hn (fun b _ => ?_) fun b _ => ?_
    · rw [hafter, hfound, Option.map_some, Option.map_some, h]
    · rw [hafter, hfound, Option.map_some, Option.map_some, hpipe]

/-- A broadcast statement. -/
def broadcast (sql : String) : LiveRequest where
  shardTerm := fun _ => none
  request :=
    { requestId := none, shardId := -1, shardLogIndex := 0, raftTerm := 0, sql := sql
      replay := false }

/-- A node that was just started. -/
def newNode : LiveNode (List String) where
  node := { nodeId := "n1" }

end LiveNode

end DisMiniSql.Distributed
