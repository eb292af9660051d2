import DisMiniSql.Distributed.DataNode.RunOnEngine
import DisMiniSql.Proofs.Distributed.SnapshotList

/-!
# `DisMiniSql.Proofs.Distributed.EngineLog`: the MiniSQL process has the statements of the log

A process is fed on three ways: a full replay after a reset, a catch-up from the log, and the
statement of the request itself. Each of them may fail at any statement. A failure always leaves
an engine that is not ready, so the next request starts from a reset; and where nothing fails,
the process has just the replay list before the request and then its statement.
`runOnEngine_cases` puts these together.

`engine_equals_log` is the result over whole runs: whenever the engine is ready for the current
snapshot, it was fed the snapshot and the log up to `engineWalSequence`. Blank statements do not
count: `runOnEngine` logs one and does not write it to the process (`blank_write_is_not_fed`),
a replay does.
-/

set_option autoImplicit false

namespace DisMiniSql.Distributed

open DisMiniSql.Lib (Steps)

/-- The statements of the log among what was fed. -/
def loggedFed (fed : List Fed) : List Stmt :=
  fed.filterMap (fun x => match x with
    | .logged x => some x
    | _ => none)

/-- The statements that are not blank. -/
def notBlank (l : List Stmt) : List Stmt := l.filter (fun x => !isBlank x.sql)

/-- What two lists of statements log. -/
theorem loggedFed_append (l l' : List Fed) : loggedFed (l ++ l') = loggedFed l ++ loggedFed l' := by
  simp [loggedFed]

/-- Their statements that are not blank. -/
theorem notBlank_append (l l' : List Stmt) : notBlank (l ++ l') = notBlank l ++ notBlank l' := by
  simp [notBlank]

namespace MiniSqlEngine

variable {e e' : MiniSqlEngine} {x : Fed} {xs : List Fed}

/-- The statements of the log that the process was fed, without blank ones. -/
def loggedSql (e : MiniSqlEngine) : List Stmt :=
  notBlank (loggedFed ((e.process.map (·.fed)).getD []))

/-- The statements of a replay list as they are written, without blank ones. -/
def written (l : List Stmt) : List Stmt := notBlank (l.map normalized)

/-- What they write. -/
theorem written_append (l l' : List Stmt) : written (l ++ l') = written l ++ written l' := by
  simp [written, notBlank_append]

/-- The process has answered these statements, and nothing else has changed. -/
structure Answered (e e' : MiniSqlEngine) (xs : List Fed) : Prop where
  process : e'.process = e.process.map (fun p => { p with fed := p.fed ++ xs })
  wal : e'.engineWalSequence = e.engineWalSequence
  compacted : e'.engineCompactedWal = e.engineCompactedWal
  invalidated : e'.invalidated = e.invalidated
  database : e'.defaultDatabase = e.defaultDatabase

/-- An engine has answered nothing yet. -/
theorem Answered.refl (e : MiniSqlEngine) : e.Answered e [] := by
  refine ⟨?_, rfl, rfl, rfl, rfl⟩
  cases e.process with
  | none => rfl
  | some p => simp

/-- Two lists answered one after the other. -/
theorem Answered.trans {e'' : MiniSqlEngine} {ys : List Fed} (h : e.Answered e' xs)
    (h' : e'.Answered e'' ys) : e.Answered e'' (xs ++ ys) := by
  refine ⟨?_, h'.wal.trans h.wal, h'.compacted.trans h.compacted,
    h'.invalidated.trans h.invalidated, h'.database.trans h.database⟩
  rw [h'.process, h.process]
  cases e.process with
  | none => rfl
  | some p => simp

/-- Answering keeps an engine ready. -/
theorem Answered.isReady (h : e.Answered e' xs) : e'.isReady = e.isReady := by
  unfold MiniSqlEngine.isReady
  rw [h.process, h.invalidated]
  cases e.process with
  | none => rfl
  | some p => rfl

/-- A ready engine logs what it answers, except blank statements. -/
theorem Answered.loggedSql (h : e.Answered e' xs) (hready : e.isReady = true) :
    e'.loggedSql = e.loggedSql ++ notBlank (loggedFed xs) := by
  unfold MiniSqlEngine.isReady at hready
  unfold MiniSqlEngine.loggedSql
  rw [h.process]
  cases hp : e.process with
  | none => simp [hp] at hready
  | some p => simp [loggedFed_append, notBlank_append]

/-- A statement is answered, or the engine is not ready any more. -/
theorem runStatement_cases (e : MiniSqlEngine) (x : Fed) :
    ((e.runStatement x).2 = true ∧ e.Answered (e.runStatement x).1 [x]) ∨
      ((e.runStatement x).2 = false ∧ (e.runStatement x).1.isReady = false) := by
  unfold runStatement
  dsimp only
  cases e.outcomes.head?.join with
  | none => exact Or.inl ⟨rfl, rfl, rfl, rfl, rfl, rfl⟩
  | some fault =>
    right
    cases fault with
    | communication => exact ⟨rfl, rfl⟩
    | timeout =>
      refine ⟨rfl, ?_⟩
      simp [MiniSqlEngine.isReady, destroyProcess]
    | exit => exact ⟨rfl, rfl⟩

/-- A list of statements: all answered, or one of them stopped the engine. Induction on the list. -/
theorem runStatements_cases (e : MiniSqlEngine) (xs : List Fed) :
    ((e.runStatements xs).2 = true ∧ e.Answered (e.runStatements xs).1 xs) ∨
      ((e.runStatements xs).2 = false ∧ (e.runStatements xs).1.isReady = false) := by
  induction xs generalizing e with
  | nil => exact Or.inl ⟨rfl, Answered.refl e⟩
  | cons x xs ih =>
    have hrun := e.runStatement_cases x
    unfold runStatements
    generalize e.runStatement x = r at hrun ⊢
    obtain ⟨e₁, ok⟩ := r
    obtain ⟨hok, hfirst⟩ | ⟨hok, hfail⟩ := hrun
    · dsimp only at hok hfirst
      subst hok
      dsimp only
      obtain ⟨hall, hrest⟩ | hfail := ih e₁
      · exact Or.inl ⟨hall, hfirst.trans hrest⟩
      · exact Or.inr hfail
    · dsimp only at hok hfail
      subst hok
      exact Or.inr ⟨rfl, hfail⟩

/-- The statements split for the engine are those of the list. -/
theorem loggedFed_expandStatements (e : MiniSqlEngine) (l : List Stmt) :
    loggedFed (e.expandStatements l) = l.map normalized := by
  induction l with
  | nil => rfl
  | cons x l ih =>
    have hcons : e.expandStatements (x :: l) =
        (((maybeUseDefaultDatabase e.defaultDatabase x.sql).map Fed.use).toList ++
          [.logged (normalized x)]) ++ e.expandStatements l := rfl
    rw [hcons, loggedFed_append, ih]
    cases maybeUseDefaultDatabase e.defaultDatabase x.sql with
    | none => rfl
    | some database => rfl

/-- After a reset the process has the replay list, or the engine is not ready. -/
theorem resetAndReplay_cases (e : MiniSqlEngine) (l : List Stmt) (k c : Int) :
    ((e.resetAndReplay l k c).2 = true ∧ (e.resetAndReplay l k c).1.isReady = true ∧
        (e.resetAndReplay l k c).1.loggedSql = written l ∧
        (e.resetAndReplay l k c).1.engineWalSequence = k ∧
        (e.resetAndReplay l k c).1.engineCompactedWal = c) ∨
      ((e.resetAndReplay l k c).2 = false ∧ (e.resetAndReplay l k c).1.isReady = false) := by
  unfold resetAndReplay startProcess
  dsimp only
  cases e.destroyProcess.outcomes.head?.join with
  | some fault =>
    right
    refine ⟨rfl, ?_⟩
    simp [MiniSqlEngine.isReady, destroyProcess]
  | none =>
    dsimp only
    generalize hstart : ({ e.destroyProcess with
      outcomes := e.destroyProcess.outcomes.tail, process := some {} } : MiniSqlEngine) = e₁
    have hrun := e₁.runStatements_cases (e₁.expandStatements l)
    generalize e₁.runStatements (e₁.expandStatements l) = r at hrun ⊢
    obtain ⟨e₂, ok⟩ := r
    obtain ⟨hok, hanswered⟩ | ⟨hok, hfail⟩ := hrun
    · dsimp only at hok hanswered
      subst hok
      left
      have hprocess : e₂.process = some { fed := e₁.expandStatements l } := by
        rw [hanswered.process, ← hstart]
        rfl
      refine ⟨rfl, ?_, ?_, rfl, rfl⟩
      · simp [MiniSqlEngine.isReady, hprocess]
      · simp [MiniSqlEngine.loggedSql, written, hprocess, loggedFed_expandStatements]
    · dsimp only at hok hfail
      subst hok
      exact Or.inr ⟨rfl, hfail⟩

/-- One statement: answered by a ready engine, or the engine is stopped. -/
theorem executeStatement_cases (e : MiniSqlEngine) (x : Fed) :
    ((e.executeStatement x).2 = true ∧ e.isReady = true ∧
        e.Answered (e.executeStatement x).1 [x]) ∨
      ((e.executeStatement x).2 = false ∧ (e.executeStatement x).1.isReady = false) := by
  unfold executeStatement
  by_cases hready : e.isReady = true
  · rw [if_pos hready]
    exact (e.runStatement_cases x).imp_left fun h => ⟨h.1, hready, h.2⟩
  · rw [if_neg hready]
    exact Or.inr ⟨rfl, by simpa using hready⟩

/-- Nor about what it has logged. -/
theorem loggedSql_setEngineWalSequence (e : MiniSqlEngine) (k : Int) :
    (e.setEngineWalSequence k).loggedSql = e.loggedSql := rfl

end MiniSqlEngine

namespace DataNode

open MiniSqlEngine (written normalized)

variable {n : DataNode} {e : MiniSqlEngine}

/-- The process is ready, belongs to the current snapshot and was fed this list. -/
structure Synced (n : DataNode) (e : MiniSqlEngine) (l : List Stmt) : Prop where
  ready : e.isReady = true
  compacted : e.engineCompactedWal = n.compactedWal
  fed : e.loggedSql = written l

/-- A full sync: the engine has answered the whole replay, or it is stopped. -/
theorem fullSyncEngine_cases (n : DataNode) (e : MiniSqlEngine) (q : WithTop Nat) :
    ((n.fullSyncEngine e q).2 = true ∧
        n.Synced (n.fullSyncEngine e q).1 (n.replaySqlBefore q)) ∨
      ((n.fullSyncEngine e q).2 = false ∧ (n.fullSyncEngine e q).1.isReady = false) := by
  unfold fullSyncEngine
  obtain ⟨hok, hready, hfed, _, hcompacted⟩ | hfail := e.resetAndReplay_cases
    (n.replaySqlBefore q) (n.replayThrough q) n.compactedWal
  · exact Or.inl ⟨hok, hready, hcompacted, hfed⟩
  · exact Or.inr hfail

/-- The entries that a catch-up from this number feeds. -/
def between (k : Int) (q : Nat) (entries : List WalEntry) : List WalEntry :=
  entries.filter (fun entry => decide (k < entry.sequence) && decide (entry.sequence < q))

/-- The loop feeds the entries after the number of the engine and before the bound. -/
theorem catchUp_cases {q : Nat} {entries : List WalEntry} {l : List Stmt}
    (hsorted : entries.Pairwise (fun a b => a.sequence < b.sequence)) (hsynced : n.Synced e l) :
    ((catchUp q entries e).2 = true ∧ n.Synced (catchUp q entries e).1
        (l ++ (between e.engineWalSequence q entries).map WalEntry.stmt)) ∨
      ((catchUp q entries e).2 = false ∧ (catchUp q entries e).1.isReady = false) := by
  induction entries generalizing e l with
  | nil => exact Or.inl ⟨rfl, by simpa [between, catchUp] using hsynced⟩
  | cons entry entries ih =>
    obtain ⟨hfirst, hrest⟩ := List.pairwise_cons.mp hsorted
    unfold catchUp
    by_cases hold : (entry.sequence : Int) ≤ e.engineWalSequence
    · rw [if_pos hold]
      have hskip : between e.engineWalSequence q (entry :: entries) =
          between e.engineWalSequence q entries :=
        List.filter_cons_of_neg (by simp [hold])
      rw [hskip]
      exact ih hrest hsynced
    rw [if_neg hold]
    by_cases hbreak : q ≤ entry.sequence
    · rw [if_pos hbreak]
      -- the entries that follow come after the bound, too
      have hnone : between e.engineWalSequence q (entry :: entries) = [] := by
        refine List.filter_eq_nil_iff.mpr fun d hd => ?_
        have hd : entry.sequence ≤ d.sequence := by
          obtain rfl | hd := List.mem_cons.mp hd
          · exact Nat.le_refl _
          · exact Nat.le_of_lt (hfirst d hd)
        simp only [Bool.and_eq_true, decide_eq_true_eq, not_and]
        omega
      rw [hnone]
      exact Or.inl ⟨rfl, by simpa using hsynced⟩
    rw [if_neg hbreak]
    have hexec := e.executeStatement_cases (.logged (normalized entry.stmt))
    generalize e.executeStatement (.logged (normalized entry.stmt)) = r at hexec ⊢
    obtain ⟨e', ok⟩ := r
    obtain ⟨hok, hready, hanswered⟩ | ⟨hok, hfail⟩ := hexec
    · dsimp only at hok hanswered
      subst hok
      dsimp only
      have hnext : n.Synced (e'.setEngineWalSequence entry.sequence) (l ++ [entry.stmt]) := by
        refine ⟨hanswered.isReady.trans hready, hanswered.compacted.trans hsynced.compacted, ?_⟩
        rw [MiniSqlEngine.loggedSql_setEngineWalSequence, hanswered.loggedSql hready, hsynced.fed,
          MiniSqlEngine.written_append]
        rfl
      have hbetween : between e.engineWalSequence q (entry :: entries) =
          entry :: between (e'.setEngineWalSequence entry.sequence).engineWalSequence q
            entries := by
        have htake : (decide (e.engineWalSequence < (entry.sequence : Int)) &&
            decide (entry.sequence < q)) = true := by
          simp only [Bool.and_eq_true, decide_eq_true_eq]
          omega
        unfold between
        rw [List.filter_cons, if_pos htake]
        congr 1
        refine List.filter_congr fun d hd => ?_
        have hlt := hfirst d hd
        have hboth : (e.engineWalSequence < (d.sequence : Int)) ↔
            ((entry.sequence : Int) < d.sequence) := by
          constructor <;> intro _ <;> omega
        simp only [hboth, MiniSqlEngine.setEngineWalSequence]
        rfl
      have hih := ih hrest hnext
      rw [hbetween, List.map_cons]
      rwa [List.append_assoc, List.singleton_append] at hih
    · dsimp only at hok hfail
      subst hok
      exact Or.inr ⟨rfl, hfail⟩

/-- The statement of the request. -/
theorem runRequest_cases {l : List Stmt} (hsynced : n.Synced e l) (x : Fed) (k : Nat) :
    ((runRequest e x k).2 = true ∧ (runRequest e x k).1.isReady = true ∧
        (runRequest e x k).1.engineCompactedWal = n.compactedWal ∧
        (runRequest e x k).1.engineWalSequence = k ∧
        (runRequest e x k).1.loggedSql = written l ++ notBlank (loggedFed [x])) ∨
      ((runRequest e x k).2 = false ∧ (runRequest e x k).1.isReady = false) := by
  unfold runRequest
  by_cases hblank : isBlank x.text = true
  · rw [if_pos hblank]
    refine Or.inl ⟨rfl, hsynced.ready, hsynced.compacted, rfl, ?_⟩
    -- a blank statement is not fed, and does not count
    have hnone : notBlank (loggedFed [x]) = [] := by
      cases x with
      | logged y =>
        have hy : isBlank y.sql = true := hblank
        simp [loggedFed, notBlank, hy]
      | use _ => rfl
      | unlogged _ => rfl
    rw [hnone, List.append_nil]
    exact hsynced.fed
  · rw [if_neg hblank]
    have hexec := e.executeStatement_cases x
    generalize e.executeStatement x = r at hexec ⊢
    obtain ⟨e', ok⟩ := r
    obtain ⟨hok, hready, hanswered⟩ | ⟨hok, hfail⟩ := hexec
    · dsimp only at hok hanswered
      subst hok
      refine Or.inl ⟨rfl, hanswered.isReady.trans hready,
        hanswered.compacted.trans hsynced.compacted, rfl, ?_⟩
      show e'.loggedSql = _
      rw [hanswered.loggedSql hready, hsynced.fed]
    · dsimp only at hok hfail
      subst hok
      exact Or.inr ⟨rfl, hfail⟩

/-- The snapshot and the log up to a number: what a process at this number has to have. -/
def fedThrough (n : DataNode) (k : Int) : List Stmt :=
  n.snapshotManager.snapshotSql ++
    (n.walLog.readAll.filter (fun entry => decide (n.compactedWal < entry.sequence) &&
      decide ((entry.sequence : Int) ≤ k))).map WalEntry.stmt

/-- What was fed up to a sequence: the snapshot and the entries up to it. -/
theorem Tidy.fedThrough (h : n.Tidy) (k : Int) :
    n.fedThrough k = n.snapshotManager.snapshotSql ++
      (n.walLog.walFile.filter (fun entry => decide ((entry.sequence : Int) ≤ k))).map
        WalEntry.stmt := by
  unfold DataNode.fedThrough
  rw [h.readAll]
  congr 2
  exact List.filter_congr fun entry hentry => by simp [h.pending entry hentry]

/-- The replay list before a bound, where `⊤` stands for the number after the last one. -/
theorem Tidy.replaySqlBefore (h : n.Tidy) (q : WithTop Nat) :
    n.replaySqlBefore q = n.snapshotManager.snapshotSql ++
      (n.walLog.walFile.filter (fun entry =>
        decide (entry.sequence < q.untopD (n.walLog.lastSequence + 1)))).map WalEntry.stmt := by
  unfold DataNode.replaySqlBefore
  have hall : n.walLog.walFile.filter (fun e => decide (n.compactedWal < e.sequence)) =
      n.walLog.walFile :=
    List.filter_eq_self.mpr fun e he => by simpa using h.pending e he
  rw [h.readAll, hall]
  congr 2
  refine List.filter_congr fun entry hentry => ?_
  cases q with
  | top =>
    exact decide_eq_decide.mpr ⟨fun _ => Nat.lt_succ_of_le (h.last entry hentry),
      fun _ => WithTop.coe_lt_top _⟩
  | coe q => exact decide_eq_decide.mpr WithTop.coe_lt_coe

/-- A sorted log splits at a number. -/
theorem filter_le_append_between {k : Int} {q : Nat} (hkq : k < q) {entries : List WalEntry}
    (hsorted : entries.Pairwise (fun a b => a.sequence < b.sequence)) :
    entries.filter (fun entry => decide ((entry.sequence : Int) ≤ k)) ++ between k q entries =
      entries.filter (fun entry => decide (entry.sequence < q)) := by
  induction entries with
  | nil => rfl
  | cons entry entries ih =>
    obtain ⟨hfirst, hrest⟩ := List.pairwise_cons.mp hsorted
    by_cases hk : (entry.sequence : Int) ≤ k
    · have hskip : between k q (entry :: entries) = between k q entries :=
        List.filter_cons_of_neg (by simp [hk])
      have hq : entry.sequence < q := by omega
      rw [hskip, List.filter_cons_of_pos (by simpa using hk),
        List.filter_cons_of_pos (by simpa using hq), List.cons_append, ih hrest]
    · -- nothing up to the number is left
      have hall : ∀ d ∈ entry :: entries, k < d.sequence := by
        intro d hd
        obtain rfl | hd := List.mem_cons.mp hd
        · omega
        · have := hfirst d hd
          omega
      rw [List.filter_eq_nil_iff.mpr fun d hd => by simpa using hall d hd, List.nil_append]
      exact List.filter_congr fun d hd => by simp [hall d hd]

/-- The first part of `runOnEngine`: after it the process has the replay list before the
bound. -/
theorem sync_cases (h : n.Tidy) {q : WithTop Nat}
    (hsynced : e.isReady = true → e.engineCompactedWal = n.compactedWal →
      e.loggedSql = written (n.fedThrough e.engineWalSequence) ∧
        e.engineWalSequence < q.untopD (n.walLog.lastSequence + 1))
    {r : MiniSqlEngine × Bool}
    (hr : r = if !e.isReady || e.engineCompactedWal != n.compactedWal
      then n.fullSyncEngine e q else n.catchUpWalBefore e q) :
    (r.2 = true ∧ n.Synced r.1 (n.replaySqlBefore q)) ∨
      (r.2 = false ∧ r.1.isReady = false) := by
  subst hr
  split
  · exact n.fullSyncEngine_cases e q
  · rename_i htest
    simp only [Bool.or_eq_true, Bool.not_eq_true', bne_iff_ne, ne_eq, not_or, not_not,
      Bool.not_eq_false] at htest
    obtain ⟨hready, hcompacted⟩ := htest
    obtain ⟨hfed, hlt⟩ := hsynced hready hcompacted
    have hsorted : n.walLog.readAll.Pairwise (fun a b => a.sequence < b.sequence) :=
      h.readAll.symm ▸ h.sorted
    have hcatch := catchUp_cases (q := q.untopD (n.walLog.lastSequence + 1)) hsorted
      (⟨hready, hcompacted, hfed⟩ : n.Synced e (n.fedThrough e.engineWalSequence))
    have hlist : n.fedThrough e.engineWalSequence ++
        (between e.engineWalSequence (q.untopD (n.walLog.lastSequence + 1))
          n.walLog.readAll).map WalEntry.stmt = n.replaySqlBefore q := by
      rw [h.fedThrough, h.replaySqlBefore, h.readAll, List.append_assoc, ← List.map_append,
        filter_le_append_between hlt h.sorted]
    rwa [hlist] at hcatch

/-- `runOnEngine`, the retry included: the process has the replay list before the bound and then
the statement, or the engine is not ready. -/
theorem runOnEngine_cases (h : n.Tidy) {q : WithTop Nat} (x : Fed) (k : Nat)
    (hsynced : e.isReady = true → e.engineCompactedWal = n.compactedWal →
      e.loggedSql = written (n.fedThrough e.engineWalSequence) ∧
        e.engineWalSequence < q.untopD (n.walLog.lastSequence + 1)) :
    ((n.runOnEngine e q x k).2 = true ∧
        (n.runOnEngine e q x k).1.engineWalSequence = k ∧
        (n.runOnEngine e q x k).1.loggedSql =
          written (n.replaySqlBefore q) ++ notBlank (loggedFed [x])) ∨
      ((n.runOnEngine e q x k).2 = false ∧ (n.runOnEngine e q x k).1.isReady = false) := by
  -- the first try, on a process that may have to catch up
  have htry : ((n.tryOnEngine e q x k).2 = true ∧
      (n.tryOnEngine e q x k).1.engineWalSequence = k ∧
      (n.tryOnEngine e q x k).1.loggedSql =
        written (n.replaySqlBefore q) ++ notBlank (loggedFed [x])) ∨
      ((n.tryOnEngine e q x k).2 = false ∧ (n.tryOnEngine e q x k).1.isReady = false) := by
    unfold tryOnEngine
    dsimp only
    generalize hr : (if (!e.isReady || e.engineCompactedWal != ↑n.compactedWal) = true
      then n.fullSyncEngine e q else n.catchUpWalBefore e q) = r
    obtain ⟨hok, hdone⟩ | ⟨hok, hfail⟩ := sync_cases h hsynced hr.symm
    · obtain ⟨e', ok⟩ := r
      dsimp only at hok hdone
      subst hok
      dsimp only
      obtain ⟨hok, _, _, hwal, hfed⟩ | hfail := runRequest_cases hdone x k
      · exact Or.inl ⟨hok, hwal, hfed⟩
      · exact Or.inr hfail
    · obtain ⟨e', ok⟩ := r
      dsimp only at hok hfail
      subst hok
      exact Or.inr ⟨rfl, hfail⟩
  -- the second one replays everything, whatever the process was
  have hretry : ∀ e : MiniSqlEngine, ((n.retryOnEngine e q x k).2 = true ∧
      (n.retryOnEngine e q x k).1.engineWalSequence = k ∧
      (n.retryOnEngine e q x k).1.loggedSql =
        written (n.replaySqlBefore q) ++ notBlank (loggedFed [x])) ∨
      ((n.retryOnEngine e q x k).2 = false ∧ (n.retryOnEngine e q x k).1.isReady = false) := by
    intro e
    have hfull := n.fullSyncEngine_cases e q
    unfold retryOnEngine
    generalize n.fullSyncEngine e q = r at hfull ⊢
    obtain ⟨e', ok⟩ := r
    obtain ⟨hok, hr⟩ | ⟨hok, hfail⟩ := hfull
    · dsimp only at hok hr
      subst hok
      dsimp only
      obtain ⟨hok, _, _, hwal, hfed⟩ | hfail := runRequest_cases hr x k
      · exact Or.inl ⟨hok, hwal, hfed⟩
      · exact Or.inr hfail
    · dsimp only at hok hfail
      subst hok
      exact Or.inr ⟨rfl, hfail⟩
  unfold runOnEngine
  generalize n.tryOnEngine e q x k = r at htry ⊢
  obtain ⟨e', ok⟩ := r
  obtain ⟨hok, hdone⟩ | ⟨hok, _⟩ := htry
  · dsimp only at hok
    subst hok
    exact Or.inl ⟨rfl, hdone⟩
  · dsimp only at hok
    subst hok
    exact hretry e'

/-- A request that is accepted is not logged, or it is logged as a new entry. -/
theorem logRequest_accepted {shardTerm : Int → Option Nat} {request : ExecuteRequest}
    {logged : Option WalEntry}
    (hfresh : request.replay = false →
      SqlUtils.isReadOnly (SqlUtils.normalize request.sql) = false →
      n.walLog.containsRequestId request.requestId = false)
    (hacc : (n.logRequest shardTerm request).2 = .accepted logged) :
    (logged = none ∧ (n.logRequest shardTerm request).1 = n) ∨
      ∃ w, logged = some w ∧ n.entryFor request w ∧
        (n.logRequest shardTerm request).1 = n.logs w := by
  -- a logged request is new
  have hlogged : n.walLog.containsRequestId request.requestId = false →
      (request.replay = true ∨ SqlUtils.isReadOnly (SqlUtils.normalize request.sql) = false) →
      ∃ w, logged = some w ∧ n.entryFor request w ∧
        (n.logRequest shardTerm request).1 = n.logs w := by
    intro hunknown hwrite
    obtain ⟨error, heq⟩ | ⟨w, hw, heq⟩ := logRequest_fresh shardTerm hwrite hunknown
    · rw [heq] at hacc
      cases hacc
    · rw [heq] at hacc ⊢
      cases hacc
      exact ⟨w, rfl, hw, rfl⟩
  by_cases hreplay : request.replay = true
  · refine Or.inr (hlogged ?_ (Or.inl hreplay))
    by_contra hknown
    rw [logRequest, if_pos hreplay, logReplay, if_pos (by simpa using hknown)] at hacc
    cases hacc
  have hreplay : request.replay = false := by simpa using hreplay
  by_cases hread : SqlUtils.isReadOnly (SqlUtils.normalize request.sql) = true
  · left
    rw [logRequest, hreplay, if_neg Bool.false_ne_true, if_pos hread] at hacc ⊢
    cases hacc
    exact ⟨rfl, rfl⟩
  · have hread : SqlUtils.isReadOnly (SqlUtils.normalize request.sql) = false := by
      simpa using hread
    exact Or.inr (hlogged (hfresh hreplay hread) (Or.inr hread))

/-- A new entry comes after everything that was fed. -/
theorem Tidy.fedThrough_logs (h : n.Tidy) {w : WalEntry} (hw : n.walLog.lastSequence < w.sequence)
    {k : Int} (hk : k ≤ n.walLog.lastSequence) : (n.logs w).fedThrough k = n.fedThrough k := by
  have hlate : decide ((w.sequence : Int) ≤ k) = false := by
    simp only [decide_eq_false_iff_not]
    omega
  have hfile : (n.logs w).walLog.walFile = n.walLog.walFile ++ [w] := rfl
  rw [(h.logs hw).fedThrough, h.fedThrough, hfile, List.filter_append,
    List.filter_singleton, hlate]
  simp [DataNode.logs]

/-- Up to the new entry the process has to have the replay list before it, and its statement. -/
theorem Tidy.fedThrough_logs_self (h : n.Tidy) {w : WalEntry}
    (hw : n.walLog.lastSequence < w.sequence) :
    (n.logs w).fedThrough w.sequence =
      (n.logs w).replaySqlBefore (WithTop.some w.sequence) ++ [w.stmt] := by
  have hfile : (n.logs w).walLog.walFile = n.walLog.walFile ++ [w] := rfl
  have hold : ∀ entry ∈ n.walLog.walFile, entry.sequence < w.sequence := fun entry hentry =>
    lt_of_le_of_lt (h.last entry hentry) hw
  have hle : n.walLog.walFile.filter (fun entry => decide ((entry.sequence : Int) ≤ w.sequence)) =
      n.walLog.walFile :=
    List.filter_eq_self.mpr fun entry hentry => by
      have := hold entry hentry
      simp only [decide_eq_true_eq]
      omega
  have hlt : n.walLog.walFile.filter (fun entry => decide (entry.sequence < w.sequence)) =
      n.walLog.walFile :=
    List.filter_eq_self.mpr fun entry hentry => by simpa using hold entry hentry
  rw [(h.logs hw).fedThrough, (h.logs hw).replaySqlBefore, hfile, List.filter_append,
    List.filter_append, hle, WithTop.untopD_coe, hlt]
  simp

/-- Up to the last number it has to have the whole replay list. -/
theorem Tidy.fedThrough_lastSequence (h : n.Tidy) :
    n.fedThrough n.walLog.lastSequence = n.replaySqlBefore ⊤ := by
  rw [h.fedThrough, h.replaySqlBefore, WithTop.untopD_top]
  congr 2
  refine List.filter_congr fun entry _ => decide_eq_decide.mpr ?_
  omega

end DataNode

namespace EngineNode

open MiniSqlEngine (written normalized)

variable {s : EngineNode} {n : DataNode} {e : MiniSqlEngine}

/-- A ready engine for the current snapshot has what it has to have, and is not ahead of the
log. -/
structure EngineOk (n : DataNode) (e : MiniSqlEngine) : Prop where
  tidy : n.Tidy
  fed : e.isReady = true → e.engineCompactedWal = n.compactedWal →
    e.loggedSql = written (n.fedThrough e.engineWalSequence) ∧
      e.engineWalSequence ≤ n.walLog.lastSequence

/-- A stopped engine owes nothing. -/
theorem EngineOk.of_not_ready (h : n.Tidy) (hready : e.isReady = false) : EngineOk n e :=
  ⟨h, fun h => by simp [hready] at h⟩

/-- Logging a newer entry asks nothing of the engine yet. -/
theorem EngineOk.logs (h : EngineOk n e) {w : WalEntry} (hw : n.walLog.lastSequence < w.sequence) :
    EngineOk (n.logs w) e := by
  refine ⟨h.tidy.logs hw, fun hready hcompacted => ?_⟩
  obtain ⟨hfed, hle⟩ := h.fed hready hcompacted
  refine ⟨?_, ?_⟩
  · rw [hfed, h.tidy.fedThrough_logs hw hle]
  · show e.engineWalSequence ≤ (w.sequence : Int)
    omega

/-- Marking neither. -/
theorem EngineOk.markApplied (h : EngineOk n e) (logged : Option WalEntry) :
    EngineOk (n.markApplied logged) e := by
  refine ⟨h.tidy.markApplied logged, ?_⟩
  cases logged with
  | none => exact h.fed
  | some w => exact h.fed

/-- A read: the process has the whole replay list. -/
theorem EngineOk.run_none (h : EngineOk n e) (request : ExecuteRequest) :
    EngineOk n (run ⟨n, e⟩ request none).1 := by
  obtain ⟨_, hwal, hfed⟩ | ⟨_, hfail⟩ := DataNode.runOnEngine_cases h.tidy (q := ⊤)
    (.unlogged (SqlUtils.normalize request.sql)) n.walLog.lastSequence fun hready hcompacted => by
      obtain ⟨hfed, hle⟩ := h.fed hready hcompacted
      refine ⟨hfed, ?_⟩
      rw [WithTop.untopD_top]
      omega
  · refine ⟨h.tidy, fun _ _ => ?_⟩
    unfold run
    dsimp only
    rw [hfed, hwal, h.tidy.fedThrough_lastSequence]
    refine ⟨?_, le_refl _⟩
    simp [loggedFed, notBlank]
  · exact .of_not_ready h.tidy hfail

/-- The request and its entry are written alike. -/
theorem normalized_stmt {request : ExecuteRequest} {w : WalEntry} (hw : n.entryFor request w) :
    ({ w.stmt with sql := SqlUtils.normalize request.sql } : Stmt) = normalized w.stmt := by
  have hsql : w.stmt.sql = SqlUtils.normalize request.sql := hw.2.2.2.2
  unfold normalized
  rw [hsql, SqlUtils.normalize_normalize]

/-- A write: the process has the replay list before it, and its statement. -/
theorem EngineOk.run_some (h : EngineOk n e) {request : ExecuteRequest} {w : WalEntry}
    (hw : n.entryFor request w) :
    EngineOk (n.logs w) (run ⟨n.logs w, e⟩ request (some w)).1 := by
  have hlogs := h.logs hw.1.after
  obtain ⟨_, hwal, hfed⟩ | ⟨_, hfail⟩ := DataNode.runOnEngine_cases hlogs.tidy
    (q := WithTop.some w.sequence) (.logged { w.stmt with sql := SqlUtils.normalize request.sql })
    w.sequence fun hready hcompacted => by
      obtain ⟨_, hle⟩ := h.fed hready hcompacted
      refine ⟨(hlogs.fed hready hcompacted).1, ?_⟩
      have := hw.1.after
      rw [WithTop.untopD_coe]
      omega
  · refine ⟨hlogs.tidy, fun _ _ => ?_⟩
    unfold run
    dsimp only
    rw [hfed, hwal, h.tidy.fedThrough_logs_self hw.1.after, MiniSqlEngine.written_append,
      normalized_stmt hw]
    exact ⟨rfl, le_refl _⟩
  · exact .of_not_ready hlogs.tidy hfail

/-- A snapshot at the end of a request leaves no process. -/
theorem EngineOk.finish (h : EngineOk n e) (logged : Option WalEntry) :
    EngineOk (finish ⟨n, e⟩ logged).node (finish ⟨n, e⟩ logged).miniSqlEngine := by
  have hmarked := h.markApplied logged
  unfold EngineNode.finish
  dsimp only
  by_cases hsnapshot : (n.markApplied logged).snapshots .auto = true
  · rw [if_pos hsnapshot]
    exact .of_not_ready hmarked.tidy.maybeSnapshot rfl
  · rw [if_neg hsnapshot, DataNode.maybeSnapshot_eq, if_neg hsnapshot]
    exact hmarked

/-- `execute` with a process is `execute` with one of its faults. -/
theorem exists_fault_execute (s : EngineNode) (shardTerm : Int → Option Nat)
    (request : ExecuteRequest) (updateFails : Bool) (output : String) :
    ∃ fault, (s.execute shardTerm request updateFails).node =
      (s.node.execute shardTerm request fault output).node := by
  unfold EngineNode.execute DataNode.execute
  dsimp only
  cases (s.node.logRequest shardTerm request).2 with
  | rejected error => exact ⟨none, rfl⟩
  | duplicate => exact ⟨none, rfl⟩
  | accepted logged =>
    dsimp only
    by_cases hupdate : (logged.isSome && !request.replay && updateFails) = true
    · refine ⟨some .nodeUpdate, ?_⟩
      simp only [Bool.and_eq_true] at hupdate
      simp [hupdate, DataNode.finishRequest]
    · rw [if_neg hupdate]
      generalize run _ request logged = r
      obtain ⟨e', ok⟩ := r
      cases ok with
      | false => exact ⟨some .engine, by simp [DataNode.finishRequest]⟩
      | true => exact ⟨none, by simp [DataNode.finishRequest, EngineNode.finish]⟩

/-- A write that is not a replay has a request id that the node does not know. -/
def Serial (s : EngineNode) : EngineAction → Prop
  | .execute _ request _ _ => request.replay = false →
      SqlUtils.isReadOnly (SqlUtils.normalize request.sql) = false →
      s.node.walLog.containsRequestId request.requestId = false
  | _ => True

/-- One `/execute`: the entry is logged, then the engine answers it or is stopped and, if the code
says so, synced again. -/
theorem EngineOk.execute (h : EngineOk n e) {shardTerm : Int → Option Nat}
    {request : ExecuteRequest}
    (hfresh : request.replay = false →
      SqlUtils.isReadOnly (SqlUtils.normalize request.sql) = false →
      n.walLog.containsRequestId request.requestId = false) (updateFails : Bool) :
    EngineOk (execute ⟨n, e⟩ shardTerm request updateFails).node
      (execute ⟨n, e⟩ shardTerm request updateFails).miniSqlEngine := by
  have hlogged : EngineOk (n.logRequest shardTerm request).1 e := by
    obtain heq | ⟨w, hw, heq⟩ := n.logRequest_cases shardTerm request
    · rwa [heq]
    · rw [heq]
      exact h.logs hw.1.after
  unfold EngineNode.execute
  dsimp only
  cases hanswer : (n.logRequest shardTerm request).2 with
  | rejected error => exact hlogged
  | duplicate => exact hlogged
  | accepted logged =>
    dsimp only
    have hrun : EngineOk (n.logRequest shardTerm request).1
        (run ⟨(n.logRequest shardTerm request).1, e⟩ request logged).1 := by
      obtain ⟨rfl, heq⟩ | ⟨w, rfl, hw, heq⟩ := DataNode.logRequest_accepted hfresh hanswer
      · rw [heq]
        exact h.run_none request
      · rw [heq]
        exact h.run_some hw
    -- a read, which leaves the log alone
    split
    · exact hlogged
    · generalize run ⟨(n.logRequest shardTerm request).1, e⟩ request logged = r at hrun
      obtain ⟨e', ok⟩ := r
      cases ok with
      | false => exact hrun
      | true => exact hrun.finish logged

/-- A full sync makes the engine agree again. -/
theorem EngineOk.syncEngineFull (h : n.Tidy) (e : MiniSqlEngine) :
    EngineOk (syncEngineFull ⟨n, e⟩).node (syncEngineFull ⟨n, e⟩).miniSqlEngine := by
  have hfull := n.fullSyncEngine_cases e ⊤
  unfold EngineNode.syncEngineFull
  dsimp only
  generalize n.fullSyncEngine e ⊤ = r at hfull ⊢
  obtain ⟨e', ok⟩ := r
  obtain ⟨hok, hsynced⟩ | ⟨hok, hfail⟩ := hfull
  · dsimp only at hok hsynced
    subst hok
    refine ⟨h, fun _ _ => ⟨?_, le_refl _⟩⟩
    show e'.loggedSql = written (n.fedThrough n.walLog.lastSequence)
    rw [hsynced.fed, h.fedThrough_lastSequence]
  · dsimp only at hok hfail
    subst hok
    exact .of_not_ready h hfail

/-- Each action of a serial run keeps engine and log in agreement. -/
theorem EngineOk.step (h : EngineOk s.node s.miniSqlEngine) {a : EngineAction}
    (hserial : s.Serial a) : EngineOk (s.step a).node (s.step a).miniSqlEngine := by
  cases a with
  | execute shardTerm request updateFails outcomes =>
    have hexpect : EngineOk s.node { s.miniSqlEngine with outcomes := outcomes } :=
      ⟨h.tidy, h.fed⟩
    exact hexpect.execute hserial updateFails
  | adminSnapshot =>
    refine .of_not_ready ?_ rfl
    show s.node.adminSnapshot.Tidy
    rw [DataNode.adminSnapshot_eq]
    exact h.tidy.compactTo _
  | restart shardsForNode outcomes =>
    exact .syncEngineFull (h.tidy.start_nil shardsForNode) _
  | die =>
    refine .of_not_ready h.tidy ?_
    unfold EngineNode.step die MiniSqlEngine.isReady
    cases s.miniSqlEngine.process with
    | none => simp
    | some p => simp

/-- The engine has the log. In every run of requests, snapshots, restarts and failures of MiniSQL
in which each new write has a new request id: if the engine is ready and is one for the current
snapshot, then its process was fed the statements of the snapshot and, in the order of their
numbers, those of the log up to `engineWalSequence`. Statements that are not logged and blank
ones do not count. -/
theorem engine_equals_log {nodeId : String} {defaultDatabase : Option String}
    {actions : List EngineAction}
    (hrun : Steps (fun s a s' => Serial s a ∧ s' = s.step a)
      { node := { nodeId := nodeId }, miniSqlEngine := { defaultDatabase := defaultDatabase } }
      actions s)
    (hready : s.miniSqlEngine.isReady = true)
    (hcompacted : s.miniSqlEngine.engineCompactedWal = s.node.compactedWal) :
    s.miniSqlEngine.loggedSql = written (s.node.fedThrough s.miniSqlEngine.engineWalSequence) ∧
      s.node.walLog.readAll.Pairwise (fun a b => a.sequence < b.sequence) := by
  have hok : EngineOk s.node s.miniSqlEngine := by
    refine hrun.invariant (I := fun s => EngineOk s.node s.miniSqlEngine) ?_ ?_
    · rintro s a _ h ⟨hserial, rfl⟩
      exact h.step hserial
    · exact .of_not_ready (DataNode.Tidy.new nodeId) rfl
  refine ⟨(hok.fed hready hcompacted).1, ?_⟩
  rw [hok.tidy.readAll]
  exact hok.tidy.sorted

/-- A write, a snapshot, and a write at whose statement MiniSQL does not answer in time. -/
def slowWrite : List EngineAction :=
  [.restart [0] [],
    .execute (fun _ => none) (DataNode.followerRequest "a" "insert into t values(1)") false [],
    .adminSnapshot,
    .execute (fun _ => none) (DataNode.followerRequest "b" "insert into t values(2)") false
      [none, none, none, some .timeout]]

/-- After the retry of `slowWrite` the new process has both statements. -/
theorem engine_equals_log_slow_write :
    ∃ s : EngineNode, s.miniSqlEngine.isReady = true ∧
      s.miniSqlEngine.loggedSql.map (·.requestId) = [some "a", some "b"] ∧
      s.miniSqlEngine.loggedSql =
        written (s.node.fedThrough s.miniSqlEngine.engineWalSequence) := by
  have hrun : Steps (fun s a s' => Serial s a ∧ s' = s.step a)
      { node := { nodeId := "n1" }, miniSqlEngine := { defaultDatabase := some "db" } } slowWrite
      (slowWrite.foldl step
        { node := { nodeId := "n1" }, miniSqlEngine := { defaultDatabase := some "db" } }) := by
    refine .cons ⟨trivial, rfl⟩ (.cons ⟨?_, rfl⟩ (.cons ⟨trivial, rfl⟩ (.cons ⟨?_, rfl⟩ (.nil _))))
    · intro hreplay
      cases hreplay
    · intro hreplay
      cases hreplay
  exact ⟨_, by decide +kernel, by decide +kernel,
    (engine_equals_log hrun (by decide +kernel) (by decide +kernel)).1⟩

/-- A blank write. -/
def blankWrite : List EngineAction :=
  [.restart [0] [], .execute (fun _ => none) (DataNode.followerRequest "a" "") false []]

/-- Blank statements have to be left out: one is logged, and not written to the process. -/
theorem blank_write_is_not_fed :
    ¬ ∀ (nodeId : String) (defaultDatabase : Option String) (actions : List EngineAction)
        (s : EngineNode),
      Steps (fun s a s' => Serial s a ∧ s' = s.step a)
        { node := { nodeId := nodeId }, miniSqlEngine := { defaultDatabase := defaultDatabase } }
        actions s →
      s.miniSqlEngine.isReady = true →
      s.miniSqlEngine.engineCompactedWal = s.node.compactedWal →
      loggedFed ((s.miniSqlEngine.process.map (·.fed)).getD []) =
        s.node.fedThrough s.miniSqlEngine.engineWalSequence := by
  intro h
  have hrun : Steps (fun s a s' => Serial s a ∧ s' = s.step a)
      { node := { nodeId := "n1" }, miniSqlEngine := { defaultDatabase := none } } blankWrite
      (blankWrite.foldl step
        { node := { nodeId := "n1" }, miniSqlEngine := { defaultDatabase := none } }) := by
    refine .cons ⟨trivial, rfl⟩ (.cons ⟨?_, rfl⟩ (.nil _))
    intro hreplay
    cases hreplay
  have hfed := h "n1" none blankWrite _ hrun (by decide +kernel) (by decide +kernel)
  revert hfed
  decide +kernel

end EngineNode

end DisMiniSql.Distributed
