import DisMiniSql.Proofs.Distributed.EngineLog
import DisMiniSql.Proofs.Distributed.ReplText

/-!
# `DisMiniSql.Proofs.Distributed.ReplayEffect`: one statement after another, or a full replay

`resetAndReplay` puts `use <default>;` before most statements, `executeStatement` does not. The
two give the same tables as long as every statement does the same to the databases either way,
and `replay_same_tables_iff` says that this is the exact condition: whatever the tables of a
database are and whatever the statements do to them, the tables agree after every statement of
a list if and only if each statement has the same effect on both ways.

MiniSQL takes a text line by line, so the effect of a statement is that of its lines: which
databases are there afterwards, which of them are new, and which table statements were run in
them. It is the run on an engine that keeps nothing else (`effects`). That this is enough is
`repl_mapTables`: a map between two kinds of tables that respects their statements carries one
run to the other.
-/

set_option autoImplicit false

namespace DisMiniSql.MiniSql.ExecuteEngine

variable {τ σ : Type} {parse : String → Option SyntaxNode}

/-- The same databases with other tables. -/
def mapTables (f : String → τ → σ) (s : ExecuteEngine τ) : ExecuteEngine σ where
  dbs := fun name => (s.dbs name).map (f name)
  currentDb := s.currentDb

/-- Two lists of lines one after the other. -/
theorem repl_append (db : DBStorageEngine τ) (s : ExecuteEngine τ) (xs ys : List String) :
    repl parse db s (xs ++ ys) = (repl parse db s xs).bind (fun s => repl parse db s ys) := by
  induction xs generalizing s with
  | nil => rfl
  | cons x xs ih =>
    show (s.executeCommand parse db x).bind _ = ((s.executeCommand parse db x).bind _).bind _
    rw [Option.bind_assoc]
    congr 1
    funext s'
    exact ih s'

section MapTables

variable {db : DBStorageEngine τ} {db' : DBStorageEngine σ} {f : String → τ → σ}

theorem currentDb_mapTables (s : ExecuteEngine τ) : (s.mapTables f).currentDb = s.currentDb := rfl

theorem dropped_mapTables (s : ExecuteEngine τ) : (s.mapTables f).dropped = s.dropped := by
  simp [dropped, mapTables]

/-- One database gets other tables. -/
theorem mapTables_update (s : ExecuteEngine τ) (name : String) (t : Option τ) :
    mapTables f { s with dbs := Function.update s.dbs name t } =
      { s.mapTables f with dbs := Function.update (s.mapTables f).dbs name (t.map (f name)) } := by
  unfold mapTables
  congr 1
  funext other
  by_cases hname : other = name
  · subst hname
    simp
  · simp [Function.update_of_ne hname]

/-- A change that the map commutes with. -/
theorem mapTables_onCurrent {g : τ → τ} {g' : σ → σ} (hg : ∀ name t, f name (g t) = g' (f name t))
    (s : ExecuteEngine τ) : (s.onCurrent g).mapTables f = (s.mapTables f).onCurrent g' := by
  unfold onCurrent
  rw [mapTables_update]
  have htables : ((s.dbs s.currentDb).map g).map (f s.currentDb) =
      ((s.mapTables f).dbs (s.mapTables f).currentDb).map g' := by
    cases hdb : s.dbs s.currentDb with
    | none => simp [mapTables, hdb]
    | some t => simp [mapTables, hdb, hg]
  rw [htables]
  rfl

theorem executePlan_mapTables {g : τ → τ} {g' : σ → σ} (hg : ∀ name t, f name (g t) = g' (f name t))
    (s : ExecuteEngine τ) :
    (s.mapTables f).executePlan g' = (s.executePlan g).map (mapTables f) := by
  unfold executePlan
  rw [currentDb_mapTables]
  by_cases hcurrent : s.currentDb = ""
  · rw [if_pos hcurrent, if_pos hcurrent]
    rfl
  · rw [if_neg hcurrent, if_neg hcurrent, Option.map_some, mapTables_onCurrent hg]

/-- A statement: the engine looks at the tables only through the two operations the map commutes
with, so both engines run in step. -/
theorem execute_mapTables (hinit : ∀ name, f name db.init = db'.init)
    (happly : ∀ name sql t, f name (db.apply sql t) = db'.apply sql (f name t))
    (s : ExecuteEngine τ) (ast : SyntaxNode) :
    (s.mapTables f).execute db' ast = (s.execute db ast).map (mapTables f) := by
  unfold execute
  rw [dropped_mapTables]
  -- the engine has stopped already
  by_cases hdropped : s.dropped = true
  · rw [if_pos hdropped, if_pos hdropped]
    rfl
  rw [if_neg hdropped, if_neg hdropped]
  have hsome : ∀ name, ((s.mapTables f).dbs name).isSome = (s.dbs name).isSome := by
    intro name
    simp [mapTables]
  have hnone : ∀ name, ((s.mapTables f).dbs name).isNone = (s.dbs name).isNone := by
    intro name
    simp [mapTables]
  cases ast with
  | createDB name =>
    simp only [executeCreateDatabase, hsome, Option.map_some]
    split
    · rfl
    · rw [mapTables_update, Option.map_some, hinit]
  | dropDB name =>
    simp only [executeDropDatabase, hnone, Option.map_some]
    split
    · rfl
    · rw [mapTables_update, Option.map_none]
  | useDB name =>
    simp only [executeUseDatabase, hsome, Option.map_some]
    split
    · rfl
    · rfl
  | showInfo => rfl
  | ddl sql =>
    simp only [executeDdl, Option.map_some]
    by_cases hcurrent : s.currentDb = ""
    · have hmap : (s.mapTables f).currentDb = "" := hcurrent
      rw [if_pos hcurrent, if_pos hmap]
    · have hmap : ¬ (s.mapTables f).currentDb = "" := hcurrent
      rw [if_neg hcurrent, if_neg hmap, mapTables_onCurrent (fun name => happly name sql)]
  | trx => rfl
  | quit => rfl
  | select => exact executePlan_mapTables (fun name t => (rfl : f name (id t) = id (f name t))) s
  | dml sql => exact executePlan_mapTables (fun name => happly name sql) s

theorem executeCommand_mapTables (hinit : ∀ name, f name db.init = db'.init)
    (happly : ∀ name sql t, f name (db.apply sql t) = db'.apply sql (f name t))
    (s : ExecuteEngine τ) (line : String) :
    (s.mapTables f).executeCommand parse db' line =
      (s.executeCommand parse db line).map (mapTables f) := by
  unfold executeCommand
  cases command parse line with
  | none => rfl
  | some ast => exact execute_mapTables hinit happly s ast

/-- A map between two kinds of tables carries one run to the other. -/
theorem repl_mapTables (hinit : ∀ name, f name db.init = db'.init)
    (happly : ∀ name sql t, f name (db.apply sql t) = db'.apply sql (f name t))
    (s : ExecuteEngine τ) (lines : List String) :
    repl parse db' (s.mapTables f) lines = (repl parse db s lines).map (mapTables f) := by
  induction lines generalizing s with
  | nil => rfl
  | cons line lines ih =>
    unfold repl
    rw [executeCommand_mapTables hinit happly]
    cases s.executeCommand parse db line with
    | none => rfl
    | some s' => exact ih s'

end MapTables
/-- Tables that are the statements that were run on them, and whether the database is new. -/
def effects : DBStorageEngine (Bool × List String) where
  init := (true, [])
  apply := fun sql t => (t.1, t.2 ++ [sql])

/-- The same databases, in which nothing has been run yet. -/
def untouched (s : ExecuteEngine τ) : ExecuteEngine (Bool × List String) :=
  s.mapTables fun _ _ => (false, [])

/-- What lines do to the databases: for each database that is there afterwards, whether it is new
and which table statements were run in it. `none` is a process that has ended. -/
def effect (parse : String → Option SyntaxNode) (s : ExecuteEngine τ) (lines : List String) :
    Option (String → Option (Bool × List String)) :=
  (repl parse effects s.untouched lines).map (·.dbs)

/-- The tables of a database with this effect. -/
def tablesAfter (db : DBStorageEngine τ) (dbs : String → Option τ) (name : String)
    (t : Bool × List String) : τ :=
  t.2.foldl (fun t sql => db.apply sql t) (if t.1 then db.init else (dbs name).getD db.init)

/-- The engine of marks, seen through what the marks stand for, is the engine itself. -/
theorem mapTables_untouched (db : DBStorageEngine τ) (s : ExecuteEngine τ) :
    s.untouched.mapTables (tablesAfter db s.dbs) = s := by
  obtain ⟨dbs, currentDb⟩ := s
  unfold untouched mapTables
  congr 1
  funext name
  show ((dbs name).map _).map _ = dbs name
  cases hname : dbs name with
  | none => rfl
  | some t => simp [tablesAfter, hname]

/-- The tables after some lines are known from those before and from the effect of the lines. -/
theorem dbs_repl (db : DBStorageEngine τ) (s : ExecuteEngine τ) (lines : List String) :
    (repl parse db s lines).map (·.dbs) =
      (effect parse s lines).map fun after name =>
        (after name).map (tablesAfter db s.dbs name) := by
  have hrun : repl parse db s lines =
      (repl parse effects s.untouched lines).map (mapTables (tablesAfter db s.dbs)) := by
    rw [← repl_mapTables (f := tablesAfter db s.dbs) (fun _ => rfl) (fun name sql t => ?_),
      mapTables_untouched]
    show (t.2 ++ [sql]).foldl _ _ = _
    rw [List.foldl_append]
    rfl
  rw [hrun, effect, Option.map_map, Option.map_map]
  rfl

/-- Tables that only say whether the database is new. -/
def marks : DBStorageEngine Bool where
  init := true
  apply := fun _ new => new

/-- What a statement does to the marks does not depend on the current database. -/
theorem dbs_execute_marks {s s' t t' : ExecuteEngine Bool} {ast : SyntaxNode}
    (hdbs : s.dbs = s'.dbs) (ht : s.execute marks ast = some t)
    (ht' : s'.execute marks ast = some t') : t.dbs = t'.dbs := by
  have hcurrent (s : ExecuteEngine Bool) (sql : String) :
      (s.onCurrent (marks.apply sql)).dbs = s.dbs := by
    show Function.update s.dbs s.currentDb ((s.dbs s.currentDb).map id) = s.dbs
    rw [Option.map_id, id, Function.update_eq_self]
  have hplan (s t : ExecuteEngine Bool) (sql : String)
      (h : s.executePlan (marks.apply sql) = some t) : t.dbs = s.dbs := by
    unfold executePlan at h
    split at h
    · cases h
    · rw [← Option.some.inj h, hcurrent]
  have hddl (s : ExecuteEngine Bool) (sql : String) :
      (s.executeDdl marks sql).dbs = s.dbs := by
    unfold executeDdl
    split
    · rfl
    · exact hcurrent s sql
  have huse (s : ExecuteEngine Bool) (name : String) : (s.executeUseDatabase name).dbs = s.dbs := by
    unfold executeUseDatabase
    split
    · rfl
    · rfl
  unfold execute at ht ht'
  split at ht
  · cases ht
  split at ht'
  · cases ht'
  cases ast with
  | createDB name =>
    rw [← Option.some.inj ht, ← Option.some.inj ht', executeCreateDatabase, executeCreateDatabase,
      hdbs]
    split
    · exact hdbs
    · rfl
  | dropDB name =>
    rw [← Option.some.inj ht, ← Option.some.inj ht', executeDropDatabase, executeDropDatabase, hdbs]
    split
    · exact hdbs
    · rfl
  | useDB name => rw [← Option.some.inj ht, ← Option.some.inj ht', huse, huse, hdbs]
  | showInfo => rw [← Option.some.inj ht, ← Option.some.inj ht', hdbs]
  | ddl sql => rw [← Option.some.inj ht, ← Option.some.inj ht', hddl, hddl, hdbs]
  | trx => rw [← Option.some.inj ht, ← Option.some.inj ht', hdbs]
  | quit => cases ht
  | select => rw [hplan s t "" ht, hplan s' t' "" ht', hdbs]
  | dml sql => rw [hplan s t sql ht, hplan s' t' sql ht', hdbs]

/-- The databases at the end depend on those at the start only, not on the current one; by induction
on the lines. -/
theorem dbs_repl_marks {s s' t t' : ExecuteEngine Bool} {lines : List String}
    (hdbs : s.dbs = s'.dbs) (ht : repl parse marks s lines = some t)
    (ht' : repl parse marks s' lines = some t') : t.dbs = t'.dbs := by
  induction lines generalizing s s' with
  | nil => rw [← Option.some.inj ht, ← Option.some.inj ht', hdbs]
  | cons line lines ih =>
    obtain ⟨u, hu, ht⟩ := Option.bind_eq_some_iff.mp ht
    obtain ⟨u', hu', ht'⟩ := Option.bind_eq_some_iff.mp ht'
    refine ih ?_ ht ht'
    unfold executeCommand at hu hu'
    cases hcommand : command parse line with
    | none =>
      rw [hcommand] at hu hu'
      rw [← Option.some.inj hu, ← Option.some.inj hu', hdbs]
    | some ast =>
      rw [hcommand] at hu hu'
      exact dbs_execute_marks hdbs hu hu'

/-- The same lines leave the same new databases, whatever the current database is. -/
theorem new_effect {s s' : ExecuteEngine τ} {lines : List String}
    {after after' : String → Option (Bool × List String)} (hdbs : s.dbs = s'.dbs)
    (h : effect parse s lines = some after) (h' : effect parse s' lines = some after')
    (name : String) : (after name).map (·.1) = (after' name).map (·.1) := by
  obtain ⟨t, ht, rfl⟩ := Option.map_eq_some_iff.mp h
  obtain ⟨t', ht', rfl⟩ := Option.map_eq_some_iff.mp h'
  have hmarks (u : ExecuteEngine (Bool × List String)) :
      repl parse marks (u.mapTables fun _ => Prod.fst) lines =
        (repl parse effects u lines).map (mapTables fun _ => Prod.fst) :=
    repl_mapTables (f := fun _ => (Prod.fst : Bool × List String → Bool)) (fun _ => rfl)
      (fun _ _ _ => rfl) u lines
  have hrun := hmarks s.untouched
  have hrun' := hmarks s'.untouched
  rw [ht] at hrun
  rw [ht'] at hrun'
  have hsame : (s.untouched.mapTables fun _ => Prod.fst).dbs =
      (s'.untouched.mapTables fun _ => Prod.fst).dbs := by
    show (fun name => ((s.dbs name).map _).map _) = fun name => ((s'.dbs name).map _).map _
    rw [hdbs]
  exact congrFun (dbs_repl_marks hsame hrun hrun') name

/-- Tables that are the list of the statements that were run on them. -/
def statements : DBStorageEngine (List String) where
  init := []
  apply := fun sql t => t ++ [sql]

/-- If the lists of statements agree before and after some lines, the lines have the same effect. -/
theorem effect_eq_of_dbs {s s' : ExecuteEngine (List String)} {lines : List String}
    (hdbs : s.dbs = s'.dbs)
    (hafter : (repl parse statements s lines).map (·.dbs) =
      (repl parse statements s' lines).map (·.dbs)) :
    effect parse s lines = effect parse s' lines := by
  have hlist (start : List String) (sqls : List String) :
      sqls.foldl (fun t sql => statements.apply sql t) start = start ++ sqls := by
    induction sqls generalizing start with
    | nil => exact (List.append_nil start).symm
    | cons sql sqls ih =>
      show sqls.foldl _ (start ++ [sql]) = _
      rw [ih, List.append_assoc, List.singleton_append]
  rw [dbs_repl, dbs_repl, ← hdbs] at hafter
  cases h : effect parse s lines with
  | none =>
    rw [h, Option.map_none, eq_comm, Option.map_eq_none_iff] at hafter
    exact hafter.symm
  | some after =>
    cases h' : effect parse s' lines with
    | none =>
      rw [h, h'] at hafter
      cases hafter
    | some after' =>
      rw [h, h'] at hafter
      refine congrArg some (funext fun name => ?_)
      have hname : (after name).map (tablesAfter statements s.dbs name) =
          (after' name).map (tablesAfter statements s.dbs name) :=
        congrFun (Option.some.inj hafter) name
      have hnew := new_effect hdbs h h' name
      cases ht : after name with
      | none =>
        rw [ht, Option.map_none, eq_comm, Option.map_eq_none_iff] at hname
        exact hname.symm
      | some t =>
        cases ht' : after' name with
        | none =>
          rw [ht, ht'] at hname
          cases hname
        | some t' =>
          rw [ht, ht'] at hname hnew
          obtain ⟨new, sqls⟩ := t
          obtain ⟨new', sqls'⟩ := t'
          obtain rfl : new = new' := Option.some.inj hnew
          -- the statements stand behind the same list
          have hsqls : tablesAfter statements s.dbs name (new, sqls) =
              tablesAfter statements s.dbs name (new, sqls') := Option.some.inj hname
          unfold tablesAfter at hsqls
          rw [hlist, hlist] at hsqls
          have hsqls : sqls = sqls' := List.append_cancel_left hsqls
          rw [hsqls]

/-- A `use` keeps the databases, or the process ends. -/
theorem dbs_of_executeCommand_use {db : DBStorageEngine τ} {s t : ExecuteEngine τ} {line : String}
    (huse : ∀ ast, command parse line = some ast → ∃ name, ast = .useDB name)
    (h : s.executeCommand parse db line = some t) : t.dbs = s.dbs := by
  unfold executeCommand at h
  cases hcommand : command parse line with
  | none =>
    simp only [hcommand, Option.some.injEq] at h
    rw [h]
  | some ast =>
    obtain ⟨name, rfl⟩ := huse ast hcommand
    simp only [hcommand, execute, executeUseDatabase] at h
    split at h
    · cases h
    · split at h
      · cases h
        rfl
      · cases h
        rfl

/-- The names of the databases and the current one, without the tables. -/
def names (parse : String → Option SyntaxNode) (lines : List String) :
    Option (ExecuteEngine Unit) :=
  repl parse ⟨(), fun _ _ => ()⟩ {} lines

/-- The effect of lines is known from the names. -/
theorem names_bind_effect (db : DBStorageEngine τ) (before lines : List String) :
    (names parse before).bind (effect parse · lines) =
      (repl parse db {} before).bind (effect parse · lines) := by
  have hnames : names parse before =
      (repl parse db {} before).map (mapTables fun _ _ => ()) :=
    repl_mapTables (f := fun _ _ => ()) (fun _ => rfl) (fun _ _ _ => rfl) {} before
  rw [hnames]
  cases repl parse db {} before with
  | none => rfl
  | some s =>
    have huntouched : (s.mapTables fun _ _ => ()).untouched = s.untouched := by
      unfold untouched mapTables
      simp only [Option.map_map, Function.comp_def]
    show effect parse (s.mapTables _) lines = effect parse s lines
    unfold effect
    rw [huntouched]

end DisMiniSql.MiniSql.ExecuteEngine

namespace DisMiniSql.Distributed.MiniSqlEngine

open DisMiniSql.MiniSql

variable {τ : Type} {parse : String → Option SyntaxNode} {e : MiniSqlEngine}

/-- The lines of a text that is written to MiniSQL. -/
def commandLines (text : String) : List String := (inputLines text.toList).map String.ofList

/-- The tables in the process, if it has not ended on a line. -/
def tables (parse : String → Option SyntaxNode) (db : DBStorageEngine τ) (e : MiniSqlEngine) :
    Option (String → Option τ) :=
  (ExecuteEngine.repl parse db {}
    (((e.process.map (·.fed)).getD []).flatMap fun x => commandLines x.text)).map (·.dbs)

/-- One statement after another through `executeStatement`. -/
def executeAll (e : MiniSqlEngine) (l : List Stmt) : MiniSqlEngine :=
  l.foldl (fun e x => (e.executeStatement (.logged (normalized x))).1) e

/-- The process has been fed these texts, too. -/
def fedWith (e : MiniSqlEngine) (xs : List Fed) : MiniSqlEngine :=
  { e with process := e.process.map (fun p => { p with fed := p.fed ++ xs }) }

theorem fedWith_nil (e : MiniSqlEngine) : e.fedWith [] = e := by
  obtain ⟨d, process, k, c, invalidated, outcomes⟩ := e
  cases process with
  | none => rfl
  | some p => simp [fedWith]

theorem fedWith_fedWith (e : MiniSqlEngine) (xs ys : List Fed) :
    (e.fedWith xs).fedWith ys = e.fedWith (xs ++ ys) := by
  simp [fedWith, Function.comp_def]

theorem isReady_fedWith (e : MiniSqlEngine) (xs : List Fed) :
    (e.fedWith xs).isReady = e.isReady := by
  unfold isReady fedWith
  cases e.process with
  | none => rfl
  | some p => rfl

/-- An engine that answers every statement. -/
theorem runStatement_of_no_fault (h : e.outcomes = []) (x : Fed) :
    e.runStatement x = (e.fedWith [x], true) := by
  simp [runStatement, h, feed, fedWith]

/-- Without faults an engine takes every statement. -/
theorem runStatements_of_no_fault (h : e.outcomes = []) (xs : List Fed) :
    e.runStatements xs = (e.fedWith xs, true) := by
  induction xs generalizing e with
  | nil => rw [fedWith_nil, runStatements]
  | cons x xs ih =>
    have hrest : (e.fedWith [x]).runStatements xs = ((e.fedWith [x]).fedWith xs, true) := ih h
    unfold runStatements
    rw [runStatement_of_no_fault h]
    dsimp only
    rw [hrest, fedWith_fedWith]
    rfl

/-- Without faults it takes every request, by induction. -/
theorem executeAll_of_no_fault (h : e.outcomes = []) (hready : e.isReady = true)
    (l : List Stmt) :
    e.executeAll l = e.fedWith (l.map (fun x => Fed.logged (normalized x))) := by
  induction l generalizing e with
  | nil => exact e.fedWith_nil.symm
  | cons x l ih =>
    have hfirst : (e.executeStatement (.logged (normalized x))).1 =
        e.fedWith [.logged (normalized x)] := by
      rw [executeStatement, if_pos hready, runStatement_of_no_fault h]
    have hrest := ih (e := e.fedWith [.logged (normalized x)]) h
      ((e.isReady_fedWith _).trans hready)
    rw [fedWith_fedWith] at hrest
    unfold executeAll at hrest ⊢
    rw [List.foldl_cons, hfirst, hrest]
    rfl

/-- A new process that was fed these texts. -/
def started (d : Option String) (k c : Int) (xs : List Fed) : MiniSqlEngine where
  defaultDatabase := d
  process := some { fed := xs }
  engineWalSequence := k
  engineCompactedWal := c
  invalidated := false

theorem resetAndReplay_of_no_fault (d : Option String) (l : List Stmt) (k c : Int) :
    (({ defaultDatabase := d } : MiniSqlEngine).resetAndReplay l k c).1 =
      started d k c (({ defaultDatabase := d } : MiniSqlEngine).expandStatements l) := by
  unfold resetAndReplay startProcess destroyProcess
  simp only [List.head?_nil, Option.join_none, List.tail_nil]
  rw [runStatements_of_no_fault rfl]
  rfl

/-- The lines that `executeStatement` writes. -/
def oneByOne (l : List Stmt) : List String :=
  l.flatMap fun x => commandLines (SqlUtils.normalize x.sql)

/-- The lines that `maybeUseDefaultDatabase` puts before a statement. -/
def injected (d : Option String) (x : Stmt) : List String :=
  ((maybeUseDefaultDatabase d x.sql).map fun database =>
    commandLines (Fed.use database).text).getD []

/-- The lines that `resetAndReplay` writes. -/
def replayed (d : Option String) (l : List Stmt) : List String :=
  l.flatMap fun x => injected d x ++ commandLines (SqlUtils.normalize x.sql)

theorem oneByOne_nil : oneByOne [] = [] := rfl

theorem replayed_nil (d : Option String) : replayed d [] = [] := rfl

theorem oneByOne_append (p : List Stmt) (x : Stmt) :
    oneByOne (p ++ [x]) = oneByOne p ++ commandLines (SqlUtils.normalize x.sql) := by
  simp [oneByOne]

theorem replayed_append (d : Option String) (p : List Stmt) (x : Stmt) :
    replayed d (p ++ [x]) =
      (replayed d p ++ injected d x) ++ commandLines (SqlUtils.normalize x.sql) := by
  simp [replayed]

/-- The databases after some lines on a fresh process. -/
def databases (parse : String → Option SyntaxNode) (db : DBStorageEngine τ)
    (lines : List String) : Option (String → Option τ) :=
  (ExecuteEngine.repl parse db {} lines).map (·.dbs)

theorem tables_executeAll (db : DBStorageEngine τ) (d : Option String) (l : List Stmt)
    (k c : Int) :
    ((({ defaultDatabase := d } : MiniSqlEngine).resetAndReplay [] k c).1.executeAll l).tables
        parse db =
      databases parse db (oneByOne l) := by
  rw [resetAndReplay_of_no_fault, executeAll_of_no_fault rfl rfl]
  unfold tables fedWith started oneByOne expandStatements databases
  simp [Fed.text, normalized, List.flatMap_map]

/-- The tables after the replay. -/
theorem tables_resetAndReplay (db : DBStorageEngine τ) (d : Option String) (l : List Stmt)
    (k c : Int) :
    (({ defaultDatabase := d } : MiniSqlEngine).resetAndReplay l k c).1.tables parse db =
      databases parse db (replayed d l) := by
  have hlines : (({ defaultDatabase := d } : MiniSqlEngine).expandStatements l).flatMap
      (fun x => commandLines x.text) = replayed d l := by
    unfold expandStatements replayed injected
    rw [List.flatMap_assoc]
    congr 1
    funext x
    cases maybeUseDefaultDatabase d x.sql with
    | none => simp [Fed.text, normalized]
    | some database => simp [Fed.text, normalized]
  rw [resetAndReplay_of_no_fault]
  unfold tables started databases
  simp [hlines]

section Effects

variable {d : Option String} {p : List Stmt} {x : Stmt}

/-- The lines of a text of one line. -/
theorem commandLines_of_not_mem {text : String} (h : '\n' ∉ text.toList) :
    commandLines text = [text] := by
  rw [commandLines, inputLines_of_not_mem h, List.map_singleton, String.ofList_toList]

/-- A `use` put in front names the node's default database. -/
theorem maybeUseDefaultDatabase_eq {sql database : String}
    (h : maybeUseDefaultDatabase d sql = some database) : d = some database := by
  unfold maybeUseDefaultDatabase at h
  cases d with
  | none => cases h
  | some name =>
    dsimp only at h
    split at h
    · cases h
    split at h
    · cases h
    split at h
    · cases h
    split at h
    · cases h
    exact h

/-- In the grammar, `use <database>;` is a use of a database or a syntax error. -/
def UseIsUse (parse : String → Option SyntaxNode) (d : Option String) : Prop :=
  ∀ database, d = some database → '\n' ∉ database.toList ∧
    ∀ ast, ExecuteEngine.command parse (Fed.use database).text = some ast →
      ∃ name, ast = .useDB name

/-- The `use` of a replay keeps the databases, or the process ends. -/
theorem databases_injected (huse : UseIsUse parse d) {db : DBStorageEngine τ}
    {t : ExecuteEngine τ}
    (h : ExecuteEngine.repl parse db {} (replayed d p ++ injected d x) = some t) :
    databases parse db (replayed d p) = some t.dbs := by
  rw [ExecuteEngine.repl_append] at h
  obtain ⟨s, hs, ht⟩ := Option.bind_eq_some_iff.mp h
  unfold databases
  rw [hs, Option.map_some, Option.some.injEq]
  unfold injected at ht
  cases hdefault : maybeUseDefaultDatabase d x.sql with
  | none =>
    rw [hdefault] at ht
    rw [Option.some.inj ht]
  | some database =>
    obtain ⟨hbreak, hcommand⟩ := huse database (maybeUseDefaultDatabase_eq hdefault)
    have hline : '\n' ∉ (Fed.use database).text.toList := by
      simpa [Fed.text] using hbreak
    rw [hdefault, Option.map_some, Option.getD_some, commandLines_of_not_mem hline] at ht
    obtain ⟨u, hu, ht⟩ := Option.bind_eq_some_iff.mp ht
    rw [← Option.some.inj ht]
    exact (ExecuteEngine.dbs_of_executeCommand_use hcommand hu).symm

/-- Every statement of the list does the same to the databases on both ways. -/
def SameEffects (parse : String → Option SyntaxNode) (d : Option String) (l : List Stmt) : Prop :=
  ∀ p x, p ++ [x] <+: l →
    (ExecuteEngine.names parse (oneByOne p)).bind
        (ExecuteEngine.effect parse · (commandLines (SqlUtils.normalize x.sql))) =
      (ExecuteEngine.names parse (replayed d p ++ injected d x)).bind
        (ExecuteEngine.effect parse · (commandLines (SqlUtils.normalize x.sql)))

/-- The databases after a statement are known from those before and from its effect. -/
theorem databases_append (db : DBStorageEngine τ) (before lines : List String) :
    databases parse db (before ++ lines) =
      ((ExecuteEngine.repl parse db {} before).bind (ExecuteEngine.effect parse · lines)).bind
        fun after => (databases parse db before).map fun dbs name =>
          (after name).map (ExecuteEngine.tablesAfter db dbs name) := by
  unfold databases
  rw [ExecuteEngine.repl_append]
  cases ExecuteEngine.repl parse db {} before with
  | none => rfl
  | some s =>
    show (ExecuteEngine.repl parse db s lines).map (·.dbs) =
      (ExecuteEngine.effect parse s lines).bind _
    rw [ExecuteEngine.dbs_repl]
    cases ExecuteEngine.effect parse s lines with
    | none => rfl
    | some after => rfl

/-- The databases agree after one more statement with the same effect. -/
theorem databases_concat (huse : UseIsUse parse d) {db : DBStorageEngine τ}
    (hbefore : databases parse db (oneByOne p) = databases parse db (replayed d p))
    (heffect : (ExecuteEngine.repl parse db {} (oneByOne p)).bind
        (ExecuteEngine.effect parse · (commandLines (SqlUtils.normalize x.sql))) =
      (ExecuteEngine.repl parse db {} (replayed d p ++ injected d x)).bind
        (ExecuteEngine.effect parse · (commandLines (SqlUtils.normalize x.sql)))) :
    databases parse db (oneByOne (p ++ [x])) = databases parse db (replayed d (p ++ [x])) := by
  rw [oneByOne_append, replayed_append, databases_append, databases_append, heffect]
  cases ht : ExecuteEngine.repl parse db {} (replayed d p ++ injected d x) with
  | none => rfl
  | some t =>
    have hinjected : databases parse db (replayed d p ++ injected d x) = some t.dbs := by
      rw [databases, ht, Option.map_some]
    rw [hbefore, databases_injected huse ht, hinjected]

/-- If the lists of statements agree before and after a statement, it has the same effect. -/
theorem effect_of_databases (huse : UseIsUse parse d)
    (hbefore : databases parse ExecuteEngine.statements (oneByOne p) =
      databases parse ExecuteEngine.statements (replayed d p))
    (hafter : databases parse ExecuteEngine.statements (oneByOne (p ++ [x])) =
      databases parse ExecuteEngine.statements (replayed d (p ++ [x]))) :
    (ExecuteEngine.repl parse ExecuteEngine.statements {} (oneByOne p)).bind
        (ExecuteEngine.effect parse · (commandLines (SqlUtils.normalize x.sql))) =
      (ExecuteEngine.repl parse ExecuteEngine.statements {} (replayed d p ++ injected d x)).bind
        (ExecuteEngine.effect parse · (commandLines (SqlUtils.normalize x.sql))) := by
  rw [oneByOne_append, replayed_append] at hafter
  unfold databases at hafter
  rw [ExecuteEngine.repl_append, ExecuteEngine.repl_append _ _ (replayed d p ++ injected d x)]
    at hafter
  cases ht : ExecuteEngine.repl parse ExecuteEngine.statements {}
      (replayed d p ++ injected d x) with
  | none =>
    cases hs : ExecuteEngine.repl parse ExecuteEngine.statements {} (oneByOne p) with
    | none => rfl
    | some s =>
      -- the process of the replay has ended, so the other one ends on the statement
      rw [ht, hs, Option.bind_some, Option.bind_none, Option.map_none, ExecuteEngine.dbs_repl,
        Option.map_eq_none_iff] at hafter
      rw [Option.bind_some, Option.bind_none, hafter]
  | some t =>
    rw [databases_injected huse ht] at hbefore
    obtain ⟨s, hs, hdbs⟩ := Option.map_eq_some_iff.mp hbefore
    rw [hs, ht, Option.bind_some, Option.bind_some] at hafter
    rw [hs, Option.bind_some, Option.bind_some]
    exact ExecuteEngine.effect_eq_of_dbs hdbs hafter

/-- One statement after another and a full replay have the same effect, if and only if every
statement of the list does the same to the databases on both ways: whatever the tables are, they
agree after each statement of the list. A statement may have any number of lines. -/
theorem replay_same_tables_iff (d : Option String) (huse : UseIsUse parse d) (l : List Stmt)
    (k c : Int) :
    (∀ (τ : Type) (db : DBStorageEngine τ) (p : List Stmt), p <+: l →
      ((({ defaultDatabase := d } : MiniSqlEngine).resetAndReplay [] k c).1.executeAll p).tables
          parse db =
        (({ defaultDatabase := d } : MiniSqlEngine).resetAndReplay p k c).1.tables parse db) ↔
      SameEffects parse d l := by
  simp only [tables_executeAll, tables_resetAndReplay]
  constructor
  · intro h p x hprefix
    rw [ExecuteEngine.names_bind_effect ExecuteEngine.statements,
      ExecuteEngine.names_bind_effect ExecuteEngine.statements]
    exact effect_of_databases huse (h _ _ p ((List.prefix_append p [x]).trans hprefix))
      (h _ _ (p ++ [x]) hprefix)
  · intro h τ db p
    -- the databases agree after one statement more
    induction p using List.reverseRecOn with
    | nil =>
      intro _
      rw [oneByOne_nil, replayed_nil]
    | append_singleton p x ih =>
      intro hprefix
      refine databases_concat huse (ih ((List.prefix_append p [x]).trans hprefix)) ?_
      have heffect := h p x hprefix
      rwa [ExecuteEngine.names_bind_effect db, ExecuteEngine.names_bind_effect db] at heffect

/-- A list has the same effects if a `use` of the replay never selects another database: at each
statement that gets one, the default database is the current one or is not there. -/
theorem sameEffects_of_default_current {l : List Stmt}
    (h : ∀ p x, p ++ [x] <+: l → ∀ s, ExecuteEngine.names parse (oneByOne p) = some s →
      ∀ database, maybeUseDefaultDatabase d x.sql = some database →
        '\n' ∉ database.toList ∧
          ExecuteEngine.command parse (Fed.use database).text = some (.useDB database) ∧
          s.dropped = false ∧ (s.dbs database = none ∨ s.currentDb = database)) :
    SameEffects parse d l := by
  have hinjected : ∀ p x, p ++ [x] <+: l → ∀ s, ExecuteEngine.names parse (oneByOne p) = some s →
      ExecuteEngine.repl parse ⟨(), fun _ _ => ()⟩ s (injected d x) = some s := by
    intro p x hprefix s hs
    unfold injected
    cases hdefault : maybeUseDefaultDatabase d x.sql with
    | none => rfl
    | some database =>
      obtain ⟨hbreak, hcommand, hdropped, hkeeps⟩ := h p x hprefix s hs database hdefault
      have hline : '\n' ∉ (Fed.use database).text.toList := by
        simpa [Fed.text] using hbreak
      rw [Option.map_some, Option.getD_some, commandLines_of_not_mem hline]
      simp only [ExecuteEngine.repl, Option.bind_fun_some, ExecuteEngine.executeCommand, hcommand,
        ExecuteEngine.execute, hdropped, ExecuteEngine.executeUseDatabase]
      obtain hnone | rfl := hkeeps
      · simp [hnone]
      · simp
  have hmeets : ∀ p x, p ++ [x] <+: l →
      ExecuteEngine.names parse (replayed d p) = ExecuteEngine.names parse (oneByOne p) →
      ExecuteEngine.names parse (replayed d p ++ injected d x) =
        ExecuteEngine.names parse (oneByOne p) := by
    intro p x hprefix hp
    unfold ExecuteEngine.names at hp ⊢
    rw [ExecuteEngine.repl_append, hp]
    cases hs : ExecuteEngine.repl parse ⟨(), fun _ _ => ()⟩ {} (oneByOne p) with
    | none => rfl
    | some s => exact hinjected p x hprefix s hs
  -- so the two ways lead to the same engine
  have hsame : ∀ p, p <+: l →
      ExecuteEngine.names parse (replayed d p) = ExecuteEngine.names parse (oneByOne p) := by
    intro p
    induction p using List.reverseRecOn with
    | nil =>
      intro _
      rw [oneByOne_nil, replayed_nil]
    | append_singleton p x ih =>
      intro hprefix
      have hp := hmeets p x hprefix (ih ((List.prefix_append p [x]).trans hprefix))
      unfold ExecuteEngine.names at hp ⊢
      rw [oneByOne_append, replayed_append, ExecuteEngine.repl_append, hp,
        ← ExecuteEngine.repl_append]
  intro p x hprefix
  rw [hmeets p x hprefix (hsame p ((List.prefix_append p [x]).trans hprefix))]

/-- A parser for the statements below. -/
def parseExample (sql : String) : Option SyntaxNode :=
  if sql.toList.head? = some 'u' then if sql = "use dist;" then some (.useDB "dist") else none
  else if sql = "create database dist;" then some (.createDB "dist")
  else if sql = "create table t(a int);" then some (.ddl sql)
  else none

theorem use_of_parseExample : UseIsUse parseExample (some "dist") := by
  intro database hdatabase
  obtain rfl := Option.some.inj hdatabase
  refine ⟨by decide +kernel, fun ast hast => ⟨"dist", ?_⟩⟩
  have hcommand : ExecuteEngine.command parseExample (Fed.use "dist").text =
      some (.useDB "dist") := by decide +kernel
  exact Option.some.inj (hast.symm.trans hcommand)

/-- A statement with its request. -/
def statement (requestId sql : String) : Stmt where
  requestId := some requestId
  shardId := -1
  sql := sql

/-- The default database is made current before a table is created. -/
def useFirst : List Stmt :=
  [statement "a" "create database dist", statement "b" "use dist",
    statement "c" "create table t(a int)"]

/-- The prefixes of the example's list. -/
theorem useFirst_prefix {p : List Stmt} {x : Stmt} (h : p ++ [x] <+: useFirst) :
    (p = [] ∧ x = statement "a" "create database dist") ∨
      (p = [statement "a" "create database dist"] ∧ x = statement "b" "use dist") ∨
      (p = [statement "a" "create database dist", statement "b" "use dist"] ∧
        x = statement "c" "create table t(a int)") := by
  obtain ⟨rest, hrest⟩ := h
  match p with
  | [] => exact Or.inl ⟨rfl, (List.cons.inj hrest).1⟩
  | [a] =>
    obtain ⟨rfl, htail⟩ := List.cons.inj hrest
    exact Or.inr (Or.inl ⟨rfl, (List.cons.inj htail).1⟩)
  | [a, b] =>
    obtain ⟨rfl, htail⟩ := List.cons.inj hrest
    obtain ⟨rfl, hlast⟩ := List.cons.inj htail
    exact Or.inr (Or.inr ⟨rfl, (List.cons.inj hlast).1⟩)
  | a :: b :: c :: p => simp [useFirst] at hrest

/-- The example: it begins with its own `use`, so the one put in front does no harm. -/
theorem sameEffects_useFirst : SameEffects parseExample (some "dist") useFirst := by
  refine sameEffects_of_default_current fun p x hprefix s hs database hdefault => ?_
  obtain rfl : "dist" = database := Option.some.inj (maybeUseDefaultDatabase_eq hdefault)
  obtain ⟨rfl, rfl⟩ | ⟨rfl, rfl⟩ | ⟨rfl, rfl⟩ := useFirst_prefix hprefix
  · exact absurd hdefault (by decide +kernel)
  · exact absurd hdefault (by decide +kernel)
  · have hcurrent : (ExecuteEngine.names parseExample (oneByOne
        [statement "a" "create database dist", statement "b" "use dist"])).map
          (fun s => (s.dropped, s.currentDb)) = some (false, "dist") := by
      decide +kernel
    rw [hs, Option.map_some] at hcurrent
    obtain ⟨hdropped, hdist⟩ := Prod.mk.inj (Option.some.inj hcurrent)
    exact ⟨by decide +kernel, by decide +kernel, hdropped, Or.inr hdist⟩

/-- With a `use` of its own the list has the same effect on both ways. -/
theorem replay_same_tables_use_first :
    ((({ defaultDatabase := some "dist" } : MiniSqlEngine).resetAndReplay [] 0 0).1.executeAll
        useFirst).tables parseExample ExecuteEngine.statements =
      (({ defaultDatabase := some "dist" } : MiniSqlEngine).resetAndReplay useFirst 0 0).1.tables
        parseExample ExecuteEngine.statements :=
  (replay_same_tables_iff (some "dist") use_of_parseExample useFirst 0 0).mpr
    sameEffects_useFirst _ _ useFirst (List.prefix_refl _)

/-- Without it the table is only there after a replay. -/
theorem create_table_only_in_replay :
    ((({ defaultDatabase := some "dist" } : MiniSqlEngine).resetAndReplay [] 0 0).1.executeAll
        [statement "a" "create database dist", statement "b" "create table t(a int)"]).tables
        parseExample ExecuteEngine.statements ≠
      (({ defaultDatabase := some "dist" } : MiniSqlEngine).resetAndReplay
        [statement "a" "create database dist", statement "b" "create table t(a int)"]
          0 0).1.tables parseExample ExecuteEngine.statements := by
  intro h
  have hdist := congrArg (Option.map (fun dbs => dbs "dist")) h
  revert hdist
  decide +kernel

end Effects

end DisMiniSql.Distributed.MiniSqlEngine
