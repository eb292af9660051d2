import DisMiniSql.MiniSql.Executor.DatabaseMap

/-!
# `DisMiniSql.Proofs.Executor.DatabaseMap`: the current database is one of `dbs_`

In a `Valid` engine `dbs_[current_db_]` finds a database wherever `current_db_` is not empty, so the
lookup changes nothing (`onCurrent_of_isSome`). Two statements break this. `ExecuteDropDatabase`
leaves `current_db_` as it is, and every statement after it follows a null pointer. `ExecuteQuit`
does not look whether `current_db_` is empty. `current_db_valid_iff` says that a run is valid
throughout exactly when it has none of the two.
-/

set_option autoImplicit false

namespace DisMiniSql.MiniSql.PointerEngine

open Lib (Guarded)

variable {τ : Type} {db : DBStorageEngine τ} {s : PointerEngine τ} {name : String}

/-! ### `dbs_[name]` -/

/-- In a valid engine a key is the key of a database. -/
theorem Valid.isSome (h : s.Valid) (hkey : (s.dbs name).isSome) :
    ∃ d, s.dbs name = some (some d) := by
  obtain ⟨p, hp⟩ := Option.isSome_iff_exists.mp hkey
  cases p with
  | none => exact absurd hp (h.entries name)
  | some d => exact ⟨d, hp⟩

/-- The lookup of a database changes nothing. -/
theorem onCurrent_of_eq_some {d : τ} (h : s.dbs s.currentDb = some (some d))
    (k : τ → PointerEngine τ → Process τ) : s.onCurrent k = k d s := by
  simp [onCurrent, subscript, h]

/-- The lookup of a name that is no key finds a null pointer. -/
theorem onCurrent_of_eq_none (h : s.dbs s.currentDb = none)
    (k : τ → PointerEngine τ → Process τ) : s.onCurrent k = .nullEntry := by
  simp [onCurrent, subscript, h]

/-! ### The statements keep a valid engine -/

/-- A fresh process has no current database. -/
theorem valid_start (files : String → Option τ) : (start files).Valid where
  current := .inl rfl
  entries name := by cases h : files name <;> simp [start, h]

/-- `create database` keeps the invariant: the new engine is in the map under its name, and the
current database still is. -/
theorem Valid.executeCreateDatabase (h : s.Valid) : (s.executeCreateDatabase db name).Valid := by
  unfold PointerEngine.executeCreateDatabase
  by_cases hkey : (s.dbs name).isSome
  · simpa [hkey] using h
  · rw [if_neg hkey]
    constructor
    · apply h.current.imp_right
      intro hcurrent
      by_cases heq : s.currentDb = name
      · simp [heq]
      · simpa [heq] using hcurrent
    · intro other
      by_cases heq : other = name
      · simp [heq]
      · simpa [heq] using h.entries other

/-- `DROP DATABASE` of another database. -/
theorem Valid.executeDropDatabase (h : s.Valid) (hother : s.currentDb = "" ∨ name ≠ s.currentDb) :
    (s.executeDropDatabase name).Valid := by
  unfold PointerEngine.executeDropDatabase
  cases hkey : s.dbs name with
  | none => simpa using h
  | some p =>
    have hsame : (s.subscript name).2 = s := by simp [subscript, hkey]
    rw [hsame]
    constructor
    · rcases hother with hempty | hne
      · exact .inl hempty
      · apply h.current.imp_right
        intro hcurrent
        simpa [Ne.symm hne] using hcurrent
    · intro other
      by_cases heq : other = name
      · simp [heq]
      · simpa [heq] using h.entries other

/-- After a `DROP DATABASE` of the current one, its name is no key. -/
theorem dbs_executeDropDatabase (s : PointerEngine τ) (name : String) :
    (s.executeDropDatabase name).dbs name = none := by
  unfold PointerEngine.executeDropDatabase
  cases hkey : s.dbs name with
  | none => simpa using hkey
  | some p => simp

/-- `use` chooses only a database of the map. -/
theorem Valid.executeUseDatabase (h : s.Valid) : (s.executeUseDatabase name).Valid := by
  unfold PointerEngine.executeUseDatabase
  by_cases hkey : (s.dbs name).isSome
  · rw [if_pos hkey]
    exact ⟨.inr hkey, h.entries⟩
  · rwa [if_neg hkey]

/-- A statement writes the catalog of the current database back. -/
theorem Valid.store (h : s.Valid) (d : τ) : (s.store d).Valid where
  current := .inr (by simp [PointerEngine.store])
  entries other := by
    by_cases heq : other = s.currentDb
    · simp [PointerEngine.store, heq]
    · simpa [PointerEngine.store, heq] using h.entries other

/-- A statement on the catalog keeps the invariant, also where it refuses for want of a database. -/
theorem Valid.executeOnCatalog (h : s.Valid) (f : τ → τ) : (s.executeOnCatalog f).Valid := by
  unfold PointerEngine.executeOnCatalog
  by_cases hempty : s.currentDb = ""
  · rw [if_pos hempty]
    exact h
  · obtain ⟨d, hd⟩ := h.isSome (h.current.resolve_left hempty)
    rw [if_neg hempty, onCurrent_of_eq_some hd]
    exact h.store (f d)

/-- So does a planned statement, which runs in the context taken at its start. -/
theorem Valid.executePlan (h : s.Valid) (context : Option τ) (f : τ → τ) :
    (PointerEngine.executePlan context s f).Valid := by
  cases context with
  | none => trivial
  | some d => exact h.store (f d)

variable {ast : Statement}

/-- A careful statement, by its kind. -/
theorem Valid.dispatch (h : s.Valid) (context : Option τ) (hast : s.Careful ast) :
    (s.dispatch db context ast).Valid := by
  cases ast with
  | nothing => exact h
  | createDB name => exact h.executeCreateDatabase
  | dropDB name => exact h.executeDropDatabase hast
  | useDB name => exact h.executeUseDatabase
  | showDB => exact h
  | showTables => exact h.executeOnCatalog id
  | showIndexes => exact h.executeOnCatalog id
  | ddl sql => exact h.executeOnCatalog (db.apply sql)
  | trx => exact h
  | execFile => exact h
  | quit =>
    obtain ⟨d, hd⟩ := h.isSome hast
    show (s.onCurrent _).Valid
    rw [onCurrent_of_eq_some hd]
    trivial
  | select => exact h.executePlan context id
  | dml sql => exact h.executePlan context (db.apply sql)

/-- In a valid engine, `Execute` comes to its `switch`, with the engine as it is. -/
theorem Valid.execute_eq (h : s.Valid) (db : DBStorageEngine τ) (hast : ast ≠ .nothing) :
    ∃ context, (s.currentDb = "" ∧ context = none ∨
      s.currentDb ≠ "" ∧ (s.dbs s.currentDb) = some context) ∧
      s.execute db ast = s.dispatch db context ast := by
  unfold PointerEngine.execute
  rw [if_neg hast]
  by_cases hempty : s.currentDb = ""
  · exact ⟨none, .inl ⟨hempty, rfl⟩, if_pos hempty⟩
  · obtain ⟨d, hd⟩ := h.isSome (h.current.resolve_left hempty)
    rw [if_neg hempty, onCurrent_of_eq_some hd]
    exact ⟨some d, .inr ⟨hempty, hd⟩, rfl⟩

/-- One case for each statement; of `drop database` the condition says that it is not the current
one, or that nothing is asked of the state afterwards. -/
theorem Valid.execute (h : s.Valid) (hast : s.Careful ast) :
    (s.execute db ast).Valid := by
  by_cases hnothing : ast = .nothing
  · unfold PointerEngine.execute
    rw [if_pos hnothing]
    exact h
  · obtain ⟨context, -, heq⟩ := h.execute_eq db hnothing
    rw [heq]
    exact h.dispatch context hast

/-- A statement that is not careful follows a null pointer or leaves one to be followed. -/
theorem Valid.careful (h : s.Valid) (hafter : (s.execute db ast).Valid) :
    s.Careful ast := by
  cases ast with
  | dropDB name =>
    obtain ⟨context, -, heq⟩ := h.execute_eq db (show Statement.dropDB name ≠ .nothing by simp)
    rw [heq] at hafter
    have hcurrent : (s.executeDropDatabase name).currentDb = s.currentDb := by
      unfold PointerEngine.executeDropDatabase
      split <;> rfl
    have hvalid : (s.executeDropDatabase name).currentDb = "" ∨
        ((s.executeDropDatabase name).dbs (s.executeDropDatabase name).currentDb).isSome :=
      hafter.current
    rw [hcurrent] at hvalid
    apply hvalid.imp_right
    rintro hkey rfl
    simp [dbs_executeDropDatabase] at hkey
  | quit =>
    obtain ⟨context, -, heq⟩ := h.execute_eq db (show Statement.quit ≠ .nothing by simp)
    rw [heq] at hafter
    show (s.dbs s.currentDb).isSome
    cases hkey : s.dbs s.currentDb with
    | none =>
      have hnull : (s.onCurrent fun _ _ => .ended).Valid := hafter
      rw [onCurrent_of_eq_none hkey] at hnull
      exact hnull.elim
    | some p => rfl
  | _ => trivial

/-! ### The runs -/

/-- A step of the process keeps the invariant. -/
theorem Process.Valid.step {p : Process τ} (h : p.Valid) (hast : p.Careful ast) :
    (p.step db ast).Valid := by
  cases p with
  | running s => exact PointerEngine.Valid.execute h hast
  | ended => trivial
  | nullEntry => exact h.elim

/-- And a step that keeps it was careful. -/
theorem Process.Valid.careful {p : Process τ} (h : p.Valid) (hafter : (p.step db ast).Valid) :
    p.Careful ast := by
  cases p with
  | running s => exact PointerEngine.Valid.careful h hafter
  | ended => trivial
  | nullEntry => exact h.elim

mutual

/-- A command is the run of the calls of `Execute` that it makes. -/
theorem Process.run_eq_foldl (p : Process τ) :
    (command : Command) → p.run db command = command.calls.foldl (Process.step db) p
  | .statement ast => by simp [Process.run, Command.calls]
  | .execFile file => by
    simp [Process.run, Command.calls, Process.runAll_eq_foldl (p.step db .execFile) file]

/-- The same for commands one after another. -/
theorem Process.runAll_eq_foldl (p : Process τ) : (commands : List Command) →
    Process.runAll db p commands = (Command.callsAll commands).foldl (Process.step db) p
  | [] => by simp [Process.runAll, Command.callsAll]
  | command :: commands => by
    simp [Process.runAll, Command.callsAll, List.foldl_append, Process.run_eq_foldl p command,
      Process.runAll_eq_foldl _ commands]

end

/-- For every directory of databases and all commands, with files that execute files: the engine is
valid before the first call of `Execute` and after each one, and no call follows a null pointer,
exactly if no call drops the current database and none quits while `current_db_` is no key. -/
theorem current_db_valid_iff (db : DBStorageEngine τ) (files : String → Option τ)
    (commands : List Command) :
    (∀ n, (((Command.callsAll commands).take n).foldl (Process.step db)
        (.running (start files))).Valid) ↔
      Guarded Process.Careful (Process.step db) (.running (start files))
        (Command.callsAll commands) :=
  Guarded.iff_forall_take_of (J := Process.Valid) (fun _ h => h) (fun _ _ h hast => h.step hast)
    (fun _ _ h hafter => h.careful hafter) _ _ (valid_start files)

/-- `quit;` without a database puts a null pointer into `dbs_` and follows it. -/
theorem quit_nullEntry (db : DBStorageEngine τ) :
    [.quit].foldl (Process.step db) (.running (start fun _ => none)) = .nullEntry := by
  simp [Process.step, execute, dispatch, executeQuit, onCurrent, subscript, start]

/-- So does every statement after the current database was dropped. -/
theorem drop_nullEntry (db : DBStorageEngine τ) :
    [.createDB "a", .useDB "a", .dropDB "a", .showDB].foldl (Process.step db)
      (.running (start fun _ => none)) = .nullEntry := by
  simp [Process.step, execute, dispatch, executeCreateDatabase, executeUseDatabase,
    executeDropDatabase, onCurrent, subscript, start]

/-- Both runs of an engine without databases are not valid. -/
theorem current_db_not_valid :
    let db : DBStorageEngine Unit := ⟨(), fun _ => id⟩
    (¬ ∀ n, ((([.quit] : List Statement).take n).foldl (Process.step db)
      (.running (start fun _ => none))).Valid) ∧
    ¬ ∀ n, ((([.createDB "a", .useDB "a", .dropDB "a", .showDB] : List Statement).take n).foldl
      (Process.step db) (.running (start fun _ => none))).Valid := by
  intro db
  constructor
  · intro hall
    have hvalid := hall 1
    rw [List.take_of_length_le (by simp), quit_nullEntry] at hvalid
    exact hvalid
  · intro hall
    have hvalid := hall 4
    rw [List.take_of_length_le (by simp), drop_nullEntry] at hvalid
    exact hvalid

/-! ### The engine without pointers -/

/-- Writing the catalog back is the change of the current database in the simpler engine. -/
theorem toEngine_store (s : PointerEngine τ) {d : τ} (h : s.dbs s.currentDb = some (some d))
    (f : τ → τ) : (s.store (f d)).toEngine = s.toEngine.onCurrent f := by
  simp only [toEngine, store, ExecuteEngine.onCurrent, ExecuteEngine.mk.injEq, and_true]
  funext other
  by_cases heq : other = s.currentDb
  · simp [heq, h]
  · simp [heq]

/-- A key of a valid engine is a database. -/
theorem Valid.isSome_toEngine (h : s.Valid) (name : String) :
    (s.toEngine.dbs name).isSome = (s.dbs name).isSome := by
  show (s.dbs name).join.isSome = _
  cases hkey : s.dbs name with
  | none => rfl
  | some p =>
    have hsome : (s.dbs name).isSome := by simp [hkey]
    obtain ⟨d, hd⟩ := h.isSome hsome
    simp [← hkey, hd]

/-- `create database` in both engines. -/
theorem Valid.toEngine_createDatabase (h : s.Valid) :
    (s.executeCreateDatabase db name).toEngine = s.toEngine.executeCreateDatabase db name := by
  unfold PointerEngine.executeCreateDatabase ExecuteEngine.executeCreateDatabase
  rw [h.isSome_toEngine]
  split
  · rfl
  · simp only [toEngine, ExecuteEngine.mk.injEq, and_true]
    funext other
    by_cases heq : other = name <;> simp [heq]

/-- `drop database` in both engines. -/
theorem Valid.toEngine_dropDatabase (h : s.Valid) :
    (s.executeDropDatabase name).toEngine = s.toEngine.executeDropDatabase name := by
  unfold PointerEngine.executeDropDatabase ExecuteEngine.executeDropDatabase
  rw [← Option.not_isSome, ← Option.not_isSome, h.isSome_toEngine]
  cases hkey : s.dbs name with
  | none => rfl
  | some p =>
    simp only [subscript, hkey, toEngine, Option.isSome_some, Bool.not_true, Bool.false_eq_true,
      ↓reduceIte, ExecuteEngine.mk.injEq, and_true]
    funext other
    by_cases heq : other = name <;> simp [heq]

/-- `use` in both engines. -/
theorem Valid.toEngine_useDatabase (h : s.Valid) :
    (s.executeUseDatabase name).toEngine = s.toEngine.executeUseDatabase name := by
  unfold PointerEngine.executeUseDatabase ExecuteEngine.executeUseDatabase
  rw [h.isSome_toEngine]
  split <;> rfl

/-- A statement on the catalog in both engines. -/
theorem Valid.toEngine_onCatalog (h : s.Valid) (f : τ → τ) :
    (s.executeOnCatalog f).toEngine =
      some (if s.currentDb = "" then s.toEngine else s.toEngine.onCurrent f) := by
  unfold PointerEngine.executeOnCatalog
  by_cases hempty : s.currentDb = ""
  · simp [hempty, Process.toEngine]
  · obtain ⟨d, hd⟩ := h.isSome (h.current.resolve_left hempty)
    rw [if_neg hempty, if_neg hempty, onCurrent_of_eq_some hd, ← toEngine_store s hd f]
    rfl

/-- Changing the current database by nothing changes nothing. -/
theorem toEngine_onCurrent_id (s : ExecuteEngine τ) : s.onCurrent id = s := by
  simp [ExecuteEngine.onCurrent]

/-- A statement on a valid engine does what it does without pointers. -/
theorem Valid.toEngine_execute (h : s.Valid) {ast : Statement} {node : SyntaxNode}
    (hast : ast.ast = some node) :
    (s.execute db ast).toEngine = s.toEngine.execute db node := by
  have hnothing : ast ≠ .nothing := by
    rintro rfl
    cases hast
  obtain ⟨context, hcontext, heq⟩ := h.execute_eq db hnothing
  have hdropped : s.toEngine.dropped = false := by
    have hcurrent := h.current
    rw [← h.isSome_toEngine] at hcurrent
    have hpresent : s.currentDb ≠ "" → (s.toEngine.dbs s.currentDb).isNone = false := by
      intro hne
      simpa using hcurrent.resolve_left hne
    simpa [ExecuteEngine.dropped, toEngine] using hpresent
  -- the statements that a planner runs need a context
  have hplan (f : τ → τ) :
      (PointerEngine.executePlan context s f).toEngine = s.toEngine.executePlan f := by
    rcases hcontext with ⟨hempty, rfl⟩ | ⟨hne, hd⟩
    · simp [PointerEngine.executePlan, ExecuteEngine.executePlan, toEngine, hempty,
        Process.toEngine]
    · cases context with
      | none => exact absurd hd (h.entries _)
      | some d =>
        have hstore := toEngine_store s hd f
        have hne' : s.toEngine.currentDb ≠ "" := hne
        simp [PointerEngine.executePlan, ExecuteEngine.executePlan, Process.toEngine, hstore, hne']
  rw [heq]
  unfold ExecuteEngine.execute
  rw [hdropped, if_neg (by simp)]
  cases ast with
  | nothing => cases hast
  | execFile => cases hast
  | createDB name =>
    cases hast
    exact congrArg some h.toEngine_createDatabase
  | dropDB name =>
    cases hast
    exact congrArg some h.toEngine_dropDatabase
  | useDB name =>
    cases hast
    exact congrArg some h.toEngine_useDatabase
  | showDB =>
    cases hast
    rfl
  | showTables =>
    cases hast
    have hcatalog := h.toEngine_onCatalog id
    rw [toEngine_onCurrent_id, ite_self] at hcatalog
    exact hcatalog
  | showIndexes =>
    cases hast
    have hcatalog := h.toEngine_onCatalog id
    rw [toEngine_onCurrent_id, ite_self] at hcatalog
    exact hcatalog
  | ddl sql =>
    cases hast
    exact h.toEngine_onCatalog (db.apply sql)
  | trx =>
    cases hast
    rfl
  | quit =>
    cases hast
    show (s.onCurrent _).toEngine = none
    rw [onCurrent]
    split <;> rfl
  | select =>
    cases hast
    exact hplan id
  | dml sql =>
    cases hast
    exact hplan (db.apply sql)

end DisMiniSql.MiniSql.PointerEngine
