import Mathlib.Data.List.Nodup
import DisMiniSql.Proofs.Recovery.RecoveryManager
import DisMiniSql.Proofs.Recovery.ReverseReplay

/-!
# `DisMiniSql.Proofs.Recovery.Lives`: one process after another

A process makes its records with the static counters of `LogRec`. It dies, the first records of its
log are on the disk, and `RecoveryManager` makes the database that the next process starts from.
The next process counts from 0 again.

`StrictLog.of_calls` is about one process: the counters give each record the number of the record
before it in its transaction. `next_lsn_` is an `int32_t`, so the process makes at most `2 ^ 31`
records (`LogCounters.HasRoom`). `crash_recovery` is about any number of them. `redo_of_checkpoints`
compares two checkpoints of one log.
-/

set_option autoImplicit false

namespace DisMiniSql.MiniSql.Recovery

open DisMiniSql.Lib

universe u v

variable {κ : Type u} {ν : Type v}

/-! ## The counters -/

/-- The first calls make the first records. -/
theorem LogCounters.createAll_take (c : LogCounters) (calls : List (TxnId × LogInfo κ ν))
    (n : Nat) :
    c.createAll (calls.take n) = (c.createAll calls).take n := by
  induction calls generalizing c n with
  | nil => rw [List.take_nil, createAll, List.take_nil]
  | cons call calls ih =>
    cases n with
    | zero => rfl
    | succ n =>
      show (c.create call.1 call.2).1 :: (c.create call.1 call.2).2.createAll (calls.take n) = _
      rw [ih]
      rfl

/-- The number after `lsn`, and the room after it. -/
theorem Lsn.succ_eq {lsn : Int} {n : Nat} (hnonneg : 0 ≤ lsn)
    (hle : lsn + ((n + 2 : Nat) : Int) ≤ 2 ^ 31) :
    Lsn.succ lsn = lsn + 1 ∧ 0 ≤ lsn + 1 ∧ lsn + 1 + ((n + 1 : Nat) : Int) ≤ 2 ^ 31 :=
  ⟨Int.bmod_eq_of_le (by omega) (by omega), by omega, by omega⟩

/-- So many records can be made before `next_lsn_` wraps. -/
def LogCounters.HasRoom (c : LogCounters) (n : Nat) : Prop := 0 ≤ c.nextLsn ∧ c.nextLsn + n ≤ 2 ^ 31

/-- The counter after a record, if another one is made. -/
theorem LogCounters.HasRoom.create {c : LogCounters} {n : Nat} (h : c.HasRoom (n + 2)) (t : TxnId)
    (info : LogInfo κ ν) :
    (c.create t info).2.nextLsn = c.nextLsn + 1 ∧ (c.create t info).2.HasRoom (n + 1) := by
  obtain ⟨hnext, hnonneg, hle⟩ := Lsn.succ_eq h.1 h.2
  have hnext : (c.create t info).2.nextLsn = c.nextLsn + 1 := hnext
  exact ⟨hnext, hnext ▸ hnonneg, hnext ▸ hle⟩

variable {calls : List (TxnId × LogInfo κ ν)}

/-- The numbers increase from the counter on. -/
theorem LogCounters.HasRoom.ordered {c : LogCounters} (h : c.HasRoom calls.length) :
    (∀ r ∈ c.createAll calls, c.nextLsn ≤ r.lsn) ∧
      (c.createAll calls).Pairwise fun r q => r.lsn < q.lsn := by
  induction calls generalizing c with
  | nil => exact ⟨fun r hr => absurd hr List.not_mem_nil, .nil⟩
  | cons call calls ih =>
    cases calls with
    | nil =>
      -- the counter may wrap after the last record, which nobody sees
      refine ⟨fun r hr => ?_, List.pairwise_singleton _ _⟩
      rw [List.mem_singleton.mp hr]
      exact le_refl c.nextLsn
    | cons second calls =>
      obtain ⟨hnext, hroom⟩ := HasRoom.create h call.1 call.2
      obtain ⟨hle, hordered⟩ := ih hroom
      have hlt : ∀ r ∈ (c.create call.1 call.2).2.createAll (second :: calls),
          c.nextLsn < r.lsn := by
        intro r hr
        have hr := hle r hr
        rw [hnext] at hr
        exact Int.add_one_le_iff.mp hr
      refine ⟨fun r hr => ?_, List.pairwise_cons.mpr ⟨hlt, hordered⟩⟩
      rcases List.mem_cons.mp hr with rfl | hr
      · exact le_refl c.nextLsn
      · exact le_of_lt (hlt r hr)

variable [DecidableEq κ]

/-! ## The log of a process -/

/-- One call of `CreateBeginLog`, `CreateInsertLog` or one of the others, at a moment when its
transaction may do what it logs. What the record names as the record before is not asked. -/
def Call (p : Exec κ ν × LogCounters) (call : TxnId × LogInfo κ ν) (p' : Exec κ ν × LogCounters) :
    Prop :=
  (∃ prevLsn, Step p.1 ⟨p.2.nextLsn, prevLsn, call.1, call.2⟩ p'.1) ∧
    p'.2 = (p.2.create call.1 call.2).2

/-- A step of the executor makes a call, with the counter's number for its record. -/
theorem Call.of_step {s s' : Exec κ ν} {c : LogCounters} {t : TxnId} {info : LogInfo κ ν}
    (prevLsn : Lsn) (h : Step s ⟨c.nextLsn, prevLsn, t, info⟩ s') :
    Call (s, c) (t, info) (s', (c.create t info).2) := ⟨⟨prevLsn, h⟩, rfl⟩

/-- `prev_lsn_map_` has the last record of every active transaction. -/
def LogCounters.Knows (c : LogCounters) (s : Exec κ ν) : Prop :=
  ∀ t a, s.active t = some a → c.prevLsnMap t = a.lastLsn

omit [DecidableEq κ] in
/-- The first counters know that nothing is open. -/
theorem LogCounters.knows_initial (data : KvDatabase κ ν) :
    LogCounters.initial.Knows (Exec.initial data) := fun _ _ h => nomatch h

variable {p : Exec κ ν × LogCounters}

/-- The record that a call makes names the record before it, and the counters know the record. -/
theorem LogCounters.Knows.call {p' : Exec κ ν × LogCounters} {call : TxnId × LogInfo κ ν}
    (h : p.2.Knows p.1) (hcall : Call p call p') :
    Step p.1 (p.2.create call.1 call.2).1 p'.1 ∧ p'.2.Knows p'.1 := by
  obtain ⟨s, c⟩ := p
  obtain ⟨s', c'⟩ := p'
  obtain ⟨t, info⟩ := call
  obtain ⟨⟨prevLsn, hstep⟩, rfl⟩ := hcall
  -- the transactions that do not log keep their last records
  have hothers (a : Option (ActiveTxn κ ν)) (d : KvDatabase κ ν)
      (ha : ∀ b, a = some b → b.lastLsn = c.nextLsn) :
      (c.create t info).2.Knows ⟨d, Function.update s.active t a⟩ := by
    intro u b hb
    show Function.update c.prevLsnMap t c.nextLsn u = b.lastLsn
    by_cases hu : u = t
    · subst hu
      simp only [Function.update_self] at hb ⊢
      exact (ha b hb).symm
    · simp only [Function.update_of_ne hu] at hb ⊢
      exact h u b hb
  have hprev : ∀ a, s.active t = some a → prevLsn = a.lastLsn → info ≠ .begin →
      (c.create t info).1 = ⟨c.nextLsn, prevLsn, t, info⟩ := by
    intro a ha hprev hne
    have hknown : c.prevLsnMap t = prevLsn := (h t a ha).trans hprev.symm
    cases info with
    | begin => exact absurd rfl hne
    | _ => simp only [create, hknown]
  cases hstep with
  | begin info_eq prev_eq inactive =>
    obtain rfl : info = .begin := info_eq
    exact ⟨.begin rfl rfl inactive, hothers _ _ (by rintro b ⟨⟩; rfl)⟩
  | @write a active prev_eq valid strict =>
    have hne : info ≠ .begin := fun heq => by
      subst heq
      exact valid
    rw [hprev a active prev_eq hne]
    exact ⟨.write active prev_eq valid strict, hothers _ _ (by rintro b ⟨⟩; rfl)⟩
  | @commit a info_eq active prev_eq =>
    have hne : info ≠ .begin := fun heq => by
      subst heq
      cases info_eq
    rw [hprev a active prev_eq hne]
    exact ⟨.commit info_eq active prev_eq, hothers _ _ fun b hb => nomatch hb⟩
  | @abort a info_eq active prev_eq =>
    have hne : info ≠ .begin := fun heq => by
      subst heq
      cases info_eq
    rw [hprev a active prev_eq hne]
    exact ⟨.abort info_eq active prev_eq, hothers _ _ fun b hb => nomatch hb⟩

/-- The records of a run of calls are a run of the transaction system. -/
theorem LogCounters.Knows.run {p' : Exec κ ν × LogCounters} (h : p.2.Knows p.1)
    (hrun : Steps Call p calls p') :
    Steps Step p.1 (p.2.createAll calls) p'.1 := by
  induction hrun with
  | nil p => exact .nil p.1
  | @cons p p₁ p' call calls hcall _ ih =>
    obtain ⟨hstep, hknows⟩ := h.call hcall
    have hrest := ih hknows
    rw [hcall.2] at hrest
    exact .cons hstep hrest

/-- Whatever the transactions of a process do, what it has written to the disk is a strict log. -/
theorem StrictLog.of_calls {data : KvDatabase κ ν}
    (hroom : LogCounters.initial.HasRoom calls.length)
    (hrun : Steps Call (Exec.initial data, LogCounters.initial) calls p) (n : Nat) :
    StrictLog data ((LogCounters.initial.createAll calls).take n) where
  run := by
    obtain ⟨p', hfirst⟩ := hrun.take n
    rw [← LogCounters.createAll_take]
    exact ⟨p'.1, (LogCounters.knows_initial data).run hfirst⟩
  ordered := hroom.ordered.2.sublist (List.take_sublist n _)

/-! ## Processes and their recovery -/

/-- What a process leaves. -/
structure Life (κ : Type u) (ν : Type v) where
  calls : List (TxnId × LogInfo κ ν)
  /-- The number of records that are on the disk. -/
  flushed : Nat
  lastCheckpoint : CheckPoint κ ν

namespace Life

omit [DecidableEq κ] in
/-- The log on the disk. -/
def log (l : Life κ ν) : List (LogRec κ ν) :=
  (LogCounters.initial.createAll l.calls).take l.flushed

/-- The process may make these calls on the database `data`, no more of them than there are numbers
for their records, and its checkpoint belongs to a record of the log on the disk. -/
def Runs (l : Life κ ν) (data : KvDatabase κ ν) : Prop :=
  (∃ p, Steps Call (Exec.initial data, LogCounters.initial) l.calls p) ∧
    LogCounters.initial.HasRoom l.calls.length ∧ l.lastCheckpoint.TakenIn data l.log

variable [DecidableEq ν] [Inhabited ν]

/-- `Init`, `AppendLogRec` for the log on the disk and `RedoPhase`. -/
def redo (l : Life κ ν) : Option (RecoveryManager κ ν) :=
  ((RecoveryManager.new.init l.lastCheckpoint).appendLogRecs l.log).redoPhase

/-- The process `l` runs on `data` and dies, and the recovery gives `data'`. -/
def Crash (data : KvDatabase κ ν) (l : Life κ ν) (data' : KvDatabase κ ν) : Prop :=
  l.Runs data ∧ ∃ m entries m', l.redo = some m ∧ entries.Perm m.unendedTxn ∧
    m.undoPhase entries = some m' ∧ m'.data = data'

end Life

variable [DecidableEq ν] [Inhabited ν]

namespace Life

/-- The recovery after one process. -/
theorem Runs.recovers {l : Life κ ν} {data : KvDatabase κ ν} (h : l.Runs data) :
    ∃ m, l.redo = some m ∧ ∀ entries, entries.Perm m.unendedTxn →
      ∃ m', m.undoPhase entries = some m' ∧ m'.data = committedOnly l.log data := by
  obtain ⟨⟨p, hrun⟩, hroom, hcheckpoint⟩ := h
  exact (StrictLog.of_calls hroom hrun l.flushed).recovers hcheckpoint

/-- After a crash the data are those of the committed transactions. -/
theorem Crash.data_eq {l : Life κ ν} {data data' : KvDatabase κ ν} (h : Crash data l data') :
    data' = committedOnly l.log data := by
  obtain ⟨hruns, m, entries, m', hredo, hperm, hundo, rfl⟩ := h
  obtain ⟨m₁, hredo₁, hall⟩ := hruns.recovers
  obtain rfl : m = m₁ := Option.some.inj (hredo.symm.trans hredo₁)
  obtain ⟨m₂, hundo₂, hdata⟩ := hall entries hperm
  obtain rfl : m' = m₂ := Option.some.inj (hundo.symm.trans hundo₂)
  exact hdata

/-- After any number of processes, each of which died with a part of its log on the disk, the
database has the operations of the transactions whose commit is on the disk, process after process,
and no other; and the recovery after one more process ends, whatever its transactions did. -/
theorem crash_recovery {data d : KvDatabase κ ν} {lives : List (Life κ ν)}
    (hrun : Steps Crash data lives d) :
    d = lives.foldl (fun d l => committedOnly l.log d) data ∧
      ∀ l : Life κ ν, l.Runs d → ∃ m, l.redo = some m ∧ ∀ entries, entries.Perm m.unendedTxn →
        ∃ m', m.undoPhase entries = some m' ∧
          m'.data = (lives ++ [l]).foldl (fun d l => committedOnly l.log d) data := by
  have hdata : d = lives.foldl (fun d l => committedOnly l.log d) data := by
    induction hrun with
    | nil data => rfl
    | cons hcrash _ ih =>
      rw [List.foldl_cons, ← hcrash.data_eq]
      exact ih
  refine ⟨hdata, fun l hl => ?_⟩
  rw [List.foldl_append, ← hdata]
  exact hl.recovers

/-! ### Two processes -/

/-- Transaction 0 writes `A` and commits. The commit of transaction 1 does not get to the disk. -/
def first : Life String Int where
  calls := [(0, .begin), (0, .insert "A" 1), (0, .commit), (1, .begin), (1, .insert "B" 2),
    (1, .commit)]
  flushed := 5
  lastCheckpoint := ⟨0, [(0, 0)], fun _ => none⟩

/-- The database that is recovered from it. -/
def recovered : KvDatabase String Int := committedOnly first.log fun _ => none

/-- The next process changes `A`. -/
def second : Life String Int where
  calls := [(0, .begin), (0, .update "A" 1 "A" 3), (0, .commit)]
  flushed := 3
  lastCheckpoint := ⟨0, [(0, 0)], recovered⟩

/-- A checkpoint right after the first record. -/
theorem takenIn_begin (data : KvDatabase String Int) (after : List (LogRec String Int)) :
    CheckPoint.TakenIn ⟨0, [(0, 0)], data⟩ data (⟨0, invalidLsn, 0, .begin⟩ :: after) := by
  refine ⟨[], ⟨0, invalidLsn, 0, .begin⟩, after, _, rfl, rfl, .cons (.begin rfl rfl rfl) (.nil _),
    rfl, ?_⟩
  rw [TxnSystem.lastLsns_update]
  exact Entries.empty.assign 0 0

/-- The first life of the example. -/
theorem runs_first : first.Runs fun _ => none := by
  refine ⟨⟨_, .cons (.of_step (-1) (.begin rfl rfl rfl)) (.cons (.of_step 0 (.write rfl rfl rfl ?_))
    (.cons (.of_step 1 (.commit rfl rfl rfl)) (.cons (.of_step (-1) (.begin rfl rfl ?_))
      (.cons (.of_step 3 (.write rfl rfl rfl ?_)) (.cons (.of_step 4 (.commit rfl rfl rfl))
        (.nil _))))))⟩, ⟨by decide, by decide⟩, takenIn_begin _ _⟩
  · intro t b ht hb
    exact absurd (hb.symm.trans (Function.update_of_ne ht _ _)) (by simp [Exec.initial])
  · rfl
  · intro t b ht hb
    have hb' := (Function.update_of_ne ht _ _).symm.trans hb
    -- transaction 0 has ended
    by_cases h0 : t = 0
    · subst h0
      cases hb'
    · have hnone := (Function.update_of_ne h0 _ _).symm.trans hb'
      have hnone' := (Function.update_of_ne h0 _ _).symm.trans hnone
      exact absurd ((Function.update_of_ne h0 _ _).symm.trans hnone') (by simp [Exec.initial])

/-- And the second, on the data the first left. -/
theorem runs_second : second.Runs recovered := by
  refine ⟨⟨_, .cons (.of_step (-1) (.begin rfl rfl rfl))
    (.cons (.of_step 0 (.write rfl rfl ⟨rfl, .inl rfl⟩ ?_))
      (.cons (.of_step 1 (.commit rfl rfl rfl)) (.nil _)))⟩, ⟨by decide, by decide⟩,
    takenIn_begin _ _⟩
  intro t b ht hb
  exact absurd (hb.symm.trans (Function.update_of_ne ht _ _)) (by simp [Exec.initial])

/-- The second recovery has the value of the second process for `A`, and nothing for `B`. -/
theorem crash_recovery_two_processes :
    ∃ d, Steps Crash (fun _ => none) [first] d ∧ second.Runs d ∧
      ∃ m m', second.redo = some m ∧ m.undoPhase m.unendedTxn = some m' ∧
        m'.data "A" = some 3 ∧ m'.data "B" = none := by
  obtain ⟨m, hredo, hall⟩ := runs_first.recovers
  obtain ⟨m', hundo, hdata⟩ := hall m.unendedTxn (.refl _)
  have hrun : Steps Crash (fun _ => none) [first] recovered :=
    .cons ⟨runs_first, m, _, m', hredo, .refl _, hundo, hdata⟩ (.nil _)
  obtain ⟨m₂, hredo₂, hall₂⟩ := (crash_recovery hrun).2 second runs_second
  obtain ⟨m₂', hundo₂, hdata₂⟩ := hall₂ m₂.unendedTxn (.refl _)
  refine ⟨recovered, hrun, runs_second, m₂, m₂', hredo₂, hundo₂, ?_, ?_⟩
  · rw [hdata₂]
    decide
  · rw [hdata₂]
    decide

end Life

/-! ## Two checkpoints -/

omit [DecidableEq κ] [DecidableEq ν] [Inhabited ν] in
/-- Two lists of entries of the same transactions. -/
theorem Entries.perm_of_eq {entries entries' : List (TxnId × Lsn)} {last : TxnId → Option Lsn}
    (h : Entries entries last) (h' : Entries entries' last) : entries.Perm entries' := by
  refine (List.perm_ext_iff_of_nodup (List.Nodup.of_map _ h.nodup)
    (List.Nodup.of_map _ h'.nodup)).mpr ?_
  intro e
  exact (h.mem_iff e.1 e.2).trans (h'.mem_iff e.1 e.2).symm

omit [DecidableEq ν] [Inhabited ν] in
/-- `UndoPhase` reads the log and the data only. -/
theorem RecoveryManager.Follows.undoPhase_foldl {m : RecoveryManager κ ν} {log : List (LogRec κ ν)}
    {s : TxnSystem κ ν} (h : m.Follows log s) (hchained : s.Chained log)
    (hlog : log.Pairwise fun r q => r.lsn < q.lsn) {entries : List (TxnId × Lsn)}
    (hentries : Entries entries s.lastLsns) :
    ∃ m', m.undoPhase entries = some m' ∧
      m'.data =
        entries.foldl (fun d e => undoAll (((s.active e.1).map (·.ops)).getD []) d) s.data := by
  have hchains : ∀ e ∈ entries, Chain m.logRecs e.2 (((s.active e.1).map (·.ops)).getD []) ∧
      (((s.active e.1).map (·.ops)).getD []).length < m.logRecs.length := by
    intro e he
    obtain ⟨a, ha, hlsn⟩ := Option.map_eq_some_iff.mp ((hentries.mem_iff e.1 e.2).mp he)
    rw [h.logRecs_eq, ha, ← hlsn]
    exact hchained e.1 a ha
  refine ⟨_, undoPhase_of_chains entries m (by rwa [h.logRecs_eq]) hchains, ?_⟩
  rw [← h.data_eq]

/-- The checkpoint saves work and nothing else. From any two checkpoints of one log, whose
transactions may have written the same keys, `RedoPhase` comes to the same data and the same
unfinished transactions, and `UndoPhase` in the same order to the same data. -/
theorem redo_of_checkpoints {data : KvDatabase κ ν} {log : List (LogRec κ ν)}
    (hlog : WellFormedLog data log) {c₁ c₂ : CheckPoint κ ν} (h₁ : c₁.TakenIn data log)
    (h₂ : c₂.TakenIn data log) :
    ∃ m₁ m₂, ((RecoveryManager.new.init c₁).appendLogRecs log).redoPhase = some m₁ ∧
      ((RecoveryManager.new.init c₂).appendLogRecs log).redoPhase = some m₂ ∧
      m₁.data = m₂.data ∧ m₁.unendedTxn.Perm m₂.unendedTxn ∧
      ∀ entries, entries.Perm m₁.unendedTxn → ∃ m₁' m₂', m₁.undoPhase entries = some m₁' ∧
        m₂.undoPhase entries = some m₂' ∧ m₁'.data = m₂'.data := by
  obtain ⟨⟨s, hrun⟩, hordered⟩ := hlog
  obtain ⟨m₁, hm₁, hfollows₁, hchained⟩ := redoPhase_follows hrun hordered h₁
  obtain ⟨m₂, hm₂, hfollows₂, -⟩ := redoPhase_follows hrun hordered h₂
  refine ⟨m₁, m₂, hm₁, hm₂, hfollows₁.data_eq.trans hfollows₂.data_eq.symm,
    hfollows₁.entries.perm_of_eq hfollows₂.entries, fun entries hperm => ?_⟩
  have hentries := hfollows₁.entries.perm hperm
  obtain ⟨m₁', hundo₁, hdata₁⟩ := hfollows₁.undoPhase_foldl hchained hordered hentries
  obtain ⟨m₂', hundo₂, hdata₂⟩ := hfollows₂.undoPhase_foldl hchained hordered hentries
  exact ⟨m₁', m₂', hundo₁, hundo₂, hdata₁.trans hdata₂.symm⟩

/-- The checkpoint after transaction 0 has written `A`. -/
def laterCheckpoint : CheckPoint String Int where
  checkpointLsn := 2
  activeTxns := [(0, 2), (1, 1)]
  persistData := Function.update (fun _ => none) "A" (some 1)

/-- A checkpoint of the log in the middle of its conflicts. -/
theorem laterCheckpoint_takenIn : laterCheckpoint.TakenIn (fun _ => none) conflictLog := by
  refine ⟨conflictLog.take 2, ⟨2, 0, 0, .insert "A" 1⟩, conflictLog.drop 3, _, rfl, rfl,
    .cons (.begin rfl rfl rfl) (.cons (.begin rfl rfl rfl) (.cons (.write rfl rfl rfl) (.nil _))),
    rfl, ?_⟩
  have hactive :
      laterCheckpoint.activeTxns = assignTxn 0 2 (assignTxn 1 1 (assignTxn 0 0 [])) := by
    decide
  rw [hactive, TxnSystem.lastLsns_update]
  refine Entries.assign ?_ 0 2
  show Entries _ (TxnSystem.lastLsns ⟨_, Function.update _ _ _⟩)
  rw [TxnSystem.lastLsns_update]
  refine Entries.assign ?_ 1 1
  show Entries _ (TxnSystem.lastLsns ⟨_, Function.update _ _ _⟩)
  rw [TxnSystem.lastLsns_update]
  exact Entries.empty.assign 0 0

/-- Two transactions on one key. -/
theorem redo_of_checkpoints_conflict :
    ∃ m₁ m₂, ((RecoveryManager.new.init conflictCheckpoint).appendLogRecs conflictLog).redoPhase =
        some m₁ ∧
      ((RecoveryManager.new.init laterCheckpoint).appendLogRecs conflictLog).redoPhase = some m₂ ∧
      m₁.data = m₂.data ∧ m₁.unendedTxn.Perm m₂.unendedTxn := by
  obtain ⟨m₁, m₂, h₁, h₂, hdata, hperm, -⟩ := redo_of_checkpoints conflictLog_wellFormed
    conflictCheckpoint_takenIn laterCheckpoint_takenIn
  exact ⟨m₁, m₂, h₁, h₂, hdata, hperm⟩

end DisMiniSql.MiniSql.Recovery
