import Mathlib.Tactic.Choose
import DisMiniSql.Proofs.Recovery.StrictLog
import DisMiniSql.Proofs.Recovery.TxnSystem

/-!
# `DisMiniSql.Proofs.Recovery.RecoveryManager`: recovery keeps what was committed

On the state that a strict log describes, the operations of an active transaction taken back put its
keys back (`Restores`), because `undoRec` is the inverse of a valid operation and no other active
transaction touched these keys. So a strict run is a run of the transaction system
(`Exec.RestoredBy.run`), and `RedoPhase` repeats it.

`UndoPhase` then rolls back the active transactions. They work on disjoint keys, so the order of the
map does not matter. `recovery_keeps_committed` is the result for a checkpoint at any record of a
strict log.
-/

set_option autoImplicit false

namespace DisMiniSql.MiniSql.Recovery

open DisMiniSql.Lib

universe u v

variable {κ : Type u} {ν : Type v}

/-! ## Entries of transactions -/

/-- The entries are the active transactions with their last records. -/
structure Tracks (entries : List (TxnId × Lsn)) (active : TxnId → Option (ActiveTxn κ ν)) :
    Prop where
  nodup : (entries.map Prod.fst).Nodup
  mem_iff : ∀ t lsn, (t, lsn) ∈ entries ↔ ∃ a, active t = some a ∧ a.lastLsn = lsn

/-- The table of active transactions holds the last record of each. -/
theorem tracks_iff {entries : List (TxnId × Lsn)} {active : TxnId → Option (ActiveTxn κ ν)} :
    Tracks entries active ↔ Entries entries fun t => (active t).map ActiveTxn.lastLsn := by
  constructor
  · rintro ⟨hnodup, hmem⟩
    exact ⟨hnodup, fun t lsn => by rw [hmem, Option.map_eq_some_iff]⟩
  · rintro ⟨hnodup, hmem⟩
    exact ⟨hnodup, fun t lsn => by rw [hmem, Option.map_eq_some_iff]⟩

variable [DecidableEq κ]

open RecoveryManager (undoRec)

/-! ## Rollback -/

/-- The chain `ops` of an active transaction, taken back from the data `d`, puts its keys back. -/
structure Restores (log : List (LogRec κ ν)) (d : KvDatabase κ ν) (a : ActiveTxn κ ν)
    (ops : List (LogInfo κ ν)) : Prop where
  chain : Chain log a.lastLsn ops
  short : ops.length < log.length
  keys : ∀ op ∈ ops, ∀ k ∈ op.keys, k ∈ a.written
  undone : ∀ k ∈ a.written, undoAll ops d k = a.before k

namespace Restores

variable {log : List (LogRec κ ν)} {d : KvDatabase κ ν} {a : ActiveTxn κ ν}
  {ops : List (LogInfo κ ν)}

/-- The operations work on the keys of the transaction. -/
theorem undo_local (h : Restores log d a ops) : LocalOn {k | k ∈ a.written} (undoAll ops) :=
  undoAll_local h.keys

/-- Taking the operations back is the rollback. -/
theorem undoAll_eq (h : Restores log d a ops) : undoAll ops d = a.rollback d := by
  funext k
  by_cases hk : k ∈ a.written
  · rw [h.undone k hk, ActiveTxn.rollback, if_pos hk]
  · rw [h.undo_local.outside d k hk, ActiveTxn.rollback, if_neg hk]

/-- A record of another transaction that leaves the keys alone. -/
theorem append (h : Restores log d a ops) (r : LogRec κ ν) {e : KvDatabase κ ν}
    (he : ∀ k ∈ a.written, e k = d k) : Restores (log ++ [r]) e a ops where
  chain := h.chain.mono (List.subset_append_left log [r])
  short := by
    have := h.short
    simp only [List.length_append, List.length_singleton]
    omega
  keys := h.keys
  undone := fun k hk => (h.undo_local.inside e d he k hk).trans (h.undone k hk)

/-- One more operation of the transaction. -/
theorem write (h : Restores log d a ops) {r : LogRec κ ν} (hprev : r.prevLsn = a.lastLsn)
    (hvalid : r.info.Valid d) :
    Restores (log ++ [r]) (r.info.apply d) (a.write r d) (r.info :: ops) where
  chain := by
    have hne : r.info ≠ .begin := fun heq => by rw [heq] at hvalid; exact hvalid
    refine .write (List.mem_append_right log List.mem_cons_self) hne ?_
    rw [hprev]
    exact h.chain.mono (List.subset_append_left log [r])
  short := by
    have := h.short
    simp only [List.length_append, List.length_cons]
    omega
  keys := by
    intro op hop k hk
    rcases List.mem_cons.mp hop with rfl | hop'
    · exact List.mem_append_left a.written hk
    · exact List.mem_append_right r.info.keys (h.keys op hop' k hk)
  undone := by
    intro k _
    -- the last operation is taken back first
    show undoAll ops (undoRec r.info (r.info.apply d)) k = a.rollback d k
    rw [undoRec_apply hvalid, h.undoAll_eq]

end Restores

/-- Every active transaction can be taken back. -/
def Exec.Undoable (s : Exec κ ν) (log : List (LogRec κ ν)) : Prop :=
  ∀ t a, s.active t = some a → ∃ ops, Restores log s.data a ops

/-! ## Strict runs as runs of the transaction system -/

/-- The state with the operations `ops` of the active transactions. -/
def Exec.system (s : Exec κ ν) (ops : TxnId → List (LogInfo κ ν)) : TxnSystem κ ν where
  data := s.data
  active := fun t => (s.active t).map fun a => ⟨a.lastLsn, ops t⟩

omit [DecidableEq κ] in
/-- One transaction of the state changes. -/
theorem Exec.system_update (d : KvDatabase κ ν) (active : TxnId → Option (ActiveTxn κ ν))
    (ops : TxnId → List (LogInfo κ ν)) (t : TxnId) (a : Option (ActiveTxn κ ν))
    (l : List (LogInfo κ ν)) :
    Exec.system ⟨d, Function.update active t a⟩ (Function.update ops t l) =
      ⟨d, Function.update (Exec.system ⟨d, active⟩ ops).active t
        (a.map fun a => ⟨a.lastLsn, l⟩)⟩ := by
  simp only [Exec.system, TxnSystem.mk.injEq, true_and]
  funext u
  by_cases hu : u = t
  · subst hu
    simp
  · simp [hu]

/-- The operations `ops` take back every active transaction. -/
def Exec.RestoredBy (s : Exec κ ν) (log : List (LogRec κ ν)) (ops : TxnId → List (LogInfo κ ν)) :
    Prop :=
  ∀ t a, s.active t = some a → Restores log s.data a (ops t)

namespace Exec.RestoredBy

variable {s s' : Exec κ ν} {log : List (LogRec κ ν)} {ops : TxnId → List (LogInfo κ ν)}

/-- Other transactions keep their operations, where their keys keep their values. -/
theorem of_ne (h : s.RestoredBy log ops) (r : LogRec κ ν) {t : TxnId} {a : ActiveTxn κ ν}
    (ha : s.active t = some a) {d : KvDatabase κ ν} (hd : ∀ k ∈ a.written, d k = s.data k)
    {l : List (LogInfo κ ν)} (ht : t ≠ r.txnId) :
    Restores (log ++ [r]) d a (Function.update ops r.txnId l t) := by
  rw [Function.update_of_ne ht]
  exact (h t a ha).append r hd

/-- A step of a strict run is a step of the transaction system. -/
theorem step (h : s.RestoredBy log ops) (hapart : s.Apart) {r : LogRec κ ν} (hstep : Step s r s') :
    ∃ ops', TxnSystem.Step (s.system ops) r (s'.system ops') ∧ s'.RestoredBy (log ++ [r]) ops' := by
  have hactive {a : ActiveTxn κ ν} (ha : s.active r.txnId = some a) :
      (s.system ops).active r.txnId = some ⟨a.lastLsn, ops r.txnId⟩ := by
    simp [Exec.system, ha]
  cases hstep with
  | begin info_eq prev_eq inactive =>
    refine ⟨Function.update ops r.txnId [], ?_, ?_⟩
    · rw [Exec.system_update]
      exact .begin info_eq prev_eq (by simp [Exec.system, inactive])
    · intro t b hb
      by_cases ht : t = r.txnId
      · subst ht
        simp only [Function.update_self, Option.some.injEq] at hb ⊢
        subst hb
        exact ⟨.begin (List.mem_append_right log List.mem_cons_self) info_eq, by simp,
          fun op hop => absurd hop List.not_mem_nil, fun k hk => absurd hk List.not_mem_nil⟩
      · simp only [Function.update_of_ne ht] at hb
        exact h.of_ne r hb (fun k _ => rfl) ht
  | @write a active prev_eq valid strict =>
    refine ⟨Function.update ops r.txnId (r.info :: ops r.txnId), ?_, ?_⟩
    · rw [Exec.system_update]
      exact .write (hactive active) prev_eq valid
    · intro t b hb
      by_cases ht : t = r.txnId
      · subst ht
        simp only [Function.update_self, Option.some.injEq] at hb ⊢
        subst hb
        exact (h r.txnId a active).write prev_eq valid
      · simp only [Function.update_of_ne ht] at hb
        refine h.of_ne r hb (fun k hk => ?_) ht
        exact r.info.apply_local.outside s.data k fun hkey => strict t b ht hb k hkey hk
  | @commit a info_eq active prev_eq =>
    refine ⟨Function.update ops r.txnId [], ?_, ?_⟩
    · rw [Exec.system_update]
      exact .commit info_eq (hactive active) prev_eq
    · intro t b hb
      have ht : t ≠ r.txnId := fun heq => by simp [heq] at hb
      simp only [Function.update_of_ne ht] at hb
      exact h.of_ne r hb (fun k _ => rfl) ht
  | @abort a info_eq active prev_eq =>
    refine ⟨Function.update ops r.txnId [], ?_, ?_⟩
    · rw [Exec.system_update, ← (h r.txnId a active).undoAll_eq]
      exact .abort info_eq (hactive active) prev_eq
    · intro t b hb
      have ht : t ≠ r.txnId := fun heq => by simp [heq] at hb
      simp only [Function.update_of_ne ht] at hb
      refine h.of_ne r hb (fun k hk => ?_) ht
      exact if_neg (hapart t r.txnId b a ht hb active k hk)

/-- A strict run is a run of the transaction system, and its transactions stay apart. -/
theorem run {done : List (LogRec κ ν)} (h : s.RestoredBy done ops) (hapart : s.Apart)
    (hrun : Steps Step s log s') :
    ∃ ops', Steps TxnSystem.Step (s.system ops) log (s'.system ops') ∧ s'.Apart ∧
      s'.RestoredBy (done ++ log) ops' := by
  induction hrun generalizing done ops with
  | nil s => exact ⟨ops, .nil _, hapart, by rwa [List.append_nil]⟩
  | @cons s s' t r rest hstep _ ih =>
    obtain ⟨ops₁, hstep₁, hrestored⟩ := h.step hapart hstep
    obtain ⟨ops₂, hrun₂, hapart₂, hrestored₂⟩ := ih hrestored (hapart.step hstep)
    rw [List.append_assoc, List.singleton_append] at hrestored₂
    exact ⟨ops₂, .cons hstep₁ hrun₂, hapart₂, hrestored₂⟩

/-- A strict run from a state without transactions. -/
theorem of_initial {data : KvDatabase κ ν} (hrun : Steps Step (Exec.initial data) log s) :
    ∃ ops, Steps TxnSystem.Step (TxnSystem.initial data) log (s.system ops) ∧ s.Apart ∧
      s.RestoredBy log ops := by
  have hnone : (Exec.initial data).RestoredBy [] fun _ => [] := fun _ _ h => nomatch h
  exact hnone.run (fun _ _ _ _ _ h => nomatch h) hrun

end Exec.RestoredBy

/-- A strict log is a well-formed log. -/
theorem StrictLog.wellFormed {data : KvDatabase κ ν} {log : List (LogRec κ ν)}
    (h : StrictLog data log) : WellFormedLog data log := by
  obtain ⟨⟨s, hrun⟩, hordered⟩ := h
  obtain ⟨ops, hsystem, -, -⟩ := Exec.RestoredBy.of_initial hrun
  exact ⟨⟨_, hsystem⟩, hordered⟩

/-! ## The phases -/

/-- The manager has the log, and the data and the active transactions of `s`. -/
structure RecoveryManager.At (m : RecoveryManager κ ν) (log : List (LogRec κ ν)) (s : Exec κ ν) :
    Prop where
  logRecs_eq : m.logRecs = log
  data_eq : m.data = s.data
  tracks : Tracks m.unendedTxn s.active

/-! ## Recovery -/

/-- The checkpoint has the number of a record of the log, and the data and the active transactions
right after it. -/
def CheckPoint.RecordedIn (c : CheckPoint κ ν) (data : KvDatabase κ ν) (log : List (LogRec κ ν)) :
    Prop :=
  ∃ before r after s, log = before ++ r :: after ∧ c.checkpointLsn = r.lsn ∧
    Steps Step (Exec.initial data) (before ++ [r]) s ∧ c.persistData = s.data ∧
    Tracks c.activeTxns s.active

namespace RecoveryManager

variable {m : RecoveryManager κ ν} {log : List (LogRec κ ν)} {s : Exec κ ν}

/-- After `RedoPhase`, the rollback of the active transactions in any order gives the committed
operations. -/
theorem At.undoPhase (h : m.At log s) (hlog : log.Pairwise fun r q => r.lsn < q.lsn)
    (hundo : s.Undoable log) (hapart : s.Apart) {base : KvDatabase κ ν} (hbase : s.Base [] base)
    {entries : List (TxnId × Lsn)} (hentries : entries.Perm m.unendedTxn) :
    ∃ m', m.undoPhase entries = some m' ∧ m'.data = base := by
  have htracks : Tracks entries s.active :=
    ⟨(hentries.map Prod.fst).nodup_iff.mpr h.tracks.nodup,
      fun t lsn => hentries.mem_iff.trans (h.tracks.mem_iff t lsn)⟩
  have hchoice : ∀ e : TxnId × Lsn, ∃ p : ActiveTxn κ ν × List (LogInfo κ ν),
      e ∈ entries → s.active e.1 = some p.1 ∧ p.1.lastLsn = e.2 ∧ Restores log s.data p.1 p.2 := by
    intro e
    by_cases he : e ∈ entries
    · obtain ⟨a, ha, hlsn⟩ := (htracks.mem_iff e.1 e.2).mp he
      obtain ⟨ops, hops⟩ := hundo e.1 a ha
      exact ⟨(a, ops), fun _ => ⟨ha, hlsn, hops⟩⟩
    · exact ⟨(⟨0, [], s.data⟩, []), fun h => absurd h he⟩
  choose txn htxn using hchoice
  have hchains : ∀ e ∈ entries,
      Chain m.logRecs e.2 (txn e).2 ∧ (txn e).2.length < m.logRecs.length := by
    intro e he
    obtain ⟨_, hlsn, hops⟩ := htxn e he
    rw [h.logRecs_eq, ← hlsn]
    exact ⟨hops.chain, hops.short⟩
  refine ⟨_, undoPhase_of_chains entries m (by rwa [h.logRecs_eq]) hchains, ?_⟩
  show entries.foldl (fun d e => undoAll (txn e).2 d) m.data = base
  rw [h.data_eq]
  have hlocal : ∀ e ∈ entries, LocalOn {k | k ∈ (txn e).1.written} (undoAll (txn e).2) :=
    fun e he => (htxn e he).2.2.undo_local
  have hdisjoint : entries.Pairwise fun e f =>
      ∀ k ∈ {k | k ∈ (txn e).1.written}, k ∉ {k | k ∈ (txn f).1.written} := by
    refine (List.pairwise_map.mp htracks.nodup).imp_of_mem fun {e f} he hf hne k hk => ?_
    exact hapart e.1 f.1 _ _ hne (htxn e he).1 (htxn f hf).1 k hk
  funext k
  by_cases hk : ∃ e ∈ entries, k ∈ (txn e).1.written
  · obtain ⟨e, he, hk⟩ := hk
    obtain ⟨hactive, _, hops⟩ := htxn e he
    rw [LocalOn.foldl_eq_of_mem entries hlocal hdisjoint s.data he hk, hops.undone k hk]
    exact (hbase.undone e.1 (txn e).1 hactive rfl k hk).symm
  · have hnone : ∀ e ∈ entries, k ∉ {k | k ∈ (txn e).1.written} := fun e he hmem =>
      hk ⟨e, he, hmem⟩
    rw [LocalOn.foldl_eq_of_not_mem entries hlocal s.data hnone]
    refine (hbase.kept k fun t a ha _ hmem => ?_).symm
    have he : (t, a.lastLsn) ∈ entries := (htracks.mem_iff t a.lastLsn).mpr ⟨a, ha, rfl⟩
    have heq : (txn (t, a.lastLsn)).1 = a := by
      have := (htxn _ he).1
      rw [ha, Option.some.injEq] at this
      exact this.symm
    exact hk ⟨_, he, by rwa [heq]⟩

end RecoveryManager

variable [DecidableEq ν] [Inhabited ν]

omit [DecidableEq κ] [DecidableEq ν] [Inhabited ν] in
/-- The last numbers of the transactions are those of the run. -/
theorem Exec.lastLsns_system (s : Exec κ ν) (ops : TxnId → List (LogInfo κ ν)) :
    (s.system ops).lastLsns = fun t => (s.active t).map ActiveTxn.lastLsn := by
  funext t
  simp [TxnSystem.lastLsns, Exec.system, Function.comp_def]

/-- The recovery of a strict log from a checkpoint. -/
theorem StrictLog.recovers {data : KvDatabase κ ν} {log : List (LogRec κ ν)}
    (hlog : StrictLog data log) {lastCheckpoint : CheckPoint κ ν}
    (hcheckpoint : lastCheckpoint.TakenIn data log) :
    ∃ m, ((RecoveryManager.new.init lastCheckpoint).appendLogRecs log).redoPhase = some m ∧
      ∀ entries, entries.Perm m.unendedTxn →
        ∃ m', m.undoPhase entries = some m' ∧ m'.data = committedOnly log data := by
  obtain ⟨⟨s, hrun⟩, hordered⟩ := hlog
  obtain ⟨ops, hsystem, hapart, hrestored⟩ := Exec.RestoredBy.of_initial hrun
  obtain ⟨m, hm, hfollows, -⟩ := redoPhase_follows hsystem hordered hcheckpoint
  have hat : m.At log s := by
    refine ⟨hfollows.logRecs_eq, hfollows.data_eq, tracks_iff.mpr ?_⟩
    rw [← Exec.lastLsns_system s ops]
    exact hfollows.entries
  have hbase := (Exec.Base.initial data log).run hrun
  refine ⟨m, hm, fun entries hperm => ?_⟩
  exact hat.undoPhase hordered (fun t a ha => ⟨_, hrestored t a ha⟩) hapart hbase hperm

/-- `Init`, `AppendLogRec` for the log, `RedoPhase` and `UndoPhase` leave the database with the
operations of the committed transactions only, in whatever order `UndoPhase` gets the entries of the
map. -/
theorem recovery_keeps_committed {data : KvDatabase κ ν} {log : List (LogRec κ ν)}
    (hlog : StrictLog data log) {lastCheckpoint : CheckPoint κ ν}
    (hcheckpoint : lastCheckpoint.RecordedIn data log) :
    ∃ m, ((RecoveryManager.new.init lastCheckpoint).appendLogRecs log).redoPhase = some m ∧
      ∀ entries, entries.Perm m.unendedTxn →
        ∃ m', m.undoPhase entries = some m' ∧ m'.data = committedOnly log data := by
  obtain ⟨before, r, after, s, hsplit, hlsn, hrun, hdata, htracks⟩ := hcheckpoint
  obtain ⟨ops, hsystem, -, -⟩ := Exec.RestoredBy.of_initial hrun
  refine hlog.recovers ⟨before, r, after, s.system ops, hsplit, hlsn, hsystem, hdata, ?_⟩
  rw [Exec.lastLsns_system]
  exact tracks_iff.mp htracks

/-! ## Two transactions -/

/-- Transaction 0 writes `A` and commits, transaction 1 writes `B` and does not end. -/
def sampleLog : List (LogRec String Int) :=
  LogCounters.initial.createAll
    [(0, .begin), (0, .insert "A" 1), (1, .begin), (1, .insert "B" 2), (0, .commit)]

/-- The checkpoint at the begin of transaction 1. -/
def sampleCheckpoint : CheckPoint String Int where
  checkpointLsn := 2
  activeTxns := [(1, 2), (0, 1)]
  persistData := Function.update (fun _ => none) "A" (some 1)

/-- The run of the sample up to the checkpoint, and on from there. -/
theorem sampleLog_steps :
    ∃ s t : Exec String Int, Steps Step (Exec.initial fun _ => none) (sampleLog.take 3) s ∧
      Steps Step s (sampleLog.drop 3) t ∧ s.data = sampleCheckpoint.persistData ∧
      Tracks sampleCheckpoint.activeTxns s.active := by
  refine ⟨_, _, .cons (.begin rfl rfl rfl) (.cons (.write rfl rfl rfl ?_)
    (.cons (.begin rfl rfl rfl) (.nil _))), .cons (.write rfl rfl rfl ?_)
    (.cons (.commit rfl rfl rfl) (.nil _)), rfl, ?_⟩
  · intro t b ht hb
    exact absurd (hb.symm.trans (Function.update_of_ne ht _ _)) (by simp [Exec.initial])
  · intro t b ht hb k hk hmem
    -- the only other transaction wrote `A`
    have hb' := (Function.update_of_ne ht _ _).symm.trans hb
    by_cases h0 : t = 0
    · subst h0
      have hwritten : b.written = ["A"] := by rw [← Option.some.inj hb']; rfl
      have hkey : k = "B" := List.mem_singleton.mp hk
      rw [hwritten, hkey] at hmem
      exact absurd hmem (by decide)
    · have hnone := (Function.update_of_ne h0 _ _).symm.trans hb'
      exact absurd ((Function.update_of_ne h0 _ _).symm.trans hnone) (by simp [Exec.initial])
  · have hactive :
        sampleCheckpoint.activeTxns = assignTxn 1 2 (assignTxn 0 1 (assignTxn 0 0 [])) := by
      decide
    rw [hactive, tracks_iff]
    show Entries _ (Option.map ActiveTxn.lastLsn ∘ Function.update (Function.update
      (Function.update _ _ _) _ _) _ _)
    rw [Function.comp_update, Function.comp_update, Function.comp_update]
    exact ((Entries.empty.assign 0 0).assign 0 1).assign 1 2

/-- The sample is a strict log with the checkpoint in it. -/
theorem recovery_keeps_committed_sample :
    ∃ m, ((RecoveryManager.new.init sampleCheckpoint).appendLogRecs sampleLog).redoPhase = some m ∧
      ∀ entries, entries.Perm m.unendedTxn → ∃ m', m.undoPhase entries = some m' ∧
        m'.data = committedOnly sampleLog fun _ => none := by
  obtain ⟨s, t, hbefore, hafter, hdata, htracks⟩ := sampleLog_steps
  have hstrict : StrictLog (fun _ => none) sampleLog :=
    ⟨⟨t, hbefore.append hafter⟩, by decide⟩
  exact recovery_keeps_committed hstrict
    ⟨sampleLog.take 2, ⟨2, invalidLsn, 1, .begin⟩, sampleLog.drop 3, s, rfl, rfl, hbefore,
      hdata.symm, htracks⟩

end DisMiniSql.MiniSql.Recovery
