import DisMiniSql.Lib.Effects
import DisMiniSql.Proofs.Recovery.TxnSystem

/-!
# `DisMiniSql.Proofs.Recovery.ReverseReplay`: undo and the reverse replay of the log

`UndoPhase` rolls back one transaction after the other, in the order of a hash map. The reverse
replay takes the records of all unfinished transactions back in the order of their numbers, the
last one first. Both run `undoRec`, which at each key is an `Effect`: it puts a value or nothing
there, or fills the key if it is empty (`undoRec_at`).

`undoPhase_iff` says when every order of the map gives the reverse replay: at each key, the rollback
of all records together admits the rollback of each transaction. Transactions that write different
keys meet this (`mergeable_of_disjoint`).
-/

set_option autoImplicit false

namespace DisMiniSql.MiniSql.Recovery

open DisMiniSql.Lib

universe u v

variable {κ : Type u} {ν : Type v}

/-! ## Unfinished transactions -/

/-- The record ends its transaction. -/
def LogInfo.isEnd : LogInfo κ ν → Bool
  | .commit => true
  | .abort => true
  | _ => false

/-- One of the records ends the transaction. -/
def endedIn (t : TxnId) (records : List (LogRec κ ν)) : Bool :=
  records.any fun r => r.txnId == t && r.info.isEnd

/-- The records that no later record ends, in the order of the log. -/
def unfinished : List (LogRec κ ν) → List (LogRec κ ν)
  | [] => []
  | r :: rest => if endedIn r.txnId (r :: rest) then unfinished rest else r :: unfinished rest

/-- One more record at the end of the log. -/
theorem unfinished_append (log : List (LogRec κ ν)) (r : LogRec κ ν) :
    unfinished (log ++ [r]) =
      if r.info.isEnd then (unfinished log).filter fun q => q.txnId ≠ r.txnId
      else unfinished log ++ [r] := by
  induction log with
  | nil => cases hr : r.info.isEnd <;> simp [unfinished, endedIn, hr]
  | cons q log ih =>
    have hended : endedIn q.txnId (q :: (log ++ [r])) =
        (endedIn q.txnId (q :: log) || r.txnId == q.txnId && r.info.isEnd) := by
      simp [endedIn, Bool.or_assoc]
    simp only [List.cons_append, unfinished, ih, hended]
    cases hq : endedIn q.txnId (q :: log) with
    | true => simp
    | false =>
      cases hr : r.info.isEnd with
      | false => simp
      | true =>
        by_cases ht : q.txnId = r.txnId
        · simp [ht]
        · simp [ht, Ne.symm ht]

/-- The records of one transaction, from its begin on. -/
def TxnSystem.Pending (s : TxnSystem κ ν) (log : List (LogRec κ ν)) : Prop :=
  ∀ t, ((unfinished log).filter fun r => r.txnId = t).map LogRec.info =
    match s.active t with
    | none => []
    | some a => .begin :: a.ops.reverse

namespace TxnSystem

variable {s s' : TxnSystem κ ν} {log done : List (LogRec κ ν)}

/-- A record that goes to its transaction. -/
theorem Pending.assign (h : s.Pending log) {r : LogRec κ ν} (hr : r.info.isEnd = false)
    {d : KvDatabase κ ν} {a : OpenTxn κ ν}
    (ha : (match s.active r.txnId with
      | none => []
      | some a => LogInfo.begin :: a.ops.reverse) ++ [r.info] = .begin :: a.ops.reverse) :
    Pending ⟨d, Function.update s.active r.txnId (some a)⟩ (log ++ [r]) := by
  intro t
  rw [unfinished_append, hr, if_neg Bool.false_ne_true, List.filter_append, List.map_append, h t]
  by_cases ht : r.txnId = t
  · subst ht
    simpa using ha
  · simp [ht, Ne.symm ht]

/-- A record that ends its transaction. -/
theorem Pending.remove (h : s.Pending log) {r : LogRec κ ν} (hr : r.info.isEnd = true)
    (d : KvDatabase κ ν) :
    Pending ⟨d, Function.update s.active r.txnId none⟩ (log ++ [r]) := by
  intro t
  rw [unfinished_append, if_pos hr, List.filter_filter]
  by_cases ht : t = r.txnId
  · subst ht
    simp
  · simp only [Function.update_of_ne ht]
    rw [← h t]
    congr 1
    refine List.filter_congr fun q _ => ?_
    by_cases hq : q.txnId = t
    · simp [hq, ht]
    · simp [hq]

variable [DecidableEq κ]

/-- Every step keeps the unfinished records and the open transactions together. -/
theorem Pending.step (h : s.Pending log) {r : LogRec κ ν} (hstep : Step s r s') :
    s'.Pending (log ++ [r]) := by
  cases hstep with
  | begin info_eq prev_eq inactive =>
    refine h.assign (by rw [info_eq]; rfl) ?_
    simp [inactive, info_eq]
  | @write a active prev_eq valid =>
    have hr : r.info.isEnd = false := by
      cases hinfo : r.info with
      | commit | abort =>
        rw [hinfo] at valid
        exact valid.elim
      | _ => rfl
    refine h.assign hr ?_
    simp [active]
  | commit info_eq => exact h.remove (by rw [info_eq]; rfl) _
  | abort info_eq => exact h.remove (by rw [info_eq]; rfl) _

/-- The unfinished records of a run are those of the open transactions. -/
theorem Pending.run (h : s.Pending done) (hrun : Steps Step s log s') :
    s'.Pending (done ++ log) :=
  hrun.invariant_trace (I := fun done s => s.Pending done)
    (fun _ _ _ _ h hstep => h.step hstep) h

end TxnSystem

/-! ## Rollback at one key -/

variable [DecidableEq κ]

open RecoveryManager (undoRec)

/-- What `undoRec` does at a key. -/
def LogInfo.effectAt (k : κ) : LogInfo κ ν → Effect ν
  | .insert insKey _ => if insKey = k then .put none else .keep
  | .delete delKey delVal => if delKey = k then .fill delVal else .keep
  | .update oldKey oldVal newKey _ =>
    if oldKey = k then if newKey = k then .put (some oldVal) else .fill oldVal
    else if newKey = k then .put none
    else .keep
  | _ => .keep

/-- What the rollback of the records does at a key, the last record first. -/
def rollbackAt (k : κ) (records : List (LogRec κ ν)) : Effect ν :=
  Effect.net (records.reverse.map fun r => r.info.effectAt k)

/-- The database after the records of the unfinished transactions are taken back, in decreasing
order of their numbers. -/
def reverseReplay (log : List (LogRec κ ν)) (d : KvDatabase κ ν) : KvDatabase κ ν :=
  (unfinished log).foldr (fun r d => undoRec r.info d) d

/-- What `emplace` leaves at a key: it never overwrites. -/
theorem emplace_at (key : κ) (val : ν) (d : KvDatabase κ ν) (k : κ) :
    emplace key val d k = if key = k then some ((d k).getD val) else d k := by
  by_cases hk : key = k
  · subst hk
    cases hd : d key <;> simp [emplace, hd]
  · cases hd : d key <;> simp [emplace, hd, hk, Function.update_of_ne (Ne.symm hk)]

/-- What `erase` leaves at a key. -/
theorem erase_at (key : κ) (d : KvDatabase κ ν) (k : κ) :
    erase key d k = if key = k then none else d k := by
  by_cases hk : key = k
  · simp [erase, hk]
  · simp [erase, hk, Function.update_of_ne (Ne.symm hk)]

/-- Undoing a record acts on each key by itself, as one of the effects that form a monoid. -/
theorem undoRec_at (info : LogInfo κ ν) (d : KvDatabase κ ν) (k : κ) :
    undoRec info d k = (info.effectAt k).apply (d k) := by
  -- a record acts on the key it names, and as nothing on the others
  cases info with
  | insert insKey insVal =>
    by_cases hk : insKey = k
    · subst hk
      cases hd : d insKey <;> simp [undoRec, LogInfo.effectAt, hd, erase_at]
    · cases hd : d insKey <;> simp [undoRec, LogInfo.effectAt, hd, hk, erase_at]
  | delete delKey delVal =>
    by_cases hk : delKey = k
    · subst hk
      cases hd : d delKey <;> simp [undoRec, LogInfo.effectAt, hd, emplace_at]
    · cases hd : d delKey <;> simp [undoRec, LogInfo.effectAt, hd, hk, emplace_at]
  | update oldKey oldVal newKey newVal =>
    simp only [undoRec, LogInfo.effectAt, emplace_at, erase_at]
    by_cases hold : oldKey = k
    · by_cases hnew : newKey = k <;> simp [hold, hnew]
    · by_cases hnew : newKey = k <;> simp [hold, hnew]
  | _ => rfl

/-- So undoing a list of records acts by the product of their effects. -/
theorem undoAll_at (ops : List (LogInfo κ ν)) (d : KvDatabase κ ν) (k : κ) :
    undoAll ops d k = (Effect.net (ops.map fun op => op.effectAt k)).apply (d k) := by
  induction ops generalizing d with
  | nil => rfl
  | cons op ops ih =>
    show undoAll ops (undoRec op d) k = _
    rw [ih, undoRec_at, List.map_cons, Effect.net, Effect.apply_andThen]

/-- And so does the reverse replay of the unfinished transactions. -/
theorem reverseReplay_at (log : List (LogRec κ ν)) (d : KvDatabase κ ν) (k : κ) :
    reverseReplay log d k = (rollbackAt k (unfinished log)).apply (d k) := by
  have hundo : reverseReplay log d = undoAll ((unfinished log).reverse.map LogRec.info) d := by
    rw [reverseReplay, undoAll, List.foldl_map, List.foldl_reverse]
  rw [hundo, undoAll_at, List.map_map]
  rfl

/-- The operations of an open transaction, taken back. -/
theorem TxnSystem.Pending.rollbackAt_eq {s : TxnSystem κ ν} {log : List (LogRec κ ν)}
    (h : s.Pending log) {t : TxnId} {a : OpenTxn κ ν} (ha : s.active t = some a) (k : κ) :
    rollbackAt k ((unfinished log).filter fun r => r.txnId = t) =
      Effect.net (a.ops.map fun op => op.effectAt k) := by
  have hinfos := h t
  rw [ha] at hinfos
  have hrollback : rollbackAt k ((unfinished log).filter fun r => r.txnId = t) =
      Effect.net ((((unfinished log).filter fun r => r.txnId = t).map LogRec.info).reverse.map
        fun op => op.effectAt k) := by
    rw [rollbackAt, ← List.map_reverse, List.map_map]
    rfl
  rw [hrollback, hinfos, List.reverse_cons, List.reverse_reverse, List.map_append]
  exact Effect.net_append_keep _

/-! ## `UndoPhase` -/

/-- At each key, the rollback of all unfinished records admits the rollback of the records of each
transaction. -/
def Mergeable (log : List (LogRec κ ν)) (d : KvDatabase κ ν) : Prop :=
  ∀ k t, (rollbackAt k (unfinished log)).Admits (d k)
    (rollbackAt k ((unfinished log).filter fun r => r.txnId = t))

namespace RecoveryManager

variable {m : RecoveryManager κ ν} {log : List (LogRec κ ν)} {s : TxnSystem κ ν}

/-- `UndoPhase` goes through, and at each key it is the rollback of one transaction after the
other. -/
theorem Follows.undoPhase (h : m.Follows log s) (hlog : log.Pairwise fun r q => r.lsn < q.lsn)
    (hchained : s.Chained log) (hpending : s.Pending log) {entries : List (TxnId × Lsn)}
    (hentries : entries.Perm m.unendedTxn) :
    ∃ m', m.undoPhase entries = some m' ∧ ∀ k, m'.data k = entries.foldl (fun x e =>
      (rollbackAt k ((unfinished log).filter fun r => r.txnId = e.1)).apply x) (m.data k) := by
  have hall := h.entries.perm hentries
  have hopen : ∀ e ∈ entries, ∃ a, s.active e.1 = some a ∧ a.lastLsn = e.2 := by
    intro e he
    exact Option.map_eq_some_iff.mp ((hall.mem_iff e.1 e.2).mp he)
  have hchains : ∀ e ∈ entries, Chain m.logRecs e.2 (((s.active e.1).map OpenTxn.ops).getD []) ∧
      (((s.active e.1).map OpenTxn.ops).getD []).length < m.logRecs.length := by
    intro e he
    obtain ⟨a, ha, hlsn⟩ := hopen e he
    rw [h.logRecs_eq, ha, ← hlsn]
    exact hchained e.1 a ha
  refine ⟨_, undoPhase_of_chains entries m (by rwa [h.logRecs_eq]) hchains, fun k => ?_⟩
  show entries.foldl _ m.data k = _
  generalize m.data = d
  clear hall hentries hchains
  induction entries generalizing d with
  | nil => rfl
  | cons e entries ih =>
    obtain ⟨a, ha, -⟩ := hopen e List.mem_cons_self
    rw [List.foldl_cons, List.foldl_cons, ih (fun e' he' => hopen e' (List.mem_cons_of_mem e he')),
      hpending.rollbackAt_eq ha, ha, undoAll_at]
    rfl

/-- What the rollbacks of the transactions have in common with the rollback of all records. -/
theorem Follows.rollbackAt_all (h : m.Follows log s) (hpending : s.Pending log) (k : κ) :
    ((rollbackAt k (unfinished log)).IsPut ↔ ∃ e ∈ m.unendedTxn,
      (rollbackAt k ((unfinished log).filter fun r => r.txnId = e.1)).IsPut) ∧
    (rollbackAt k (unfinished log) = .keep ↔ ∀ e ∈ m.unendedTxn,
      rollbackAt k ((unfinished log).filter fun r => r.txnId = e.1) = .keep) := by
  -- each unfinished record belongs to an entry
  have hentry : ∀ r ∈ unfinished log, ∃ e ∈ m.unendedTxn, r.txnId = e.1 := by
    intro r hr
    have hmem : r ∈ (unfinished log).filter fun q => q.txnId = r.txnId := by simp [hr]
    cases ha : s.active r.txnId with
    | none =>
      have hnil := hpending r.txnId
      rw [ha, List.map_eq_nil_iff] at hnil
      rw [hnil] at hmem
      exact absurd hmem List.not_mem_nil
    | some a =>
      refine ⟨(r.txnId, a.lastLsn), (h.entries.mem_iff _ _).mpr ?_, rfl⟩
      simp [TxnSystem.lastLsns, ha]
  simp only [rollbackAt, Effect.isPut_net, Effect.net_eq_keep, List.mem_map, List.mem_reverse,
    List.mem_filter, decide_eq_true_eq]
  constructor
  · constructor
    · rintro ⟨_, ⟨r, hr, rfl⟩, hput⟩
      obtain ⟨e, he, hre⟩ := hentry r hr
      exact ⟨e, he, _, ⟨r, ⟨hr, hre⟩, rfl⟩, hput⟩
    · rintro ⟨e, -, _, ⟨r, ⟨hr, -⟩, rfl⟩, hput⟩
      exact ⟨_, ⟨r, hr, rfl⟩, hput⟩
  · constructor
    · rintro hkeep e - _ ⟨r, ⟨hr, -⟩, rfl⟩
      exact hkeep _ ⟨r, hr, rfl⟩
    · rintro hkeep _ ⟨r, hr, rfl⟩
      obtain ⟨e, he, hre⟩ := hentry r hr
      exact hkeep e he _ ⟨r, ⟨hr, hre⟩, rfl⟩

/-- Every order of the entries gives the reverse replay exactly if the rollbacks can be merged. -/
theorem Follows.undoPhase_iff (h : m.Follows log s)
    (hlog : log.Pairwise fun r q => r.lsn < q.lsn) (hchained : s.Chained log)
    (hpending : s.Pending log) :
    (∀ entries, entries.Perm m.unendedTxn →
      ∃ m', m.undoPhase entries = some m' ∧ m'.data = reverseReplay log m.data) ↔
      Mergeable log m.data := by
  have hperm (k : κ) := (Effect.foldl_perm_iff (x := m.data k)
    (h.rollbackAt_all hpending k).1 (h.rollbackAt_all hpending k).2)
  constructor
  · intro hreplay k t
    have hadmits := (hperm k).mp fun entries hentries => by
      obtain ⟨m₁, hm₁, hdata₁⟩ := h.undoPhase hlog hchained hpending hentries
      obtain ⟨m₂, hm₂, hdata₂⟩ := hreplay entries hentries
      obtain rfl := Option.some.inj (hm₁.symm.trans hm₂)
      rw [← hdata₁, hdata₂, reverseReplay_at]
    cases ha : s.active t with
    | none =>
      have hnil := hpending t
      rw [ha, List.map_eq_nil_iff] at hnil
      rw [hnil]
      trivial
    | some a =>
      refine hadmits (t, a.lastLsn) ((h.entries.mem_iff _ _).mpr ?_)
      simp [TxnSystem.lastLsns, ha]
  · intro hmergeable entries hentries
    obtain ⟨m', hm', hdata⟩ := h.undoPhase hlog hchained hpending hentries
    refine ⟨m', hm', funext fun k => ?_⟩
    rw [hdata, reverseReplay_at]
    exact (hperm k).mpr (fun e _ => hmergeable k e.1) entries hentries

end RecoveryManager

variable [DecidableEq ν] [Inhabited ν]

/-- After `Init`, `AppendLogRec` for a well-formed log and `RedoPhase`, `UndoPhase` leaves the
reverse replay of the log for every order of the map exactly if, at each key, the rollback of all
unfinished records admits the rollback of each transaction. -/
theorem undo_reverse_replay_iff {data : KvDatabase κ ν} {log : List (LogRec κ ν)}
    (hlog : WellFormedLog data log) {lastCheckpoint : CheckPoint κ ν}
    (hcheckpoint : lastCheckpoint.TakenIn data log) :
    ∃ m, ((RecoveryManager.new.init lastCheckpoint).appendLogRecs log).redoPhase = some m ∧
      ((∀ entries, entries.Perm m.unendedTxn →
        ∃ m', m.undoPhase entries = some m' ∧ m'.data = reverseReplay log m.data) ↔
        Mergeable log m.data) := by
  obtain ⟨⟨s, hrun⟩, hordered⟩ := hlog
  obtain ⟨m, hm, hfollows, hchained⟩ := redoPhase_follows hrun hordered hcheckpoint
  have hinitial : (TxnSystem.initial data).Pending [] := fun _ => rfl
  exact ⟨m, hm, hfollows.undoPhase_iff hordered hchained (hinitial.run hrun)⟩

/-! ### Two transactions on one key -/

/-- Transaction 0 writes `A`, transaction 1 changes it, and both do not end. -/
def conflictLog : List (LogRec String Int) :=
  LogCounters.initial.createAll
    [(0, .begin), (1, .begin), (0, .insert "A" 1), (1, .update "A" 1 "A" 2)]

/-- The checkpoint at the begin of transaction 0. -/
def conflictCheckpoint : CheckPoint String Int where
  checkpointLsn := 0
  activeTxns := [(0, 0)]
  persistData := fun _ => none

/-- The log of the failing input can be written. -/
theorem conflictLog_wellFormed : WellFormedLog (fun _ => none) conflictLog where
  run := ⟨_, .cons (.begin rfl rfl rfl) (.cons (.begin rfl rfl rfl) (.cons (.write rfl rfl rfl)
    (.cons (.write rfl rfl ⟨rfl, .inl rfl⟩) (.nil _))))⟩
  ordered := by decide

/-- Its checkpoint too. -/
theorem conflictCheckpoint_takenIn :
    conflictCheckpoint.TakenIn (fun _ => none) conflictLog := by
  refine ⟨[], ⟨0, invalidLsn, 0, .begin⟩, conflictLog.drop 1, _, rfl, rfl,
    .cons (.begin rfl rfl rfl) (.nil _), rfl, ?_⟩
  rw [TxnSystem.lastLsns_update]
  exact Entries.empty.assign 0 0

/-- The equivalence at the failing input. -/
theorem undo_reverse_replay_iff_conflict :
    ∃ m, ((RecoveryManager.new.init conflictCheckpoint).appendLogRecs conflictLog).redoPhase =
        some m ∧
      ((∀ entries, entries.Perm m.unendedTxn →
        ∃ m', m.undoPhase entries = some m' ∧ m'.data = reverseReplay conflictLog m.data) ↔
        Mergeable conflictLog m.data) :=
  undo_reverse_replay_iff conflictLog_wellFormed conflictCheckpoint_takenIn

/-- Transaction 0 rolled back first leaves the value that it wrote. -/
theorem undo_order_matters :
    ¬ ∀ (data : KvDatabase String Int) (log : List (LogRec String Int)), WellFormedLog data log →
      ∀ lastCheckpoint : CheckPoint String Int, lastCheckpoint.TakenIn data log →
      ∀ m, ((RecoveryManager.new.init lastCheckpoint).appendLogRecs log).redoPhase = some m →
      ∀ entries, entries.Perm m.unendedTxn →
        ∃ m', m.undoPhase entries = some m' ∧ m'.data = reverseReplay log m.data := by
  intro h
  let redone := ((RecoveryManager.new.init conflictCheckpoint).appendLogRecs conflictLog).redoPhase
  have hentries : redone.map (·.unendedTxn) = some [(1, 3), (0, 2)] := by decide +kernel
  have hundone : (redone.bind fun m => m.undoPhase [(0, 2), (1, 3)]).map (·.data "A") =
      some (some 1) := by
    decide +kernel
  have hreplay : redone.map (fun m => reverseReplay conflictLog m.data "A") = some none := by
    decide +kernel
  obtain ⟨m, hm, hunended⟩ := Option.map_eq_some_iff.mp hentries
  obtain ⟨m', hm', hdata⟩ := h _ _ conflictLog_wellFormed _ conflictCheckpoint_takenIn m hm
    [(0, 2), (1, 3)] (by rw [hunended]; decide)
  rw [hm, Option.bind_some, hm', Option.map_some, hdata] at hundone
  rw [hm, Option.map_some] at hreplay
  rw [Option.some.inj hreplay] at hundone
  cases hundone

/-! ### Different keys -/

omit [DecidableEq ν] [Inhabited ν] in
/-- Where unfinished transactions write different keys, the rollbacks can be merged. -/
theorem mergeable_of_disjoint {log : List (LogRec κ ν)}
    (h : ∀ r ∈ unfinished log, ∀ q ∈ unfinished log, r.txnId ≠ q.txnId →
      ∀ k ∈ r.info.keys, k ∉ q.info.keys) (d : KvDatabase κ ν) : Mergeable log d := by
  intro k t
  have houtside (info : LogInfo κ ν) (hk : k ∉ info.keys) : info.effectAt k = .keep := by
    cases info <;> simp_all [LogInfo.keys, LogInfo.effectAt, eq_comm]
  by_cases htouch : ∃ r ∈ unfinished log, r.txnId = t ∧ k ∈ r.info.keys
  · -- the others keep the key
    obtain ⟨r, hr, rfl, hk⟩ := htouch
    have hsame : rollbackAt k ((unfinished log).filter fun q => q.txnId = r.txnId) =
        rollbackAt k (unfinished log) := by
      rw [rollbackAt, ← List.filter_reverse]
      refine Effect.net_map_filter fun q hq hne => ?_
      rw [List.mem_reverse] at hq
      exact houtside q.info (h r hr q hq (fun heq => by simp [heq] at hne) k hk)
    rw [hsame]
    exact Effect.admits_self _ _
  · have hkeep : rollbackAt k ((unfinished log).filter fun r => r.txnId = t) = .keep := by
      rw [rollbackAt, Effect.net_eq_keep]
      simp only [List.mem_map, List.mem_reverse, List.mem_filter, decide_eq_true_eq]
      rintro _ ⟨r, ⟨hr, ht⟩, rfl⟩
      exact houtside r.info fun hk => htouch ⟨r, hr, ht, hk⟩
    rw [hkeep]
    trivial

end DisMiniSql.MiniSql.Recovery
