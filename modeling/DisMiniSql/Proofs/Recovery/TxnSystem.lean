import DisMiniSql.Lib.Run
import DisMiniSql.Proofs.Recovery.UndoTxn

/-!
# `DisMiniSql.Proofs.Recovery.TxnSystem`: what a log says, and redo

`TxnSystem.Step` is the transaction system that a log records. Its state has the data and, for each
open transaction, the number of its last record and its operations. A step is there only for a
record that is valid in the data and names the last record of its transaction. Transactions may
write the keys of each other. An abort takes the operations of its transaction back.

`RedoPhase` repeats the log from the state of the checkpoint (`RecoveryManager.Follows.redoRec`,
`RecoveryManager.Follows.redoLoop`). `redoPhase_follows` is the result for a checkpoint at any
record.
-/

set_option autoImplicit false

namespace DisMiniSql.MiniSql.Recovery

open DisMiniSql.Lib

universe u v

variable {κ : Type u} {ν : Type v}

/-! ## Entries of transactions -/

/-- The entries are the transactions of `last`, each with its number there. -/
structure Entries (entries : List (TxnId × Lsn)) (last : TxnId → Option Lsn) : Prop where
  nodup : (entries.map Prod.fst).Nodup
  mem_iff : ∀ t lsn, (t, lsn) ∈ entries ↔ last t = some lsn

namespace Entries

variable {entries : List (TxnId × Lsn)} {last : TxnId → Option Lsn}

/-- There is no entry where there is no transaction. -/
theorem empty : Entries [] fun _ => none where
  nodup := List.nodup_nil
  mem_iff := by simp

/-- An entry that is taken out. -/
theorem erase (h : Entries entries last) (t : TxnId) :
    Entries (eraseTxn t entries) (Function.update last t none) where
  nodup := h.nodup.sublist (List.filter_sublist.map Prod.fst)
  mem_iff := by
    intro u lsn
    have hmem : (u, lsn) ∈ eraseTxn t entries ↔ (u, lsn) ∈ entries ∧ u ≠ t := by
      simp [eraseTxn, List.mem_filter]
    rw [hmem, h.mem_iff]
    by_cases hu : u = t
    · simp [hu]
    · simp [hu]

/-- An entry that is written. -/
theorem assign (h : Entries entries last) (t : TxnId) (lsn : Lsn) :
    Entries (assignTxn t lsn entries) (Function.update last t (some lsn)) where
  nodup := by
    have hnot : t ∉ (eraseTxn t entries).map Prod.fst := by simp [eraseTxn, List.mem_filter]
    exact List.nodup_cons.mpr ⟨hnot, (h.erase t).nodup⟩
  mem_iff := by
    intro u lsn'
    show (u, lsn') ∈ (t, lsn) :: eraseTxn t entries ↔ _
    rw [List.mem_cons, (h.erase t).mem_iff]
    by_cases hu : u = t
    · simp [hu, eq_comm]
    · simp [hu]

/-- An entry that is written and taken out again. -/
theorem erase_assign (entries : List (TxnId × Lsn)) (t : TxnId) (lsn : Lsn) :
    eraseTxn t (assignTxn t lsn entries) = eraseTxn t entries := by
  simp [eraseTxn, assignTxn]

/-- The order of the entries does not matter. -/
theorem perm (h : Entries entries last) {entries' : List (TxnId × Lsn)}
    (hperm : entries'.Perm entries) : Entries entries' last where
  nodup := (hperm.map Prod.fst).nodup_iff.mpr h.nodup
  mem_iff := fun t lsn => hperm.mem_iff.trans (h.mem_iff t lsn)

end Entries

/-! ## The transaction system -/

/-- A transaction that has begun and not ended. -/
structure OpenTxn (κ : Type u) (ν : Type v) where
  lastLsn : Lsn
  /-- Its operations, the last one first. -/
  ops : List (LogInfo κ ν)

/-- The state of the transaction system. -/
structure TxnSystem (κ : Type u) (ν : Type v) where
  data : KvDatabase κ ν
  active : TxnId → Option (OpenTxn κ ν)

namespace TxnSystem

/-- The system before the first record. -/
def initial (data : KvDatabase κ ν) : TxnSystem κ ν := ⟨data, fun _ => none⟩

/-- The numbers of the last records. -/
def lastLsns (s : TxnSystem κ ν) (t : TxnId) : Option Lsn := (s.active t).map OpenTxn.lastLsn

/-- Changing one transaction changes its last record only. -/
theorem lastLsns_update (d : KvDatabase κ ν) (active : TxnId → Option (OpenTxn κ ν)) (t : TxnId)
    (a : Option (OpenTxn κ ν)) :
    lastLsns ⟨d, Function.update active t a⟩ =
      Function.update (lastLsns ⟨d, active⟩) t (a.map OpenTxn.lastLsn) := by
  funext u
  by_cases hu : u = t
  · simp [lastLsns, hu]
  · simp [lastLsns, hu]

/-- Every open transaction has its operations on a chain of the log. -/
def Chained (s : TxnSystem κ ν) (log : List (LogRec κ ν)) : Prop :=
  ∀ t a, s.active t = some a → Chain log a.lastLsn a.ops ∧ a.ops.length < log.length

/-- The chains of the other transactions stay where a record is added. -/
theorem Chained.of_ne {s : TxnSystem κ ν} {log : List (LogRec κ ν)} (h : s.Chained log)
    (r : LogRec κ ν) {t : TxnId} {a : OpenTxn κ ν} (ha : s.active t = some a) :
    Chain (log ++ [r]) a.lastLsn a.ops ∧ a.ops.length < (log ++ [r]).length := by
  obtain ⟨hchain, hshort⟩ := h t a ha
  refine ⟨hchain.mono (List.subset_append_left log [r]), ?_⟩
  simp only [List.length_append, List.length_singleton]
  omega

variable [DecidableEq κ]

/-- The record `r` as a step of the system. -/
inductive Step : TxnSystem κ ν → LogRec κ ν → TxnSystem κ ν → Prop
  | begin {s : TxnSystem κ ν} {r : LogRec κ ν} (info_eq : r.info = .begin)
      (prev_eq : r.prevLsn = invalidLsn) (inactive : s.active r.txnId = none) :
      Step s r ⟨s.data, Function.update s.active r.txnId (some ⟨r.lsn, []⟩)⟩
  | write {s : TxnSystem κ ν} {r : LogRec κ ν} {a : OpenTxn κ ν}
      (active : s.active r.txnId = some a) (prev_eq : r.prevLsn = a.lastLsn)
      (valid : r.info.Valid s.data) :
      Step s r
        ⟨r.info.apply s.data, Function.update s.active r.txnId (some ⟨r.lsn, r.info :: a.ops⟩)⟩
  | commit {s : TxnSystem κ ν} {r : LogRec κ ν} {a : OpenTxn κ ν} (info_eq : r.info = .commit)
      (active : s.active r.txnId = some a) (prev_eq : r.prevLsn = a.lastLsn) :
      Step s r ⟨s.data, Function.update s.active r.txnId none⟩
  | abort {s : TxnSystem κ ν} {r : LogRec κ ν} {a : OpenTxn κ ν} (info_eq : r.info = .abort)
      (active : s.active r.txnId = some a) (prev_eq : r.prevLsn = a.lastLsn) :
      Step s r ⟨undoAll a.ops s.data, Function.update s.active r.txnId none⟩

/-- A record leads to one state at most. -/
theorem Step.unique {s s₁ s₂ : TxnSystem κ ν} {r : LogRec κ ν} (h₁ : Step s r s₁)
    (h₂ : Step s r s₂) : s₁ = s₂ := by
  cases h₁ <;> cases h₂ <;> simp_all [LogInfo.Valid]

/-- Every step keeps the chains. -/
theorem Chained.step {s s' : TxnSystem κ ν} {r : LogRec κ ν} {log : List (LogRec κ ν)}
    (h : s.Chained log) (hstep : Step s r s') : s'.Chained (log ++ [r]) := by
  intro t b hb
  have hlast : r ∈ log ++ [r] := List.mem_append_right log List.mem_cons_self
  by_cases ht : t = r.txnId
  · cases hstep with
    | begin info_eq prev_eq inactive =>
      simp only [ht, Function.update_self, Option.some.injEq] at hb
      subst hb
      exact ⟨.begin hlast info_eq, by simp⟩
    | @write a active prev_eq valid =>
      simp only [ht, Function.update_self, Option.some.injEq] at hb
      subst hb
      obtain ⟨hchain, hshort⟩ := h.of_ne r active
      have hne : r.info ≠ .begin := by
        intro heq
        rw [heq] at valid
        exact valid
      refine ⟨.write hlast hne (prev_eq ▸ hchain), ?_⟩
      have := (h r.txnId a active).2
      simp only [List.length_append, List.length_cons]
      omega
    | commit => simp [ht] at hb
    | abort => simp [ht] at hb
  · have hother : s.active t = some b := by
      cases hstep <;> simpa [ht] using hb
    exact h.of_ne r hother

/-- After any run the chains are there. -/
theorem Chained.run {s s' : TxnSystem κ ν} {done log : List (LogRec κ ν)} (h : s.Chained done)
    (hrun : Steps Step s log s') : s'.Chained (done ++ log) :=
  hrun.invariant_trace (I := fun done s => s.Chained done)
    (fun _ _ _ _ h hstep => h.step hstep) h

end TxnSystem

variable [DecidableEq κ]

/-- A log of a run from `data`, with increasing numbers. -/
structure WellFormedLog (data : KvDatabase κ ν) (log : List (LogRec κ ν)) : Prop where
  run : ∃ s, Steps TxnSystem.Step (TxnSystem.initial data) log s
  ordered : log.Pairwise fun r q => r.lsn < q.lsn

/-- The checkpoint has the number of a record of the log, and the data and the open transactions
right after it. -/
def CheckPoint.TakenIn (c : CheckPoint κ ν) (data : KvDatabase κ ν) (log : List (LogRec κ ν)) :
    Prop :=
  ∃ before r after s, log = before ++ r :: after ∧ c.checkpointLsn = r.lsn ∧
    Steps TxnSystem.Step (TxnSystem.initial data) (before ++ [r]) s ∧ c.persistData = s.data ∧
    Entries c.activeTxns s.lastLsns

/-! ## Redo -/

/-- The manager has the log, and the data and the open transactions of `s`. -/
structure RecoveryManager.Follows (m : RecoveryManager κ ν) (log : List (LogRec κ ν))
    (s : TxnSystem κ ν) : Prop where
  logRecs_eq : m.logRecs = log
  data_eq : m.data = s.data
  entries : Entries m.unendedTxn s.lastLsns

namespace RecoveryManager

variable [DecidableEq ν] [Inhabited ν]

namespace Follows

variable {m : RecoveryManager κ ν} {log done rest : List (LogRec κ ν)} {s s' : TxnSystem κ ν}

/-- One record of the log in `RedoPhase`. -/
theorem redoRec (h : m.Follows log s) (hlog : log.Pairwise fun r q => r.lsn < q.lsn)
    (hdone : done <+: log) (hchained : s.Chained done) {r : LogRec κ ν}
    (hstep : TxnSystem.Step s r s') : ∃ m', m.redoRec r = some m' ∧ m'.Follows log s' := by
  have hassigned (d : KvDatabase κ ν) (a : OpenTxn κ ν) (ha : a.lastLsn = r.lsn) :
      Entries (m.assign r.txnId r.lsn).unendedTxn
        (TxnSystem.lastLsns ⟨d, Function.update s.active r.txnId (some a)⟩) := by
    rw [TxnSystem.lastLsns_update, Option.map_some, ha]
    exact h.entries.assign r.txnId r.lsn
  have hended (d : KvDatabase κ ν) : Entries ((m.assign r.txnId r.lsn).endTxn r.txnId).unendedTxn
      (TxnSystem.lastLsns ⟨d, Function.update s.active r.txnId none⟩) := by
    show Entries (eraseTxn r.txnId (assignTxn r.txnId r.lsn m.unendedTxn)) _
    rw [Entries.erase_assign, TxnSystem.lastLsns_update]
    exact h.entries.erase r.txnId
  cases hstep with
  | begin info_eq prev_eq inactive =>
    refine ⟨m.assign r.txnId r.lsn, ?_, h.logRecs_eq, h.data_eq, hassigned s.data _ rfl⟩
    simp only [RecoveryManager.redoRec, info_eq]
  | @write a active prev_eq valid =>
    refine ⟨_, redoRec_of_valid (by rwa [h.data_eq]), h.logRecs_eq, ?_, hassigned _ _ rfl⟩
    show r.info.apply m.data = r.info.apply s.data
    rw [h.data_eq]
  | commit info_eq active prev_eq =>
    refine ⟨(m.assign r.txnId r.lsn).endTxn r.txnId, ?_, h.logRecs_eq, h.data_eq, hended s.data⟩
    simp only [RecoveryManager.redoRec, info_eq]
  | @abort a info_eq active prev_eq =>
    obtain ⟨hchain, hshort⟩ := hchained r.txnId a active
    have hundo : (m.assign r.txnId r.lsn).undoTxn r.prevLsn =
        some ((m.assign r.txnId r.lsn).withData (undoAll a.ops m.data)) := by
      rw [prev_eq]
      refine undoTxn_of_chain ?_ ?_ ?_
      · show m.logRecs.Pairwise _
        rwa [h.logRecs_eq]
      · show Chain m.logRecs a.lastLsn a.ops
        rw [h.logRecs_eq]
        exact hchain.mono hdone.subset
      · show a.ops.length < m.logRecs.length
        rw [h.logRecs_eq]
        exact Nat.lt_of_lt_of_le hshort hdone.length_le
    refine ⟨((m.assign r.txnId r.lsn).withData (undoAll a.ops m.data)).endTxn r.txnId, ?_,
      h.logRecs_eq, ?_, hended _⟩
    · simp only [RecoveryManager.redoRec, info_eq, hundo]
    · show undoAll a.ops m.data = undoAll a.ops s.data
      rw [h.data_eq]

/-- The loop of `RedoPhase` repeats the rest of the log. -/
theorem redoLoop (h : m.Follows log s) (hlog : log.Pairwise fun r q => r.lsn < q.lsn)
    (hsplit : done ++ rest = log) (hchained : s.Chained done)
    (hrun : Steps TxnSystem.Step s rest s') :
    ∃ m', m.redoLoop rest = some m' ∧ m'.Follows log s' := by
  induction hrun generalizing m done with
  | nil s => exact ⟨m, rfl, h⟩
  | @cons s s₁ t r rest hstep _ ih =>
    obtain ⟨m₁, hm₁, hat⟩ := h.redoRec hlog ⟨_, hsplit⟩ hchained hstep
    have hsplit' : (done ++ [r]) ++ rest = log := by
      rw [List.append_assoc, List.singleton_append, hsplit]
    obtain ⟨m', hm', hat'⟩ := ih hat hsplit' (hchained.step hstep)
    refine ⟨m', ?_, hat'⟩
    rw [RecoveryManager.redoLoop, hm₁]
    exact hm'

end Follows

end RecoveryManager

variable [DecidableEq ν] [Inhabited ν]

/-- `Init`, `AppendLogRec` for the log and `RedoPhase` end in the state that the log describes. -/
theorem redoPhase_follows {data : KvDatabase κ ν} {log : List (LogRec κ ν)} {s : TxnSystem κ ν}
    (hrun : Steps TxnSystem.Step (TxnSystem.initial data) log s)
    (hordered : log.Pairwise fun r q => r.lsn < q.lsn) {lastCheckpoint : CheckPoint κ ν}
    (hcheckpoint : lastCheckpoint.TakenIn data log) :
    ∃ m, ((RecoveryManager.new.init lastCheckpoint).appendLogRecs log).redoPhase = some m ∧
      m.Follows log s ∧ s.Chained log := by
  obtain ⟨before, r, after, s₁, hsplit, hlsn, hbefore, hdata, hentries⟩ := hcheckpoint
  have hsplit' : (before ++ [r]) ++ after = log := by
    rw [List.append_assoc, List.singleton_append, hsplit]
  -- the rest of the run starts in the state of the checkpoint
  have hafter : Steps TxnSystem.Step s₁ after s := by
    rw [← hsplit'] at hrun
    exact Steps.drop (fun h₁ h₂ => h₁.unique h₂) hbefore hrun
  have hnone : (TxnSystem.initial data).Chained [] := fun _ _ h => nomatch h
  have hchained := hnone.run hbefore
  have hat : RecoveryManager.Follows
      ⟨log, lastCheckpoint.checkpointLsn, lastCheckpoint.activeTxns, lastCheckpoint.activeTxns,
        lastCheckpoint.persistData⟩ log s₁ :=
    ⟨rfl, hdata, hentries⟩
  obtain ⟨m, hm, hatm⟩ := hat.redoLoop hordered hsplit' hchained hafter
  refine ⟨m, ?_, hatm, hnone.run hrun⟩
  rw [(RecoveryManager.new.init lastCheckpoint).appendLogRecs_logRecs log hordered,
    RecoveryManager.redoPhase_eq hordered hsplit hlsn]
  exact hm

end DisMiniSql.MiniSql.Recovery
