import DisMiniSql.Lib.LocalUpdate
import DisMiniSql.MiniSql.Recovery.RecoveryManager

/-!
# `DisMiniSql.Proofs.Recovery.UndoTxn`: operations and their rollback

An operation that is `Valid` in the data takes place there (`LogInfo.apply`), and `undoRec` is its
inverse (`undoRec_apply`). The operations of a transaction lie on the `Chain` of its records, and
`UndoTxn` takes them back, the last one first (`RecoveryManager.undoTxn_of_chain`). `UndoPhase` does
so for one transaction after the other.
-/

set_option autoImplicit false

namespace DisMiniSql.MiniSql.Recovery

open DisMiniSql.Lib

universe u v

variable {κ : Type u} {ν : Type v}

/-! ## Operations -/

namespace LogInfo

/-- The keys that an operation touches. -/
def keys : LogInfo κ ν → List κ
  | .insert insKey _ => [insKey]
  | .delete delKey _ => [delKey]
  | .update oldKey _ newKey _ => [oldKey, newKey]
  | _ => []

/-- The operation can take place on the data and has the values that it finds there. -/
def Valid : LogInfo κ ν → KvDatabase κ ν → Prop
  | .insert insKey _, d => d insKey = none
  | .delete delKey delVal, d => d delKey = some delVal
  | .update oldKey oldVal newKey _, d =>
    d oldKey = some oldVal ∧ (newKey = oldKey ∨ d newKey = none)
  | _, _ => False

variable [DecidableEq κ]

/-- The data after the operation. -/
def apply : LogInfo κ ν → KvDatabase κ ν → KvDatabase κ ν
  | .insert insKey insVal, d => Function.update d insKey (some insVal)
  | .delete delKey _, d => Function.update d delKey none
  | .update oldKey _ newKey newVal, d =>
    Function.update (Function.update d oldKey none) newKey (some newVal)
  | _, d => d

/-- An operation writes its keys only. -/
theorem apply_local (info : LogInfo κ ν) : LocalOn {k | k ∈ info.keys} info.apply := by
  cases info with
  | insert insKey insVal =>
    have hmem : insKey ∈ {k | k ∈ (insert insKey insVal).keys} := List.mem_cons_self
    exact LocalOn.update hmem (some insVal)
  | delete delKey delVal =>
    have hmem : delKey ∈ {k | k ∈ (delete delKey delVal).keys} := List.mem_cons_self
    exact LocalOn.update hmem none
  | update oldKey oldVal newKey newVal =>
    have hold : oldKey ∈ {k | k ∈ (update oldKey oldVal newKey newVal).keys} :=
      List.mem_cons_self
    have hnew : newKey ∈ {k | k ∈ (update oldKey oldVal newKey newVal).keys} :=
      List.mem_cons_of_mem _ List.mem_cons_self
    exact (LocalOn.update hnew (some newVal)).comp (LocalOn.update hold none)
  | _ => exact LocalOn.id _

end LogInfo

/-! ## The log of the manager -/

variable {log : List (LogRec κ ν)}

/-- A record with a larger number goes to the end. -/
theorem emplaceRec_of_lt {logRec : LogRec κ ν} (h : ∀ r ∈ log, r.lsn < logRec.lsn) :
    emplaceRec logRec log = log ++ [logRec] := by
  induction log with
  | nil => rfl
  | cons r log ih =>
    have hr : r.lsn < logRec.lsn := h r List.mem_cons_self
    rw [emplaceRec, if_neg (not_lt_of_gt hr), if_neg (ne_of_gt hr),
      ih fun q hq => h q (List.mem_cons_of_mem r hq)]
    rfl

/-- Records in the order of their numbers are kept in this order. -/
theorem RecoveryManager.appendLogRecs_logRecs (m : RecoveryManager κ ν) (log : List (LogRec κ ν))
    (h : (m.logRecs ++ log).Pairwise fun r q => r.lsn < q.lsn) :
    m.appendLogRecs log = { m with logRecs := m.logRecs ++ log } := by
  induction log generalizing m with
  | nil => rw [List.append_nil]; rfl
  | cons r log ih =>
    have hlast : ∀ q ∈ m.logRecs, q.lsn < r.lsn := fun q hq =>
      (List.pairwise_append.mp h).2.2 q hq r List.mem_cons_self
    have hone : m.appendLogRec r = { m with logRecs := m.logRecs ++ [r] } := by
      rw [RecoveryManager.appendLogRec, emplaceRec_of_lt hlast]
    show (m.appendLogRec r).appendLogRecs log = _
    rw [hone, ih _ (by rwa [List.append_assoc])]
    simp only [List.append_assoc, List.singleton_append]

/-- A record is found under its number. -/
theorem find?_lsn (h : log.Pairwise fun r q => r.lsn < q.lsn) {r : LogRec κ ν} (hr : r ∈ log) :
    log.find? (fun q => q.lsn = r.lsn) = some r := by
  induction log with
  | nil => exact absurd hr List.not_mem_nil
  | cons q log ih =>
    obtain ⟨hq, hlog⟩ := List.pairwise_cons.mp h
    rcases List.mem_cons.mp hr with rfl | hr'
    · exact List.find?_cons_of_pos (by simp)
    · have hlt : q.lsn < r.lsn := hq r hr'
      rw [List.find?_cons_of_neg (by simpa using ne_of_lt hlt)]
      exact ih hlog hr'

/-- The records after the one with a given number. -/
theorem dropWhile_lsn {before after : List (LogRec κ ν)} {r : LogRec κ ν}
    (h : (before ++ r :: after).Pairwise fun r q => r.lsn < q.lsn) :
    (before ++ r :: after).dropWhile (fun q => q.lsn ≠ r.lsn) = r :: after := by
  have hbefore : ∀ q ∈ before, q.lsn ≠ r.lsn := fun q hq =>
    ne_of_lt ((List.pairwise_append.mp h).2.2 q hq r List.mem_cons_self)
  rw [List.dropWhile_append_of_pos (by simpa using hbefore)]
  simp

/-! ## Undoing operations -/

variable [DecidableEq κ]

open RecoveryManager (undoRec undoLoop)

/-- `emplace` of a key that is not there. -/
theorem emplace_of_none {d : KvDatabase κ ν} {k : κ} (h : d k = none) (v : ν) :
    emplace k v d = Function.update d k (some v) := by
  rw [emplace, h]

/-- `undoRec` is the inverse of an operation that was valid. -/
theorem undoRec_apply {info : LogInfo κ ν} {d : KvDatabase κ ν} (h : info.Valid d) :
    undoRec info (info.apply d) = d := by
  cases info with
  | insert insKey insVal =>
    have habsent : d insKey = none := h
    simp only [undoRec, LogInfo.apply, Function.update_self, erase, Function.update_idem]
    rw [← habsent, Function.update_eq_self]
  | delete delKey delVal =>
    have hthere : d delKey = some delVal := h
    simp only [undoRec, LogInfo.apply, Function.update_self, emplace, Function.update_idem]
    rw [← hthere, Function.update_eq_self]
  | update oldKey oldVal newKey newVal =>
    obtain ⟨hold, hnew⟩ := h
    have hgone : Function.update (Function.update d oldKey none) newKey none oldKey = none := by
      by_cases heq : oldKey = newKey <;> simp [heq]
    simp only [undoRec, LogInfo.apply, erase, Function.update_idem]
    rw [emplace_of_none hgone]
    funext k
    by_cases hk : k = oldKey
    · rw [hk, Function.update_self, hold]
    · by_cases hk' : k = newKey
      · -- the new key was free, since it is not the old one
        have hfree : d newKey = none := hnew.resolve_left fun heq => hk (hk'.trans heq)
        rw [Function.update_of_ne hk, hk', Function.update_self, hfree]
      · simp [hk, hk']
  | _ => exact h.elim

/-- `emplace` works on its key. -/
theorem emplace_local {key : κ} {W : Set κ} (h : key ∈ W) (val : ν) :
    LocalOn W (emplace key val) := by
  have heq : emplace key val =
      fun d => (d key).elim (Function.update d key (some val)) fun _ => d := by
    funext d
    unfold emplace
    cases d key <;> rfl
  rw [heq]
  refine LocalOn.choose_at (f := fun (there : Option ν) d =>
    there.elim (Function.update d key (some val)) fun _ => d) h fun there => ?_
  cases there with
  | none => exact LocalOn.update h (some val)
  | some _ => exact LocalOn.id W

/-- `undoRec` works on the keys of the operation. -/
theorem undoRec_local (info : LogInfo κ ν) : LocalOn {k | k ∈ info.keys} (undoRec info) := by
  cases info with
  | insert insKey insVal =>
    have hmem : insKey ∈ {k | k ∈ (LogInfo.insert insKey insVal).keys} := List.mem_cons_self
    have heq : undoRec (.insert insKey insVal) =
        fun d => (d insKey).elim d fun _ => erase insKey d := by
      funext d
      simp only [undoRec]
      cases d insKey <;> rfl
    rw [heq]
    refine LocalOn.choose_at
      (f := fun (there : Option ν) d => there.elim d fun _ => erase insKey d) hmem fun there => ?_
    cases there with
    | none => exact LocalOn.id _
    | some _ => exact LocalOn.update hmem none
  | delete delKey delVal =>
    have hmem : delKey ∈ {k | k ∈ (LogInfo.delete delKey delVal).keys} := List.mem_cons_self
    have heq : undoRec (.delete delKey delVal) =
        fun d => (d delKey).elim (emplace delKey delVal d) fun _ => d := by
      funext d
      simp only [undoRec]
      cases d delKey <;> rfl
    rw [heq]
    refine LocalOn.choose_at (f := fun (there : Option ν) d =>
      there.elim (emplace delKey delVal d) fun _ => d) hmem fun there => ?_
    cases there with
    | none => exact emplace_local hmem delVal
    | some _ => exact LocalOn.id _
  | update oldKey oldVal newKey newVal =>
    have hold : oldKey ∈ {k | k ∈ (LogInfo.update oldKey oldVal newKey newVal).keys} :=
      List.mem_cons_self
    have hnew : newKey ∈ {k | k ∈ (LogInfo.update oldKey oldVal newKey newVal).keys} :=
      List.mem_cons_of_mem _ List.mem_cons_self
    exact (emplace_local hold oldVal).comp (LocalOn.update hnew none)
  | _ => exact LocalOn.id _

/-- The operations of a transaction taken back, from the last one to the first. -/
def undoAll (ops : List (LogInfo κ ν)) (d : KvDatabase κ ν) : KvDatabase κ ν :=
  ops.foldl (fun d op => undoRec op d) d

variable {ops : List (LogInfo κ ν)}

/-- `undoAll` works on the keys of the operations. -/
theorem undoAll_local {W : Set κ} (h : ∀ op ∈ ops, ∀ k ∈ op.keys, k ∈ W) :
    LocalOn W (undoAll ops) :=
  LocalOn.foldl ops fun op hop => (undoRec_local op).mono fun k hk => h op hop k hk

/-! ## The chain of a transaction -/

omit [DecidableEq κ] in
/-- From the record with a number back to the begin of its transaction, with the operations on the
way. -/
inductive Chain (log : List (LogRec κ ν)) : Lsn → List (LogInfo κ ν) → Prop
  | begin {r : LogRec κ ν} (mem : r ∈ log) (info_eq : r.info = .begin) : Chain log r.lsn []
  | write {r : LogRec κ ν} {ops : List (LogInfo κ ν)} (mem : r ∈ log) (info_ne : r.info ≠ .begin)
      (rest : Chain log r.prevLsn ops) : Chain log r.lsn (r.info :: ops)

omit [DecidableEq κ] in
/-- A chain stays where the log grows. -/
theorem Chain.mono {log' : List (LogRec κ ν)} {lsn : Lsn} (h : Chain log lsn ops)
    (hsub : log ⊆ log') : Chain log' lsn ops := by
  induction h with
  | begin mem info_eq => exact .begin (hsub mem) info_eq
  | write mem info_ne _ ih => exact .write (hsub mem) info_ne ih

/-- `UndoTxn` takes the operations of the chain back. -/
theorem Chain.undoLoop {lsn : Lsn} (h : Chain log lsn ops)
    (hlog : log.Pairwise fun r q => r.lsn < q.lsn) {fuel : Nat} (hfuel : ops.length < fuel)
    (d : KvDatabase κ ν) :
    undoLoop log fuel lsn d = some (undoAll ops d) := by
  induction h generalizing fuel d with
  | begin mem info_eq =>
    obtain ⟨fuel, rfl⟩ : ∃ n, fuel = n + 1 := ⟨fuel - 1, by omega⟩
    simp only [RecoveryManager.undoLoop, find?_lsn hlog mem, info_eq]
    rfl
  | @write r ops mem info_ne _ ih =>
    obtain ⟨fuel, rfl⟩ : ∃ n, fuel = n + 1 := ⟨fuel - 1, by omega⟩
    have hlt : ops.length < fuel := by simpa using hfuel
    have hrest := ih hlt (undoRec r.info d)
    simp only [RecoveryManager.undoLoop, find?_lsn hlog mem]
    exact hrest

/-! ## The phases -/

namespace RecoveryManager

variable {m : RecoveryManager κ ν}

/-- `UndoTxn` of a chain of the log. -/
theorem undoTxn_of_chain {lsn : Lsn} {ops : List (LogInfo κ ν)}
    (hlog : m.logRecs.Pairwise fun r q => r.lsn < q.lsn) (h : Chain m.logRecs lsn ops)
    (hshort : ops.length < m.logRecs.length) :
    m.undoTxn lsn = some { m with data := undoAll ops m.data } := by
  rw [undoTxn, h.undoLoop hlog hshort]

/-- `UndoPhase` takes back one chain after the other. -/
theorem undoPhase_of_chains {ops : TxnId × Lsn → List (LogInfo κ ν)}
    (entries : List (TxnId × Lsn)) (m : RecoveryManager κ ν)
    (hlog : m.logRecs.Pairwise fun r q => r.lsn < q.lsn)
    (h : ∀ e ∈ entries, Chain m.logRecs e.2 (ops e) ∧ (ops e).length < m.logRecs.length) :
    m.undoPhase entries =
      some { m with data := entries.foldl (fun d e => undoAll (ops e) d) m.data } := by
  induction entries generalizing m with
  | nil => rfl
  | cons e entries ih =>
    obtain ⟨hchain, hshort⟩ := h e List.mem_cons_self
    rw [undoPhase, undoTxn_of_chain hlog hchain hshort]
    exact ih { m with data := undoAll (ops e) m.data } hlog
      fun e' he' => h e' (List.mem_cons_of_mem e he')

variable [DecidableEq ν] [Inhabited ν]

/-- The body of the loop of `RedoPhase` on a valid operation. -/
theorem redoRec_of_valid {r : LogRec κ ν} (h : r.info.Valid m.data) :
    m.redoRec r = some ((m.assign r.txnId r.lsn).withData (r.info.apply m.data)) := by
  have hdata : (m.assign r.txnId r.lsn).data = m.data := rfl
  unfold redoRec
  generalize r.info = info at h
  cases info with
  | insert insKey insVal =>
    have habsent : m.data insKey = none := h
    simp only [hdata, habsent, emplace_of_none habsent]
    rfl
  | delete delKey delVal =>
    have hthere : m.data delKey = some delVal := h
    simp only [hdata, redoDelete, hthere, ne_eq, not_true_eq_false, if_false]
    rfl
  | update oldKey oldVal newKey newVal =>
    have hfree : erase oldKey m.data newKey = none := by
      by_cases heq : newKey = oldKey
      · rw [heq, erase, Function.update_self]
      · rw [erase, Function.update_of_ne heq]
        exact h.2.resolve_left heq
    simp only [hdata, emplace_of_none hfree]
    rfl
  | _ => exact h.elim

/-- `RedoPhase` starts after the record with the number of the checkpoint. -/
theorem redoPhase_eq {before after : List (LogRec κ ν)} {r : LogRec κ ν}
    (hlog : m.logRecs.Pairwise fun r q => r.lsn < q.lsn) (hsplit : m.logRecs = before ++ r :: after)
    (hlsn : m.persistLsn = r.lsn) :
    m.redoPhase = redoLoop { m with unendedTxn := m.activeTxns } after := by
  rw [hsplit] at hlog
  unfold redoPhase
  simp only [hsplit, hlsn, dropWhile_lsn hlog]

end RecoveryManager

end DisMiniSql.MiniSql.Recovery
