import DisMiniSql.Lib.Run
import DisMiniSql.Proofs.Recovery.UndoTxn

/-!
# `DisMiniSql.Proofs.Recovery.StrictLog`: what a log says

`Step` is the transaction system that a log records. Its state has the data and, for each active
transaction, the number of its last record, the keys that it wrote and the values that these keys
had before. An abort puts these values back. A step is there only for a record that is valid in the
state, that names the last record of its transaction, and that touches no key which another active
transaction wrote.

`committedOnly` applies the operations of the committed transactions and no other. The two go
together by `Exec.Base`: at every point of the log, the database with the committed operations so
far is the data with the keys of the active transactions that will not commit put back
(`Exec.Base.run`).
-/

set_option autoImplicit false

namespace DisMiniSql.MiniSql.Recovery

open DisMiniSql.Lib

universe u v

variable {κ : Type u} {ν : Type v}

/-! ## The transaction system -/

/-- A transaction that has begun and not ended. -/
structure ActiveTxn (κ : Type u) (ν : Type v) where
  lastLsn : Lsn
  /-- The keys that it touched. -/
  written : List κ
  /-- The values of these keys before. -/
  before : KvDatabase κ ν

/-- The state of the transaction system. -/
structure Exec (κ : Type u) (ν : Type v) where
  data : KvDatabase κ ν
  active : TxnId → Option (ActiveTxn κ ν)

/-- The system before the first record. -/
def Exec.initial (data : KvDatabase κ ν) : Exec κ ν := ⟨data, fun _ => none⟩

variable [DecidableEq κ]

/-- The data with the keys of a transaction put back. -/
def ActiveTxn.rollback (a : ActiveTxn κ ν) (d : KvDatabase κ ν) : KvDatabase κ ν :=
  fun k => if k ∈ a.written then a.before k else d k

/-- The transaction after one more operation, on the data `d`. -/
def ActiveTxn.write (a : ActiveTxn κ ν) (r : LogRec κ ν) (d : KvDatabase κ ν) : ActiveTxn κ ν where
  lastLsn := r.lsn
  written := r.info.keys ++ a.written
  before := a.rollback d

/-- The record `r` as a step of the system. -/
inductive Step : Exec κ ν → LogRec κ ν → Exec κ ν → Prop
  | begin {s : Exec κ ν} {r : LogRec κ ν} (info_eq : r.info = .begin)
      (prev_eq : r.prevLsn = invalidLsn) (inactive : s.active r.txnId = none) :
      Step s r ⟨s.data, Function.update s.active r.txnId (some ⟨r.lsn, [], s.data⟩)⟩
  | write {s : Exec κ ν} {r : LogRec κ ν} {a : ActiveTxn κ ν} (active : s.active r.txnId = some a)
      (prev_eq : r.prevLsn = a.lastLsn) (valid : r.info.Valid s.data)
      (strict : ∀ t b, t ≠ r.txnId → s.active t = some b → ∀ k ∈ r.info.keys, k ∉ b.written) :
      Step s r
        ⟨r.info.apply s.data, Function.update s.active r.txnId (some (a.write r s.data))⟩
  | commit {s : Exec κ ν} {r : LogRec κ ν} {a : ActiveTxn κ ν} (info_eq : r.info = .commit)
      (active : s.active r.txnId = some a) (prev_eq : r.prevLsn = a.lastLsn) :
      Step s r ⟨s.data, Function.update s.active r.txnId none⟩
  | abort {s : Exec κ ν} {r : LogRec κ ν} {a : ActiveTxn κ ν} (info_eq : r.info = .abort)
      (active : s.active r.txnId = some a) (prev_eq : r.prevLsn = a.lastLsn) :
      Step s r ⟨a.rollback s.data, Function.update s.active r.txnId none⟩

/-- A log of a strict run from `data`, with increasing numbers. -/
structure StrictLog (data : KvDatabase κ ν) (log : List (LogRec κ ν)) : Prop where
  run : ∃ s, Steps Step (Exec.initial data) log s
  ordered : log.Pairwise fun r q => r.lsn < q.lsn

/-- The first end of the transaction in these records is a commit. -/
def commitsIn (txnId : TxnId) : List (LogRec κ ν) → Bool
  | [] => false
  | r :: rest =>
    if r.txnId = txnId then
      match r.info with
      | .commit => true
      | .abort => false
      | _ => commitsIn txnId rest
    else commitsIn txnId rest

/-- The operations of the committed transactions, in the order of the log. -/
def committedOnly : List (LogRec κ ν) → KvDatabase κ ν → KvDatabase κ ν
  | [], d => d
  | r :: rest, d => committedOnly rest (if commitsIn r.txnId rest then r.info.apply d else d)

/-! ## Steps -/

/-- A record leads to one state at most. -/
theorem Step.unique {s : Exec κ ν} {r : LogRec κ ν} {s₁ s₂ : Exec κ ν} (h₁ : Step s r s₁)
    (h₂ : Step s r s₂) : s₁ = s₂ := by
  cases h₁ <;> cases h₂ <;> simp_all [LogInfo.Valid]

/-- The keys of two active transactions are different. -/
def Exec.Apart (s : Exec κ ν) : Prop :=
  ∀ t u a b, t ≠ u → s.active t = some a → s.active u = some b → ∀ k ∈ a.written, k ∉ b.written

omit [DecidableEq κ] in
/-- Ending a transaction keeps the others apart. -/
theorem Exec.Apart.remove {s : Exec κ ν} (h : s.Apart) (d : KvDatabase κ ν) (t : TxnId) :
    Exec.Apart ⟨d, Function.update s.active t none⟩ := by
  intro u w a b huw hu hw
  have hut : u ≠ t := fun heq => by simp [heq] at hu
  have hwt : w ≠ t := fun heq => by simp [heq] at hw
  simp only [Function.update_of_ne hut] at hu
  simp only [Function.update_of_ne hwt] at hw
  exact h u w a b huw hu hw

omit [DecidableEq κ] in
/-- Transactions stay apart when the keys of one of them become keys that no other wrote. -/
theorem Exec.Apart.assign {s : Exec κ ν} (h : s.Apart) (d : KvDatabase κ ν) {t : TxnId}
    {c : ActiveTxn κ ν}
    (hc : ∀ u b, u ≠ t → s.active u = some b → ∀ k ∈ c.written, k ∉ b.written) :
    Exec.Apart ⟨d, Function.update s.active t (some c)⟩ := by
  intro u w a b huw hu hw k ha hb
  by_cases hut : u = t
  · subst hut
    have hwu : w ≠ u := fun heq => huw heq.symm
    simp only [Function.update_self, Option.some.injEq] at hu
    simp only [Function.update_of_ne hwu] at hw
    exact hc w b hwu hw k (hu ▸ ha) hb
  · simp only [Function.update_of_ne hut] at hu
    by_cases hwt : w = t
    · subst hwt
      simp only [Function.update_self, Option.some.injEq] at hw
      exact hc u a huw hu k (hw ▸ hb) ha
    · simp only [Function.update_of_ne hwt] at hw
      exact h u w a b huw hu hw k ha hb

/-- Every step keeps the active transactions apart. -/
theorem Exec.Apart.step {s s' : Exec κ ν} {r : LogRec κ ν} (h : s.Apart) (hstep : Step s r s') :
    s'.Apart := by
  cases hstep with
  | begin => exact h.assign s.data fun u b _ _ k hk => absurd hk List.not_mem_nil
  | @write a active prev_eq valid strict =>
    refine h.assign _ fun u b hu hb k hk => ?_
    rcases List.mem_append.mp hk with hkey | hwritten
    · exact strict u b hu hb k hkey
    · exact h r.txnId u a b (fun heq => hu heq.symm) active hb k hwritten
  | commit => exact h.remove s.data r.txnId
  | abort => exact h.remove _ r.txnId

/-! ## The committed operations -/

omit [DecidableEq κ] in
/-- The record of another transaction. -/
theorem commitsIn_of_ne {t : TxnId} {r : LogRec κ ν} (h : r.txnId ≠ t) (rest : List (LogRec κ ν)) :
    commitsIn t (r :: rest) = commitsIn t rest := by
  rw [commitsIn, if_neg h]

omit [DecidableEq κ] in
/-- A record of the transaction that is no end. -/
theorem commitsIn_of_valid {r : LogRec κ ν} {d : KvDatabase κ ν} (h : r.info.Valid d)
    (rest : List (LogRec κ ν)) : commitsIn r.txnId (r :: rest) = commitsIn r.txnId rest := by
  rw [commitsIn, if_pos rfl]
  generalize r.info = info at h
  cases info with
  | insert | delete | update => rfl
  | _ => exact h.elim

/-- `base` is the data without what the active transactions wrote that do not commit in `rest`. -/
structure Exec.Base (s : Exec κ ν) (rest : List (LogRec κ ν)) (base : KvDatabase κ ν) : Prop where
  undone : ∀ t a, s.active t = some a → commitsIn t rest = false →
    ∀ k ∈ a.written, base k = a.before k
  kept : ∀ k, (∀ t a, s.active t = some a → commitsIn t rest = false → k ∉ a.written) →
    base k = s.data k

namespace Exec.Base

variable {s s' : Exec κ ν} {r : LogRec κ ν} {rest : List (LogRec κ ν)} {base : KvDatabase κ ν}

omit [DecidableEq κ] in
/-- Before the first record. -/
theorem initial (d : KvDatabase κ ν) (log : List (LogRec κ ν)) : (Exec.initial d).Base log d where
  undone := fun _ _ h => nomatch h
  kept := fun _ _ => rfl

omit [DecidableEq κ] in
/-- A transaction begins. -/
theorem begin (h : s.Base (r :: rest) base) (hinactive : s.active r.txnId = none) :
    Exec.Base ⟨s.data, Function.update s.active r.txnId (some ⟨r.lsn, [], s.data⟩)⟩ rest base where
  undone := by
    intro t a ha hc k hk
    by_cases ht : t = r.txnId
    · subst ht
      simp only [Function.update_self, Option.some.injEq] at ha
      rw [← ha] at hk
      exact absurd hk List.not_mem_nil
    · simp only [Function.update_of_ne ht] at ha
      exact h.undone t a ha ((commitsIn_of_ne (Ne.symm ht) rest).trans hc) k hk
  kept := by
    intro k hk
    refine h.kept k fun t a ha hc => ?_
    have ht : t ≠ r.txnId := fun heq => by rw [heq, hinactive] at ha; cases ha
    rw [commitsIn_of_ne (Ne.symm ht)] at hc
    exact hk t a (by simpa only [Function.update_of_ne ht] using ha) hc

omit [DecidableEq κ] in
/-- A transaction commits. -/
theorem commit (h : s.Base (r :: rest) base) (hinfo : r.info = .commit) :
    Exec.Base ⟨s.data, Function.update s.active r.txnId none⟩ rest base where
  undone := by
    intro t a ha hc k hk
    have ht : t ≠ r.txnId := fun heq => by simp [heq] at ha
    simp only [Function.update_of_ne ht] at ha
    exact h.undone t a ha ((commitsIn_of_ne (Ne.symm ht) rest).trans hc) k hk
  kept := by
    intro k hk
    refine h.kept k fun t a ha hc => ?_
    have ht : t ≠ r.txnId := by
      intro heq
      rw [heq, commitsIn, if_pos rfl, hinfo] at hc
      exact nomatch hc
    rw [commitsIn_of_ne (Ne.symm ht)] at hc
    exact hk t a (by simpa only [Function.update_of_ne ht] using ha) hc

/-- A transaction aborts. -/
theorem abort (h : s.Base (r :: rest) base) (hinfo : r.info = .abort) {a : ActiveTxn κ ν}
    (hactive : s.active r.txnId = some a) :
    Exec.Base ⟨a.rollback s.data, Function.update s.active r.txnId none⟩ rest base := by
  have hfails : commitsIn r.txnId (r :: rest) = false := by rw [commitsIn, if_pos rfl, hinfo]
  constructor
  · intro t b hb hc k hk
    have ht : t ≠ r.txnId := fun heq => by simp [heq] at hb
    simp only [Function.update_of_ne ht] at hb
    exact h.undone t b hb ((commitsIn_of_ne (Ne.symm ht) rest).trans hc) k hk
  · intro k hk
    show base k = if k ∈ a.written then a.before k else s.data k
    split
    · next hmem => exact h.undone r.txnId a hactive hfails k hmem
    · next hmem =>
      refine h.kept k fun t b hb hc => ?_
      by_cases ht : t = r.txnId
      · subst ht
        rw [hactive, Option.some.injEq] at hb
        exact hb ▸ hmem
      · rw [commitsIn_of_ne (Ne.symm ht)] at hc
        exact hk t b (by simpa only [Function.update_of_ne ht] using hb) hc

/-- An operation of a transaction that commits. -/
theorem write_committed (h : s.Base (r :: rest) base) {a : ActiveTxn κ ν}
    (hvalid : r.info.Valid s.data)
    (hstrict : ∀ t b, t ≠ r.txnId → s.active t = some b → ∀ k ∈ r.info.keys, k ∉ b.written)
    (hcommits : commitsIn r.txnId rest = true) :
    Exec.Base ⟨r.info.apply s.data, Function.update s.active r.txnId (some a)⟩ rest
      (r.info.apply base) := by
  have hlocal : LocalOn {k | k ∈ r.info.keys} r.info.apply := r.info.apply_local
  have hother : ∀ t, commitsIn t (r :: rest) = false → t ≠ r.txnId := by
    intro t hc ht
    rw [ht, commitsIn_of_valid hvalid, hcommits] at hc
    exact nomatch hc
  constructor
  · intro t b hb hc k hk
    have ht : t ≠ r.txnId := fun heq => by rw [heq, hcommits] at hc; cases hc
    simp only [Function.update_of_ne ht] at hb
    have hkey : k ∉ r.info.keys := fun hkey => hstrict t b ht hb k hkey hk
    rw [hlocal.outside base k hkey]
    exact h.undone t b hb ((commitsIn_of_ne (Ne.symm ht) rest).trans hc) k hk
  · intro k hk
    by_cases hkey : k ∈ r.info.keys
    · -- no other transaction wrote these keys, and this one is not undone
      refine hlocal.inside base s.data (fun i hi => h.kept i fun t b hb hc => ?_) k hkey
      exact hstrict t b (hother t hc) hb i hi
    · show r.info.apply base k = r.info.apply s.data k
      rw [hlocal.outside base k hkey, hlocal.outside s.data k hkey]
      refine h.kept k fun t b hb hc => ?_
      have ht : t ≠ r.txnId := hother t hc
      rw [commitsIn_of_ne (Ne.symm ht)] at hc
      exact hk t b (by simpa only [Function.update_of_ne ht] using hb) hc

/-- An operation of a transaction that does not commit. -/
theorem write_undone (h : s.Base (r :: rest) base) {a : ActiveTxn κ ν}
    (hactive : s.active r.txnId = some a) (hvalid : r.info.Valid s.data)
    (hstrict : ∀ t b, t ≠ r.txnId → s.active t = some b → ∀ k ∈ r.info.keys, k ∉ b.written)
    (hfails : commitsIn r.txnId rest = false) :
    Exec.Base
      ⟨r.info.apply s.data, Function.update s.active r.txnId (some (a.write r s.data))⟩ rest
      base := by
  have hlocal : LocalOn {k | k ∈ r.info.keys} r.info.apply := r.info.apply_local
  have hfails' : commitsIn r.txnId (r :: rest) = false :=
    (commitsIn_of_valid hvalid rest).trans hfails
  constructor
  · intro t b hb hc k hk
    by_cases ht : t = r.txnId
    · subst ht
      simp only [Function.update_self, Option.some.injEq] at hb
      subst hb
      show base k = if k ∈ a.written then a.before k else s.data k
      split
      · next hmem => exact h.undone r.txnId a hactive hfails' k hmem
      · next hmem =>
        have hkey : k ∈ r.info.keys := (List.mem_append.mp hk).resolve_right hmem
        refine h.kept k fun u c hc _ => ?_
        by_cases hu : u = r.txnId
        · subst hu
          rw [hactive, Option.some.injEq] at hc
          exact hc ▸ hmem
        · exact hstrict u c hu hc k hkey
    · simp only [Function.update_of_ne ht] at hb
      exact h.undone t b hb ((commitsIn_of_ne (Ne.symm ht) rest).trans hc) k hk
  · intro k hk
    have hown : k ∉ r.info.keys ++ a.written :=
      hk r.txnId (a.write r s.data) (Function.update_self _ _ _) hfails
    rw [List.mem_append, not_or] at hown
    show base k = r.info.apply s.data k
    rw [hlocal.outside s.data k hown.1]
    refine h.kept k fun t b hb hc => ?_
    by_cases ht : t = r.txnId
    · subst ht
      rw [hactive, Option.some.injEq] at hb
      exact hb ▸ hown.2
    · rw [commitsIn_of_ne (Ne.symm ht)] at hc
      exact hk t b (by simpa only [Function.update_of_ne ht] using hb) hc

/-- One record, in the system and in the database of the committed operations. -/
theorem step (h : s.Base (r :: rest) base) (hstep : Step s r s') :
    s'.Base rest (if commitsIn r.txnId rest then r.info.apply base else base) := by
  -- a record without an operation changes nothing on the side of the committed operations
  have hskip : ∀ b : Bool, r.info.apply base = base →
      (if b then r.info.apply base else base) = base := by
    intro b hb
    rw [hb, ite_self]
  cases hstep with
  | begin info_eq prev_eq inactive =>
    rw [hskip _ (by rw [info_eq]; rfl)]
    exact h.begin inactive
  | write active prev_eq valid strict =>
    cases hc : commitsIn r.txnId rest with
    | true => exact h.write_committed valid strict hc
    | false => exact h.write_undone active valid strict hc
  | commit info_eq active prev_eq =>
    rw [hskip _ (by rw [info_eq]; rfl)]
    exact h.commit info_eq
  | abort info_eq active prev_eq =>
    rw [hskip _ (by rw [info_eq]; rfl)]
    exact h.abort info_eq active

/-- A run, in the system and in the database of the committed operations. -/
theorem run {log : List (LogRec κ ν)} (hrun : Steps Step s log s') (h : s.Base log base) :
    s'.Base [] (committedOnly log base) := by
  induction hrun generalizing base with
  | nil s => exact h
  | cons hstep _ ih => exact ih (h.step hstep)

end Exec.Base

end DisMiniSql.MiniSql.Recovery
