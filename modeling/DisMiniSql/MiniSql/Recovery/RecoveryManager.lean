import Mathlib.Algebra.Group.Int.Defs
import Mathlib.Algebra.Group.Nat.Defs
import Mathlib.Logic.Function.Basic
import Mathlib.Order.Lattice
import DisMiniSql.MiniSql.Config

/-!
# `DisMiniSql.MiniSql.Recovery.RecoveryManager`: the log and the recovery manager

`log_rec.h` makes the records of the log, with the numbers of the record itself and of the record
before it in the same transaction. `recovery_manager.h` starts from a checkpoint, repeats the
records after it (`RedoPhase`) and rolls back the transactions without an end (`UndoPhase`).

A `std::map` is the list of its values in the order of the keys, an `std::unordered_map` that the
code iterates is a list of entries. A null pointer, `exit(1)` and a loop that does not end are
`none`.
-/

set_option autoImplicit false

namespace DisMiniSql.MiniSql.Recovery

universe u v

/-- `lsn_t`. -/
abbrev Lsn := Int

/-- `txn_id_t`. -/
abbrev TxnId := Int

/-- `INVALID_LSN`. -/
def invalidLsn : Lsn := -1

/-- `KvDatabase`. -/
abbrev KvDatabase (κ : Type u) (ν : Type v) := κ → Option ν

/-- `LogRecType` with the `LogInfo` that belongs to it. -/
inductive LogInfo (κ : Type u) (ν : Type v)
  | invalid
  | insert (insKey : κ) (insVal : ν)
  | delete (delKey : κ) (delVal : ν)
  | update (oldKey : κ) (oldVal : ν) (newKey : κ) (newVal : ν)
  | begin
  | commit
  | abort
  deriving DecidableEq

/-- `LogRec`. -/
structure LogRec (κ : Type u) (ν : Type v) where
  lsn : Lsn
  prevLsn : Lsn
  txnId : TxnId
  info : LogInfo κ ν
  deriving DecidableEq

variable {κ : Type u} {ν : Type v}

/-! ## `LogRec`: the making of records -/

/-- `lsn + 1` in an `int32_t`, which wraps after `2 ^ 31 - 1`. -/
def Lsn.succ (lsn : Lsn) : Lsn := Int.bmod (lsn + 1) (2 ^ 32)

/-- The static members `next_lsn_` and `prev_lsn_map_`. -/
structure LogCounters where
  nextLsn : Lsn
  prevLsnMap : TxnId → Lsn

/-- The counters of a process that has made no record. A missing entry of the map reads as 0. -/
def LogCounters.initial : LogCounters := ⟨0, fun _ => 0⟩

/-- The constructor `LogRec::LogRec`, followed by the assignment of `log_info`. -/
def LogCounters.create (c : LogCounters) (txnId : TxnId) (info : LogInfo κ ν) :
    LogRec κ ν × LogCounters :=
  let prevLsn :=
    match info with
    | .begin => invalidLsn
    | _ => c.prevLsnMap txnId
  (⟨c.nextLsn, prevLsn, txnId, info⟩,
    ⟨c.nextLsn.succ, Function.update c.prevLsnMap txnId c.nextLsn⟩)

/-- The records of a sequence of calls of `CreateBeginLog`, `CreateInsertLog` and the others. -/
def LogCounters.createAll (c : LogCounters) : List (TxnId × LogInfo κ ν) → List (LogRec κ ν)
  | [] => []
  | (txnId, info) :: calls =>
    let result := c.create txnId info
    result.1 :: result.2.createAll calls

/-! ## Operations of the maps -/

section Maps

variable [DecidableEq κ]

/-- `data_.erase(key)`. -/
def erase (key : κ) (data : KvDatabase κ ν) : KvDatabase κ ν := Function.update data key none

/-- `data_.emplace(key, val)`, which leaves an entry that is there. -/
def emplace (key : κ) (val : ν) (data : KvDatabase κ ν) : KvDatabase κ ν :=
  match data key with
  | some _ => data
  | none => Function.update data key (some val)

end Maps

/-- `unendedTxn[txn_id] = lsn`. -/
def assignTxn (txnId : TxnId) (lsn : Lsn) (txns : List (TxnId × Lsn)) : List (TxnId × Lsn) :=
  (txnId, lsn) :: txns.filter fun e => e.1 ≠ txnId

/-- `unendedTxn.erase(txn_id)`. -/
def eraseTxn (txnId : TxnId) (txns : List (TxnId × Lsn)) : List (TxnId × Lsn) :=
  txns.filter fun e => e.1 ≠ txnId

/-- `log_recs_.emplace(lsn, log_rec)`. -/
def emplaceRec (logRec : LogRec κ ν) : List (LogRec κ ν) → List (LogRec κ ν)
  | [] => [logRec]
  | r :: rest =>
    if logRec.lsn < r.lsn then logRec :: r :: rest
    else if logRec.lsn = r.lsn then r :: rest
    else r :: emplaceRec logRec rest

/-! ## `RecoveryManager` -/

/-- `CheckPoint`. -/
structure CheckPoint (κ : Type u) (ν : Type v) where
  checkpointLsn : Lsn
  activeTxns : List (TxnId × Lsn)
  persistData : KvDatabase κ ν

/-- `RecoveryManager`. -/
structure RecoveryManager (κ : Type u) (ν : Type v) where
  logRecs : List (LogRec κ ν)
  persistLsn : Lsn
  activeTxns : List (TxnId × Lsn)
  unendedTxn : List (TxnId × Lsn)
  data : KvDatabase κ ν

namespace RecoveryManager

/-- The manager without records. -/
def new : RecoveryManager κ ν := ⟨[], invalidLsn, [], [], fun _ => none⟩

/-- `RecoveryManager::Init`. -/
def init (m : RecoveryManager κ ν) (lastCheckpoint : CheckPoint κ ν) : RecoveryManager κ ν :=
  { m with
    persistLsn := lastCheckpoint.checkpointLsn
    activeTxns := lastCheckpoint.activeTxns
    data := lastCheckpoint.persistData }

/-- `RecoveryManager::AppendLogRec`. -/
def appendLogRec (m : RecoveryManager κ ν) (logRec : LogRec κ ν) : RecoveryManager κ ν :=
  { m with logRecs := emplaceRec logRec m.logRecs }

/-- `AppendLogRec` for each record of a list. -/
def appendLogRecs (m : RecoveryManager κ ν) (log : List (LogRec κ ν)) : RecoveryManager κ ν :=
  log.foldl appendLogRec m

variable [DecidableEq κ]

/-- The body of the loop of `UndoTxn`, for the record `log_rec`. -/
def undoRec (info : LogInfo κ ν) (data : KvDatabase κ ν) : KvDatabase κ ν :=
  match info with
  | .update oldKey oldVal newKey _ => emplace oldKey oldVal (erase newKey data)
  | .delete delKey delVal =>
    match data delKey with
    | some _ => data
    | none => emplace delKey delVal data
  | .insert insKey _ =>
    match data insKey with
    | none => data
    | some _ => erase insKey data
  | _ => data

/-- The loop of `UndoTxn`, from the record `lastLsn` back to a `kBegin`. -/
def undoLoop (logRecs : List (LogRec κ ν)) :
    Nat → Lsn → KvDatabase κ ν → Option (KvDatabase κ ν)
  | 0, _, _ => none
  | fuel + 1, lastLsn, data =>
    match logRecs.find? fun r => r.lsn = lastLsn with
    | none => none
    | some logRec =>
      match logRec.info with
      | .begin => some data
      | info => undoLoop logRecs fuel logRec.prevLsn (undoRec info data)

/-- `RecoveryManager::UndoTxn`. A walk of more steps than there are records comes to one of them
twice and does not end. -/
def undoTxn (m : RecoveryManager κ ν) (lastLsn : Lsn) : Option (RecoveryManager κ ν) :=
  match undoLoop m.logRecs m.logRecs.length lastLsn m.data with
  | none => none
  | some data => some { m with data := data }

/-- `unendedTxn[txn_id] = lsn` on the manager. -/
def assign (m : RecoveryManager κ ν) (txnId : TxnId) (lsn : Lsn) : RecoveryManager κ ν :=
  { m with unendedTxn := assignTxn txnId lsn m.unendedTxn }

/-- `unendedTxn.erase(txn_id)` on the manager. -/
def endTxn (m : RecoveryManager κ ν) (txnId : TxnId) : RecoveryManager κ ν :=
  { m with unendedTxn := eraseTxn txnId m.unendedTxn }

/-- `data_` after `f`. -/
def withData (m : RecoveryManager κ ν) (data : KvDatabase κ ν) : RecoveryManager κ ν :=
  { m with data := data }

variable [DecidableEq ν] [Inhabited ν]

/-- The `kDelete` branch of `RedoPhase`. `data_[del_key]` makes an entry where there is none, and it
stays there when the value differs. -/
def redoDelete (delKey : κ) (delVal : ν) (data : KvDatabase κ ν) : KvDatabase κ ν :=
  let read :=
    match data delKey with
    | some _ => data
    | none => Function.update data delKey (some default)
  if read delKey ≠ some delVal then read else erase delKey read

/-- The body of the loop of `RedoPhase`. -/
def redoRec (m : RecoveryManager κ ν) (logRec : LogRec κ ν) : Option (RecoveryManager κ ν) :=
  let m := m.assign logRec.txnId logRec.lsn
  match logRec.info with
  | .commit => some (m.endTxn logRec.txnId)
  | .abort =>
    match m.undoTxn logRec.prevLsn with
    | none => none
    | some m => some (m.endTxn logRec.txnId)
  | .update oldKey _ newKey newVal =>
    some (m.withData (emplace newKey newVal (erase oldKey m.data)))
  | .delete delKey delVal => some (m.withData (redoDelete delKey delVal m.data))
  | .insert insKey insVal =>
    match m.data insKey with
    | some _ => none
    | none => some (m.withData (emplace insKey insVal m.data))
  | .invalid => none
  | .begin => some m

/-- The loop of `RedoPhase` over the records that are left. -/
def redoLoop (m : RecoveryManager κ ν) : List (LogRec κ ν) → Option (RecoveryManager κ ν)
  | [] => some m
  | logRec :: rest =>
    match m.redoRec logRec with
    | none => none
    | some m => redoLoop m rest

/-- `RecoveryManager::RedoPhase`. The iterator after the end of the map is `none`. -/
def redoPhase (m : RecoveryManager κ ν) : Option (RecoveryManager κ ν) :=
  let m := { m with unendedTxn := m.activeTxns }
  match m.logRecs.dropWhile fun r => r.lsn ≠ m.persistLsn with
  | [] => none
  | _ :: rest => m.redoLoop rest

omit [DecidableEq ν] [Inhabited ν] in
/-- The loop of `RecoveryManager::UndoPhase` over the entries of `unendedTxn`, in the order in which
the map gives them. -/
def undoPhase (m : RecoveryManager κ ν) : List (TxnId × Lsn) → Option (RecoveryManager κ ν)
  | [] => some m
  | (_, lastLsn) :: entries =>
    match m.undoTxn lastLsn with
    | none => none
    | some m => undoPhase m entries

end RecoveryManager

end DisMiniSql.MiniSql.Recovery
