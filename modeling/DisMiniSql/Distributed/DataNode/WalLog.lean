import Mathlib.Data.List.Sort
import DisMiniSql.Distributed.Common.SqlUtils

/-!
# `DisMiniSql.Distributed.DataNode.WalLog`: `WalLog`

The write-ahead log of a data node: the lines of `wal.jsonl` in file order and the index of
`wal-index.json`. Both files are written inside the `synchronized` methods, so each method is
one step. Sequence numbers are natural numbers; they stay below `Long.MAX_VALUE`.

`history` is not in the source. It lists every entry ever appended, also those a compaction
has removed from the file, and nothing reads it.
-/

set_option autoImplicit false

namespace DisMiniSql.Distributed

/-- `WalEntry`, without its time stamp. -/
structure WalEntry where
  sequence : Nat
  /-- `none` is `null`. -/
  requestId : Option String
  shardId : Int
  shardLogIndex : Nat
  sql : String
  deriving DecidableEq, Repr

/-- `requestId == null || requestId.isBlank()`. -/
def blankId : Option String → Bool
  | none => true
  | some r => isBlank r

/-- `WalLog`. -/
structure WalLog where
  walFile : List WalEntry := []
  requestIds : List (Option String) := []
  lastSequence : Nat := 0
  history : List WalEntry := []
  deriving DecidableEq, Repr

namespace WalLog

/-- `WalLog.readAll`: the file, sorted by sequence number. -/
def readAll (w : WalLog) : List WalEntry :=
  w.walFile.insertionSort (fun a b => a.sequence ≤ b.sequence)

/-- `WalLog.findByRequestId`. -/
def findByRequestId (w : WalLog) (requestId : Option String) : Option WalEntry :=
  if blankId requestId then none
  else w.readAll.find? (fun entry => entry.requestId == requestId)

/-- `WalLog.appendRaw`. -/
def appendRaw (w : WalLog) (entry : WalEntry) : WalLog where
  walFile := w.walFile ++ [entry]
  requestIds := w.requestIds.insert entry.requestId
  lastSequence := entry.sequence
  history := w.history ++ [entry]

/-- The entry that `append` makes of a request. -/
def newEntry (w : WalLog) (requestId : Option String) (shardId : Int) (shardLogIndex : Nat)
    (sql : String) : WalEntry where
  sequence := w.lastSequence + 1
  requestId := requestId
  shardId := shardId
  shardLogIndex := shardLogIndex
  sql := SqlUtils.normalize sql

/-- `WalLog.append`. -/
def append (w : WalLog) (requestId : Option String) (shardId : Int) (shardLogIndex : Nat)
    (sql : String) : WalLog × WalEntry :=
  match w.findByRequestId requestId with
  | some existing => (w, existing)
  | none =>
    let entry := w.newEntry requestId shardId shardLogIndex sql
    (w.appendRaw entry, entry)

/-- The entry under which `appendRecovered` stores the entry of a peer. -/
def localEntry (w : WalLog) (peerEntry : WalEntry) : WalEntry where
  sequence := max (w.lastSequence + 1) peerEntry.sequence
  requestId := peerEntry.requestId
  shardId := peerEntry.shardId
  shardLogIndex := peerEntry.shardLogIndex
  sql := SqlUtils.normalize peerEntry.sql

/-- `WalLog.appendRecovered`. -/
def appendRecovered (w : WalLog) (peerEntry : WalEntry) : WalLog × WalEntry :=
  match w.findByRequestId peerEntry.requestId with
  | some existing => (w, existing)
  | none => (w.appendRaw (w.localEntry peerEntry), w.localEntry peerEntry)

/-- `WalLog.advanceLastSequence`. -/
def advanceLastSequence (w : WalLog) (sequence : Nat) : WalLog :=
  if w.lastSequence < sequence then { w with lastSequence := sequence } else w

/-- `WalLog.containsRequestId`. -/
def containsRequestId (w : WalLog) (requestId : Option String) : Bool :=
  w.requestIds.contains requestId || (w.findByRequestId requestId).isSome

/-- `WalLog.pendingAfter`. -/
def pendingAfter (w : WalLog) (sequence : Nat) : List WalEntry :=
  w.readAll.filter (fun entry => sequence < entry.sequence)

/-- `WalLog.compactThrough`: the file keeps the entries after `sequence`, the index keeps
every request id. -/
def compactThrough (w : WalLog) (sequence : Nat) : WalLog :=
  { w with
    walFile := (w.readAll.filter (fun entry => sequence < entry.sequence)).insertionSort
      (fun a b => a.sequence ≤ b.sequence) }

/-- `WalLog.loadIndex`, which the constructor runs on the two files. -/
def loadIndex (w : WalLog) : WalLog :=
  { w with
    lastSequence := w.readAll.foldl (fun last entry => max last entry.sequence) w.lastSequence
    requestIds := ((w.readAll.map (·.requestId)).filter (fun r => !blankId r)).foldl
      (fun ids r => ids.insert r) w.requestIds }

end WalLog

end DisMiniSql.Distributed
