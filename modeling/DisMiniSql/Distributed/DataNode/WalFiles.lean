import DisMiniSql.Distributed.DataNode.Lifecycle

/-!
# `DisMiniSql.Distributed.DataNode.WalFiles`: `WalLog` and its two files

In `WalLog` one method is one step, so the index in memory and `wal-index.json` are the same
thing there. Here the second file has a state of its own: a method writes `wal.jsonl` first and
`wal-index.json` last, and a crash may fall between the two. The write of one file is atomic.

The constructor reads both files. It writes only the index, so a crash inside it leaves the
files as they are.
-/

set_option autoImplicit false

namespace DisMiniSql.Distributed

/-- `WalLog.WalIndex`. -/
structure WalIndex where
  lastSequence : Nat := 0
  requestIds : List (Option String) := []
  deriving DecidableEq, Repr

/-- A `WalLog` and the content of `wal-index.json`, `none` where the file does not exist. -/
structure WalFiles where
  walLog : WalLog := {}
  indexFile : Option WalIndex := none
  deriving DecidableEq, Repr

/-- The methods that write. -/
inductive WalOp
  | append (requestId : Option String) (shardId : Int) (shardLogIndex : Nat) (sql : String)
  | appendRecovered (peerEntry : WalEntry)
  | advanceLastSequence (sequence : Nat)
  | compactThrough (sequence : Nat)
  deriving DecidableEq, Repr

namespace WalOp

/-- What the method does to the log. -/
def apply (w : WalLog) : WalOp → WalLog
  | .append requestId shardId shardLogIndex sql => (w.append requestId shardId shardLogIndex sql).1
  | .appendRecovered peerEntry => (w.appendRecovered peerEntry).1
  | .advanceLastSequence sequence => w.advanceLastSequence sequence
  | .compactThrough sequence => w.compactThrough sequence

/-- Whether the method gets to `persistIndex`. -/
def persists (w : WalLog) : WalOp → Bool
  | .append requestId _ _ _ => (w.findByRequestId requestId).isNone
  | .appendRecovered peerEntry => (w.findByRequestId peerEntry.requestId).isNone
  | .advanceLastSequence sequence => w.lastSequence < sequence
  | .compactThrough _ => true

end WalOp

/-- What happens to a log and its files. -/
inductive WalAction
  | op (o : WalOp)
  /-- The process ends between two methods, and the log is opened again. -/
  | reload
  /-- The process ends inside a method, before the write of `wal-index.json`, and the log is
  opened again. The flag says whether `wal.jsonl` was written. -/
  | crash (o : WalOp) (written : Bool)
  deriving DecidableEq, Repr

namespace WalFiles

/-- `WalLog.persistIndex`. -/
def persistIndex (f : WalFiles) : WalFiles :=
  { f with indexFile := some ⟨f.walLog.lastSequence, f.walLog.requestIds⟩ }

/-- The constructor of `WalLog` on the file of `w`, with the index file. -/
def load (w : WalLog) (indexFile : Option WalIndex) : WalFiles :=
  let index := indexFile.getD {}
  persistIndex
    { walLog := WalLog.loadIndex
        { w with lastSequence := index.lastSequence, requestIds := index.requestIds }
      indexFile := indexFile }

/-- The constructor on an empty directory. -/
def new : WalFiles := load {} none

/-- One step. -/
def step (f : WalFiles) : WalAction → WalFiles
  | .op o =>
    if o.persists f.walLog then persistIndex { f with walLog := o.apply f.walLog } else f
  | .reload => load f.walLog f.indexFile
  | .crash o written => load (if written then o.apply f.walLog else f.walLog) f.indexFile

end WalFiles

/-- What a node does between two moments at which it is idle, with a crash between the two
files of an append. -/
inductive FilesOp
  | op (o : NodeOp)
  /-- The process ends inside `execute`, after `wal.jsonl` was written, and starts again. -/
  | crashInAppend (shardTerm : Int → Option Nat) (request : ExecuteRequest)
      (shardsForNode : List Int) (peers : List (NodeInfo × Option RecoveryState))

/-- One operation of the node. -/
def DataNode.applyFiles (n : DataNode) : FilesOp → DataNode
  | .op o => n.apply o
  | .crashInAppend shardTerm request shardsForNode peers =>
    let n' := (n.logRequest shardTerm request).1
    -- the index on the disk is the one from before the append
    { n' with walLog :=
        { n'.walLog with
          lastSequence := n.walLog.lastSequence
          requestIds := n.walLog.requestIds } }.start shardsForNode peers

end DisMiniSql.Distributed
