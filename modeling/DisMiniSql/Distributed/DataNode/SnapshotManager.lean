import DisMiniSql.Distributed.Common.JavaText
import DisMiniSql.Distributed.DataNode.WalLog

/-!
# `DisMiniSql.Distributed.DataNode.SnapshotManager`: `SnapshotManager`

The snapshot of a data node: `snapshot.json` and `snapshot.sql`. The second file holds one
statement after another as plain lines, so a statement of several lines is read back as
several.

The file has only texts. `Stmt` adds where a text comes from: the request and the shard of the
write that produced it, and its place among the non-blank lines of that statement. No
definition below takes a decision on these labels.

`SnapshotFile` is the same file as a text: what `Files.write` leaves on the disk and what
`Files.readAllLines` makes of it. The line separator of the platform is `"\n"`. A text has no
surrogate without its pair: `WalLog` writes in UTF-8 too, and fails on one.
-/

set_option autoImplicit false

namespace DisMiniSql.Distributed

/-- A statement of a replay list, with the write it comes from. -/
structure Stmt where
  requestId : Option String
  shardId : Int
  /-- 0 for a whole statement and for its first non-blank line. -/
  part : Nat := 0
  sql : String
  deriving DecidableEq, Repr

/-- The statement of a log entry. -/
def WalEntry.stmt (e : WalEntry) : Stmt where
  requestId := e.requestId
  shardId := e.shardId
  sql := e.sql

namespace Stmt

/-- Numbers the lines of a statement from `k` on, blank lines not counted. -/
def number (x : Stmt) : Nat → List (List Char) → List Stmt
  | _, [] => []
  | k, l :: ls =>
    { x with part := k, sql := String.ofList l } ::
      number x (if isBlank (String.ofList l) then k else k + 1) ls

/-- The lines that a statement becomes in `snapshot.sql`. -/
def toLines (x : Stmt) : List Stmt := number x x.part (lines x.sql.toList)

end Stmt

/-- `SnapshotManifest`, without its time stamp and the displayed `shardLogIndexes`. -/
structure SnapshotManifest where
  lastWalSequence : Nat := 0
  lastCompactedWalSequence : Nat := 0
  deriving DecidableEq, Repr

/-- `SnapshotManager`, as its two files. The manifest that `DataNodeServer` keeps in memory is
the one it last saved or loaded. -/
structure SnapshotManager where
  manifestFile : SnapshotManifest := {}
  snapshotSqlFile : List Stmt := []
  deriving DecidableEq, Repr

namespace SnapshotManager

/-- `SnapshotManager.createSnapshot`. -/
def createSnapshot (_m : SnapshotManager) (lastWalSequence : Nat) (appliedSql : List Stmt) :
    SnapshotManager where
  manifestFile :=
    { lastWalSequence := lastWalSequence, lastCompactedWalSequence := lastWalSequence }
  snapshotSqlFile := appliedSql.flatMap Stmt.toLines

/-- `SnapshotManager.snapshotSql`. -/
def snapshotSql (m : SnapshotManager) : List Stmt :=
  m.snapshotSqlFile.filter (fun line => !isBlank line.sql)

/-- `SnapshotManager.markApplied`. -/
def markApplied (m : SnapshotManager) (lastWalSequence : Nat) : SnapshotManager :=
  { m with manifestFile :=
      { m.manifestFile with
        lastWalSequence := max m.manifestFile.lastWalSequence lastWalSequence } }

end SnapshotManager

namespace Text

/-- `Files.write` of lines: a line separator follows each of them. -/
def writeLines (lines : List Text) : Text := lines.flatMap fun line => line ++ ['\n']

/-- `Files.readAllLines`. What follows the last line terminator is a line unless it is empty. -/
def readAllLines (file : Text) : List Text :=
  let pieces := (joinCrLf file).splitOnP isLineTerminator
  if pieces.getLast? = some [] then pieces.dropLast else pieces

/-- `String.isBlank`. -/
def isBlank (s : Text) : Bool := s.all isWhitespace

end Text

/-- The file `snapshot.sql` of a `SnapshotManager`. -/
structure SnapshotFile where
  /-- `none`: the file does not exist. -/
  snapshotSqlFile : Option Text := none
  deriving DecidableEq, Repr

namespace SnapshotFile

/-- `SnapshotManager.createSnapshot`, on the text of the file. -/
def createSnapshot (_m : SnapshotFile) (appliedSql : List Text) : SnapshotFile where
  snapshotSqlFile := some (Text.writeLines appliedSql)

/-- `SnapshotManager.snapshotSql`, from the text of the file. -/
def snapshotSql (m : SnapshotFile) : List Text :=
  match m.snapshotSqlFile with
  | none => []
  | some file => (Text.readAllLines file).filter fun line => !line.isBlank

end SnapshotFile

end DisMiniSql.Distributed
