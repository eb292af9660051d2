import DisMiniSql.Distributed.Common.JavaText

/-!
# `DisMiniSql.Distributed.Common.ShardKey`: from a statement to a shard

The part of `common/SqlUtils.java` that finds the shard of a statement. `sha256` is a parameter: the
32 bytes of the digest of a text.
-/

set_option autoImplicit false

namespace DisMiniSql.Distributed

namespace SqlUtils

open Lib (Regex)
open Text (spaces spaces1 char word isWord)

/-- `SqlUtils.hashToShard`: the first four bytes of the digest are an `int`. -/
def hashToShard (sha256 : Text → Vector (BitVec 8) 32) (key : Text) (shardCount : Int) :
    Except String Int :=
  if shardCount ≤ 0 then .error "shardCount must be positive"
  else
    let digest := sha256 key
    let value : BitVec 32 := digest[0] ++ digest[1] ++ digest[2] ++ digest[3]
    .ok (value.toInt.fmod shardCount)

/-- The shard key of a request, when there is one that is not blank. -/
def explicitKey (shardKey : Option Text) : Option Text :=
  shardKey.filter fun key => !key.all isWhitespace

/-- `SqlUtils.INSERT_VALUES`. -/
def INSERT_VALUES : Regex Char :=
  .all [spaces, word "insert", spaces1, word "into", spaces1,
    .group 1 (.seq (.one fun c => c.isAlpha || c == '_') (.many isWord)), spaces1, word "values",
    spaces, char '(', .group 2 (.many fun _ => true), char ')', spaces, .opt (char ';'), spaces]

/-- `['"]`. -/
def isQuote (c : Char) : Bool := c == '\'' || c == '"'

/-- The pattern `^['"]`, replaced by nothing. -/
def dropFirstQuote : Text → Text
  | [] => []
  | c :: s => if isQuote c then s else c :: s

/-- The pattern `['"]$`, replaced by nothing. The pattern matches before a line terminator at the
end as well; a trimmed text ends with none but these three. -/
def dropLastQuote (s : Text) : Text :=
  match s.reverse with
  | [] => []
  | [c] => if isQuote c then [] else [c]
  | c :: d :: rest =>
    if isQuote c then (d :: rest).reverse
    else if c ∈ ['\u0085', '\u2028', '\u2029'] ∧ isQuote d then (c :: rest).reverse
    else s

/-- `SqlUtils.inferShardKey`. -/
def inferShardKey (sql : Text) : Option Text :=
  match INSERT_VALUES.matchAll sql with
  | none => none
  | some groups =>
    let values := (groups.get 2).getD []
    let firstValue := values.takeWhile fun c => c != ','
    some (dropLastQuote (dropFirstQuote (trim firstValue)))

end SqlUtils

/-- The start of `CoordinatorServer.routedWrite`: the shard of a write. -/
def shardOfWrite (sha256 : Text → Vector (BitVec 8) 32) (shardCount : Int) (sql : Text)
    (explicitShardKey : Option Text) : Except String Int :=
  let noKey :=
    "No shard key provided. Put the shard key as first INSERT value or pass shardKey."
  let shardKey :=
    match SqlUtils.explicitKey explicitShardKey with
    | some key => some key
    | none => SqlUtils.inferShardKey sql
  match shardKey with
  | none => .error noKey
  | some key =>
    if key.all isWhitespace then .error noKey
    else SqlUtils.hashToShard sha256 key shardCount

end DisMiniSql.Distributed
