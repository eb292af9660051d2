import Mathlib.Data.List.DropRight

/-!
# `DisMiniSql.Distributed.Common.SqlUtils`: `SqlUtils`

The part of `common/SqlUtils.java` that the coordinator and the data nodes run on every
statement: `normalize`, `firstKeyword` and the two routing tests. Java's `String.trim`,
`String.isBlank` and the line splitting of `Files.readAllLines` stand beside them, over the
characters of the text.

A `null` text is the empty one: `normalize` maps both to `""`.
-/

set_option autoImplicit false

namespace DisMiniSql.Distributed

/-- A property of all characters of a text is decided along the text. -/
instance (priority := 2000) decidableForallChar (p : Char → Prop) [DecidablePred p]
    (s : List Char) : Decidable (∀ c ∈ s, p c) :=
  List.decidableBAll p s

/-- `Character.isWhitespace`: the separators that are not non-breaking, and the controls
U+0009 to U+000D and U+001C to U+001F. -/
def isWhitespace (c : Char) : Bool :=
  (9 ≤ c.toNat && c.toNat ≤ 13) || (28 ≤ c.toNat && c.toNat ≤ 32) || c.toNat == 0x1680 ||
    (0x2000 ≤ c.toNat && c.toNat ≤ 0x200A && c.toNat != 0x2007) ||
    c.toNat == 0x2028 || c.toNat == 0x2029 || c.toNat == 0x205F || c.toNat == 0x3000

/-- `String.isBlank`. -/
def isBlank (s : String) : Bool := s.toList.all isWhitespace

/-- The characters at which `Files.readAllLines` ends a line. The pair `"\r\n"` ends one line
there and two here; the second one is empty, and the only reader drops blank lines. -/
def isLineTerminator (c : Char) : Bool := c == '\n' || c == '\r'

/-- The lines of a text. -/
def lines : List Char → List (List Char)
  | [] => [[]]
  | c :: cs =>
    if isLineTerminator c then [] :: lines cs else (lines cs).modifyHead (c :: ·)

namespace SqlUtils

/-- What `String.trim` drops at both ends. -/
def isTrimmed (c : Char) : Bool := c.toNat ≤ 32

/-- `String.trim`. -/
def trim (s : List Char) : List Char := (s.dropWhile isTrimmed).rdropWhile isTrimmed

/-- `SqlUtils.normalize` on the characters of a statement. -/
def normalizeChars (sql : List Char) : List Char :=
  let trimmed := trim sql
  if trimmed = [] then []
  else if trimmed.getLast? = some ';' then trimmed
  else trimmed ++ [';']

/-- `SqlUtils.normalize`. -/
def normalize (sql : String) : String := String.ofList (normalizeChars sql.toList)

/-- `SqlUtils.firstKeyword`. Lower-casing is that of the ASCII letters: the words the result is
compared with have no letter that a character outside ASCII is lower-cased to. -/
def firstKeyword (sql : String) : String :=
  String.ofList
    (((sql.toList.dropWhile isWhitespace).map Char.toLower).takeWhile (fun c => c != ' '))

/-- `SqlUtils.isReadOnly`. -/
def isReadOnly (sql : String) : Bool :=
  let op := firstKeyword sql
  op == "select" || op == "show" || op == "desc" || op == "describe"

/-- `SqlUtils.isBroadcastDdl`. -/
def isBroadcastDdl (sql : String) : Bool :=
  let op := firstKeyword sql
  op == "create" || op == "drop"

end SqlUtils

end DisMiniSql.Distributed
