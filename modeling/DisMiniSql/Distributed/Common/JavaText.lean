import DisMiniSql.Distributed.Common.SqlUtils
import DisMiniSql.Lib.Regex

/-!
# `DisMiniSql.Distributed.Common.JavaText`: `java.lang.String`

The string methods that the query code of the coordinator runs, over the characters of a text. A
character outside the basic plane is two `char`s, so `length16` and the order of `compareTo` are
those of the UTF-16 code units.

The case tables of Unicode are a parameter: `fold` maps a character to
`Character.toLowerCase(Character.toUpperCase(c))`.

The patterns of `java.util.regex` are `Lib.Regex` over the characters. `CASE_INSENSITIVE` is about
the ASCII letters, and `^` and `$` add nothing to a pattern that has to match a whole text.
-/

set_option autoImplicit false

namespace DisMiniSql.Distributed

/-- The characters of a `String`. -/
abbrev Text := List Char

namespace Text

/-- The `char`s of a character. -/
def units (c : Char) : List Nat :=
  if c.toNat < 0x10000 then [c.toNat]
  else [0xD800 + (c.toNat - 0x10000) / 0x400, 0xDC00 + (c.toNat - 0x10000) % 0x400]

/-- The `char`s of a text. -/
def utf16 (s : Text) : List Nat := s.flatMap units

/-- `String.length`. -/
def length16 (s : Text) : Nat := s.utf16.length

/-- `String.equalsIgnoreCase`. -/
def equalsIgnoreCase (fold : Char → Char) (s t : Text) : Bool := s.map fold == t.map fold

/-- The difference of two `char`s. -/
def compareUnits (a b : Nat) : Ordering := if a < b then .lt else if a = b then .eq else .gt

/-- `String.compareTo`, up to the size of the result. -/
def compareTo (s t : Text) : Ordering := List.compareLex compareUnits s.utf16 t.utf16

/-- `String.join`. -/
def join (delimiter : Text) (parts : List Text) : Text := delimiter.intercalate parts

/-- `String.split` at single characters. Empty pieces at the end are dropped; a text without a
separator is its own only piece. -/
def split (isSeparator : Char → Bool) (s : Text) : List Text :=
  match s.splitOnP isSeparator with
  | [piece] => [piece]
  | pieces => pieces.rdropWhile List.isEmpty

/-- The single characters of the linebreak matcher `\R`. -/
def isLineBreak (c : Char) : Bool :=
  (10 ≤ c.toNat && c.toNat ≤ 13) || c.toNat == 0x85 || c.toNat == 0x2028 || c.toNat == 0x2029

/-- `\R` takes the pair `"\r\n"` as one break. -/
def joinCrLf : Text → Text
  | [] => []
  | [c] => [c]
  | c :: d :: s => if c = '\r' ∧ d = '\n' then '\n' :: joinCrLf s else c :: joinCrLf (d :: s)

/-- `split("\\R")`. -/
def splitLines (s : Text) : List Text := (joinCrLf s).split isLineBreak

/-! ### Patterns -/

/-- `\s`. -/
def isSpace (c : Char) : Bool := c == ' ' || (9 ≤ c.toNat && c.toNat ≤ 13)

/-- `\w`. -/
def isWord (c : Char) : Bool := c.isAlphanum || c == '_'

/-- `\s*`. -/
def spaces : Lib.Regex Char := .many isSpace

/-- `\s+`. -/
def spaces1 : Lib.Regex Char := .plus isSpace

/-- A single character. -/
def char (c : Char) : Lib.Regex Char := .one (· == c)

/-- A word in lower case, with `CASE_INSENSITIVE`. -/
def word (w : String) : Lib.Regex Char := .all (w.toList.map fun c => .one (·.toLower == c))

end Text

end DisMiniSql.Distributed
