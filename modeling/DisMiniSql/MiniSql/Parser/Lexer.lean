import Mathlib.Data.List.Basic

/-!
# `DisMiniSql.MiniSql.Parser.Lexer`: the tokens of a statement

`parser/minisql.l` over the characters of a text. Of the rules that match, the one that takes most
characters wins, and the first one among those. A character that no rule takes is an error of the
whole statement, and the scanner goes on after it.

Of the grammar in `parser/minisql.y`, `sql_insert` stands here.
-/

set_option autoImplicit false

namespace DisMiniSql.MiniSql

/-- A token. -/
inductive Token
  /-- One of the words of the language. -/
  | keyword (word : List Char)
  /-- `IDENTIFIER` -/
  | identifier (name : List Char)
  /-- `STRING`, without the quotes around it. -/
  | string (content : List Char)
  /-- `NUMBER` -/
  | number (text : List Char)
  /-- An operator or a mark. -/
  | symbol (text : List Char)
  /-- The rule `.`. -/
  | unrecognized (c : Char)
  deriving DecidableEq, Repr

/-- `yytext`. -/
def Token.text : Token → List Char
  | keyword word => word
  | identifier name => name
  | string content => '"' :: content ++ ['"']
  | number text => text
  | symbol text => text
  | unrecognized c => [c]

namespace Lexer

/-- `{L}`. -/
def isLetter (c : Char) : Bool := c.isAlpha || c == '_'

/-- `{LD}`. -/
def isLetterOrDigit (c : Char) : Bool := isLetter c || c.isDigit

/-- The rule without a token. -/
def isLayout (c : Char) : Bool :=
  c == ' ' || c == '\t' || c == '\u000b' || c == '\n' || c == '\u000c'

/-- The words of the language. -/
def keywords : List String :=
  ["create", "drop", "select", "insert", "delete", "update", "begin", "commit", "rollback", "quit",
    "execfile", "show", "use", "using", "database", "databases", "table", "tables", "index",
    "indexes", "on", "from", "where", "into", "set", "values", "primary", "key", "unique", "char",
    "int", "float", "and", "or", "not", "is", "null"]

/-- The token of a word. -/
def ofWord (word : List Char) : Token :=
  if keywords.any (fun w => w.toList == word) then .keyword word else .identifier word

/-- A string after its first quote: what is in it, and what comes after it. A backslash takes the
next character of the line with it. -/
def scanString : List Char → Option (List Char × List Char)
  | [] => none
  | [c] => if c = '"' then some ([], []) else none
  | c :: d :: s =>
    if c = '"' then some ([], d :: s)
    else if c = '\\' then
      if d = '\n' then none else (scanString s).map fun (content, rest) => (c :: d :: content, rest)
    else (scanString (d :: s)).map fun (content, rest) => (c :: content, rest)

/-- The fraction of a number. -/
def scanFraction : List Char → Option (List Char × List Char)
  | [] => none
  | c :: s =>
    let digits := s.takeWhile Char.isDigit
    if c = '.' ∧ digits ≠ [] then some (c :: digits, s.dropWhile Char.isDigit) else none

/-- The digits of a number, and its fraction if there is one. -/
def scanDigits (s : List Char) : List Char × List Char :=
  let digits := s.takeWhile Char.isDigit
  let rest := s.dropWhile Char.isDigit
  match scanFraction rest with
  | some (fraction, rest) => (digits ++ fraction, rest)
  | none => (digits, rest)

/-- A number. -/
def scanNumber : List Char → List Char × List Char
  | [] => ([], [])
  | c :: s =>
    if c = '-' then
      let (text, rest) := scanDigits s
      (c :: text, rest)
    else scanDigits (c :: s)

/-- The operators and marks of one character. -/
def marks : List Char := ['=', ',', '*', ';', '\'', '<', '>', '(', ')']

/-- An operator, a mark, or a character that no rule takes. -/
def scanSymbol (c : Char) : List Char → Token × List Char
  | [] => if c ∈ marks then (.symbol [c], []) else (.unrecognized c, [])
  | d :: s =>
    if [c, d] = ['<', '>'] ∨ [c, d] = ['<', '='] ∨ [c, d] = ['>', '='] then (.symbol [c, d], s)
    else if c ∈ marks then (.symbol [c], d :: s)
    else (.unrecognized c, d :: s)

/-- The token that starts with a character that is not layout, and what comes after it. -/
def token (c : Char) (s : List Char) : Token × List Char :=
  if isLetter c then
    (ofWord (c :: s.takeWhile isLetterOrDigit), s.dropWhile isLetterOrDigit)
  else if c = '"' then
    match scanString s with
    | some (content, rest) => (.string content, rest)
    | none => (.unrecognized c, s)
  else
    match scanNumber (c :: s) with
    | ([], _) => scanSymbol c s
    | (d :: text, rest) => (.number (d :: text), rest)

/-- The tokens of a text, for a bound on its length. -/
def lexUpTo : Nat → List Char → List Token
  | _, [] => []
  | 0, _ => []
  | n + 1, c :: s =>
    if isLayout c then lexUpTo n s
    else
      let (t, rest) := token c s
      t :: lexUpTo n rest

/-- `yylex`, up to the end of the text. -/
def lex (s : List Char) : List Token := lexUpTo s.length s

/-- The first token that the parser is given: a character that no rule takes is none. -/
def firstToken (s : List Char) : Option Token :=
  (lex s).find? fun
    | .unrecognized _ => false
    | _ => true

end Lexer

/-! ### `sql_insert` -/

/-- `column_value`. -/
inductive Literal
  | string (content : List Char)
  | number (text : List Char)
  | null
  deriving DecidableEq, Repr

/-- The value of a literal that is not `null`, as the text of its syntax node. -/
def Literal.value : Literal → Option (List Char)
  | string content => some content
  | number text => some text
  | null => none

/-- `kNodeInsert`. -/
structure InsertStatement where
  table : List Char
  first : Literal
  further : List Literal
  deriving DecidableEq, Repr

namespace Grammar

open Lexer (lex)

/-- A word of the language. -/
def keyword (w : String) : Token := .keyword w.toList

/-- A mark. -/
def mark (c : Char) : Token := .symbol [c]

/-- `column_value`. -/
def columnValue : Token → Option Literal
  | .string content => some (.string content)
  | .number text => some (.number text)
  | t => if t = keyword "null" then some .null else none

/-- The values after the first one, and the tokens after them. -/
def furtherValues : List Token → Option (List Literal × List Token)
  | comma :: t :: ts =>
    if comma = mark ',' then do
      let value ← columnValue t
      let (values, rest) ← furtherValues ts
      some (value :: values, rest)
    else some ([], comma :: t :: ts)
  | ts => some ([], ts)

/-- `sql_insert`, with the semicolon of `start`. -/
def insertStatement : List Token → Option InsertStatement
  | insert :: into :: .identifier table :: values :: openParen :: first :: ts =>
    if insert = keyword "insert" ∧ into = keyword "into" ∧ values = keyword "values" ∧
        openParen = mark '(' then do
      let first ← columnValue first
      let (further, rest) ← furtherValues ts
      if rest = [mark ')', mark ';'] then
        some { table := table, first := first, further := further }
      else none
    else none
  | _ => none

/-- The statement is accepted as an `insert`. -/
def parseInsert (sql : List Char) : Option InsertStatement := insertStatement (lex sql)

example : (parseInsert "insert into t values(\"a, b\", -1.5, null);".toList).map (·.further) =
    some [.number "-1.5".toList, .null] := by
  decide +kernel

end Grammar

end DisMiniSql.MiniSql
