import DisMiniSql.Distributed.MiniSql.MiniSqlEngine
import DisMiniSql.MiniSql.Executor.ExecuteEngine
import DisMiniSql.MiniSql.Parser.Lexer

/-!
# `DisMiniSql.Distributed.MiniSql.ReplFraming`: statements and answers on the pipes

`MiniSqlEngine.runStatement` writes a statement and a line break to the input of MiniSQL, and reads
its output up to the first end marker. The `--repl` loop of `main.cpp` takes one line after another
and prints an end marker after each of them that is not empty. What is printed and not read stays on
the pipe for the next call. A pipe keeps the order, so it does not matter how far MiniSQL has got
when a call reads. The engine behind the pipe has no `execfile`, so no line here is one.
-/

set_option autoImplicit false

namespace DisMiniSql.Distributed

open DisMiniSql.MiniSql (SyntaxNode DBStorageEngine ExecuteEngine)

variable {τ : Type}

/-- The parts of MiniSQL that are not modelled: the parser, the tables, and what is printed. -/
structure Repl (τ : Type) where
  parse : String → Option SyntaxNode
  db : DBStorageEngine τ
  print : ExecuteEngine τ → String → String
  /-- The message of the exception where the process ends on a statement. -/
  crash : ExecuteEngine τ → String → String

/-- What comes back for a line. -/
inductive ReplAnswer (τ : Type)
  /-- The text before the end marker, and MiniSQL afterwards; `none` after `quit`. -/
  | printed (output : String) (next : Option (ExecuteEngine τ))
  | ended (message : String)
  /-- An empty line is skipped, and there is no marker. -/
  | silent

/-- A round of the `--repl` loop of `main.cpp`. -/
def Repl.answer (m : Repl τ) (s : ExecuteEngine τ) (line : String) : ReplAnswer τ :=
  if line = "" then .silent
  else if ExecuteEngine.command m.parse line = some .quit ∧ s.dropped = false then
    .printed (m.print s line) none
  else
    match s.executeCommand m.parse m.db line with
    | none => .ended (m.crash s line)
    | some next => .printed (m.print s line) (some next)

/-- `MiniSqlEngine.END_MARKER`. -/
def END_MARKER : Text := "__MINISQL_END__".toList

/-- A round of the `--repl` loop: the line of the input, and what `ExecuteCommand` prints. -/
structure ReplRound where
  line : Text
  output : Text
  deriving DecidableEq, Repr

/-- What is printed in a round. -/
def ReplRound.printed (r : ReplRound) : Text := r.output ++ '\n' :: (END_MARKER ++ ['\n'])

/-- The `--repl` loop over the lines of the input: the rounds, and MiniSQL afterwards, which is
`none` after `quit`. An error is the message where the process ends on a line. -/
def Repl.loop (m : Repl τ) :
    ExecuteEngine τ → List Text → List ReplRound × Except String (Option (ExecuteEngine τ))
  | s, [] => ([], .ok (some s))
  | s, line :: lines =>
    match m.answer s (String.ofList line) with
    | .silent => m.loop s lines
    | .ended message => ([], .error message)
    | .printed output none => ([{ line := line, output := output.toList }], .ok none)
    | .printed output (some next) =>
      ({ line := line, output := output.toList } :: (m.loop next lines).1, (m.loop next lines).2)

/-- The rounds of an input that MiniSQL survives, or quits on, and MiniSQL afterwards. -/
def Repl.rounds (m : Repl τ) (s : ExecuteEngine τ) (lines : List Text) :
    Option (Option (ExecuteEngine τ) × List ReplRound) :=
  match m.loop s lines with
  | (rounds, .ok last) => some (last, rounds)
  | (_, .error _) => none

/-- What `std::getline` makes of a text with a line break after it. -/
def inputLines (text : Text) : List Text := text.splitOn '\n'

/-- `BufferedReader.readLine`, over a text with a line break at its end. -/
def outputLines (s : Text) : List Text := ((Text.joinCrLf s).splitOnP isLineTerminator).dropLast

/-- One line in `readUntilMarker`. -/
def appendLine (output line : Text) : Text :=
  (if output = [] then output else output ++ ['\n']) ++ line

/-- `MiniSqlEngine.readUntilMarker`, over the lines that come: the text, and the lines that are
left. `none` is a timeout. -/
def readUntilMarker (stdout : List Text) : Option (Text × List Text) :=
  if stdout.contains END_MARKER then
    some ((stdout.takeWhile fun line => line != END_MARKER).foldl appendLine [],
      (stdout.dropWhile fun line => line != END_MARKER).tail)
  else none

/-- MiniSQL, which is `none` when the process has ended, and the lines on the pipe. -/
structure ReplSession (τ : Type) where
  engine : Option (ExecuteEngine τ)
  stdout : List Text := []

/-- A call of `runStatement`: what it returns, where `none` is an exception, and the rounds of the
loop on its text. -/
structure ReplCall (τ : Type) where
  session : ReplSession τ
  returned : Option Text
  rounds : List ReplRound

namespace ReplSession

/-- `MiniSqlEngine.runStatement`. -/
def runStatement (m : Repl τ) (x : ReplSession τ) (sql : Text) : ReplCall τ :=
  match x.engine with
  | none => { session := x, returned := none, rounds := [] }
  | some s =>
    let (rounds, last) := m.loop s (inputLines sql)
    match readUntilMarker (x.stdout ++ rounds.flatMap fun r => outputLines r.printed) with
    | none => { session := { engine := none }, returned := none, rounds := rounds }
    | some (text, rest) =>
      { session := { engine := last.toOption.join, stdout := rest }, returned := some text,
        rounds := rounds }

/-- `MiniSqlEngine.executeStatement`. -/
def executeStatement (m : Repl τ) (x : ReplSession τ) (sql : Text) : ReplCall τ :=
  x.runStatement m (SqlUtils.normalizeChars sql)

/-- The session after a call. -/
def step (m : Repl τ) (x : ReplSession τ) (sql : Text) : ReplSession τ :=
  (x.executeStatement m sql).session

end ReplSession

end DisMiniSql.Distributed
