import DisMiniSql.MiniSql.Executor.ExecuteEngine
import DisMiniSql.MiniSql.Parser.Lexer

/-!
# `DisMiniSql.MiniSql.Parser.Grammar`: the statements of MiniSQL

The grammar of `parser/minisql.y` over the tokens of a command, one function for each nonterminal:
what it builds, and the tokens after it. The next token always decides between the productions, so
no function has to try a second one.

A command that is not accepted can still have a root: the parser hands the root over before it
looks at what comes after the semicolon, and a character that no rule of the scanner takes is an
error without being a token.

The functions have no stack. That of `yyparse` has room for `YYMAXDEPTH` states, and a longer list
fills it: `stackDepth` says how many symbols a statement puts on it.
-/

set_option autoImplicit false

namespace DisMiniSql.MiniSql

/-- `kNodeColumnType` -/
inductive ColumnType
  | int
  | float
  | char (length : List Char)
  deriving DecidableEq, Repr

/-- `kNodeColumnDefinition` -/
structure ColumnDefinition where
  name : List Char
  type : ColumnType
  unique : Bool
  deriving DecidableEq, Repr

/-- `kNodeColumnDefinitionList`: the definitions, and the list of primary keys if there is one. -/
structure ColumnDefinitionList where
  definitions : List ColumnDefinition
  primaryKeys : Option (List (List Char))
  deriving DecidableEq, Repr

/-- `kNodeCompareOperator` and its children. -/
structure Condition where
  column : List Char
  operator : List Char
  value : Literal
  deriving DecidableEq, Repr

/-- `where_conditions`. -/
inductive Conditions
  | single (condition : Condition)
  /-- `kNodeConnector` -/
  | connect (left : Conditions) (connector : List Char) (right : Condition)
  deriving DecidableEq, Repr

/-- `kNodeUpdateValue` -/
structure UpdateValue where
  column : List Char
  value : Literal
  deriving DecidableEq, Repr

/-- The root of a syntax tree. -/
inductive SyntaxTree
  /-- `kNodeCreateDB` -/
  | createDatabase (name : List Char)
  /-- `kNodeDropDB` -/
  | dropDatabase (name : List Char)
  /-- `kNodeShowDB` -/
  | showDatabases
  /-- `kNodeUseDB` -/
  | useDatabase (name : List Char)
  /-- `kNodeShowTables` -/
  | showTables
  /-- `kNodeCreateTable` -/
  | createTable (name : List Char) (columns : ColumnDefinitionList)
  /-- `kNodeDropTable` -/
  | dropTable (name : List Char)
  /-- `kNodeCreateIndex` -/
  | createIndex (name table : List Char) (keys : List (List Char)) (type : Option (List Char))
  /-- `kNodeDropIndex` -/
  | dropIndex (name : List Char)
  /-- `kNodeShowIndexes` -/
  | showIndexes
  /-- `kNodeSelect`; no columns stand for `kNodeAllColumns`. -/
  | select (columns : Option (List (List Char))) (table : List Char)
      (conditions : Option Conditions)
  /-- `kNodeInsert` -/
  | insert (statement : InsertStatement)
  /-- `kNodeDelete` -/
  | delete (table : List Char) (conditions : Option Conditions)
  /-- `kNodeUpdate` -/
  | update (table : List Char) (values : List UpdateValue) (conditions : Option Conditions)
  /-- `kNodeTrxBegin` -/
  | trxBegin
  /-- `kNodeTrxCommit` -/
  | trxCommit
  /-- `kNodeTrxRollback` -/
  | trxRollback
  /-- `kNodeQuit` -/
  | quit
  /-- `kNodeExecFile` -/
  | execFile (path : List Char)
  deriving DecidableEq, Repr

namespace Grammar

/-! ### Lists of columns and definitions -/

/-- One given token. -/
def expect (t : Token) : List Token → Option (List Token)
  | [] => none
  | u :: ts => if u = t then some ts else none

/-- `IDENTIFIER` -/
def identifier : List Token → Option (List Char × List Token)
  | .identifier name :: ts => some (name, ts)
  | _ => none

/-- `column_list`. -/
def columnList : List Token → Option (List (List Char) × List Token)
  | .identifier name :: comma :: ts =>
    if comma = mark ',' then do
      let (names, rest) ← columnList ts
      some (name :: names, rest)
    else some ([name], comma :: ts)
  | [.identifier name] => some ([name], [])
  | _ => none

/-- `column_type`. -/
def columnType : List Token → Option (ColumnType × List Token)
  | [] => none
  | t :: ts =>
    if t = keyword "int" then some (.int, ts)
    else if t = keyword "float" then some (.float, ts)
    else if t = keyword "char" then
      match ts with
      | openParen :: .number length :: closeParen :: rest =>
        if openParen = mark '(' ∧ closeParen = mark ')' then some (.char length, rest) else none
      | _ => none
    else none

/-- `UNIQUE`, if it comes next. -/
def uniqueFlag : List Token → Bool × List Token
  | [] => (false, [])
  | t :: ts => if t = keyword "unique" then (true, ts) else (false, t :: ts)

/-- `column_definition`. -/
def columnDefinition (ts : List Token) : Option (ColumnDefinition × List Token) := do
  let (name, ts) ← identifier ts
  let (type, ts) ← columnType ts
  let (unique, ts) := uniqueFlag ts
  some ({ name := name, type := type, unique := unique }, ts)

/-- Reading the flag leaves no more tokens than there were. -/
theorem length_uniqueFlag (ts : List Token) : (uniqueFlag ts).2.length ≤ ts.length := by
  cases ts with
  | nil => simp [uniqueFlag]
  | cons t ts =>
    simp only [uniqueFlag]
    split
    · simp
    · simp

/-- Reading a type takes a token at least, which the recursion of the definitions ends by. -/
theorem length_columnType {ts rest : List Token} {type : ColumnType}
    (h : columnType ts = some (type, rest)) : rest.length < ts.length := by
  unfold columnType at h
  split at h
  · cases h
  · next t ts =>
    split at h
    · cases h
      simp
    · split at h
      · cases h
        simp
      · split at h
        · split at h
          · split at h
            · cases h
              simp only [List.length_cons]
              omega
            · cases h
          · cases h
        · cases h

/-- A definition takes tokens off the input. -/
theorem length_columnDefinition {ts rest : List Token} {definition : ColumnDefinition}
    (h : columnDefinition ts = some (definition, rest)) : rest.length < ts.length := by
  simp only [columnDefinition, Option.bind_eq_bind, Option.bind_eq_some_iff, Prod.exists] at h
  obtain ⟨name, ts₁, hname, type, ts₂, htype, h⟩ := h
  have hflag := length_uniqueFlag ts₂
  have hlen := length_columnType htype
  cases h
  unfold identifier at hname
  split at hname
  · cases hname
    simp only [List.length_cons]
    omega
  · cases hname

/-- `PRIMARY KEY '(' column_list ')'`, after its first word. -/
def primaryKeys (ts : List Token) : Option (List (List Char) × List Token) := do
  let ts ← expect (keyword "key") ts
  let ts ← expect (mark '(') ts
  let (names, ts) ← columnList ts
  let ts ← expect (mark ')') ts
  some (names, ts)

/-- `column_definition_list`. -/
def columnDefinitionList : List Token → Option (ColumnDefinitionList × List Token)
  | [] => none
  | t :: ts =>
    if t = keyword "primary" then do
      let (names, rest) ← primaryKeys ts
      some ({ definitions := [], primaryKeys := some names }, rest)
    else
      match h : columnDefinition (t :: ts) with
      | none => none
      | some (definition, []) =>
        some ({ definitions := [definition], primaryKeys := none }, [])
      | some (definition, comma :: rest) =>
        if comma = mark ',' then do
          have : rest.length < ts.length + 1 :=
            Nat.lt_of_succ_lt (length_columnDefinition h)
          let (list, rest) ← columnDefinitionList rest
          some ({ list with definitions := definition :: list.definitions }, rest)
        else some ({ definitions := [definition], primaryKeys := none }, comma :: rest)
  termination_by ts => ts.length

/-! ### Conditions -/

/-- The operators of a condition. -/
def operators : List Token :=
  [.symbol ['='], .symbol ['<', '>'], .symbol ['<', '='], .symbol ['>', '='], mark '<', mark '>',
    keyword "is", keyword "not"]

/-- `operator`. -/
def operator (t : Token) : Option (List Char) := if t ∈ operators then some t.text else none

/-- `where_condition`, from its three tokens. -/
def whereCondition (column : List Char) (op value : Token) : Option Condition := do
  let operator ← operator op
  let value ← columnValue value
  some { column := column, operator := operator, value := value }

/-- `where_conditions` after the first few, which are grouped to the left. -/
def furtherConditions (left : Conditions) : List Token → Option (Conditions × List Token)
  | connector :: .identifier column :: op :: value :: ts =>
    if connector = keyword "and" ∨ connector = keyword "or" then do
      let right ← whereCondition column op value
      furtherConditions (.connect left connector.text right) ts
    else some (left, connector :: .identifier column :: op :: value :: ts)
  | ts => some (left, ts)

/-- `where_conditions`. -/
def whereConditions : List Token → Option (Conditions × List Token)
  | .identifier column :: op :: value :: ts => do
    let condition ← whereCondition column op value
    furtherConditions (.single condition) ts
  | _ => none

/-- `WHERE where_conditions`, if it comes next. -/
def whereClause : List Token → Option (Option Conditions × List Token)
  | [] => some (none, [])
  | t :: ts =>
    if t = keyword "where" then do
      let (conditions, rest) ← whereConditions ts
      some (some conditions, rest)
    else some (none, t :: ts)

/-! ### Statements, each after its first word -/

/-- `select_columns`. -/
def selectColumns : List Token → Option (Option (List (List Char)) × List Token)
  | [] => none
  | t :: ts =>
    if t = mark '*' then some (none, ts)
    else do
      let (names, rest) ← columnList (t :: ts)
      some (some names, rest)

/-- `sql_select`. -/
def sqlSelect (ts : List Token) : Option (SyntaxTree × List Token) := do
  let (columns, ts) ← selectColumns ts
  let ts ← expect (keyword "from") ts
  let (table, ts) ← identifier ts
  let (conditions, ts) ← whereClause ts
  some (.select columns table conditions, ts)

/-- `column_values`. -/
def columnValues : List Token → Option (Literal × List Literal × List Token)
  | [] => none
  | t :: ts => do
    let first ← columnValue t
    let (further, rest) ← furtherValues ts
    some (first, further, rest)

/-- `sql_insert`. -/
def sqlInsert (ts : List Token) : Option (SyntaxTree × List Token) := do
  let ts ← expect (keyword "into") ts
  let (table, ts) ← identifier ts
  let ts ← expect (keyword "values") ts
  let ts ← expect (mark '(') ts
  let (first, further, ts) ← columnValues ts
  let ts ← expect (mark ')') ts
  some (.insert { table := table, first := first, further := further }, ts)

/-- `sql_delete`. -/
def sqlDelete (ts : List Token) : Option (SyntaxTree × List Token) := do
  let ts ← expect (keyword "from") ts
  let (table, ts) ← identifier ts
  let (conditions, ts) ← whereClause ts
  some (.delete table conditions, ts)

/-- `update_value`, from its three tokens. -/
def updateValue (column : List Char) (eq value : Token) : Option UpdateValue :=
  if eq = mark '=' then (columnValue value).map fun value => { column := column, value := value }
  else none

/-- `update_values`. -/
def updateValues : List Token → Option (List UpdateValue × List Token)
  | .identifier column :: eq :: value :: comma :: ts =>
    if comma = mark ',' then do
      let first ← updateValue column eq value
      let (further, rest) ← updateValues ts
      some (first :: further, rest)
    else (updateValue column eq value).map fun first => ([first], comma :: ts)
  | [.identifier column, eq, value] =>
    (updateValue column eq value).map fun first => ([first], [])
  | _ => none

/-- `sql_update`. -/
def sqlUpdate (ts : List Token) : Option (SyntaxTree × List Token) := do
  let (table, ts) ← identifier ts
  let ts ← expect (keyword "set") ts
  let (values, ts) ← updateValues ts
  let (conditions, ts) ← whereClause ts
  some (.update table values conditions, ts)

/-- `sql_create_table`, after its second word. -/
def sqlCreateTable (ts : List Token) : Option (SyntaxTree × List Token) := do
  let (name, ts) ← identifier ts
  let ts ← expect (mark '(') ts
  let (columns, ts) ← columnDefinitionList ts
  let ts ← expect (mark ')') ts
  some (.createTable name columns, ts)

/-- `USING IDENTIFIER`, if it comes next. -/
def indexType : List Token → Option (Option (List Char) × List Token)
  | [] => some (none, [])
  | t :: ts =>
    if t = keyword "using" then do
      let (name, rest) ← identifier ts
      some (some name, rest)
    else some (none, t :: ts)

/-- `sql_create_index`, after its second word. -/
def sqlCreateIndex (ts : List Token) : Option (SyntaxTree × List Token) := do
  let (name, ts) ← identifier ts
  let ts ← expect (keyword "on") ts
  let (table, ts) ← identifier ts
  let ts ← expect (mark '(') ts
  let (keys, ts) ← columnList ts
  let ts ← expect (mark ')') ts
  let (type, ts) ← indexType ts
  some (.createIndex name table keys type, ts)

/-- A name, as the only operand of a statement. -/
def named (statement : List Char → SyntaxTree) (ts : List Token) :
    Option (SyntaxTree × List Token) := do
  let (name, ts) ← identifier ts
  some (statement name, ts)

/-- `sql_create_database`, `sql_create_table`, `sql_create_index`. -/
def sqlCreate : List Token → Option (SyntaxTree × List Token)
  | [] => none
  | t :: ts =>
    if t = keyword "database" then named .createDatabase ts
    else if t = keyword "table" then sqlCreateTable ts
    else if t = keyword "index" then sqlCreateIndex ts
    else none

/-- `sql_drop_database`, `sql_drop_table`, `sql_drop_index`. -/
def sqlDrop : List Token → Option (SyntaxTree × List Token)
  | [] => none
  | t :: ts =>
    if t = keyword "database" then named .dropDatabase ts
    else if t = keyword "table" then named .dropTable ts
    else if t = keyword "index" then named .dropIndex ts
    else none

/-- `sql_show_databases`, `sql_show_tables`, `sql_show_indexes`. -/
def sqlShow : List Token → Option (SyntaxTree × List Token)
  | [] => none
  | t :: ts =>
    if t = keyword "databases" then some (.showDatabases, ts)
    else if t = keyword "tables" then some (.showTables, ts)
    else if t = keyword "indexes" then some (.showIndexes, ts)
    else none

/-- `sql_exec_file`. -/
def sqlExecFile : List Token → Option (SyntaxTree × List Token)
  | .string path :: ts => some (.execFile path, ts)
  | _ => none

/-- The productions of `sql`, by the word they begin with. -/
def productions : List (String × (List Token → Option (SyntaxTree × List Token))) :=
  [("create", sqlCreate), ("drop", sqlDrop), ("show", sqlShow), ("use", named .useDatabase),
    ("select", sqlSelect), ("insert", sqlInsert), ("delete", sqlDelete), ("update", sqlUpdate),
    ("begin", fun ts => some (.trxBegin, ts)), ("commit", fun ts => some (.trxCommit, ts)),
    ("rollback", fun ts => some (.trxRollback, ts)), ("quit", fun ts => some (.quit, ts)),
    ("execfile", sqlExecFile)]

/-- `sql`. -/
def sql : List Token → Option (SyntaxTree × List Token)
  | [] => none
  | t :: ts => (productions.find? fun p => t = keyword p.1).bind fun p => p.2 ts

/-- `start`. -/
def start (ts : List Token) : Option (SyntaxTree × List Token) := do
  let (statement, ts) ← sql ts
  let ts ← expect (mark ';') ts
  some (statement, ts)

end Grammar

/-! ### A command -/

/-- The scanner returns it to the parser. -/
def Token.recognized : Token → Bool
  | .unrecognized _ => false
  | _ => true

/-! ### The stack of the parser -/

/-- `YYMAXDEPTH` -/
def YYMAXDEPTH : Nat := 10000

/-- The symbols that a production has on the stack at most, from those of its own symbols. While one
is read, those before it are on the stack. -/
def stackHeight : List Nat → Nat
  | [] => 0
  | depth :: depths => max depth (1 + stackHeight depths)

/-- `column_list`: a list that recurs on the right is on the stack before any of it is reduced. -/
def columnListDepth : List (List Char) → Nat
  | [] => 0
  | [_] => stackHeight [1]
  | _ :: name :: names => stackHeight [1, 1, columnListDepth (name :: names)]

/-- `column_type` -/
def ColumnType.stackDepth : ColumnType → Nat
  | int | float => stackHeight [1]
  | char _ => stackHeight [1, 1, 1, 1]

/-- `column_definition` -/
def ColumnDefinition.stackDepth (definition : ColumnDefinition) : Nat :=
  if definition.unique then stackHeight [1, definition.type.stackDepth, 1]
  else stackHeight [1, definition.type.stackDepth]

/-- `column_definition_list`, from the definitions and the list of primary keys. -/
def columnDefinitionsDepth : List ColumnDefinition → Option (List (List Char)) → Nat
  | [], none => 0
  | [], some names => stackHeight [1, 1, 1, columnListDepth names, 1]
  | [definition], none => stackHeight [definition.stackDepth]
  | definition :: definitions, primaryKeys =>
    stackHeight [definition.stackDepth, 1, columnDefinitionsDepth definitions primaryKeys]

/-- `column_definition_list` -/
def ColumnDefinitionList.stackDepth (list : ColumnDefinitionList) : Nat :=
  columnDefinitionsDepth list.definitions list.primaryKeys

/-- `column_values`, from the values after the first one. -/
def columnValuesDepth : List Literal → Nat
  | [] => stackHeight [1]
  | _ :: further => stackHeight [1, 1, columnValuesDepth further]

/-- `where_conditions`: what is on the left has been reduced to one symbol. -/
def Conditions.stackDepth : Conditions → Nat
  | single _ => stackHeight [1, 1, 1]
  | connect left _ _ => stackHeight [left.stackDepth, 1, stackHeight [1, 1, 1]]

/-- `update_values` -/
def updateValuesDepth : List UpdateValue → Nat
  | [] => 0
  | [_] => stackHeight [1, 1, 1]
  | _ :: value :: values =>
    stackHeight [stackHeight [1, 1, 1], 1, updateValuesDepth (value :: values)]

/-- `WHERE where_conditions`, if it is there. -/
def whereDepths : Option Conditions → List Nat
  | none => []
  | some conditions => [1, conditions.stackDepth]

/-- `sql` -/
def SyntaxTree.stackDepth : SyntaxTree → Nat
  | createDatabase _ | dropDatabase _ | dropTable _ | dropIndex _ => stackHeight [1, 1, 1]
  | showDatabases | showTables | showIndexes | useDatabase _ | execFile _ => stackHeight [1, 1]
  | trxBegin | trxCommit | trxRollback | quit => stackHeight [1]
  | createTable _ columns => stackHeight [1, 1, 1, 1, columns.stackDepth, 1]
  | createIndex _ _ keys none => stackHeight [1, 1, 1, 1, 1, 1, columnListDepth keys, 1]
  | createIndex _ _ keys (some _) => stackHeight [1, 1, 1, 1, 1, 1, columnListDepth keys, 1, 1, 1]
  | select none _ conditions => stackHeight ([1, 1, 1, 1] ++ whereDepths conditions)
  | select (some names) _ conditions =>
    stackHeight ([1, columnListDepth names, 1, 1] ++ whereDepths conditions)
  | insert statement => stackHeight [1, 1, 1, 1, 1, columnValuesDepth statement.further, 1]
  | delete _ conditions => stackHeight ([1, 1, 1] ++ whereDepths conditions)
  | update _ values conditions =>
    stackHeight ([1, 1, 1, updateValuesDepth values] ++ whereDepths conditions)

/-- The stack does not get full while the statement and its semicolon are read. The state in which
the parser begins is on the stack as well. -/
def SyntaxTree.FitsStack (statement : SyntaxTree) : Prop :=
  1 + stackHeight [statement.stackDepth, 1] < YYMAXDEPTH

instance (statement : SyntaxTree) : Decidable statement.FitsStack :=
  inferInstanceAs (Decidable (_ < YYMAXDEPTH))

/-- `MinisqlParser` after a command. -/
structure MinisqlParser where
  /-- `root_` -/
  root : Option SyntaxTree
  /-- `error_` -/
  error : Bool
  deriving DecidableEq, Repr

/-- `yyparse` on a text that `yy_scan_string` took over. -/
def yyparse (text : List Char) : MinisqlParser :=
  let tokens := Lexer.lex text
  match Grammar.start (tokens.filter Token.recognized) with
  | none => { root := none, error := true }
  | some (statement, rest) =>
    if statement.FitsStack then
      -- what comes after the semicolon is an error, but the root is set by then
      { root := some statement, error := !(rest.isEmpty && tokens.all Token.recognized) }
    else
      -- `yyexhaustedlab`
      { root := none, error := true }

/-- The root as the execute engine sees it. -/
def SyntaxTree.syntaxNode (text : String) : SyntaxTree → Option SyntaxNode
  | createDatabase name => some (.createDB (String.ofList name))
  | dropDatabase name => some (.dropDB (String.ofList name))
  | useDatabase name => some (.useDB (String.ofList name))
  | showDatabases | showTables | showIndexes => some .showInfo
  | createTable _ _ | dropTable _ | createIndex _ _ _ _ | dropIndex _ => some (.ddl text)
  | select _ _ _ => some .select
  | insert _ | delete _ _ | update _ _ _ => some (.dml text)
  | trxBegin | trxCommit | trxRollback => some .trx
  | quit => some .quit
  | execFile _ => none

/-- The root of a text without zero bytes. -/
def parse (text : String) : Option SyntaxNode :=
  (yyparse text.toList).root.bind (SyntaxTree.syntaxNode text)

/-- A line of the input as `main.cpp` completes it. -/
def terminated (line : List Char) : List Char :=
  if line.getLast? = some ';' then line else line ++ [';']

/-- `yy_scan_string` reads up to the first zero byte. -/
def cString (text : List Char) : List Char := text.takeWhile (· != '\x00')

/-- MiniSQL accepts the text. -/
def Accepted (text : List Char) : Prop := (yyparse (cString (terminated text))).error = false

instance (text : List Char) : Decidable (Accepted text) := by
  unfold Accepted
  infer_instance

example : yyparse "select a from t where x >= 1 and y is null;".toList =
    { root := some (.select (some [['a']]) ['t'] (some (.connect
        (.single { column := ['x'], operator := ['>', '='], value := .number ['1'] })
        "and".toList { column := ['y'], operator := "is".toList, value := .null })))
      error := false } := by
  decide +kernel

end DisMiniSql.MiniSql
