import DisMiniSql.MiniSql.Parser.Grammar

/-!
# `DisMiniSql.MiniSql.Parser.Productions`: the productions of the grammar

`parser/minisql.y` as it is written: a predicate for each nonterminal, and a constructor for each of
its productions. A phrase is the list of the tokens, and its value is what the action of the
production makes of it.

`Grammar` has the functions that read the phrases. Here nothing is read: a phrase may be put
together in more than one way, and a list on the left of a connector is as good as one on the right.
-/

set_option autoImplicit false

namespace DisMiniSql.MiniSql.Productions

open Grammar (keyword mark)

/-! ### Lists of columns and definitions -/

/-- `column_list`. -/
inductive ColumnList : List Token → List (List Char) → Prop
  | cons {name : List Char} {phrase : List Token} {names : List (List Char)} :
      ColumnList phrase names → ColumnList (.identifier name :: mark ',' :: phrase) (name :: names)
  | one {name : List Char} : ColumnList [.identifier name] [name]

/-- `column_type`. -/
inductive ColumnType : List Token → MiniSql.ColumnType → Prop
  | int : ColumnType [keyword "int"] .int
  | float : ColumnType [keyword "float"] .float
  | char {length : List Char} :
      ColumnType [keyword "char", mark '(', .number length, mark ')'] (.char length)

/-- `column_definition`. -/
inductive ColumnDefinition : List Token → MiniSql.ColumnDefinition → Prop
  | unique {name : List Char} {phrase : List Token} {type : MiniSql.ColumnType} :
      ColumnType phrase type →
      ColumnDefinition (.identifier name :: (phrase ++ [keyword "unique"])) ⟨name, type, true⟩
  | plain {name : List Char} {phrase : List Token} {type : MiniSql.ColumnType} :
      ColumnType phrase type → ColumnDefinition (.identifier name :: phrase) ⟨name, type, false⟩

/-- `column_definition_list`. The list of the primary keys can only come last. -/
inductive ColumnDefinitionList : List Token → MiniSql.ColumnDefinitionList → Prop
  | cons {first further : List Token} {definition : MiniSql.ColumnDefinition}
      {list : MiniSql.ColumnDefinitionList} :
      ColumnDefinition first definition → ColumnDefinitionList further list →
      ColumnDefinitionList (first ++ mark ',' :: further)
        { list with definitions := definition :: list.definitions }
  | one {phrase : List Token} {definition : MiniSql.ColumnDefinition} :
      ColumnDefinition phrase definition → ColumnDefinitionList phrase ⟨[definition], none⟩
  | primaryKey {phrase : List Token} {names : List (List Char)} :
      ColumnList phrase names →
      ColumnDefinitionList
        (keyword "primary" :: keyword "key" :: mark '(' :: (phrase ++ [mark ')'])) ⟨[], some names⟩

/-! ### Values and conditions -/

/-- `column_value`. -/
inductive ColumnValue : List Token → Literal → Prop
  | string {content : List Char} : ColumnValue [.string content] (.string content)
  | number {text : List Char} : ColumnValue [.number text] (.number text)
  | null : ColumnValue [keyword "null"] .null

/-- `column_values`: the first value, and the others. -/
inductive ColumnValues : List Token → Literal → List Literal → Prop
  | cons {first further : List Token} {value second : Literal} {values : List Literal} :
      ColumnValue first value → ColumnValues further second values →
      ColumnValues (first ++ mark ',' :: further) value (second :: values)
  | one {phrase : List Token} {value : Literal} :
      ColumnValue phrase value → ColumnValues phrase value []

/-- `operator`. -/
inductive Operator : List Token → List Char → Prop
  | eq : Operator [mark '='] ['=']
  | ne : Operator [.symbol ['<', '>']] ['<', '>']
  | le : Operator [.symbol ['<', '=']] ['<', '=']
  | ge : Operator [.symbol ['>', '=']] ['>', '=']
  | lt : Operator [mark '<'] ['<']
  | gt : Operator [mark '>'] ['>']
  | is : Operator [keyword "is"] "is".toList
  | not : Operator [keyword "not"] "not".toList

/-- `connector`. -/
inductive Connector : List Token → List Char → Prop
  | and : Connector [keyword "and"] "and".toList
  | or : Connector [keyword "or"] "or".toList

/-- `where_condition`. -/
inductive WhereCondition : List Token → Condition → Prop
  | mk {column text : List Char} {op phrase : List Token} {value : Literal} :
      Operator op text → ColumnValue phrase value →
      WhereCondition (.identifier column :: (op ++ phrase)) ⟨column, text, value⟩

/-- `where_conditions`. -/
inductive WhereConditions : List Token → Conditions → Prop
  | connect {first connector second : List Token} {left : Conditions} {text : List Char}
      {right : Condition} :
      WhereConditions first left → Connector connector text → WhereCondition second right →
      WhereConditions (first ++ (connector ++ second)) (.connect left text right)
  | one {phrase : List Token} {condition : Condition} :
      WhereCondition phrase condition → WhereConditions phrase (.single condition)

/-- `update_value`. -/
inductive UpdateValue : List Token → MiniSql.UpdateValue → Prop
  | mk {column : List Char} {phrase : List Token} {value : Literal} :
      ColumnValue phrase value →
      UpdateValue (.identifier column :: mark '=' :: phrase) ⟨column, value⟩

/-- `update_values`. -/
inductive UpdateValues : List Token → List MiniSql.UpdateValue → Prop
  | cons {first further : List Token} {value : MiniSql.UpdateValue}
      {values : List MiniSql.UpdateValue} :
      UpdateValue first value → UpdateValues further values →
      UpdateValues (first ++ mark ',' :: further) (value :: values)
  | one {phrase : List Token} {value : MiniSql.UpdateValue} :
      UpdateValue phrase value → UpdateValues phrase [value]

/-- `select_columns`; no columns stand for `kNodeAllColumns`. -/
inductive SelectColumns : List Token → Option (List (List Char)) → Prop
  | all : SelectColumns [mark '*'] none
  | list {phrase : List Token} {names : List (List Char)} :
      ColumnList phrase names → SelectColumns phrase (some names)

/-! ### Statements -/

/-- `sql`, with the productions of the nonterminals of the statements. -/
inductive Sql : List Token → SyntaxTree → Prop
  /-- `sql_create_database` -/
  | createDatabase {name : List Char} :
      Sql [keyword "create", keyword "database", .identifier name] (.createDatabase name)
  /-- `sql_drop_database` -/
  | dropDatabase {name : List Char} :
      Sql [keyword "drop", keyword "database", .identifier name] (.dropDatabase name)
  /-- `sql_show_databases` -/
  | showDatabases : Sql [keyword "show", keyword "databases"] .showDatabases
  /-- `sql_use_database` -/
  | useDatabase {name : List Char} :
      Sql [keyword "use", .identifier name] (.useDatabase name)
  /-- `sql_show_tables` -/
  | showTables : Sql [keyword "show", keyword "tables"] .showTables
  /-- `sql_create_table` -/
  | createTable {name : List Char} {phrase : List Token} {columns : MiniSql.ColumnDefinitionList} :
      ColumnDefinitionList phrase columns →
      Sql (keyword "create" :: keyword "table" :: .identifier name :: mark '(' ::
        (phrase ++ [mark ')'])) (.createTable name columns)
  /-- `sql_drop_table` -/
  | dropTable {name : List Char} :
      Sql [keyword "drop", keyword "table", .identifier name] (.dropTable name)
  /-- `sql_create_index` -/
  | createIndex {name table : List Char} {phrase : List Token} {keys : List (List Char)} :
      ColumnList phrase keys →
      Sql (keyword "create" :: keyword "index" :: .identifier name :: keyword "on" ::
        .identifier table :: mark '(' :: (phrase ++ [mark ')'])) (.createIndex name table keys none)
  /-- `sql_create_index`, with the type of the index -/
  | createIndexUsing {name table type : List Char} {phrase : List Token}
      {keys : List (List Char)} :
      ColumnList phrase keys →
      Sql (keyword "create" :: keyword "index" :: .identifier name :: keyword "on" ::
        .identifier table :: mark '(' ::
          (phrase ++ [mark ')', keyword "using", .identifier type]))
        (.createIndex name table keys (some type))
  /-- `sql_drop_index` -/
  | dropIndex {name : List Char} :
      Sql [keyword "drop", keyword "index", .identifier name] (.dropIndex name)
  /-- `sql_show_indexes` -/
  | showIndexes : Sql [keyword "show", keyword "indexes"] .showIndexes
  /-- `sql_select` -/
  | select {table : List Char} {phrase : List Token} {columns : Option (List (List Char))} :
      SelectColumns phrase columns →
      Sql (keyword "select" :: (phrase ++ [keyword "from", .identifier table]))
        (.select columns table none)
  /-- `sql_select`, with conditions -/
  | selectWhere {table : List Char} {phrase conds : List Token}
      {columns : Option (List (List Char))} {conditions : Conditions} :
      SelectColumns phrase columns → WhereConditions conds conditions →
      Sql (keyword "select" :: (phrase ++ keyword "from" :: .identifier table :: keyword "where" ::
        conds)) (.select columns table (some conditions))
  /-- `sql_insert` -/
  | insert {table : List Char} {phrase : List Token} {first : Literal} {further : List Literal} :
      ColumnValues phrase first further →
      Sql (keyword "insert" :: keyword "into" :: .identifier table :: keyword "values" ::
        mark '(' :: (phrase ++ [mark ')'])) (.insert ⟨table, first, further⟩)
  /-- `sql_delete` -/
  | delete {table : List Char} :
      Sql [keyword "delete", keyword "from", .identifier table] (.delete table none)
  /-- `sql_delete`, with conditions -/
  | deleteWhere {table : List Char} {conds : List Token} {conditions : Conditions} :
      WhereConditions conds conditions →
      Sql (keyword "delete" :: keyword "from" :: .identifier table :: keyword "where" :: conds)
        (.delete table (some conditions))
  /-- `sql_update` -/
  | update {table : List Char} {phrase : List Token} {values : List MiniSql.UpdateValue} :
      UpdateValues phrase values →
      Sql (keyword "update" :: .identifier table :: keyword "set" :: phrase)
        (.update table values none)
  /-- `sql_update`, with conditions -/
  | updateWhere {table : List Char} {phrase conds : List Token}
      {values : List MiniSql.UpdateValue} {conditions : Conditions} :
      UpdateValues phrase values → WhereConditions conds conditions →
      Sql (keyword "update" :: .identifier table :: keyword "set" ::
        (phrase ++ keyword "where" :: conds)) (.update table values (some conditions))
  /-- `sql_trx_begin` -/
  | trxBegin : Sql [keyword "begin"] .trxBegin
  /-- `sql_trx_commit` -/
  | trxCommit : Sql [keyword "commit"] .trxCommit
  /-- `sql_trx_rollback` -/
  | trxRollback : Sql [keyword "rollback"] .trxRollback
  /-- `sql_quit` -/
  | quit : Sql [keyword "quit"] .quit
  /-- `sql_exec_file` -/
  | execFile {path : List Char} : Sql [keyword "execfile", .string path] (.execFile path)

/-- `start`. -/
inductive Start : List Token → SyntaxTree → Prop
  | mk {phrase : List Token} {statement : SyntaxTree} :
      Sql phrase statement → Start (phrase ++ [mark ';']) statement

end DisMiniSql.MiniSql.Productions
