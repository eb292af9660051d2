import DisMiniSql.Lib.Parsing
import DisMiniSql.MiniSql.Parser.Productions
import DisMiniSql.Proofs.Parser.Grammar

/-!
# The parser takes the phrases of the grammar

The functions of `Grammar` read the next token and choose a production by it. The predicates of
`Productions` are the productions alone. For each nonterminal the function takes exactly the phrases
of the predicate off its input, and the values are those of the actions (`Parses`).

A phrase may be the beginning of a longer one, so each lemma names the tokens that must not follow:
a comma after a list, `unique` after a column, `and` and `or` after conditions. No phrase of a
statement is followed by one of them, because a semicolon comes next.

`yyparse_iff` is the result for a text. A phrase that is too long for the stack of the parser is
not accepted. Each symbol on the stack stands for a token at least (`Sql.room`), so only long
phrases are refused: `Start.fitsStack`, and for the values of an `insert` `fitsStack_insert_iff`.
-/

set_option autoImplicit false

namespace DisMiniSql.MiniSql

open DisMiniSql.Lib (Ends Parses ends_cons)
open Grammar (keyword mark)

namespace Productions

/-! ### Lists of columns and definitions -/

/-- `columnList` reads one column name after the other; the list is complete when no comma follows
it, since a comma always asks for one more name. -/
theorem parses_columnList : Parses Grammar.columnList ColumnList [mark ','] where
  sound := by
    intro input names rest h
    fun_induction Grammar.columnList input generalizing names rest with
    | case1 name ts ih =>
      simp only [Option.bind_eq_bind, Option.bind_eq_some_iff, Prod.exists, Option.some.injEq,
        Prod.mk.injEq] at h
      obtain ⟨names', rest', hfurther, rfl, rfl⟩ := h
      obtain ⟨phrase, rfl, hphrase⟩ := ih hfurther
      exact ⟨.identifier name :: mark ',' :: phrase, rfl, .cons hphrase⟩
    | case2 name comma ts hne =>
      cases h
      exact ⟨[.identifier name], rfl, .one⟩
    | case3 name =>
      cases h
      exact ⟨[.identifier name], rfl, .one⟩
    | case4 => cases h
  complete := by
    intro phrase names rest h hends
    induction h with
    | cons hfurther ih =>
      simp [Grammar.columnList, ih]
    | one =>
      cases rest with
      | nil => rfl
      | cons t ts =>
        -- a list that is read whole must not be followed by the separator
        have hcomma : t ≠ mark ',' := by simpa using hends
        simp [Grammar.columnList, hcomma]

variable {phrase : List Token} {names : List (List Char)}

/-- A list of columns starts with a name, so a phrase of it is never taken for `*`. -/
theorem ColumnList.head (h : ColumnList phrase names) :
    ∃ name tail, phrase = .identifier name :: tail := by
  cases h with
  | cons hfurther => exact ⟨_, _, rfl⟩
  | one => exact ⟨_, _, rfl⟩

/-- The three types; no token after them can make them longer. -/
theorem parses_columnType : Parses Grammar.columnType ColumnType [] where
  sound := by
    intro input type rest h
    unfold Grammar.columnType at h
    split at h
    · cases h
    · next t ts =>
      split at h
      · next ht =>
        cases h
        exact ⟨[t], rfl, ht ▸ .int⟩
      · split at h
        · next ht =>
          cases h
          exact ⟨[t], rfl, ht ▸ .float⟩
        · split at h
          · next ht =>
            split at h
            · next openParen length closeParen ts =>
              split at h
              · next hparens =>
                obtain ⟨rfl, rfl⟩ := hparens
                cases h
                exact ⟨[t, mark '(', .number length, mark ')'], rfl, ht ▸ .char⟩
              · cases h
            · cases h
          · cases h
  complete := by
    intro phrase type rest h hends
    cases h with
    | int => rfl
    | float => rfl
    | char => rfl

/-- The columns with `unique` after them, and those without. -/
theorem parses_columnDefinition :
    Parses Grammar.columnDefinition ColumnDefinition [keyword "unique"] where
  sound := by
    intro input definition rest h
    simp only [Grammar.columnDefinition, Option.bind_eq_bind, Option.bind_eq_some_iff,
      Prod.exists, Grammar.identifier_eq_some] at h
    obtain ⟨name, ts, rfl, type, ts', htype, h⟩ := h
    obtain ⟨phrase, rfl, hphrase⟩ := parses_columnType.sound htype
    cases ts' with
    | nil =>
      cases h
      exact ⟨_, rfl, .plain hphrase⟩
    | cons t ts =>
      by_cases ht : t = keyword "unique"
      · simp only [Grammar.uniqueFlag, if_pos ht, Option.some.injEq, Prod.mk.injEq] at h
        obtain ⟨rfl, rfl⟩ := h
        refine ⟨.identifier name :: (phrase ++ [keyword "unique"]), ?_, .unique hphrase⟩
        simp [ht]
      · simp only [Grammar.uniqueFlag, if_neg ht, Option.some.injEq, Prod.mk.injEq] at h
        obtain ⟨rfl, rfl⟩ := h
        exact ⟨_, rfl, .plain hphrase⟩
  complete := by
    intro phrase definition rest h hends
    cases h with
    | unique htype =>
      have hrest := parses_columnType.complete htype
        (DisMiniSql.Lib.ends_nil_left (keyword "unique" :: rest))
      simp [Grammar.columnDefinition, Grammar.identifier, Grammar.uniqueFlag, hrest]
    | plain htype =>
      have hrest := parses_columnType.complete htype (DisMiniSql.Lib.ends_nil_left rest)
      have hflag : Grammar.uniqueFlag rest = (false, rest) := by
        cases rest with
        | nil => rfl
        | cons t ts =>
          have hunique : t ≠ keyword "unique" := by simpa using hends
          simp [Grammar.uniqueFlag, hunique]
      simp [Grammar.columnDefinition, Grammar.identifier, hrest, hflag]

/-- A list of columns in parentheses. -/
theorem parses_primaryKeys :
    Parses Grammar.primaryKeys
      (fun phrase names => ∃ list, phrase = keyword "key" :: mark '(' :: (list ++ [mark ')']) ∧
        ColumnList list names) [] where
  sound := by
    intro input names rest h
    simp only [Grammar.primaryKeys, Option.bind_eq_bind, Option.bind_eq_some_iff, Prod.exists,
      Grammar.expect_eq_some, Option.some.injEq, Prod.mk.injEq] at h
    obtain ⟨_, rfl, _, rfl, names', _, hlist, _, rfl, rfl, rfl⟩ := h
    obtain ⟨list, rfl, hphrase⟩ := parses_columnList.sound hlist
    exact ⟨_, by simp, list, rfl, hphrase⟩
  complete := by
    intro phrase names rest h hends
    obtain ⟨list, rfl, hlist⟩ := h
    have hnames := parses_columnList.complete (r := mark ')' :: rest) hlist (by simp; decide)
    simp [Grammar.primaryKeys, Grammar.expect, hnames]

variable {definition : MiniSql.ColumnDefinition}

/-- A column definition starts with the name of its column, never with `primary`. -/
theorem ColumnDefinition.head (h : ColumnDefinition phrase definition) :
    ∃ name tail, phrase = .identifier name :: tail := by
  cases h with
  | unique htype => exact ⟨_, _, rfl⟩
  | plain htype => exact ⟨_, _, rfl⟩

/-- The definitions between the parentheses of `create table`. The list ends with its last
definition, or with the `primary key` clause, which the grammar allows at the end only; what may not
follow are a comma and, for the last definition, the word `unique`. -/
theorem parses_columnDefinitionList :
    Parses Grammar.columnDefinitionList ColumnDefinitionList [mark ',', keyword "unique"] where
  sound := by
    intro input list rest h
    fun_induction Grammar.columnDefinitionList input generalizing list rest with
    | case1 => cases h
    | case2 ts =>
      simp only [Option.bind_eq_bind, Option.bind_eq_some_iff, Prod.exists, Option.some.injEq,
        Prod.mk.injEq] at h
      obtain ⟨names, _, hkeys, rfl, rfl⟩ := h
      obtain ⟨_, rfl, phrase, rfl, hphrase⟩ := parses_primaryKeys.sound hkeys
      exact ⟨_, rfl, .primaryKey hphrase⟩
    | case3 => cases h
    | case4 t ts ht definition hdefinition =>
      cases h
      obtain ⟨phrase, heq, hphrase⟩ := parses_columnDefinition.sound hdefinition
      exact ⟨phrase, heq, .one hphrase⟩
    | case5 t ts ht definition tail hdefinition hlength ih =>
      simp only [Option.bind_eq_bind, Option.bind_eq_some_iff, Prod.exists, Option.some.injEq,
        Prod.mk.injEq] at h
      obtain ⟨list', _, hfurther, rfl, rfl⟩ := h
      obtain ⟨first, heq, hfirst⟩ := parses_columnDefinition.sound hdefinition
      obtain ⟨further, rfl, hphrase⟩ := ih hfurther
      refine ⟨first ++ mark ',' :: further, ?_, .cons hfirst hphrase⟩
      rw [heq, List.append_assoc, List.cons_append]
    | case6 t ts ht definition comma tail hdefinition hcomma =>
      cases h
      obtain ⟨phrase, heq, hphrase⟩ := parses_columnDefinition.sound hdefinition
      exact ⟨phrase, heq, .one hphrase⟩
  complete := by
    intro phrase list rest h hends
    induction h with
    -- a definition is followed by the comma, which is no `unique`, so it is read alone
    | cons hfirst hfurther ih =>
      rename_i first further definition list
      obtain ⟨name, tail, rfl⟩ := hfirst.head
      have hdefinition := parses_columnDefinition.complete
        (r := mark ',' :: (further ++ rest)) hfirst (by simp; decide)
      simp only [List.cons_append, List.append_assoc] at hdefinition ⊢
      rw [Grammar.columnDefinitionList, if_neg (by simp [keyword])]
      split
      · next hnone => simp [hnone] at hdefinition
      · next hsome => simp [hsome] at hdefinition
      · next hsome =>
        rw [hdefinition] at hsome
        simp only [Option.some.injEq, Prod.mk.injEq, List.cons.injEq] at hsome
        obtain ⟨rfl, rfl, rfl⟩ := hsome
        simp [ih]
    -- the last definition: what follows is known from `hends` only
    | one hfirst =>
      rename_i phrase definition
      obtain ⟨name, tail, rfl⟩ := hfirst.head
      have hdefinition := parses_columnDefinition.complete (r := rest) hfirst
        (hends.mono (by simp))
      simp only [List.cons_append] at hdefinition ⊢
      rw [Grammar.columnDefinitionList, if_neg (by simp [keyword])]
      split
      · next hnone => simp [hnone] at hdefinition
      · next hsome =>
        rw [hdefinition] at hsome
        simp only [Option.some.injEq, Prod.mk.injEq] at hsome
        obtain ⟨rfl, rfl⟩ := hsome
        rfl
      · next hsome =>
        rw [hdefinition] at hsome
        simp only [Option.some.injEq, Prod.mk.injEq] at hsome
        obtain ⟨rfl, rfl⟩ := hsome
        have hcomma := (ends_cons.mp hends)
        simp only [List.mem_cons, not_or] at hcomma
        simp [hcomma.1]
    | primaryKey hlist =>
      have hkeys := parses_primaryKeys.complete ⟨_, rfl, hlist⟩
        (DisMiniSql.Lib.ends_nil_left rest)
      simp only [List.cons_append, List.append_assoc] at hkeys ⊢
      rw [Grammar.columnDefinitionList, if_pos rfl, hkeys]
      rfl

/-! ### Values and conditions -/

variable {value : Literal} {t : Token}

/-- `columnValue` accepts exactly the tokens that are a value of the grammar. -/
theorem columnValue_iff :
    Grammar.columnValue t = some value ↔ ColumnValue [t] value := by
  constructor
  · intro h
    unfold Grammar.columnValue at h
    split at h
    · cases h
      exact .string
    · cases h
      exact .number
    · split at h
      · next hnull =>
        cases h
        exact hnull ▸ .null
      · cases h
  · intro h
    cases h with
    | string => rfl
    | number => rfl
    | null => rfl

/-- A value of the grammar is one token. -/
theorem ColumnValue.single (h : ColumnValue phrase value) :
    ∃ t, phrase = [t] ∧ Grammar.columnValue t = some value := by
  cases h with
  | string => exact ⟨_, rfl, rfl⟩
  | number => exact ⟨_, rfl, rfl⟩
  | null => exact ⟨_, rfl, rfl⟩

/-- A comma and the values after it, or nothing. -/
theorem parses_furtherValues :
    Parses Grammar.furtherValues
      (fun phrase values => phrase = [] ∧ values = [] ∨ ∃ tail first further,
        phrase = mark ',' :: tail ∧ values = first :: further ∧ ColumnValues tail first further)
      [mark ','] where
  sound := by
    intro input values rest h
    fun_induction Grammar.furtherValues input generalizing values rest with
    | case1 t ts ih =>
      simp only [Option.bind_eq_bind, Option.bind_eq_some_iff, Prod.exists, Option.some.injEq,
        Prod.mk.injEq] at h
      obtain ⟨value, hvalue, values', _, hfurther, rfl, rfl⟩ := h
      obtain ⟨phrase, rfl, hphrase⟩ := ih hfurther
      have hfirst := columnValue_iff.mp hvalue
      refine ⟨mark ',' :: t :: phrase, rfl, .inr ⟨t :: phrase, value, values', rfl, rfl, ?_⟩⟩
      rcases hphrase with ⟨rfl, rfl⟩ | ⟨tail, first, further, rfl, rfl, hvalues⟩
      · exact .one hfirst
      · exact .cons hfirst hvalues
    | case2 comma t ts hne =>
      cases h
      exact ⟨[], rfl, .inl ⟨rfl, rfl⟩⟩
    | case3 ts hne =>
      cases h
      exact ⟨[], rfl, .inl ⟨rfl, rfl⟩⟩
  complete := by
    intro phrase values rest h hends
    have hstop : Grammar.furtherValues rest = some ([], rest) := by
      unfold Grammar.furtherValues
      split
      · next comma t ts =>
        have hcomma : comma ≠ mark ',' := by simpa using hends
        rw [if_neg hcomma]
      · rfl
    rcases h with ⟨rfl, rfl⟩ | ⟨tail, first, further, rfl, rfl, hvalues⟩
    · exact hstop
    · induction hvalues with
      | cons hfirst hfurther ih =>
        obtain ⟨t, rfl, hvalue⟩ := hfirst.single
        simp only [List.cons_append, List.nil_append] at ih ⊢
        simp [Grammar.furtherValues, hvalue, ih]
      | one hfirst =>
        obtain ⟨t, rfl, hvalue⟩ := hfirst.single
        simp [Grammar.furtherValues, hvalue, hstop]

/-- The values of an `insert`; the first is kept apart, as the grammar builds the list from it. -/
theorem parses_columnValues :
    Parses (fun input => (Grammar.columnValues input).map fun r => ((r.1, r.2.1), r.2.2))
      (fun phrase values => ColumnValues phrase values.1 values.2) [mark ','] where
  sound := by
    intro input values rest h
    simp only [Option.map_eq_some_iff, Prod.exists, Grammar.columnValues_eq_some,
      Prod.mk.injEq] at h
    obtain ⟨first, further, _, ⟨t, ts, rfl, hfirst, hfurther⟩, rfl, rfl⟩ := h
    obtain ⟨phrase, rfl, hphrase⟩ := parses_furtherValues.sound hfurther
    refine ⟨t :: phrase, rfl, ?_⟩
    rcases hphrase with ⟨rfl, rfl⟩ | ⟨tail, second, values, rfl, rfl, hvalues⟩
    · exact .one (columnValue_iff.mp hfirst)
    · exact .cons (columnValue_iff.mp hfirst) hvalues
  complete := by
    intro phrase values rest h hends
    obtain ⟨first, further⟩ := values
    simp only at h
    cases h with
    | cons hfirst hfurther =>
      obtain ⟨t, rfl, hvalue⟩ := hfirst.single
      have hrest := parses_furtherValues.complete (.inr ⟨_, _, _, rfl, rfl, hfurther⟩) hends
      simp only [List.cons_append, List.nil_append] at hrest ⊢
      simp [Grammar.columnValues, hvalue, hrest]
    | one hfirst =>
      obtain ⟨t, rfl, hvalue⟩ := hfirst.single
      have hrest := parses_furtherValues.complete (.inl ⟨rfl, rfl⟩) hends
      simp only [List.nil_append] at hrest
      simp [Grammar.columnValues, hvalue, hrest]

/-- `operator` accepts exactly the eight comparison operators, with the text the tree keeps. -/
theorem operator_iff {text : List Char} :
    Grammar.operator t = some text ↔ Operator [t] text := by
  constructor
  · intro h
    unfold Grammar.operator at h
    split at h
    · next hmem =>
      cases h
      simp only [Grammar.operators, List.mem_cons, List.not_mem_nil, or_false] at hmem
      rcases hmem with rfl | rfl | rfl | rfl | rfl | rfl | rfl | rfl
      · exact .eq
      · exact .ne
      · exact .le
      · exact .ge
      · exact .lt
      · exact .gt
      · exact .is
      · exact .not
    · cases h
  · intro h
    cases h <;> rfl

/-- An operator of the grammar is one token. -/
theorem Operator.single {text : List Char} (h : Operator phrase text) :
    ∃ t, phrase = [t] ∧ Grammar.operator t = some text := by
  cases h <;> exact ⟨_, rfl, rfl⟩

/-- The words that connect conditions. -/
def connectors : List Token := [keyword "and", keyword "or"]

/-- A connector is one of the words `and`, `or`, and its text is what the tree keeps. -/
theorem Connector.single {text : List Char} (h : Connector phrase text) :
    ∃ t, phrase = [t] ∧ (t = keyword "and" ∨ t = keyword "or") ∧ t.text = text := by
  cases h with
  | and => exact ⟨_, rfl, .inl rfl, rfl⟩
  | or => exact ⟨_, rfl, .inr rfl, rfl⟩

/-- Conversely each of the two words is a connector. -/
theorem connector_text (h : t = keyword "and" ∨ t = keyword "or") :
    Connector [t] t.text := by
  rcases h with rfl | rfl
  · exact .and
  · exact .or

/-- A comparison of three tokens is accepted exactly when the grammar has it. -/
theorem whereCondition_iff {column : List Char} {op value : Token} {condition : Condition} :
    Grammar.whereCondition column op value = some condition ↔
      WhereCondition [.identifier column, op, value] condition := by
  constructor
  · intro h
    simp only [Grammar.whereCondition, Option.bind_eq_bind, Option.bind_eq_some_iff,
      Option.some.injEq] at h
    obtain ⟨text, hop, literal, hvalue, rfl⟩ := h
    have hread : Operator [op] text := operator_iff.mp hop
    exact .mk hread (columnValue_iff.mp hvalue)
  · intro h
    generalize hphrase : [Token.identifier column, op, value] = phrase at h
    cases h with
    | mk hop hvalue =>
      obtain ⟨o, rfl, ho⟩ := hop.single
      obtain ⟨v, rfl, hv⟩ := hvalue.single
      simp only [List.cons_append, List.nil_append, List.cons.injEq, Token.identifier.injEq,
        and_true] at hphrase
      obtain ⟨rfl, rfl, rfl⟩ := hphrase
      simp [Grammar.whereCondition, ho, hv]

/-- A comparison of the grammar is a name, an operator and a value. -/
theorem WhereCondition.three {condition : Condition} (h : WhereCondition phrase condition) :
    ∃ column op value,
      phrase = [.identifier column, op, value] ∧
        Grammar.whereCondition column op value = some condition := by
  cases h with
  | mk hop hvalue =>
    obtain ⟨o, rfl, ho⟩ := hop.single
    obtain ⟨v, rfl, hv⟩ := hvalue.single
    exact ⟨_, o, v, rfl, by simp [Grammar.whereCondition, ho, hv]⟩

variable {conditions : Conditions} {rest input : List Token}

/-- The conditions after those on the left: the production is recursive on the left, and the
function is a loop. -/
theorem furtherConditions_sound {first : List Token} {left : Conditions}
    (hfirst : WhereConditions first left)
    (h : Grammar.furtherConditions left input = some (conditions, rest)) :
    ∃ further, input = further ++ rest ∧ WhereConditions (first ++ further) conditions := by
  fun_induction Grammar.furtherConditions left input generalizing first conditions rest with
  | case1 left connector column op value ts hconnector ih =>
    simp only [Option.bind_eq_bind, Option.bind_eq_some_iff] at h
    obtain ⟨right, hright, hfurther⟩ := h
    have hphrase := WhereConditions.connect hfirst (connector_text hconnector)
      (whereCondition_iff.mp hright)
    obtain ⟨further, rfl, hconditions⟩ := ih right hphrase hfurther
    refine ⟨connector :: .identifier column :: op :: value :: further, rfl, ?_⟩
    simpa using hconditions
  | case2 left connector column op value ts hconnector =>
    cases h
    exact ⟨[], rfl, by simpa using hfirst⟩
  | case3 left ts hne =>
    cases h
    exact ⟨[], rfl, by simpa using hfirst⟩

/-- The loop goes over a phrase of conditions, whatever comes after it. -/
theorem whereConditions_append (h : WhereConditions phrase conditions) (rest : List Token) :
    Grammar.whereConditions (phrase ++ rest) = Grammar.furtherConditions conditions rest := by
  induction h generalizing rest with
  | connect hleft hconnector hright ih =>
    obtain ⟨t, rfl, ht, rfl⟩ := hconnector.single
    obtain ⟨column, op, value, rfl, hcondition⟩ := hright.three
    rw [List.append_assoc, ih]
    simp [Grammar.furtherConditions, ht, hcondition]
  | one hone =>
    obtain ⟨column, op, value, rfl, hcondition⟩ := hone.three
    simp [Grammar.whereConditions, hcondition]

/-- Comparisons joined by connectors. The parser takes a connector whenever one follows, so a phrase
is read whole when none does. -/
theorem parses_whereConditions :
    Parses Grammar.whereConditions WhereConditions connectors where
  sound := by
    intro input conditions rest h
    unfold Grammar.whereConditions at h
    split at h
    · next column op value ts =>
      simp only [Option.bind_eq_bind, Option.bind_eq_some_iff] at h
      obtain ⟨condition, hcondition, hfurther⟩ := h
      obtain ⟨further, rfl, hconditions⟩ :=
        furtherConditions_sound (.one (whereCondition_iff.mp hcondition)) hfurther
      exact ⟨_, rfl, hconditions⟩
    · cases h
  complete := by
    intro phrase conditions rest h hends
    rw [whereConditions_append h]
    unfold Grammar.furtherConditions
    split
    · next connector column op value ts =>
      -- the token after the phrase is no connector
      have hconnector : ¬ (connector = keyword "and" ∨ connector = keyword "or") := by
        simpa [connectors] using hends
      rw [if_neg hconnector]
    · rfl

/-- The conditions that may come at the end of a statement. -/
def WhereClause (phrase : List Token) (conditions : Option Conditions) : Prop :=
  phrase = [] ∧ conditions = none ∨ ∃ tail found,
    phrase = keyword "where" :: tail ∧ conditions = some found ∧ WhereConditions tail found

/-- The `where` clause with the conditions behind it, or nothing at all; then the next token must
not be `where`. -/
theorem parses_whereClause :
    Parses Grammar.whereClause WhereClause (keyword "where" :: connectors) where
  sound := by
    intro input conditions rest h
    unfold Grammar.whereClause at h
    split at h
    · cases h
      exact ⟨[], rfl, .inl ⟨rfl, rfl⟩⟩
    · next t ts =>
      split at h
      · next ht =>
        simp only [Option.bind_eq_bind, Option.bind_eq_some_iff, Prod.exists, Option.some.injEq,
          Prod.mk.injEq] at h
        obtain ⟨found, _, hconditions, rfl, rfl⟩ := h
        obtain ⟨phrase, rfl, hphrase⟩ := parses_whereConditions.sound hconditions
        exact ⟨t :: phrase, rfl, .inr ⟨phrase, found, ht ▸ rfl, rfl, hphrase⟩⟩
      · cases h
        exact ⟨[], rfl, .inl ⟨rfl, rfl⟩⟩
  complete := by
    intro phrase conditions rest h hends
    rcases h with ⟨rfl, rfl⟩ | ⟨tail, found, rfl, rfl, hfound⟩
    · cases rest with
      | nil => rfl
      | cons t ts =>
        -- an empty clause is read only when the next token does not start one
        have hwhere : t ≠ keyword "where" := by
          have ht := ends_cons.mp hends
          simp only [List.mem_cons, not_or] at ht
          exact ht.1
        simp [Grammar.whereClause, hwhere]
    · have hconditions := parses_whereConditions.complete hfound
        (hends.mono fun t ht => List.mem_cons_of_mem _ ht)
      simp [Grammar.whereClause, hconditions]

/-- An assignment of three tokens is accepted exactly when the grammar has it. -/
theorem updateValue_iff {column : List Char} {eq : Token} {value : MiniSql.UpdateValue} :
    Grammar.updateValue column eq t = some value ↔
      UpdateValue [.identifier column, eq, t] value := by
  constructor
  · intro h
    unfold Grammar.updateValue at h
    split at h
    · next heq =>
      obtain ⟨literal, hvalue, rfl⟩ := Option.map_eq_some_iff.mp h
      exact heq ▸ .mk (columnValue_iff.mp hvalue)
    · cases h
  · intro h
    cases h with
    | mk hvalue => simp [Grammar.updateValue, columnValue_iff.mpr hvalue]

/-- An assignment of the grammar is a name, the equality sign and a value. -/
theorem UpdateValue.three {value : MiniSql.UpdateValue} (h : UpdateValue phrase value) :
    ∃ column eq t,
      phrase = [.identifier column, eq, t] ∧ Grammar.updateValue column eq t = some value := by
  cases h with
  | mk hvalue =>
    obtain ⟨t, rfl, ht⟩ := hvalue.single
    exact ⟨_, _, t, rfl, by simp [Grammar.updateValue, ht]⟩

/-- Assignments separated by commas. -/
theorem parses_updateValues : Parses Grammar.updateValues UpdateValues [mark ','] where
  sound := by
    intro input values rest h
    fun_induction Grammar.updateValues input generalizing values rest with
    | case1 column eq value ts ih =>
      simp only [Option.bind_eq_bind, Option.bind_eq_some_iff, Prod.exists, Option.some.injEq,
        Prod.mk.injEq] at h
      obtain ⟨first, hfirst, values', _, hfurther, rfl, rfl⟩ := h
      obtain ⟨phrase, rfl, hphrase⟩ := ih hfurther
      refine ⟨_, ?_, .cons (updateValue_iff.mp hfirst) hphrase⟩
      simp
    | case2 column eq value comma ts hcomma =>
      obtain ⟨first, hfirst, heq⟩ := Option.map_eq_some_iff.mp h
      cases heq
      exact ⟨_, by simp, .one (updateValue_iff.mp hfirst)⟩
    | case3 column eq value =>
      obtain ⟨first, hfirst, heq⟩ := Option.map_eq_some_iff.mp h
      cases heq
      exact ⟨_, by simp, .one (updateValue_iff.mp hfirst)⟩
    | case4 => cases h
  complete := by
    intro phrase values rest h hends
    induction h with
    | cons hfirst hfurther ih =>
      obtain ⟨column, eq, t, rfl, hvalue⟩ := hfirst.three
      simp [Grammar.updateValues, hvalue, ih]
    | one hfirst =>
      obtain ⟨column, eq, t, rfl, hvalue⟩ := hfirst.three
      cases rest with
      | nil => simp [Grammar.updateValues, hvalue]
      | cons comma ts =>
        -- as for the other lists: no separator behind the last assignment
        have hcomma : comma ≠ mark ',' := by simpa using hends
        simp [Grammar.updateValues, hvalue, hcomma]

/-- What `select` lists: `*` or column names. The star is no name, so the two never overlap. -/
theorem parses_selectColumns : Parses Grammar.selectColumns SelectColumns [mark ','] where
  sound := by
    intro input columns rest h
    unfold Grammar.selectColumns at h
    split at h
    · cases h
    · next t ts =>
      split at h
      · next ht =>
        cases h
        exact ⟨[t], rfl, ht ▸ .all⟩
      · simp only [Option.bind_eq_bind, Option.bind_eq_some_iff, Prod.exists, Option.some.injEq,
          Prod.mk.injEq] at h
        obtain ⟨names, _, hlist, rfl, rfl⟩ := h
        obtain ⟨phrase, heq, hphrase⟩ := parses_columnList.sound hlist
        exact ⟨phrase, heq, .list hphrase⟩
  complete := by
    intro phrase columns rest h hends
    cases h with
    | all => rfl
    | list hlist =>
      have hnames := parses_columnList.complete hlist hends
      obtain ⟨name, tail, rfl⟩ := hlist.head
      have hstar : Token.identifier name ≠ mark '*' := by simp [mark]
      simp only [List.cons_append] at hnames ⊢
      simp [Grammar.selectColumns, hstar, hnames]

/-! ### Statements -/

/-- What the function of a production reads after its first word. -/
def Reads (word : String) (f : List Token → Option (SyntaxTree × List Token)) : Prop :=
  ∀ {input rest statement}, f input = some (statement, rest) →
    ∃ phrase, input = phrase ++ rest ∧ Sql (keyword word :: phrase) statement

/-- The type of an index, which may come at the end. -/
theorem parses_indexType :
    Parses Grammar.indexType
      (fun phrase type => phrase = [] ∧ type = none ∨ ∃ name,
        phrase = [keyword "using", .identifier name] ∧ type = some name) [keyword "using"] where
  sound := by
    intro input type rest h
    unfold Grammar.indexType at h
    split at h
    · cases h
      exact ⟨[], rfl, .inl ⟨rfl, rfl⟩⟩
    · next t ts =>
      split at h
      · next ht =>
        simp only [Option.bind_eq_bind, Option.bind_eq_some_iff, Prod.exists,
          Grammar.identifier_eq_some, Option.some.injEq, Prod.mk.injEq] at h
        obtain ⟨name, _, rfl, rfl, rfl⟩ := h
        exact ⟨[t, .identifier name], rfl, .inr ⟨name, ht ▸ rfl, rfl⟩⟩
      · cases h
        exact ⟨[], rfl, .inl ⟨rfl, rfl⟩⟩
  complete := by
    intro phrase type rest h hends
    rcases h with ⟨rfl, rfl⟩ | ⟨name, rfl, rfl⟩
    · cases rest with
      | nil => rfl
      | cons t ts =>
        have husing : t ≠ keyword "using" := by simpa using hends
        simp [Grammar.indexType, husing]
    · rfl

variable {statement : SyntaxTree}

/-- A statement that consists of a word and a name is read exactly when the next token is a name. -/
theorem named_eq_some {f : List Char → SyntaxTree} :
    Grammar.named f input = some (statement, rest) ↔
      ∃ name, input = .identifier name :: rest ∧ f name = statement := by
  simp only [Grammar.named, Option.bind_eq_bind, Option.bind_eq_some_iff, Prod.exists,
    Grammar.identifier_eq_some, Option.some.injEq, Prod.mk.injEq]
  constructor
  · rintro ⟨name, _, rfl, rfl, rfl⟩
    exact ⟨name, rfl, rfl⟩
  · rintro ⟨name, rfl, rfl⟩
    exact ⟨name, _, rfl, rfl, rfl⟩

/-- What `sqlCreateTable` reads is the rest of a `create table` statement. -/
theorem reads_createTable (h : Grammar.sqlCreateTable input = some (statement, rest)) :
    ∃ phrase, input = phrase ++ rest ∧
      Sql (keyword "create" :: keyword "table" :: phrase) statement := by
  simp only [Grammar.sqlCreateTable, Option.bind_eq_bind, Option.bind_eq_some_iff, Prod.exists,
    Grammar.identifier_eq_some, Grammar.expect_eq_some, Option.some.injEq, Prod.mk.injEq] at h
  obtain ⟨name, _, rfl, _, rfl, columns, _, hcolumns, _, rfl, rfl, rfl⟩ := h
  obtain ⟨list, rfl, hlist⟩ := parses_columnDefinitionList.sound hcolumns
  exact ⟨_, by simp, .createTable hlist⟩

/-- What `sqlCreateIndex` reads is the rest of a `create index` statement, with or without the type
of the index. -/
theorem reads_createIndex (h : Grammar.sqlCreateIndex input = some (statement, rest)) :
    ∃ phrase, input = phrase ++ rest ∧
      Sql (keyword "create" :: keyword "index" :: phrase) statement := by
  simp only [Grammar.sqlCreateIndex, Option.bind_eq_bind, Option.bind_eq_some_iff, Prod.exists,
    Grammar.identifier_eq_some, Grammar.expect_eq_some, Option.some.injEq, Prod.mk.injEq] at h
  obtain ⟨name, _, rfl, _, rfl, table, _, rfl, _, rfl, keys, _, hkeys, _, rfl, type, _, htype, rfl,
    rfl⟩ := h
  obtain ⟨list, rfl, hlist⟩ := parses_columnList.sound hkeys
  obtain ⟨clause, rfl, hphrase⟩ := parses_indexType.sound htype
  rcases hphrase with ⟨rfl, rfl⟩ | ⟨name, rfl, rfl⟩
  · exact ⟨_, by simp, .createIndex hlist⟩
  · exact ⟨_, by simp, .createIndexUsing hlist⟩

/-- After `create` come the three statements of the word; the second word decides. -/
theorem reads_create : Reads "create" Grammar.sqlCreate := by
  intro input rest statement h
  cases input with
  | nil => cases h
  | cons t ts =>
    simp only [Grammar.sqlCreate] at h
    split at h
    · next ht =>
      obtain ⟨name, rfl, rfl⟩ := named_eq_some.mp h
      exact ⟨[t, .identifier name], rfl, ht ▸ .createDatabase⟩
    · split at h
      · next ht =>
        obtain ⟨phrase, rfl, hphrase⟩ := reads_createTable h
        exact ⟨t :: phrase, rfl, ht ▸ hphrase⟩
      · split at h
        · next ht =>
          obtain ⟨phrase, rfl, hphrase⟩ := reads_createIndex h
          exact ⟨t :: phrase, rfl, ht ▸ hphrase⟩
        · cases h

/-- After `drop` come the three statements of the word; the second word decides. -/
theorem reads_drop : Reads "drop" Grammar.sqlDrop := by
  intro input rest statement h
  cases input with
  | nil => cases h
  | cons t ts =>
    simp only [Grammar.sqlDrop] at h
    split at h
    · next ht =>
      obtain ⟨name, rfl, rfl⟩ := named_eq_some.mp h
      exact ⟨[t, .identifier name], rfl, ht ▸ .dropDatabase⟩
    · split at h
      · next ht =>
        obtain ⟨name, rfl, rfl⟩ := named_eq_some.mp h
        exact ⟨[t, .identifier name], rfl, ht ▸ .dropTable⟩
      · split at h
        · next ht =>
          obtain ⟨name, rfl, rfl⟩ := named_eq_some.mp h
          exact ⟨[t, .identifier name], rfl, ht ▸ .dropIndex⟩
        · cases h

/-- After `show` come the three statements of the word; the second word decides. -/
theorem reads_show : Reads "show" Grammar.sqlShow := by
  intro input rest statement h
  cases input with
  | nil => cases h
  | cons t ts =>
    simp only [Grammar.sqlShow] at h
    split at h
    · next ht =>
      cases h
      exact ⟨[t], rfl, ht ▸ .showDatabases⟩
    · split at h
      · next ht =>
        cases h
        exact ⟨[t], rfl, ht ▸ .showTables⟩
      · split at h
        · next ht =>
          cases h
          exact ⟨[t], rfl, ht ▸ .showIndexes⟩
        · cases h

/-- After `select` come the columns, the table and perhaps conditions. -/
theorem reads_select : Reads "select" Grammar.sqlSelect := by
  intro input rest statement h
  simp only [Grammar.sqlSelect, Option.bind_eq_bind, Option.bind_eq_some_iff, Prod.exists,
    Grammar.identifier_eq_some, Grammar.expect_eq_some, Option.some.injEq, Prod.mk.injEq] at h
  obtain ⟨columns, _, hcolumns, _, rfl, table, _, rfl, conditions, _, hclause, rfl, rfl⟩ := h
  obtain ⟨list, rfl, hlist⟩ := parses_selectColumns.sound hcolumns
  obtain ⟨clause, rfl, hphrase⟩ := parses_whereClause.sound hclause
  rcases hphrase with ⟨rfl, rfl⟩ | ⟨tail, found, rfl, rfl, hfound⟩
  · exact ⟨_, by simp, .select hlist⟩
  · exact ⟨_, by simp, .selectWhere hlist hfound⟩

/-- After `insert` come the table and its values. -/
theorem reads_insert : Reads "insert" Grammar.sqlInsert := by
  intro input rest statement h
  simp only [Grammar.sqlInsert, Option.bind_eq_bind, Option.bind_eq_some_iff, Prod.exists,
    Grammar.identifier_eq_some, Grammar.expect_eq_some, Option.some.injEq, Prod.mk.injEq] at h
  obtain ⟨_, rfl, table, _, rfl, _, rfl, _, rfl, first, further, _, hvalues, _, rfl, rfl, rfl⟩ := h
  obtain ⟨list, rfl, hlist⟩ := parses_columnValues.sound
    (Option.map_eq_some_iff.mpr ⟨_, hvalues, rfl⟩)
  exact ⟨_, by simp, .insert hlist⟩

/-- After `delete` come the table and perhaps conditions. -/
theorem reads_delete : Reads "delete" Grammar.sqlDelete := by
  intro input rest statement h
  simp only [Grammar.sqlDelete, Option.bind_eq_bind, Option.bind_eq_some_iff, Prod.exists,
    Grammar.identifier_eq_some, Grammar.expect_eq_some, Option.some.injEq, Prod.mk.injEq] at h
  obtain ⟨_, rfl, table, _, rfl, conditions, _, hclause, rfl, rfl⟩ := h
  obtain ⟨clause, rfl, hphrase⟩ := parses_whereClause.sound hclause
  rcases hphrase with ⟨rfl, rfl⟩ | ⟨tail, found, rfl, rfl, hfound⟩
  · exact ⟨_, by simp, .delete⟩
  · exact ⟨_, by simp, .deleteWhere hfound⟩

/-- After `update` come the table, the assignments and perhaps conditions. -/
theorem reads_update : Reads "update" Grammar.sqlUpdate := by
  intro input rest statement h
  simp only [Grammar.sqlUpdate, Option.bind_eq_bind, Option.bind_eq_some_iff, Prod.exists,
    Grammar.identifier_eq_some, Grammar.expect_eq_some, Option.some.injEq, Prod.mk.injEq] at h
  obtain ⟨table, _, rfl, _, rfl, values, _, hvalues, conditions, _, hclause, rfl, rfl⟩ := h
  obtain ⟨list, rfl, hlist⟩ := parses_updateValues.sound hvalues
  obtain ⟨clause, rfl, hphrase⟩ := parses_whereClause.sound hclause
  rcases hphrase with ⟨rfl, rfl⟩ | ⟨tail, found, rfl, rfl, hfound⟩
  · exact ⟨_, by simp, .update hlist⟩
  · exact ⟨_, by simp, .updateWhere hlist hfound⟩

/-- Every production reads its own phrases. -/
theorem reads_production {p : String × (List Token → Option (SyntaxTree × List Token))}
    (hp : p ∈ Grammar.productions) : Reads p.1 p.2 := by
  simp only [Grammar.productions, List.mem_cons, List.not_mem_nil, or_false] at hp
  rcases hp with rfl | rfl | rfl | rfl | rfl | rfl | rfl | rfl | rfl | rfl | rfl | rfl | rfl
  · exact reads_create
  · exact reads_drop
  · exact reads_show
  · intro input rest statement h
    obtain ⟨name, rfl, rfl⟩ := named_eq_some.mp h
    exact ⟨[.identifier name], rfl, .useDatabase⟩
  · exact reads_select
  · exact reads_insert
  · exact reads_delete
  · exact reads_update
  · intro input rest statement h
    cases h
    exact ⟨[], rfl, .trxBegin⟩
  · intro input rest statement h
    cases h
    exact ⟨[], rfl, .trxCommit⟩
  · intro input rest statement h
    cases h
    exact ⟨[], rfl, .trxRollback⟩
  · intro input rest statement h
    cases h
    exact ⟨[], rfl, .quit⟩
  · intro input rest statement h
    simp only [Grammar.sqlExecFile] at h
    split at h
    · next path ts =>
      cases h
      exact ⟨[.string path], rfl, .execFile⟩
    · cases h

/-- Two keyword tokens are equal only for equal words; the form `simp` decides the tests of the
parser with. -/
theorem keyword_inj {v w : String} : keyword v = keyword w ↔ v = w :=
  ⟨Grammar.keyword_injective, congrArg keyword⟩

/-- The first word chooses the production. -/
theorem sql_production {word : String} {f : List Token → Option (SyntaxTree × List Token)}
    (hp : (word, f) ∈ Grammar.productions) (ts : List Token) :
    Grammar.sql (keyword word :: ts) = f ts := by
  simp only [Grammar.productions, List.mem_cons, List.not_mem_nil, or_false, Prod.mk.injEq] at hp
  rcases hp with ⟨rfl, rfl⟩ | ⟨rfl, rfl⟩ | ⟨rfl, rfl⟩ | ⟨rfl, rfl⟩ | ⟨rfl, rfl⟩ | ⟨rfl, rfl⟩ |
    ⟨rfl, rfl⟩ | ⟨rfl, rfl⟩ | ⟨rfl, rfl⟩ | ⟨rfl, rfl⟩ | ⟨rfl, rfl⟩ | ⟨rfl, rfl⟩ | ⟨rfl, rfl⟩
  all_goals simp [Grammar.sql, Grammar.productions, keyword_inj]

/-- The tokens that can make a statement longer. -/
def further : List Token := mark ',' :: keyword "using" :: keyword "where" :: connectors

/-- A `where` clause at the end of a statement, before a token that continues none. -/
theorem whereClause_complete {conditions : Option Conditions} (h : WhereClause phrase conditions)
    (hends : Ends further rest) :
    Grammar.whereClause (phrase ++ rest) = some (conditions, rest) := by
  refine parses_whereClause.complete h (hends.mono fun t ht => ?_)
  simp only [further, List.mem_cons]
  exact .inr (.inr (by simpa using ht))

/-- One case for each production of `sql`. Soundness goes through the table of productions, by the
first word; completeness through the rules of the grammar, where the lists inside a statement are
read by their own lemmas, each before the token that follows it there. -/
theorem parses_sql : Parses Grammar.sql Sql further where
  sound := by
    intro input statement rest h
    cases input with
    | nil => cases h
    | cons t ts =>
      obtain ⟨p, hp, rfl, hstatement⟩ := Grammar.sql_cons h
      obtain ⟨phrase, rfl, hphrase⟩ := reads_production hp hstatement
      exact ⟨keyword p.1 :: phrase, rfl, hphrase⟩
  complete := by
    intro phrase statement rest h hends
    cases h with
    | createDatabase => rfl
    | dropDatabase => rfl
    | showDatabases => rfl
    | useDatabase => rfl
    | showTables => rfl
    -- the list is followed by the closing parenthesis, which belongs to no definition
    | createTable hcolumns =>
      have hlist := parses_columnDefinitionList.complete (r := mark ')' :: rest) hcolumns
        (by simp; decide)
      rw [List.cons_append, sql_production (f := Grammar.sqlCreate) (by simp [Grammar.productions])]
      simp [Grammar.sqlCreate, Grammar.sqlCreateTable, Grammar.identifier, Grammar.expect, hlist,
        keyword_inj]
    | dropTable => rfl
    -- without `using`: the end of the statement may not be taken for an index type
    | createIndex hkeys =>
      have hlist := parses_columnList.complete (r := mark ')' :: rest) hkeys (by simp; decide)
      have htype := parses_indexType.complete (.inl ⟨rfl, rfl⟩)
        (hends.mono (s := [keyword "using"]) (by simp [further]))
      rw [List.nil_append] at htype
      rw [List.cons_append, sql_production (f := Grammar.sqlCreate) (by simp [Grammar.productions])]
      simp [Grammar.sqlCreate, Grammar.sqlCreateIndex, Grammar.identifier, Grammar.expect, hlist,
        htype, keyword_inj]
    | createIndexUsing hkeys =>
      rename_i name table type phrase keys
      have hlist := parses_columnList.complete
        (r := mark ')' :: keyword "using" :: .identifier type :: rest) hkeys (by simp; decide)
      rw [List.cons_append, sql_production (f := Grammar.sqlCreate) (by simp [Grammar.productions])]
      simp [Grammar.sqlCreate, Grammar.sqlCreateIndex, Grammar.indexType, Grammar.identifier,
        Grammar.expect, hlist, keyword_inj]
    | dropIndex => rfl
    | showIndexes => rfl
    -- without a clause: what follows the statement may not start one
    | select hcolumns =>
      rename_i table phrase columns
      have hlist := parses_selectColumns.complete
        (r := keyword "from" :: .identifier table :: rest) hcolumns (by simp; decide)
      have hclause := whereClause_complete (.inl ⟨rfl, rfl⟩) hends
      rw [List.nil_append] at hclause
      rw [List.cons_append, sql_production (f := Grammar.sqlSelect) (by simp [Grammar.productions])]
      simp [Grammar.sqlSelect, Grammar.identifier, Grammar.expect, hlist, hclause]
    | selectWhere hcolumns hconditions =>
      rename_i table phrase conds columns conditions
      have hlist := parses_selectColumns.complete
        (r := keyword "from" :: .identifier table :: keyword "where" :: (conds ++ rest)) hcolumns
        (by simp; decide)
      have hclause := whereClause_complete (.inr ⟨_, _, rfl, rfl, hconditions⟩) hends
      rw [List.cons_append] at hclause
      rw [List.cons_append, sql_production (f := Grammar.sqlSelect) (by simp [Grammar.productions])]
      simp [Grammar.sqlSelect, Grammar.identifier, Grammar.expect, hlist, hclause]
    | insert hvalues =>
      have hread := parses_columnValues.complete (r := mark ')' :: rest) (a := (_, _)) hvalues
        (by simp; decide)
      obtain ⟨⟨first, values, ts⟩, hlist, heq⟩ := Option.map_eq_some_iff.mp hread
      cases heq
      rw [List.cons_append, sql_production (f := Grammar.sqlInsert) (by simp [Grammar.productions])]
      simp [Grammar.sqlInsert, Grammar.identifier, Grammar.expect, hlist]
    | delete =>
      have hclause := whereClause_complete (.inl ⟨rfl, rfl⟩) hends
      rw [List.nil_append] at hclause
      rw [List.cons_append, sql_production (f := Grammar.sqlDelete) (by simp [Grammar.productions])]
      simp [Grammar.sqlDelete, Grammar.identifier, Grammar.expect, hclause]
    | deleteWhere hconditions =>
      have hclause := whereClause_complete (.inr ⟨_, _, rfl, rfl, hconditions⟩) hends
      rw [List.cons_append] at hclause
      rw [List.cons_append, sql_production (f := Grammar.sqlDelete) (by simp [Grammar.productions])]
      simp [Grammar.sqlDelete, Grammar.identifier, Grammar.expect, hclause]
    -- here the assignments themselves stand at the end
    | update hvalues =>
      have hlist := parses_updateValues.complete hvalues (hends.mono (by simp [further]))
      have hclause := whereClause_complete (.inl ⟨rfl, rfl⟩) hends
      rw [List.nil_append] at hclause
      rw [List.cons_append, sql_production (f := Grammar.sqlUpdate) (by simp [Grammar.productions])]
      simp [Grammar.sqlUpdate, Grammar.identifier, Grammar.expect, hlist, hclause]
    | updateWhere hvalues hconditions =>
      rename_i table phrase conds values conditions
      have hlist := parses_updateValues.complete (r := keyword "where" :: (conds ++ rest)) hvalues
        (by simp; decide)
      have hclause := whereClause_complete (.inr ⟨_, _, rfl, rfl, hconditions⟩) hends
      rw [List.cons_append] at hclause
      rw [List.cons_append, sql_production (f := Grammar.sqlUpdate) (by simp [Grammar.productions])]
      simp [Grammar.sqlUpdate, Grammar.identifier, Grammar.expect, hlist, hclause]
    | trxBegin => rfl
    | trxCommit => rfl
    | trxRollback => rfl
    | quit => rfl
    | execFile => rfl

/-- No token can make a statement with its semicolon longer. -/
theorem parses_start : Parses Grammar.start Start [] where
  sound := by
    intro input statement rest h
    simp only [Grammar.start, Option.bind_eq_bind, Option.bind_eq_some_iff, Prod.exists,
      Grammar.expect_eq_some, Option.some.injEq, Prod.mk.injEq] at h
    obtain ⟨statement', _, hsql, _, rfl, rfl, rfl⟩ := h
    obtain ⟨phrase, rfl, hphrase⟩ := parses_sql.sound hsql
    exact ⟨phrase ++ [mark ';'], by simp, .mk hphrase⟩
  complete := by
    intro phrase statement rest h hends
    cases h with
    | mk hsql =>
      have hstatement := parses_sql.complete (r := mark ';' :: rest) hsql (by simp; decide)
      simp [Grammar.start, Grammar.expect, hstatement]

/-! ### Texts -/

/-- The scanner hands all tokens of the phrase over to the parser. -/
def Recognized (phrase : List Token) : Prop := ∀ t ∈ phrase, t.recognized = true

@[simp] theorem recognized_nil : Recognized [] := fun _ h => absurd h List.not_mem_nil

/-- A token and the phrase behind it. -/
@[simp] theorem recognized_cons :
    Recognized (t :: phrase) ↔ t.recognized = true ∧ Recognized phrase := List.forall_mem_cons

/-- Two phrases one after the other. -/
@[simp] theorem recognized_append {phrase' : List Token} :
    Recognized (phrase ++ phrase') ↔ Recognized phrase ∧ Recognized phrase' :=
  List.forall_mem_append

/-- Every keyword has a number in the generated parser, and so have the other tokens. -/
@[simp] theorem recognized_keyword (w : String) : (keyword w).recognized = true := rfl

@[simp] theorem recognized_mark (c : Char) : (mark c).recognized = true := rfl

@[simp] theorem recognized_identifier (name : List Char) :
    (Token.identifier name).recognized = true := rfl

@[simp] theorem recognized_string (content : List Char) :
    (Token.string content).recognized = true := rfl

@[simp] theorem recognized_number (text : List Char) : (Token.number text).recognized = true := rfl

@[simp] theorem recognized_symbol (text : List Char) : (Token.symbol text).recognized = true := rfl

/-- The lists and parts of a statement consist of tokens the scanner passes on; each by its own
rules, so that `Sql.recognized` is one case split. -/
theorem ColumnList.recognized (h : ColumnList phrase names) : Recognized phrase := by
  induction h with
  | cons _ ih => simpa using ih
  | one => simp

/-- The same of a column definition, with its type and perhaps `unique`. -/
theorem ColumnDefinition.recognized (h : ColumnDefinition phrase definition) :
    Recognized phrase := by
  have htype : ∀ {phrase : List Token} {type : MiniSql.ColumnType}, ColumnType phrase type →
      Recognized phrase := by
    intro phrase type h
    cases h with
    | int => simp
    | float => simp
    | char => simp
  cases h with
  | unique h => simpa using htype h
  | plain h => simpa using htype h

/-- The same of the definitions of a table. -/
theorem ColumnDefinitionList.recognized {list : MiniSql.ColumnDefinitionList}
    (h : ColumnDefinitionList phrase list) :
    Recognized phrase := by
  induction h with
  | cons hfirst _ ih => simpa using ⟨hfirst.recognized, ih⟩
  | one hfirst => exact hfirst.recognized
  | primaryKey hlist => simpa using hlist.recognized

/-- The same of a value. -/
theorem ColumnValue.recognized (h : ColumnValue phrase value) : Recognized phrase := by
  cases h <;> simp

/-- The same of the values of an `insert`. -/
theorem ColumnValues.recognized {first : Literal} {further : List Literal}
    (h : ColumnValues phrase first further) : Recognized phrase := by
  induction h with
  | cons hfirst _ ih => simpa using ⟨hfirst.recognized, ih⟩
  | one hfirst => exact hfirst.recognized

/-- The same of the conditions of a clause. -/
theorem WhereConditions.recognized (h : WhereConditions phrase conditions) : Recognized phrase := by
  have hone : ∀ {phrase : List Token} {condition : Condition}, WhereCondition phrase condition →
      Recognized phrase := by
    intro phrase condition h
    cases h with
    | mk hop hvalue => cases hop <;> simpa using hvalue.recognized
  induction h with
  | connect _ hconnector hright ih =>
    cases hconnector <;> simpa using ⟨ih, hone hright⟩
  | one h => exact hone h

/-- The same of the assignments of an `update`. -/
theorem UpdateValues.recognized {phrase : List Token} {values : List MiniSql.UpdateValue}
    (h : UpdateValues phrase values) : Recognized phrase := by
  have hone : ∀ {phrase : List Token} {value : MiniSql.UpdateValue}, UpdateValue phrase value →
      Recognized phrase := by
    intro phrase value h
    cases h with
    | mk hvalue => simpa using hvalue.recognized
  induction h with
  | cons hfirst _ ih => simpa using ⟨hone hfirst, ih⟩
  | one hfirst => exact hone hfirst

/-- The same of what `select` lists. -/
theorem SelectColumns.recognized {columns : Option (List (List Char))}
    (h : SelectColumns phrase columns) : Recognized phrase := by
  cases h with
  | all => simp
  | list hlist => exact hlist.recognized

/-- A statement has no character that the scanner does not take. -/
theorem Start.recognized (h : Start phrase statement) : Recognized phrase := by
  obtain ⟨hsql⟩ := h
  cases hsql with
  | createTable hcolumns => simpa using hcolumns.recognized
  | createIndex hkeys => simpa using hkeys.recognized
  | createIndexUsing hkeys => simpa using hkeys.recognized
  | select hcolumns => simpa using hcolumns.recognized
  | selectWhere hcolumns hconditions => simpa using ⟨hcolumns.recognized, hconditions.recognized⟩
  | insert hvalues => simpa using hvalues.recognized
  | deleteWhere hconditions => simpa using hconditions.recognized
  | update hvalues => simpa using hvalues.recognized
  | updateWhere hvalues hconditions => simpa using ⟨hvalues.recognized, hconditions.recognized⟩
  | _ => simp

/-! ### The stack -/

/-- A phrase that has as many tokens as symbols on the stack, at least, and one token or more. -/
def Room (depth : Nat) (phrase : List Token) : Prop := 1 ≤ phrase.length ∧ depth ≤ phrase.length

/-- The first symbol of a production is one below the others. -/
theorem Room.cons {depth : Nat} {depths : List Nat} (h : Room depth phrase)
    (hrest : Room (stackHeight depths) rest) :
    Room (stackHeight (depth :: depths)) (phrase ++ rest) := by
  unfold Room at h hrest ⊢
  rw [stackHeight, List.length_append]
  omega

/-- The last symbol of a production. -/
theorem Room.last {depth : Nat} (h : Room depth phrase) :
    Room (stackHeight [depth]) phrase := by
  unfold Room at h ⊢
  rw [stackHeight, stackHeight]
  omega

/-- A token in front of the other symbols of a production takes one place. -/
theorem Room.token {depths : List Nat} (h : Room (stackHeight depths) rest) :
    Room (stackHeight (1 :: depths)) (t :: rest) := by
  have ht : Room 1 [t] := ⟨Nat.le_refl 1, Nat.le_refl 1⟩
  exact ht.cons h

/-- A token as the last symbol of a production. -/
theorem Room.lastToken : Room (stackHeight [1]) [t] :=
  Room.last ⟨Nat.le_refl 1, Nat.le_refl 1⟩

/-- The stack a list of columns needs: right recursion puts the name and the comma of every element
on it before the first reduction. -/
theorem ColumnList.room (h : ColumnList phrase names) : Room (columnListDepth names) phrase := by
  induction h with
  | @cons name phrase names hfurther ih =>
    cases names with
    | nil => cases hfurther
    | cons second names => exact .token (.token ih.last)
  | one => exact .lastToken

/-- The stack a column definition needs. -/
theorem ColumnDefinition.room (h : ColumnDefinition phrase definition) :
    Room definition.stackDepth phrase := by
  have htype : ∀ {phrase : List Token} {type : MiniSql.ColumnType}, ColumnType phrase type →
      Room type.stackDepth phrase := by
    intro phrase type h
    cases h with
    | int => exact .lastToken
    | float => exact .lastToken
    | char => exact .token (.token (.token .lastToken))
  cases h with
  | unique h => exact .token ((htype h).cons .lastToken)
  | plain h => exact .token (htype h).last

/-- The stack the definitions of a table need, again by right recursion. -/
theorem ColumnDefinitionList.room {list : MiniSql.ColumnDefinitionList}
    (h : ColumnDefinitionList phrase list) : Room list.stackDepth phrase := by
  induction h with
  | @cons first further definition list hfirst hfurther ih =>
    have hcons : Room (stackHeight [definition.stackDepth, 1, list.stackDepth])
        (first ++ mark ',' :: further) := hfirst.room.cons (.token ih.last)
    obtain ⟨definitions, primaryKeys⟩ := list
    cases definitions with
    | cons => exact hcons
    | nil =>
      cases primaryKeys with
      | some names => exact hcons
      | none => cases hfurther
  | one h => exact h.room.last
  | primaryKey h => exact .token (.token (.token (h.room.cons .lastToken)))

/-- The stack a value needs. -/
theorem ColumnValue.room (h : ColumnValue phrase value) :
    Room (stackHeight [1]) phrase := by
  obtain ⟨t, rfl, -⟩ := h.single
  exact .lastToken

/-- The stack the values of an `insert` need; this is the list that outgrows the bound first. -/
theorem ColumnValues.room {first : Literal} {further : List Literal}
    (h : ColumnValues phrase first further) : Room (columnValuesDepth further) phrase := by
  induction h with
  | cons hfirst _ ih => exact hfirst.room.cons (.token ih.last)
  | one h => exact h.room

/-- The stack a list of conditions needs. -/
theorem WhereConditions.room (h : WhereConditions phrase conditions) :
    Room conditions.stackDepth phrase := by
  have hthree : ∀ {phrase : List Token} {condition : Condition}, WhereCondition phrase condition →
      Room (stackHeight [1, 1, 1]) phrase := by
    intro phrase condition h
    obtain ⟨_, _, _, rfl, -⟩ := h.three
    exact .token (.token .lastToken)
  induction h with
  | connect _ hconnector hright ih =>
    obtain ⟨t, rfl, -⟩ := hconnector.single
    exact ih.cons (.token (hthree hright).last)
  | one h => exact hthree h

/-- The stack a list of assignments needs. -/
theorem UpdateValues.room {values : List MiniSql.UpdateValue} (h : UpdateValues phrase values) :
    Room (updateValuesDepth values) phrase := by
  have hthree : ∀ {phrase : List Token} {value : MiniSql.UpdateValue}, UpdateValue phrase value →
      Room (stackHeight [1, 1, 1]) phrase := by
    intro phrase value h
    obtain ⟨_, _, _, rfl, -⟩ := h.three
    exact .token (.token .lastToken)
  induction h with
  | @cons first further value values hfirst hfurther ih =>
    cases values with
    | nil => cases hfurther
    | cons second values => exact (hthree hfirst).cons (.token ih.last)
  | one h => exact hthree h

/-- Each symbol that a statement puts on the stack stands for a token at least. -/
theorem Sql.room (h : Sql phrase statement) :
    Room statement.stackDepth phrase := by
  have hcolumns : ∀ {phrase rest : List Token} {columns : Option (List (List Char))}
      {table : List Char} {conditions : Option Conditions}, SelectColumns phrase columns →
      Room (stackHeight ([1, 1] ++ whereDepths conditions)) rest →
      Room (SyntaxTree.select columns table conditions).stackDepth
        (keyword "select" :: (phrase ++ rest)) := by
    intro phrase rest columns table conditions h hrest
    cases h with
    | all => exact .token (.token hrest)
    | list h => exact .token (h.room.cons hrest)
  cases h with
  | createDatabase => exact .token (.token .lastToken)
  | dropDatabase => exact .token (.token .lastToken)
  | dropTable => exact .token (.token .lastToken)
  | dropIndex => exact .token (.token .lastToken)
  | showDatabases => exact .token .lastToken
  | showTables => exact .token .lastToken
  | showIndexes => exact .token .lastToken
  | useDatabase => exact .token .lastToken
  | execFile => exact .token .lastToken
  | trxBegin => exact .lastToken
  | trxCommit => exact .lastToken
  | trxRollback => exact .lastToken
  | quit => exact .lastToken
  | createTable h => exact .token (.token (.token (.token (h.room.cons .lastToken))))
  | createIndex h =>
    exact .token (.token (.token (.token (.token (.token (h.room.cons .lastToken))))))
  | createIndexUsing h =>
    exact .token (.token (.token (.token (.token (.token
      (h.room.cons (.token (.token .lastToken))))))))
  | select h => exact hcolumns h (.token .lastToken)
  | selectWhere h hconditions =>
    exact hcolumns h (.token (.token (.token hconditions.room.last)))
  | insert h => exact .token (.token (.token (.token (.token (h.room.cons .lastToken)))))
  | delete => exact .token (.token .lastToken)
  | deleteWhere h => exact .token (.token (.token (.token h.room.last)))
  | update h => exact .token (.token (.token h.room.last))
  | updateWhere h hconditions =>
    exact .token (.token (.token (h.room.cons (.token hconditions.room.last))))

/-- A phrase with fewer tokens than there are states on a full stack fits. -/
theorem Start.fitsStack (h : Start phrase statement) (hlen : phrase.length + 1 < YYMAXDEPTH) :
    statement.FitsStack := by
  obtain ⟨hsql⟩ := h
  have hroom : Room (stackHeight [statement.stackDepth, 1]) _ :=
    hsql.room.cons (.lastToken (t := mark ';'))
  unfold SyntaxTree.FitsStack
  have hle := hroom.2
  omega

/-- An `insert` fits on the stack if it has fewer than 4998 values. -/
theorem fitsStack_insert_iff (statement : InsertStatement) :
    (SyntaxTree.insert statement).FitsStack ↔ statement.further.length + 1 < 4998 := by
  have hdepth : ∀ values : List Literal, columnValuesDepth values = 2 * values.length + 1 := by
    intro values
    induction values with
    | nil => rfl
    | cons value values ih =>
      rw [columnValuesDepth, ih, List.length_cons]
      simp only [stackHeight]
      omega
  unfold SyntaxTree.FitsStack
  simp only [SyntaxTree.stackDepth, hdepth, stackHeight, YYMAXDEPTH]
  omega

/-- The grammar is not ambiguous, and a statement is not the beginning of another one. -/
theorem start_prefix_unique {phrase phrase' rest rest' : List Token}
    {statement statement' : SyntaxTree} (h : Start phrase statement) (h' : Start phrase' statement')
    (heq : phrase ++ rest = phrase' ++ rest') : phrase = phrase' ∧ statement = statement' :=
  parses_start.prefix_unique h h' heq

/-- `show tables;` before `quit;`. -/
theorem start_prefix_unique_show_tables :
    [keyword "show", keyword "tables", mark ';'] = [keyword "show", keyword "tables", mark ';'] ∧
      SyntaxTree.showTables = .showTables := by
  have h : Start [keyword "show", keyword "tables", mark ';'] .showTables := .mk .showTables
  have heq : [keyword "show", keyword "tables", mark ';'] ++ [keyword "quit", mark ';'] =
      [keyword "show", keyword "tables", mark ';'] ++ [keyword "quit", mark ';'] := rfl
  exact start_prefix_unique h h heq

end Productions

open Productions (Start parses_start)

/-- A text whose tokens are a phrase of `start` is accepted, unless the phrase is too long for the
stack. -/
theorem yyparse_of_start {text : List Char} {statement : SyntaxTree}
    (h : Start (Lexer.lex text) statement) (hfits : statement.FitsStack) :
    yyparse text = { root := some statement, error := false } := by
  have hall : (Lexer.lex text).filter Token.recognized = Lexer.lex text :=
    List.filter_eq_self.mpr h.recognized
  have hrecognized : (Lexer.lex text).all Token.recognized = true :=
    List.all_eq_true.mpr h.recognized
  simp only [yyparse, hall, parses_start.eq_some_iff.mpr h, hrecognized, if_pos hfits]
  rfl

/-- An accepted text is a phrase of `start`, and the phrase fits on the stack. -/
theorem start_of_yyparse {text : List Char} {statement : SyntaxTree}
    (h : yyparse text = { root := some statement, error := false }) :
    Start (Lexer.lex text) statement ∧ statement.FitsStack := by
  obtain ⟨found, hstart⟩ := start_of_no_error (by rw [h])
  have hphrase := parses_start.eq_some_iff.mp hstart
  obtain ⟨⟨rest, hroot⟩, hfits⟩ := root_eq_some_iff.mp (congrArg MinisqlParser.root h)
  rw [List.filter_eq_self.mpr hphrase.recognized, hstart] at hroot
  obtain rfl : found = statement := by simpa using congrArg (Option.map Prod.fst) hroot
  exact ⟨hphrase, hfits⟩

/-- The parser decides the grammar, as far as its stack reaches. It accepts exactly the texts whose
tokens are a phrase of `start` that fits on the stack, and the root is the tree of this phrase.
Where it accepts nothing it may still have a root: then a phrase stands before something else, or a
character that no rule takes was dropped. -/
theorem yyparse_iff (text : List Char) (statement : SyntaxTree) :
    (yyparse text = { root := some statement, error := false } ↔
      Start (Lexer.lex text) statement ∧ statement.FitsStack) ∧
    ((yyparse text).root = some statement ↔ (∃ phrase rest,
      (Lexer.lex text).filter Token.recognized = phrase ++ rest ∧ Start phrase statement) ∧
        statement.FitsStack) := by
  constructor
  · exact ⟨start_of_yyparse, fun h => yyparse_of_start h.1 h.2⟩
  · rw [root_eq_some_iff]
    simp only [parses_start.eq_some_append_iff]
    constructor
    · intro h
      obtain ⟨⟨rest, phrase, heq, hphrase⟩, hfits⟩ := h
      exact ⟨⟨phrase, rest, heq, hphrase⟩, hfits⟩
    · intro h
      obtain ⟨⟨phrase, rest, heq, hphrase⟩, hfits⟩ := h
      exact ⟨⟨rest, phrase, heq, hphrase⟩, hfits⟩

end DisMiniSql.MiniSql
