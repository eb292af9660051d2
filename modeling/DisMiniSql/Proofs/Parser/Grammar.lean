import DisMiniSql.MiniSql.Parser.Grammar
import DisMiniSql.Proofs.Parser.Lexer

/-!
# `DisMiniSql.Proofs.Parser.Grammar`: how an accepted text begins

A statement begins with one of thirteen words, and four of them need an operand. On the text that
means: layout, the word, and a character that cannot be part of the word (`Accepted.beginsWith`).
`sql_insert` of this grammar is the one of the scanner's module (`start_eq_insert_iff`).
-/

set_option autoImplicit false

namespace DisMiniSql.MiniSql

/-! ### Tokens -/

/-- The word a statement begins with. -/
def SyntaxTree.openingWord : SyntaxTree → String
  | createDatabase _ | createTable _ _ | createIndex _ _ _ _ => "create"
  | dropDatabase _ | dropTable _ | dropIndex _ => "drop"
  | showDatabases | showTables | showIndexes => "show"
  | useDatabase _ => "use"
  | select _ _ _ => "select"
  | insert _ => "insert"
  | delete _ _ => "delete"
  | update _ _ _ => "update"
  | trxBegin => "begin"
  | trxCommit => "commit"
  | trxRollback => "rollback"
  | quit => "quit"
  | execFile _ => "execfile"

namespace Grammar

/-- The words that a statement can begin with. -/
def openingWords : List String := productions.map Prod.fst

/-- The words of them that need an operand. -/
def operandWords : List String := ["select", "show", "create", "drop"]

/-- Two keyword tokens are equal only for equal words. -/
theorem keyword_injective {v w : String} (h : keyword v = keyword w) : v = w :=
  String.toList_inj.mp (Token.keyword.inj h)

variable {ts : List Token}

/-- A terminal is taken exactly where it stands at the front. -/
theorem expect_eq_some {t : Token} {rest : List Token} :
    expect t ts = some rest ↔ ts = t :: rest := by
  cases ts with
  | nil => simp [expect]
  | cons u ts => simp [expect, ite_eq_iff]

variable {statement : SyntaxTree}

/-- A statement that is parsed begins with the keyword of one of the productions, and that
production parses the rest. `start_openingWord` takes the productions from here one by one. -/
theorem sql_cons {t : Token} {rest : List Token} (h : sql (t :: ts) = some (statement, rest)) :
    ∃ p ∈ productions, t = keyword p.1 ∧ p.2 ts = some (statement, rest) := by
  simp only [sql, Option.bind_eq_some_iff] at h
  obtain ⟨p, hfind, hp⟩ := h
  have hword := List.find?_some hfind
  exact ⟨p, List.mem_of_find?_eq_some hfind, by simpa using hword, hp⟩

variable {p : String × (List Token → Option (SyntaxTree × List Token))}

/-- The semicolon is not an operand. -/
theorem operand_ne_semicolon (hp : p ∈ productions) (hword : p.1 ∈ operandWords) (ts : List Token) :
    p.2 (mark ';' :: ts) = none := by
  simp only [productions, List.mem_cons, List.not_mem_nil, or_false] at hp
  rcases hp with rfl | rfl | rfl | rfl | rfl | rfl | rfl | rfl | rfl | rfl | rfl | rfl | rfl
  · rfl
  · rfl
  · rfl
  · exact absurd hword (by decide)
  · rfl
  all_goals exact absurd hword (by decide)

/-- The productions that read one name, as `drop table t`: the statement has the keyword that every
statement of its constructor has. -/
theorem named_openingWord {f : List Char → SyntaxTree} {word : String} {rest : List Token}
    (h : named f ts = some (statement, rest)) (hf : ∀ name, (f name).openingWord = word) :
    word = statement.openingWord := by
  simp only [named, Option.bind_eq_bind, Option.bind_eq_some_iff, Prod.exists, Option.some.injEq,
    Prod.mk.injEq] at h
  obtain ⟨name, -, -, rfl, -⟩ := h
  exact (hf name).symm

/-- The three statements behind `create`. The word decides, and each of them is a `create` in
`SqlUtils` too. -/
theorem sqlCreate_openingWord {rest : List Token} (h : sqlCreate ts = some (statement, rest)) :
    "create" = statement.openingWord := by
  cases ts with
  | nil => cases h
  | cons t ts =>
    simp only [sqlCreate] at h
    -- the keyword behind `create`: a database, a table, an index
    split at h
    · exact named_openingWord h (fun _ => rfl)
    · split at h
      · simp only [sqlCreateTable, Option.bind_eq_bind, Option.bind_eq_some_iff, Option.some.injEq,
          Prod.mk.injEq, Prod.exists] at h
        obtain ⟨name, -, -, -, -, columns, -, -, -, -, rfl, -⟩ := h
        rfl
      · split at h
        · simp only [sqlCreateIndex, Option.bind_eq_bind, Option.bind_eq_some_iff,
            Option.some.injEq, Prod.mk.injEq, Prod.exists] at h
          obtain ⟨name, -, -, -, -, table, -, -, -, -, keys, -, -, -, -, type, -, -, rfl, -⟩ := h
          rfl
        · cases h

/-- The three statements behind `drop`. -/
theorem sqlDrop_openingWord {rest : List Token} (h : sqlDrop ts = some (statement, rest)) :
    "drop" = statement.openingWord := by
  cases ts with
  | nil => cases h
  | cons t ts =>
    simp only [sqlDrop] at h
    split at h
    · exact named_openingWord h (fun _ => rfl)
    · split at h
      · exact named_openingWord h (fun _ => rfl)
      · split at h
        · exact named_openingWord h (fun _ => rfl)
        · cases h

/-- The three statements behind `show`. -/
theorem sqlShow_openingWord {rest : List Token} (h : sqlShow ts = some (statement, rest)) :
    "show" = statement.openingWord := by
  cases ts with
  | nil => cases h
  | cons t ts =>
    simp only [sqlShow] at h
    split at h
    · cases h
      rfl
    · split at h
      · cases h
        rfl
      · split at h
        · cases h
          rfl
        · cases h

/-- The statement that a production builds begins with the word of the production. -/
theorem production_openingWord (hp : p ∈ productions) {rest : List Token}
    (h : p.2 ts = some (statement, rest)) : p.1 = statement.openingWord := by
  simp only [productions, List.mem_cons, List.not_mem_nil, or_false] at hp
  rcases hp with rfl | rfl | rfl | rfl | rfl | rfl | rfl | rfl | rfl | rfl | rfl | rfl | rfl
  · exact sqlCreate_openingWord h
  · exact sqlDrop_openingWord h
  · exact sqlShow_openingWord h
  · exact named_openingWord h (fun _ => rfl)
  · simp only [sqlSelect, Option.bind_eq_bind, Option.bind_eq_some_iff, Option.some.injEq,
      Prod.mk.injEq, Prod.exists] at h
    obtain ⟨columns, -, -, -, -, table, -, -, conditions, -, -, rfl, -⟩ := h
    rfl
  · simp only [sqlInsert, Option.bind_eq_bind, Option.bind_eq_some_iff, Option.some.injEq,
      Prod.mk.injEq, Prod.exists] at h
    obtain ⟨-, -, table, -, -, -, -, -, -, first, further, -, -, -, -, rfl, -⟩ := h
    rfl
  · simp only [sqlDelete, Option.bind_eq_bind, Option.bind_eq_some_iff, Option.some.injEq,
      Prod.mk.injEq, Prod.exists] at h
    obtain ⟨-, -, table, -, -, conditions, -, -, rfl, -⟩ := h
    rfl
  · simp only [sqlUpdate, Option.bind_eq_bind, Option.bind_eq_some_iff, Option.some.injEq,
      Prod.mk.injEq, Prod.exists] at h
    obtain ⟨table, -, -, -, -, values, -, -, conditions, -, -, rfl, -⟩ := h
    rfl
  · cases h
    rfl
  · cases h
    rfl
  · cases h
    rfl
  · cases h
    rfl
  · cases ts with
    | nil => cases h
    | cons t ts => cases t <;> cases h; rfl

/-- A statement is built by one of the productions. -/
theorem start_eq_production {rest : List Token} (h : start ts = some (statement, rest)) :
    ∃ p ∈ productions, ∃ ts', ts = keyword p.1 :: ts' ∧
      p.2 ts' = some (statement, mark ';' :: rest) := by
  simp only [start, Option.bind_eq_bind, Option.bind_eq_some_iff, Prod.exists, expect_eq_some,
    Option.some.injEq, Prod.mk.injEq] at h
  obtain ⟨_, _, hsql, _, rfl, rfl, rfl⟩ := h
  cases ts with
  | nil => cases hsql
  | cons t ts =>
    obtain ⟨p, hp, rfl, hstatement⟩ := sql_cons hsql
    exact ⟨p, hp, ts, rfl, hstatement⟩

/-- The first word of a statement, and that its operand is there. -/
theorem start_eq_some {rest : List Token} (h : start ts = some (statement, rest)) :
    ∃ w ∈ openingWords, ∃ t ts', ts = keyword w :: t :: ts' ∧
      (w ∈ operandWords → t ≠ mark ';') := by
  obtain ⟨p, hp, ts', rfl, hstatement⟩ := start_eq_production h
  refine ⟨p.1, List.mem_map_of_mem hp, ?_⟩
  cases ts' with
  | nil =>
    -- nothing is left for the semicolon
    simp only [productions, List.mem_cons, List.not_mem_nil, or_false] at hp
    rcases hp with rfl | rfl | rfl | rfl | rfl | rfl | rfl | rfl | rfl | rfl | rfl | rfl | rfl
    all_goals cases hstatement
  | cons u ts' =>
    refine ⟨u, ts', rfl, ?_⟩
    intro hword hu
    rw [hu, operand_ne_semicolon hp hword] at hstatement
    cases hstatement

/-! ### `sql_insert` -/

/-- A name is taken exactly where an identifier stands at the front. -/
theorem identifier_eq_some {rest : List Token} {name : List Char} :
    identifier ts = some (name, rest) ↔ ts = .identifier name :: rest := by
  unfold identifier
  split
  · simp
  · next hne =>
    simp only [reduceCtorEq, false_iff]
    rintro rfl
    exact hne name rest rfl

/-- Only one production belongs to `insert`. The case split goes over all thirteen of them. -/
theorem production_eq_insert (hp : p ∈ productions) (hword : p.1 = "insert") :
    p = ("insert", sqlInsert) := by
  simp only [productions, List.mem_cons, List.not_mem_nil, or_false] at hp
  rcases hp with rfl | rfl | rfl | rfl | rfl | rfl | rfl | rfl | rfl | rfl | rfl | rfl | rfl
  case inr.inr.inr.inr.inr.inl => rfl
  all_goals exact absurd hword (by decide)

/-- The list of values has a first value, and `furtherValues` reads the others. -/
theorem columnValues_eq_some {rest : List Token} {first : Literal} {further : List Literal} :
    columnValues ts = some (first, further, rest) ↔ ∃ t ts', ts = t :: ts' ∧
      columnValue t = some first ∧ furtherValues ts' = some (further, rest) := by
  cases ts with
  | nil => simp [columnValues]
  | cons t ts => simp [columnValues, Option.bind_eq_some_iff]

/-- What `sqlInsert` parses: `into`, the table, `values`, and a list of values in parentheses. The
list is open here, so the two parsers of an insert meet in this form. -/
theorem sqlInsert_eq_some {rest : List Token} {statement : InsertStatement} :
    sqlInsert ts = some (.insert statement, rest) ↔ ∃ t ts',
      ts = keyword "into" :: .identifier statement.table :: keyword "values" :: mark '(' ::
        t :: ts' ∧ columnValue t = some statement.first ∧
        furtherValues ts' = some (statement.further, mark ')' :: rest) := by
  simp only [sqlInsert, Option.bind_eq_bind, Option.bind_eq_some_iff, Prod.exists, expect_eq_some,
    identifier_eq_some, columnValues_eq_some, Option.some.injEq, Prod.mk.injEq,
    SyntaxTree.insert.injEq]
  constructor
  · rintro ⟨_, rfl, table, _, rfl, _, rfl, _, rfl, first, further, _, ⟨t, ts', rfl, hfirst,
      hfurther⟩, _, rfl, rfl, rfl⟩
    exact ⟨t, ts', rfl, hfirst, hfurther⟩
  · rintro ⟨t, ts', rfl, hfirst, hfurther⟩
    exact ⟨_, rfl, _, _, rfl, _, rfl, _, rfl, _, _, _, ⟨t, ts', rfl, hfirst, hfurther⟩, _, rfl, rfl,
      rfl⟩

/-- The parser of inserts that `ShardKey` uses takes the same tokens, with `insert` in front and the
semicolon behind. -/
theorem insertStatement_eq_some {statement : InsertStatement} :
    insertStatement ts = some statement ↔ ∃ t ts',
      ts = keyword "insert" :: keyword "into" :: .identifier statement.table :: keyword "values" ::
        mark '(' :: t :: ts' ∧ columnValue t = some statement.first ∧
        furtherValues ts' = some (statement.further, [mark ')', mark ';']) := by
  constructor
  · intro h
    unfold insertStatement at h
    -- the seven tokens up to the first value are taken at once
    split at h
    · next insert into table values openParen first ts =>
      split at h
      · next hwords =>
        obtain ⟨rfl, rfl, rfl, rfl⟩ := hwords
        simp only [Option.bind_eq_bind, Option.bind_eq_some_iff, Prod.exists, ite_eq_iff,
          Option.some.injEq, reduceCtorEq, and_false, or_false] at h
        obtain ⟨value, hvalue, further, _, hfurther, rfl, rfl⟩ := h
        exact ⟨first, ts, rfl, hvalue, hfurther⟩
      · cases h
    · cases h
  · rintro ⟨t, ts', rfl, hfirst, hfurther⟩
    simp [insertStatement, hfirst, hfurther]

/-- `sql_insert`, with the semicolon of `start`. -/
theorem start_eq_insert_iff {statement : InsertStatement} :
    start ts = some (.insert statement, []) ↔ insertStatement ts = some statement := by
  rw [insertStatement_eq_some]
  constructor
  · intro h
    obtain ⟨p, hp, ts', rfl, hstatement⟩ := start_eq_production h
    obtain rfl := production_eq_insert hp (production_openingWord hp hstatement)
    obtain ⟨t, ts', rfl, hvalues⟩ := sqlInsert_eq_some.mp hstatement
    exact ⟨t, ts', rfl, hvalues⟩
  · rintro ⟨t, ts', rfl, hvalues⟩
    have hsql : sqlInsert _ = some (.insert statement, [mark ';']) :=
      sqlInsert_eq_some.mpr ⟨t, ts', rfl, hvalues⟩
    simp only [start, Option.bind_eq_bind, Option.bind_eq_some_iff, Prod.exists, expect_eq_some,
      Option.some.injEq, Prod.mk.injEq]
    exact ⟨_, _, hsql, _, rfl, rfl, rfl⟩

end Grammar

/-! ### Texts -/

namespace Lexer

/-- The characters after the first token. -/
def afterFirstToken (s : List Char) : List Char :=
  match s.dropWhile isLayout with
  | [] => []
  | c :: s => (token c s).2

/-- The text is layout, the word `w`, and `rest`, which does not make the word longer. -/
structure BeginsWith (s : List Char) (w : String) (rest : List Char) : Prop where
  layout : ∃ layout, (∀ c ∈ layout, isLayout c = true) ∧ s = layout ++ (w.toList ++ rest)
  word : w ∈ Grammar.openingWords
  boundary : ∀ c ∈ rest.head?, isLetterOrDigit c = false

/-- No letter is layout, so a word is not skipped. -/
theorem not_isLayout_of_isLetter {c : Char} (h : isLetter c = true) : isLayout c = false := by
  rw [← Bool.not_eq_true]
  intro hlayout
  simp only [isLayout, Bool.or_eq_true, beq_iff_eq] at hlayout
  rcases hlayout with (((rfl | rfl) | rfl) | rfl) | rfl <;> exact absurd h (by decide)

/-- Layout in front of a text changes none of its tokens. -/
theorem lex_dropWhile (s : List Char) : lex (s.dropWhile isLayout) = lex s := by
  induction s with
  | nil => rfl
  | cons c s ih =>
    cases hc : isLayout c with
    | true => simp [hc, ih, lex_layout hc]
    | false => simp [hc]

/-- A word is taken as a whole. -/
theorem token_word {c : Char} {cs rest : List Char} (hc : isLetter c = true)
    (hcs : ∀ d ∈ cs, isLetterOrDigit d = true)
    (hrest : ∀ d ∈ rest.head?, isLetterOrDigit d = false) :
    token c (cs ++ rest) = (ofWord (c :: cs), rest) := by
  have htake : rest.takeWhile isLetterOrDigit = [] := by
    cases rest with
    | nil => rfl
    | cons d rest => simp [hrest d (by simp)]
  have hdrop : rest.dropWhile isLetterOrDigit = rest := by
    cases rest with
    | nil => rfl
    | cons d rest => simp [hrest d (by simp)]
  rw [token, if_pos hc, List.takeWhile_append_of_pos hcs, List.dropWhile_append_of_pos hcs, htake,
    hdrop, List.append_nil]

/-- What is scanned as a mark is never a keyword. With `token_word` it follows that a keyword begins
with a letter. -/
theorem scanSymbol_ne_keyword (c : Char) (s word : List Char) :
    (scanSymbol c s).1 ≠ .keyword word := by
  cases s with
  | nil =>
    simp only [scanSymbol]
    split <;> simp
  | cons d s =>
    simp only [scanSymbol]
    split
    · simp
    · split <;> simp

/-- Only a word of letters makes a keyword. -/
theorem token_eq_keyword {c : Char} {s word : List Char} (h : (token c s).1 = .keyword word) :
    isLetter c = true ∧ word = c :: s.takeWhile isLetterOrDigit ∧
      (token c s).2 = s.dropWhile isLetterOrDigit := by
  have htext := congrArg Token.text h
  unfold token at h htext ⊢
  split at h
  · next hc =>
    rw [if_pos hc, ofWord_text] at htext
    exact ⟨hc, htext.symm, by rw [if_pos hc]⟩
  · split at h
    · split at h <;> cases h
    · split at h
      · exact absurd h (scanSymbol_ne_keyword c s word)
      · cases h

/-- A text whose first token is a keyword. -/
theorem beginsWith_of_lex {s : List Char} {w : String} {ts : List Token}
    (h : lex s = Grammar.keyword w :: ts) (hw : w ∈ Grammar.openingWords) :
    ∃ rest, BeginsWith s w rest ∧ lex rest = ts := by
  rw [← lex_dropWhile] at h
  cases hs : s.dropWhile isLayout with
  | nil => rw [hs] at h; cases h
  | cons c u =>
    have hc : isLayout c = false := by
      have hhead := List.head_dropWhile_not isLayout (l := s) (by simp [hs])
      simpa [hs] using hhead
    rw [hs, lex_token hc] at h
    obtain ⟨htoken, hrest⟩ := List.cons.inj h
    obtain ⟨-, hword, hdrop⟩ := token_eq_keyword htoken
    refine ⟨u.dropWhile isLetterOrDigit, ⟨⟨s.takeWhile isLayout, ?_, ?_⟩, hw, ?_⟩, ?_⟩
    · intro d hd
      exact List.mem_takeWhile_imp hd
    · rw [hword, List.cons_append, List.takeWhile_append_dropWhile, ← hs,
        List.takeWhile_append_dropWhile]
    · intro d hd
      have hnot := List.head?_dropWhile_not isLetterOrDigit u
      rw [Option.mem_def.mp hd] at hnot
      exact hnot
    · rw [← hdrop]
      exact hrest

variable {s rest : List Char} {w : String}

/-- The words are letters. -/
theorem BeginsWith.letters (h : BeginsWith s w rest) :
    w.toList ≠ [] ∧ ∀ c ∈ w.toList, isLetter c = true ∧ c.toLower = c ∧ (c != ' ') = true := by
  have hwords : ∀ w ∈ Grammar.openingWords, w.toList ≠ [] ∧
      w.toList.all (fun c => isLetter c && (c.toLower == c && c != ' ')) = true := by decide
  obtain ⟨hne, hall⟩ := hwords w h.word
  refine ⟨hne, fun c hc => ?_⟩
  simpa [List.all_eq_true] using List.all_eq_true.mp hall c hc

/-- A text that begins with a word: behind the layout stands the word. -/
theorem BeginsWith.dropWhile_eq (h : BeginsWith s w rest) :
    s.dropWhile isLayout = w.toList ++ rest := by
  obtain ⟨layout, hlayout, rfl⟩ := h.layout
  obtain ⟨hne, hall⟩ := h.letters
  rw [List.dropWhile_append_of_pos hlayout]
  cases hw : w.toList with
  | nil => exact absurd hw hne
  | cons c cs =>
    have hc := not_isLayout_of_isLetter (hall c (by simp [hw])).1
    simp [hc]

/-- The scanner takes the whole word as one token. It ends there since the next character is neither
a letter nor a digit. -/
theorem BeginsWith.token_eq (h : BeginsWith s w rest) : ∃ c cs, w.toList = c :: cs ∧
    isLayout c = false ∧ token c (cs ++ rest) = (Grammar.keyword w, rest) := by
  obtain ⟨hne, hall⟩ := h.letters
  cases hw : w.toList with
  | nil => exact absurd hw hne
  | cons c cs =>
    have hc := (hall c (by simp [hw])).1
    refine ⟨c, cs, rfl, not_isLayout_of_isLetter hc, ?_⟩
    rw [token_word hc _ h.boundary, ← hw]
    · -- every word that opens a statement is in the table of keywords
      have hkeyword := (by decide : ∀ w ∈ Grammar.openingWords,
        ofWord w.toList = Grammar.keyword w) w h.word
      rw [hkeyword]
    · intro d hd
      rw [isLetterOrDigit, (hall d (by simp [hw, hd])).1, Bool.true_or]

/-- The word is the first token of the text. -/
theorem BeginsWith.firstToken (h : BeginsWith s w rest) :
    Lexer.firstToken s = some (Grammar.keyword w) := by
  obtain ⟨c, cs, hw, hc, htoken⟩ := h.token_eq
  rw [Lexer.firstToken, ← lex_dropWhile, h.dropWhile_eq, hw, List.cons_append, lex_token hc, htoken]
  rfl

/-- What stands behind the first token is what stands behind the word. -/
theorem BeginsWith.afterFirstToken (h : BeginsWith s w rest) :
    Lexer.afterFirstToken s = rest := by
  obtain ⟨c, cs, hw, hc, htoken⟩ := h.token_eq
  rw [Lexer.afterFirstToken, h.dropWhile_eq, hw, List.cons_append]
  simp [htoken]

/-- More text at the end, when the word has ended already. -/
theorem BeginsWith.append (h : BeginsWith s w rest) (hrest : rest ≠ []) (x : List Char) :
    BeginsWith (s ++ x) w (rest ++ x) where
  layout := by
    obtain ⟨layout, hlayout, rfl⟩ := h.layout
    exact ⟨layout, hlayout, by simp⟩
  word := h.word
  boundary := by
    rw [List.head?_append_of_ne_nil _ hrest]
    exact h.boundary

/-- The last character after the word goes. -/
theorem BeginsWith.dropLast {c : Char} (h : BeginsWith (s ++ [c]) w rest) (hrest : rest ≠ []) :
    ∃ init, rest = init ++ [c] ∧ BeginsWith s w init := by
  obtain ⟨layout, hlayout, hs⟩ := h.layout
  obtain ⟨init, last, rfl⟩ : ∃ init last, rest = init ++ [last] :=
    ⟨_, _, (List.dropLast_append_getLast hrest).symm⟩
  have hs' : s ++ [c] = (layout ++ (w.toList ++ init)) ++ [last] := by simpa using hs
  obtain ⟨rfl, hlast⟩ := List.append_inj' hs' rfl
  obtain rfl : c = last := by simpa using hlast
  refine ⟨init, rfl, ⟨layout, hlayout, rfl⟩, h.word, ?_⟩
  intro d hd
  refine h.boundary d ?_
  rw [List.head?_append, Option.mem_def.mp hd]
  rfl

end Lexer

/-! ### Accepted texts -/

open Lexer (lex BeginsWith beginsWith_of_lex)

/-- A text without an error is a statement: the whole token list is parsed, and no token was dropped
as unknown. -/
theorem start_of_no_error {text : List Char} (h : (yyparse text).error = false) :
    ∃ statement, Grammar.start (lex text) = some (statement, []) := by
  simp only [yyparse] at h
  split at h
  · cases h
  · next statement rest hstart =>
    split at h
    · simp only [Bool.not_eq_false', Bool.and_eq_true, List.isEmpty_iff, List.all_eq_true] at h
      -- no token is unknown, so the filter of the tokens keeps all of them
      obtain ⟨rfl, hall⟩ := h
      rw [List.filter_eq_self.mpr hall] at hstart
      exact ⟨statement, hstart⟩
    · cases h

/-- The root is the statement that the tokens begin with, if it fits on the stack. -/
theorem root_eq_some_iff {text : List Char} {statement : SyntaxTree} :
    (yyparse text).root = some statement ↔
      (∃ rest, Grammar.start ((lex text).filter Token.recognized) =
        some (statement, rest)) ∧ statement.FitsStack := by
  simp only [yyparse]
  cases Grammar.start ((lex text).filter Token.recognized) with
  | none => simp
  | some found =>
    obtain ⟨found, rest⟩ := found
    by_cases hfits : found.FitsStack
    · simp only [if_pos hfits, Option.some.injEq, Prod.mk.injEq]
      constructor
      · rintro rfl
        exact ⟨⟨rest, rfl, rfl⟩, hfits⟩
      · exact fun h => h.1.choose_spec.1
    · simp only [if_neg hfits, Option.some.injEq, Prod.mk.injEq]
      refine iff_of_false (fun h => by cases h) fun h => hfits ?_
      rw [h.1.choose_spec.1]
      exact h.2

/-- An accepted text begins with one of the words of the grammar, and something follows a word that
needs an operand. The semicolon that `main.cpp` adds is not it. -/
theorem Accepted.beginsWith {text : List Char} (h : Accepted text) :
    ∃ w rest, BeginsWith text w rest ∧ (w ∈ Grammar.operandWords → rest ≠ []) := by
  obtain ⟨statement, hstart⟩ := start_of_no_error h
  obtain ⟨w, hw, t, ts, hlex, hoperand⟩ := Grammar.start_eq_some hstart
  obtain ⟨rest, hbegins, hrest⟩ := beginsWith_of_lex hlex hw
  have hne : rest ≠ [] := by
    rintro rfl
    cases hrest
  have hsemicolon : w ∈ Grammar.operandWords → rest ≠ [';'] := by
    rintro hmem rfl
    have ht : [Grammar.mark ';'] = t :: ts := hrest
    exact hoperand hmem (List.cons.inj ht).1.symm
  -- from the C string to the line that ends in a semicolon
  have hterminated := hbegins.append hne ((terminated text).dropWhile (· != '\x00'))
  rw [cString, List.takeWhile_append_dropWhile] at hterminated
  generalize (terminated text).dropWhile (· != '\x00') = x at hterminated
  by_cases hlast : text.getLast? = some ';'
  · rw [terminated, if_pos hlast] at hterminated
    exact ⟨w, rest ++ x, hterminated, fun _ => by simp [hne]⟩
  · rw [terminated, if_neg hlast] at hterminated
    obtain ⟨init, hinit, htext⟩ := hterminated.dropLast (by simp [hne])
    refine ⟨w, init, htext, ?_⟩
    rintro hmem rfl
    rw [List.nil_append, List.append_eq_singleton_iff] at hinit
    rcases hinit with ⟨hnil, -⟩ | ⟨hsingle, -⟩
    · exact hne hnil
    · exact hsemicolon hmem hsingle

end DisMiniSql.MiniSql
