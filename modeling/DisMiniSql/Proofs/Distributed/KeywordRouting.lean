import DisMiniSql.Proofs.Distributed.ReplFraming
import DisMiniSql.Proofs.Parser.Grammar

/-!
# `DisMiniSql.Proofs.Distributed.KeywordRouting`: the first keyword of a statement

`SqlUtils.firstKeyword` ends the keyword at the first blank, while MiniSQL ends it at the first
character that is no letter or digit. On a text that MiniSQL accepts, the two routing tests agree
with MiniSQL's first token exactly when a blank follows a `select`, `show`, `create` or `drop`
(`keyword_routing_iff`). After a line break, a tab or a mark, the statement is routed as a write.

`parse_decides` is what the line protocol needs of the grammar.
-/

set_option autoImplicit false

namespace DisMiniSql.Distributed

open DisMiniSql.MiniSql (Accepted SyntaxNode SyntaxTree Token)
open DisMiniSql.MiniSql.Grammar (keyword operandWords)
open DisMiniSql.MiniSql.Lexer (BeginsWith firstToken afterFirstToken ofWord)

/-- The words of `isReadOnly`. -/
def readOnlyOps : List String := ["select", "show", "desc", "describe"]

/-- The words of `isBroadcastDdl`. -/
def broadcastDdlOps : List String := ["create", "drop"]

/-- The first token of a text is one of the words. -/
def FirstTokenIn (ops : List String) (sql : String) : Prop :=
  ∃ w ∈ ops, firstToken sql.toList = some (ofWord w.toList)

/-- The routing tests are about the first token. -/
structure RoutingAgrees (sql : String) : Prop where
  readOnly : SqlUtils.isReadOnly sql = true ↔ FirstTokenIn readOnlyOps sql
  broadcastDdl : SqlUtils.isBroadcastDdl sql = true ↔ FirstTokenIn broadcastDdlOps sql

/-- A blank comes right after a `select`, `show`, `create` or `drop` in front. -/
def BlankAfterKeyword (sql : String) : Prop :=
  ∀ w ∈ operandWords, firstToken sql.toList = some (keyword w) →
    (afterFirstToken sql.toList).head? = some ' '

/-! ### `firstKeyword` -/

theorem isReadOnly_iff (sql : String) :
    SqlUtils.isReadOnly sql = true ↔ SqlUtils.firstKeyword sql ∈ readOnlyOps := by
  simp [SqlUtils.isReadOnly, readOnlyOps, or_assoc]

theorem isBroadcastDdl_iff (sql : String) :
    SqlUtils.isBroadcastDdl sql = true ↔ SqlUtils.firstKeyword sql ∈ broadcastDdlOps := by
  simp [SqlUtils.isBroadcastDdl, broadcastDdlOps]

theorem isWhitespace_of_isLayout {c : Char} (h : MiniSql.Lexer.isLayout c = true) :
    isWhitespace c = true := by
  simp only [MiniSql.Lexer.isLayout, Bool.or_eq_true, beq_iff_eq] at h
  rcases h with (((rfl | rfl) | rfl) | rfl) | rfl <;> decide

/-- What `firstKeyword` takes after the word. -/
def keywordTail (rest : List Char) : List Char :=
  (rest.map Char.toLower).takeWhile (fun c => c != ' ')

/-- Nothing is taken exactly if a blank comes next. -/
theorem keywordTail_eq_nil_iff {rest : List Char} :
    keywordTail rest = [] ↔ rest = [] ∨ rest.head? = some ' ' := by
  cases rest with
  | nil => simp [keywordTail]
  | cons c rest =>
    have hlower : c.toLower = ' ' ↔ c = ' ' := by
      constructor
      · intro h
        rcases Text.toLower_cases c with ⟨hupper, -, hcode⟩ | heq
        · -- a lower case letter is no blank
          rw [h] at hcode
          have hblank : (' ').toNat = 32 := rfl
          omega
        · rw [← heq, h]
      · rintro rfl
        decide
    simp [keywordTail, List.takeWhile_cons, hlower]

section
variable {sql w : String} {rest : List Char}

/-- The first word as Java finds it: the keyword, and what hangs on it up to the next blank. -/
theorem toList_firstKeyword (h : BeginsWith sql.toList w rest) :
    (SqlUtils.firstKeyword sql).toList = w.toList ++ keywordTail rest := by
  obtain ⟨layout, hlayout, hsql⟩ := h.layout
  obtain ⟨hne, hall⟩ := h.letters
  have hdrop : sql.toList.dropWhile isWhitespace = w.toList ++ rest := by
    rw [hsql, List.dropWhile_append_of_pos
      (fun c hc => isWhitespace_of_isLayout (hlayout c hc))]
    cases hw : w.toList with
    | nil => exact absurd hw hne
    | cons c cs =>
      have hc : isWhitespace c = false :=
        (by decide : ∀ w ∈ MiniSql.Grammar.openingWords, ∀ c ∈ w.toList, isWhitespace c = false)
          w h.word c (by simp [hw])
      simp [hc]
  have hlower : w.toList.map Char.toLower = w.toList := by
    rw [List.map_congr_left (fun c hc => (hall c hc).2.1), List.map_id']
  rw [SqlUtils.firstKeyword, String.toList_ofList, hdrop, List.map_append, hlower,
    List.takeWhile_append_of_pos (fun c hc => (hall c hc).2.2), keywordTail]

/-- Whether the keyword is one of `ops`. Of the words that a statement begins with, none is the
beginning of another word in `ops`. -/
theorem firstKeyword_mem_iff (h : BeginsWith sql.toList w rest) {ops : List String}
    (hops : ∀ v ∈ MiniSql.Grammar.openingWords, ∀ op ∈ ops, v.toList <+: op.toList → v = op) :
    SqlUtils.firstKeyword sql ∈ ops ↔ w ∈ ops ∧ keywordTail rest = [] := by
  have hkeyword := toList_firstKeyword h
  constructor
  · intro hmem
    have heq : w = SqlUtils.firstKeyword sql :=
      hops w h.word _ hmem ⟨keywordTail rest, hkeyword.symm⟩
    rw [← heq] at hkeyword hmem
    exact ⟨hmem, by simpa using hkeyword⟩
  · rintro ⟨hmem, htail⟩
    rw [htail, List.append_nil] at hkeyword
    rwa [String.toList_inj.mp hkeyword]

/-- Whether the first token is one of `ops`. -/
theorem firstTokenIn_iff (h : BeginsWith sql.toList w rest) {ops : List String}
    (hops : ∀ op ∈ ops, (ofWord op.toList).text = op.toList) :
    FirstTokenIn ops sql ↔ w ∈ ops := by
  simp only [FirstTokenIn, h.firstToken, Option.some.injEq]
  constructor
  · rintro ⟨op, hop, htoken⟩
    have htext := congrArg Token.text htoken
    rw [hops op hop] at htext
    have heq : w = op := String.toList_inj.mp htext
    rwa [heq]
  · intro hmem
    refine ⟨w, hmem, ?_⟩
    exact ((by decide : ∀ v ∈ MiniSql.Grammar.openingWords, ofWord v.toList = keyword v)
      w h.word).symm

/-- One routing test, for a word that needs an operand if it is one of `ops`. -/
theorem routing_test_iff (h : BeginsWith sql.toList w rest) (ops : List String)
    (hwhole : ∀ v ∈ MiniSql.Grammar.openingWords, ∀ op ∈ ops, v.toList <+: op.toList → v = op) :
    (SqlUtils.firstKeyword sql ∈ ops ↔ FirstTokenIn ops sql) ↔
      (w ∈ ops → keywordTail rest = []) := by
  rw [firstKeyword_mem_iff h hwhole,
    firstTokenIn_iff h (fun op _ => MiniSql.Lexer.ofWord_text op.toList)]
  tauto

/-- The condition, said of the text behind the keyword. -/
theorem blankAfterKeyword_iff (h : BeginsWith sql.toList w rest)
    (hrest : w ∈ operandWords → rest ≠ []) :
    BlankAfterKeyword sql ↔ (w ∈ operandWords → keywordTail rest = []) := by
  simp only [BlankAfterKeyword, h.firstToken, h.afterFirstToken, Option.some.injEq,
    keywordTail_eq_nil_iff]
  constructor
  · intro hblank hw
    exact .inr (hblank w hw rfl)
  · intro htail v hv hword
    obtain rfl := MiniSql.Grammar.keyword_injective hword
    exact (htail hv).resolve_left (hrest hv)

end

/-- On every text that MiniSQL accepts, `isReadOnly` and `isBroadcastDdl` are about its first token
exactly if a blank comes right after a `select`, `show`, `create` or `drop` in front. -/
theorem keyword_routing_iff {sql : String} (h : Accepted sql.toList) :
    RoutingAgrees sql ↔ BlankAfterKeyword sql := by
  obtain ⟨w, rest, hbegins, hrest⟩ := h.beginsWith
  have hreadOnly := routing_test_iff hbegins readOnlyOps (by decide)
  have hddl := routing_test_iff hbegins broadcastDdlOps (by decide)
  have hwords : w ∈ operandWords ↔ w ∈ readOnlyOps ∨ w ∈ broadcastDdlOps :=
    (by decide : ∀ v ∈ MiniSql.Grammar.openingWords,
      v ∈ operandWords ↔ v ∈ readOnlyOps ∨ v ∈ broadcastDdlOps) w hbegins.word
  rw [blankAfterKeyword_iff hbegins hrest, hwords]
  constructor
  · rintro ⟨hr, hd⟩ (hw | hw)
    · exact hreadOnly.mp ((isReadOnly_iff sql).symm.trans hr) hw
    · exact hddl.mp ((isBroadcastDdl_iff sql).symm.trans hd) hw
  · intro htail
    exact ⟨(isReadOnly_iff sql).trans (hreadOnly.mpr fun hw => htail (.inl hw)),
      (isBroadcastDdl_iff sql).trans (hddl.mpr fun hw => htail (.inr hw))⟩

theorem keyword_routing_show :
    RoutingAgrees "\tshow tables;" ↔ BlankAfterKeyword "\tshow tables;" :=
  keyword_routing_iff (by decide +kernel : Accepted "\tshow tables;".toList)

/-- A query without a blank before the asterisk is routed as a write. -/
theorem not_keyword_routing : ¬ ∀ sql : String, Accepted sql.toList → RoutingAgrees sql := by
  intro h
  have hquery := h "select* from t;" (by decide +kernel)
  have hfirst : FirstTokenIn readOnlyOps "select* from t;" :=
    ⟨"select", by decide, by decide +kernel⟩
  have hwrite : SqlUtils.isReadOnly "select* from t;" = false := by decide +kernel
  rw [hquery.readOnly.mpr hfirst] at hwrite
  cases hwrite

/-! ### The commands of the line protocol -/

/-- The word in front of a statement is one of the command that is built from it. -/
theorem openingWord_mem {statement : SyntaxTree} {text : String} {ast : SyntaxNode}
    (h : statement.syntaxNode text = some ast) : statement.openingWord ∈ openingWords ast := by
  cases statement with
  | execFile => cases h
  | _ =>
    cases h
    simp [SyntaxTree.openingWord, openingWords]

/-- In the grammar, the first token of a text decides which command it is. -/
theorem parse_decides : FirstTokenDecides MiniSql.parse := by
  intro text ast h
  rw [MiniSql.parse, Option.bind_eq_some_iff] at h
  obtain ⟨statement, hroot, hast⟩ := h
  have hword := openingWord_mem hast
  obtain ⟨⟨rest, hstart⟩, -⟩ := MiniSql.root_eq_some_iff.mp hroot
  obtain ⟨p, hp, ts, htokens, hstatement⟩ := MiniSql.Grammar.start_eq_production hstart
  rw [← MiniSql.Grammar.production_openingWord hp hstatement] at hword
  refine ⟨p.1, hword, ?_⟩
  have hhead := congrArg List.head? htokens
  rw [List.head?_filter] at hhead
  exact hhead

end DisMiniSql.Distributed
