import DisMiniSql.Distributed.MiniSql.LiveEngine
import DisMiniSql.Lib.Run
import DisMiniSql.Proofs.Distributed.ReplText
import DisMiniSql.Proofs.Parser.Lexer

/-!
# `DisMiniSql.Proofs.Distributed.ReplFraming`: one statement, one line, one answer

A call counts end markers and MiniSQL counts lines. They agree as long as each statement is one line
and no output looks like a marker (`repl_framing_iff`). `readOnlyLine_of_isReadOnly` is about a
single line: a text that `isReadOnly` accepts begins with a token that opens no other command.
-/

set_option autoImplicit false

namespace DisMiniSql.Distributed

open DisMiniSql.Lib (Guarded)
open DisMiniSql.MiniSql (SyntaxNode ExecuteEngine Token)

variable {τ : Type} {m : Repl τ} {s : ExecuteEngine τ}

/-! ### Read-only lines -/

/-- The words that a command begins with. -/
def openingWords : SyntaxNode → List String
  | .createDB _ => ["create"]
  | .dropDB _ => ["drop"]
  | .useDB _ => ["use"]
  | .showInfo => ["show"]
  | .ddl _ => ["create", "drop"]
  | .trx => ["begin", "commit", "rollback"]
  | .quit => ["quit"]
  | .select => ["select"]
  | .dml _ => ["insert", "delete", "update"]

/-- In the grammar the first token of a statement says which command it is. -/
def FirstTokenDecides (parse : String → Option SyntaxNode) : Prop :=
  ∀ text ast, parse text = some ast → ∃ w ∈ openingWords ast,
    MiniSql.Lexer.firstToken text.toList = some (MiniSql.Grammar.keyword w)

theorem isWhitespace_range {c : Char} (h : isWhitespace c = true) :
    c.toNat ≤ 32 ∨ 127 < c.toNat := by
  simp only [isWhitespace, Bool.or_eq_true, Bool.and_eq_true, decide_eq_true_eq, beq_iff_eq] at h
  omega

/-- A blank of Java is layout, or no rule takes it. -/
theorem token_of_isWhitespace {c : Char} (h : isWhitespace c = true) (s : Text) :
    MiniSql.Lexer.token c s = (.unrecognized c, s) ∨ MiniSql.Lexer.isLayout c = true := by
  have hrange := isWhitespace_range h
  have hne (d : Char) (hd : 32 < d.toNat ∧ d.toNat ≤ 127) : c ≠ d := by
    rintro rfl
    omega
  have halnum : c.isAlphanum = false := by
    rw [← Bool.not_eq_true, Text.isAlphanum_iff]
    omega
  rw [Char.isAlphanum, Bool.or_eq_false_iff] at halnum
  have hletter : MiniSql.Lexer.isLetter c = false := by
    rw [MiniSql.Lexer.isLetter, halnum.1, beq_eq_false_iff_ne.mpr (hne '_' (by decide))]
    rfl
  have hnumber : MiniSql.Lexer.scanNumber (c :: s) = ([], c :: s) := by
    have hfraction : MiniSql.Lexer.scanFraction (c :: s) = none :=
      if_neg fun h => hne '.' (by decide) h.1
    simp only [MiniSql.Lexer.scanNumber, if_neg (hne '-' (by decide)), MiniSql.Lexer.scanDigits,
      List.takeWhile_cons, List.dropWhile_cons, halnum.2, Bool.false_eq_true, if_false, hfraction]
  have hmarks : c ∉ MiniSql.Lexer.marks := by
    intro hmem
    have hall : ∀ d ∈ MiniSql.Lexer.marks, 32 < d.toNat ∧ d.toNat ≤ 127 := by decide
    exact hne c (hall c hmem) rfl
  have hsymbol : MiniSql.Lexer.scanSymbol c s = (.unrecognized c, s) := by
    cases s with
    | nil => exact if_neg hmarks
    | cons d s =>
      have hpair : ¬ ([c, d] = ['<', '>'] ∨ [c, d] = ['<', '='] ∨ [c, d] = ['>', '=']) := by
        rintro (h | h | h)
        · exact hne '<' (by decide) (List.cons.inj h).1
        · exact hne '<' (by decide) (List.cons.inj h).1
        · exact hne '>' (by decide) (List.cons.inj h).1
      simp only [MiniSql.Lexer.scanSymbol, if_neg hpair, if_neg hmarks]
  left
  unfold MiniSql.Lexer.token
  rw [hletter, if_neg Bool.false_ne_true, if_neg (hne '"' (by decide)), hnumber]
  exact hsymbol

/-- Blanks of Java in front are no token. -/
theorem firstToken_whitespace {w t : Text} (h : ∀ c ∈ w, isWhitespace c = true) :
    MiniSql.Lexer.firstToken (w ++ t) = MiniSql.Lexer.firstToken t := by
  induction w with
  | nil => rfl
  | cons c w ih =>
    rw [List.forall_mem_cons] at h
    rw [List.cons_append, ← ih h.2]
    unfold MiniSql.Lexer.firstToken
    cases hlayout : MiniSql.Lexer.isLayout c with
    | true => rw [MiniSql.Lexer.lex_layout hlayout]
    | false =>
      have htoken := (token_of_isWhitespace h.1 (w ++ t)).resolve_right
        (by rw [hlayout]; exact Bool.false_ne_true)
      rw [MiniSql.Lexer.lex_token hlayout, htoken]
      rfl

/-- The words of `isReadOnly`. -/
def readOnlyWords : List Text := ["select", "show", "desc", "describe"].map String.toList

/-- A text that `isReadOnly` accepts begins with one of the words, in any case, and a blank. -/
theorem readOnly_shape {text : Text} (h : SqlUtils.isReadOnly (String.ofList text) = true)
    (hlast : text.getLast? = some ';') :
    ∃ w k rest, text = w ++ (k ++ ' ' :: rest) ∧ (∀ c ∈ w, isWhitespace c = true) ∧
      k.map Char.toLower ∈ readOnlyWords := by
  have hword : ((text.dropWhile isWhitespace).map Char.toLower).takeWhile (fun c => c != ' ') ∈
      readOnlyWords := by
    have hlist (w : String) : SqlUtils.firstKeyword (String.ofList text) = w →
        ((text.dropWhile isWhitespace).map Char.toLower).takeWhile (fun c => c != ' ') =
          w.toList := by
      rintro rfl
      rw [SqlUtils.firstKeyword, String.toList_ofList, String.toList_ofList]
    simp only [SqlUtils.isReadOnly, Bool.or_eq_true, beq_iff_eq] at h
    simp only [readOnlyWords, List.map_cons, List.map_nil, List.mem_cons, List.not_mem_nil,
      or_false]
    rcases h with ((h | h) | h) | h
    · exact .inl (hlist _ h)
    · exact .inr (.inl (hlist _ h))
    · exact .inr (.inr (.inl (hlist _ h)))
    · exact .inr (.inr (.inr (hlist _ h)))
  rw [List.takeWhile_map] at hword
  have htext : text = text.takeWhile isWhitespace ++ text.dropWhile isWhitespace :=
    List.takeWhile_append_dropWhile.symm
  have hrest : text.dropWhile isWhitespace =
      (text.dropWhile isWhitespace).takeWhile ((fun c => c != ' ') ∘ Char.toLower) ++
        (text.dropWhile isWhitespace).dropWhile ((fun c => c != ' ') ∘ Char.toLower) :=
    List.takeWhile_append_dropWhile.symm
  generalize hk : (text.dropWhile isWhitespace).takeWhile ((fun c => c != ' ') ∘ Char.toLower) = k
    at hword hrest
  cases hafter : (text.dropWhile isWhitespace).dropWhile ((fun c => c != ' ') ∘ Char.toLower) with
  | nil =>
    -- the semicolon at the end would be in the word
    rw [hafter, List.append_nil] at hrest
    rw [hrest] at htext
    have hsemicolon : ';' ∈ k := by
      rw [htext, List.getLast?_append] at hlast
      cases hkl : k.getLast? with
      | none =>
        rw [List.getLast?_eq_none_iff] at hkl
        rw [hkl] at hword
        exact absurd hword (by decide)
      | some c =>
        rw [hkl] at hlast
        obtain rfl := Option.some.inj hlast
        exact List.mem_of_getLast? hkl
    have hmem : ';' ∈ k.map Char.toLower := List.mem_map.mpr ⟨';', hsemicolon, by decide⟩
    exact absurd hmem ((by decide : ∀ w ∈ readOnlyWords, ';' ∉ w) _ hword)
  | cons c rest =>
    have hc : c = ' ' := by
      have hhead := List.head_dropWhile_not ((fun c => c != ' ') ∘ Char.toLower)
        (l := text.dropWhile isWhitespace) (by rw [hafter]; exact List.cons_ne_nil _ _)
      simp only [hafter, List.head_cons, Function.comp_apply, bne_eq_false_iff_eq] at hhead
      rcases Text.toLower_cases c with ⟨h₁, -, h₂⟩ | heq
      · rw [hhead] at h₂
        have hblank : (' ').toNat = 32 := rfl
        omega
      · rw [← heq, hhead]
    rw [hc] at hafter
    rw [hafter] at hrest
    refine ⟨text.takeWhile isWhitespace, k, rest, ?_, fun d hd => List.mem_takeWhile_imp hd, hword⟩
    rw [← hrest]
    exact htext

/-- The word is the first token. -/
theorem firstToken_word {k : Text} (hk : k.map Char.toLower ∈ readOnlyWords) (rest : Text) :
    MiniSql.Lexer.firstToken (k ++ ' ' :: rest) = some (MiniSql.Lexer.ofWord k) := by
  have hletters : ∀ c ∈ k, MiniSql.Lexer.isLetter c = true := by
    intro c hc
    rcases Text.toLower_cases c with ⟨h₁, h₂, -⟩ | heq
    · have hupper : c.isUpper = true := by
        unfold Char.isUpper
        exact decide_eq_true ⟨h₁, h₂⟩
      unfold MiniSql.Lexer.isLetter Char.isAlpha
      rw [hupper, Bool.true_or, Bool.true_or]
    · have hmem : c ∈ k.map Char.toLower := List.mem_map.mpr ⟨c, hc, heq⟩
      exact (by decide : ∀ w ∈ readOnlyWords, ∀ c ∈ w, MiniSql.Lexer.isLetter c = true) _ hk c hmem
  cases k with
  | nil => exact absurd hk (by decide)
  | cons c k =>
    rw [List.forall_mem_cons] at hletters
    have hdigits : ∀ d ∈ k, MiniSql.Lexer.isLetterOrDigit d = true := fun d hd => by
      rw [MiniSql.Lexer.isLetterOrDigit, hletters.2 d hd, Bool.true_or]
    have hlayout : MiniSql.Lexer.isLayout c = false := by
      rw [← Bool.not_eq_true]
      intro h
      simp only [MiniSql.Lexer.isLayout, Bool.or_eq_true, beq_iff_eq] at h
      rcases h with (((rfl | rfl) | rfl) | rfl) | rfl <;> exact absurd hletters.1 (by decide)
    have htoken : (MiniSql.Lexer.token c (k ++ ' ' :: rest)).1 = MiniSql.Lexer.ofWord (c :: k) := by
      rw [MiniSql.Lexer.token, if_pos hletters.1, List.takeWhile_append_of_pos hdigits,
        List.takeWhile_cons_of_neg (by decide), List.append_nil]
    unfold MiniSql.Lexer.firstToken
    rw [List.cons_append, MiniSql.Lexer.lex_token hlayout, htoken]
    unfold MiniSql.Lexer.ofWord
    split <;> rfl

/-- MiniSQL executes at most a query for the line. -/
def ReadOnlyLine (m : Repl τ) (line : Text) : Prop :=
  ∀ ast, ExecuteEngine.command m.parse (String.ofList line) = some ast →
    ast = .select ∨ ast = .showInfo

/-- The text that is parsed for a line. -/
theorem command_eq_some {line : Text} {ast : SyntaxNode}
    (h : ExecuteEngine.command m.parse (String.ofList line) = some ast) :
    ∃ tail, (tail = [] ∨ tail = [';']) ∧ m.parse (String.ofList (line ++ tail)) = some ast := by
  unfold ExecuteEngine.command at h
  split at h
  · cases h
  · split at h
    · exact ⟨[], .inl rfl, by rw [List.append_nil]; exact h⟩
    · refine ⟨[';'], .inr rfl, ?_⟩
      rw [String.ofList_append]
      exact h

/-- Only queries begin with one of the words of `isReadOnly`. -/
theorem query_of_openingWord {ast : SyntaxNode} {w : String} (h : w ∈ openingWords ast)
    (hw : w.toList.map Char.toLower ∈ readOnlyWords) : ast = .select ∨ ast = .showInfo := by
  have hother : ∀ w ∈ ["create", "drop", "use", "begin", "commit", "rollback", "quit", "insert",
      "delete", "update"], w.toList.map Char.toLower ∉ readOnlyWords := by
    decide
  cases ast with
  | select => exact .inl rfl
  | showInfo => exact .inr rfl
  | quit | createDB _ | dropDB _ | useDB _ | ddl _ | trx | dml _ =>
    refine absurd hw (hother w ?_)
    simp only [openingWords, List.mem_cons, List.not_mem_nil, or_false] at h ⊢
    tauto

/-- The first line of a text that `isReadOnly` accepts. -/
theorem readOnlyLine_of_isReadOnly (hparse : FirstTokenDecides m.parse) {text : Text}
    (h : SqlUtils.isReadOnly (String.ofList text) = true) (hlast : text.getLast? = some ';') :
    ReadOnlyLine m (firstLine text) := by
  intro ast hast
  obtain ⟨tail, htail, hast⟩ := command_eq_some hast
  obtain ⟨opening, hopening, hfirst⟩ := hparse _ ast hast
  rw [String.toList_ofList] at hfirst
  obtain ⟨w, k, rest, htext, hw, hk⟩ := readOnly_shape h hlast
  by_cases hbreak : '\n' ∈ w
  · -- the line has no word
    obtain ⟨a, b, rfl, ha⟩ := List.eq_append_cons_of_mem hbreak
    rw [htext, List.append_assoc, List.cons_append, firstLine_break ha,
      firstToken_whitespace fun c hc => hw c (List.mem_append_left _ hc)] at hfirst
    rcases htail with rfl | rfl
    · cases hfirst
    · have hsemicolon : Token.symbol [';'] = MiniSql.Grammar.keyword opening :=
        Option.some.inj hfirst
      cases hsemicolon
  · have hkbreak : '\n' ∉ k := by
      intro hmem
      have hlower : '\n' ∈ k.map Char.toLower := List.mem_map.mpr ⟨'\n', hmem, by decide⟩
      exact absurd hlower ((by decide : ∀ w ∈ readOnlyWords, '\n' ∉ w) _ hk)
    have hline : firstLine text = w ++ (k ++ ' ' :: firstLine rest) := by
      have hall {s : Text} (hs : '\n' ∉ s) : ∀ c ∈ s, (c != '\n') = true := by
        intro c hc
        rw [bne_iff_ne]
        rintro rfl
        exact hs hc
      rw [htext, firstLine, List.takeWhile_append_of_pos (hall hbreak),
        List.takeWhile_append_of_pos (hall hkbreak), List.takeWhile_cons_of_pos (by decide)]
      rfl
    rw [hline, List.append_assoc, List.append_assoc, List.cons_append,
      firstToken_whitespace hw, firstToken_word hk] at hfirst
    have hopens := Option.some.inj hfirst
    have hkeyword : k = opening.toList := by
      unfold MiniSql.Lexer.ofWord at hopens
      split at hopens
      · exact Token.keyword.inj hopens
      · cases hopens
    rw [hkeyword] at hk
    exact query_of_openingWord hopening hk

/-! ### Calls -/

/-- A call while MiniSQL stays alive: one line is executed, its output is returned, and a read-only
statement executes a query. -/
def FramedRight (m : Repl τ) (x : ReplSession τ) (sql : Text) : Prop :=
  ∀ s, x.engine = some s → m.rounds s (inputLines (SqlUtils.normalizeChars sql)) ≠ none →
    ∃ r, (x.executeStatement m sql).rounds = [r] ∧
      (x.executeStatement m sql).returned = some r.output ∧
      (SqlUtils.isReadOnly (String.ofList (SqlUtils.normalizeChars sql)) = true →
        ReadOnlyLine m r.line)

/-- The statement is not empty, it is one line or MiniSQL quits on its first line, and the output of
that line can be framed. -/
def OneLine (m : Repl τ) (x : ReplSession τ) (sql : Text) : Prop :=
  ∀ s, x.engine = some s → m.rounds s (inputLines (SqlUtils.normalizeChars sql)) ≠ none →
    SqlUtils.normalizeChars sql ≠ [] ∧
      ('\n' ∉ SqlUtils.normalizeChars sql ∨
        Quits m s (firstLine (SqlUtils.normalizeChars sql))) ∧
      Clean (roundOf m s (firstLine (SqlUtils.normalizeChars sql))).output

/-- A normalized text that is not empty begins with no line break and ends with a semicolon. -/
theorem normalizeChars_ends {sql : Text} (h : SqlUtils.normalizeChars sql ≠ []) :
    firstLine (SqlUtils.normalizeChars sql) ≠ [] ∧
      (SqlUtils.normalizeChars sql).getLast? = some ';' := by
  obtain ⟨htrim, -, hlast⟩ := (SqlUtils.normalizeChars_cases sql).resolve_left h
  refine ⟨?_, hlast⟩
  obtain ⟨c, cs, htext⟩ := List.exists_cons_of_ne_nil h
  have hc : SqlUtils.isTrimmed c = false := by
    refine SqlUtils.head?_trim (l := SqlUtils.normalizeChars sql) c ?_
    rw [htrim, htext]
    rfl
  rw [htext, firstLine, List.takeWhile_cons_of_pos]
  · exact List.cons_ne_nil _ _
  · rw [bne_iff_ne]
    rintro rfl
    exact absurd hc (by decide)

variable {x : ReplSession τ}

/-- A call on an empty pipe, for a text that is not empty. -/
theorem executeStatement_eq (hstdout : x.stdout = []) {sql : Text} (hs : x.engine = some s)
    (hne : SqlUtils.normalizeChars sql ≠ []) {last : Option (ExecuteEngine τ)}
    {rounds : List ReplRound}
    (hrounds : m.rounds s (inputLines (SqlUtils.normalizeChars sql)) = some (last, rounds)) :
    ∃ more rest, rounds = roundOf m s (firstLine (SqlUtils.normalizeChars sql)) :: more ∧
      (more = [] ↔ '\n' ∉ SqlUtils.normalizeChars sql ∨
        Quits m s (firstLine (SqlUtils.normalizeChars sql))) ∧
      x.executeStatement m sql =
        { session := { engine := last, stdout := rest },
          returned := some (roundOf m s (firstLine (SqlUtils.normalizeChars sql))).text,
          rounds := rounds } ∧
      (Clean (roundOf m s (firstLine (SqlUtils.normalizeChars sql))).output →
        rest = more.flatMap fun r => outputLines r.printed) := by
  obtain ⟨hfirst, hlast⟩ := normalizeChars_ends hne
  obtain ⟨more, rfl, hmore⟩ := rounds_inputLines hfirst hlast hrounds
  obtain ⟨rest, hread, hrest⟩ := readUntilMarker_printed
    (roundOf m s (firstLine (SqlUtils.normalizeChars sql)))
    (more.flatMap fun r => outputLines r.printed)
  refine ⟨more, rest, rfl, hmore, ?_, hrest⟩
  unfold ReplSession.executeStatement ReplSession.runStatement
  simp only [hs, rounds_eq_some.mp hrounds, hstdout, List.nil_append, List.flatMap_cons, hread]
  rfl

/-- While MiniSQL is alive, everything that it has printed has been read. -/
def NothingUnread (x : ReplSession τ) : Prop := ∀ s, x.engine = some s → x.stdout = []

/-- A call that MiniSQL does not survive. -/
theorem engine_of_rounds_eq_none {text : Text} (hs : x.engine = some s)
    (h : m.rounds s (inputLines text) = none) : (x.runStatement m text).session.engine = none := by
  unfold Repl.rounds at h
  unfold ReplSession.runStatement
  simp only [hs]
  generalize m.loop s (inputLines text) = result at h ⊢
  obtain ⟨rounds, message | last⟩ := result
  · dsimp only
    split
    · rfl
    · rfl
  · cases h

/-- One call on an empty pipe. -/
theorem framedRight_of_oneLine (hparse : FirstTokenDecides m.parse) {sql : Text}
    (hread : NothingUnread x) (h : OneLine m x sql) :
    FramedRight m x sql ∧ NothingUnread (x.step m sql) := by
  cases hs : x.engine with
  | none =>
    refine ⟨fun s hsome => ?_, fun s hsome => ?_⟩
    · rw [hs] at hsome
      cases hsome
    · simp only [ReplSession.step, ReplSession.executeStatement, ReplSession.runStatement, hs]
        at hsome
      cases hsome
  | some s =>
    have hstdout := hread s hs
    cases hrounds : m.rounds s (inputLines (SqlUtils.normalizeChars sql)) with
    | none =>
      refine ⟨fun s' hsome hends => ?_, fun s' hsome => ?_⟩
      · rw [hs] at hsome
        obtain rfl := Option.some.inj hsome
        exact absurd hrounds hends
      · rw [ReplSession.step, ReplSession.executeStatement, engine_of_rounds_eq_none hs hrounds]
          at hsome
        cases hsome
    | some result =>
      obtain ⟨last, rounds⟩ := result
      obtain ⟨hne, hone, hclean⟩ := h s hs (by rw [hrounds]; exact Option.some_ne_none _)
      obtain ⟨more, rest, rfl, hmore, hcall, hrest⟩ := executeStatement_eq hstdout hs hne hrounds
      obtain rfl := hmore.mpr hone
      refine ⟨fun s' hsome _ => ?_, ?_⟩
      · rw [hs] at hsome
        obtain rfl := Option.some.inj hsome
        refine ⟨_, by rw [hcall], ?_, fun hread => ?_⟩
        · rw [hcall, text_eq_output_of_clean hclean]
        · exact readOnlyLine_of_isReadOnly hparse hread (normalizeChars_ends hne).2
      · rw [ReplSession.step, hcall]
        exact fun _ _ => hrest hclean

/-- A text whose answers are framed right is one line: with two lines a second answer stays unread,
with none the reader would wait. -/
theorem oneLine_of_framedRight {sql : Text} (hread : NothingUnread x) (h : FramedRight m x sql) :
    OneLine m x sql := by
  intro s hs hends
  have hstdout := hread s hs
  obtain ⟨r, hround, hreturned, -⟩ := h s hs hends
  obtain ⟨⟨last, rounds⟩, hrounds⟩ := Option.ne_none_iff_exists'.mp hends
  have hne : SqlUtils.normalizeChars sql ≠ [] := by
    intro hnil
    have hsilent : m.loop s [[]] = ([], .ok (some s)) := by
      unfold Repl.loop Repl.answer
      rw [if_pos rfl]
      rfl
    have hlines : inputLines (SqlUtils.normalizeChars sql) = [[]] := by
      rw [hnil]
      rfl
    rw [hlines] at hrounds
    simp only [ReplSession.executeStatement, ReplSession.runStatement, hs, hlines, hsilent, hstdout,
      List.flatMap_nil, List.append_nil, readUntilMarker, List.contains_nil, Bool.false_eq_true,
      if_false] at hround
    cases hround
  obtain ⟨more, rest, rfl, hmore, hcall, -⟩ := executeStatement_eq hstdout hs hne hrounds
  rw [hcall] at hround hreturned
  obtain ⟨rfl, hnil⟩ := List.cons.inj hround
  refine ⟨hne, hmore.mp hnil, ?_⟩
  exact clean_of_text_eq_output (Option.some.inj hreturned)

/-- In every sequence of calls on a MiniSQL that was started, each call executes its statement,
returns the output of it, and keeps a read-only request read-only: exactly if each statement is one
line, or MiniSQL quits on its first line, and each output can be framed. -/
theorem repl_framing_iff (hparse : FirstTokenDecides m.parse) (s : ExecuteEngine τ)
    (sqls : List Text) :
    Guarded (FramedRight m) (ReplSession.step m) { engine := some s } sqls ↔
      Guarded (OneLine m) (ReplSession.step m) { engine := some s } sqls :=
  Guarded.iff_guarded_of (J := NothingUnread)
    (fun _ _ hread h => framedRight_of_oneLine hparse hread h)
    (fun _ _ hread h => oneLine_of_framedRight hread h) sqls _ fun _ _ => rfl

/-! ### Sample statements -/

section
open MiniSql.Grammar (keyword mark)

/-- The parser on three statements. -/
def sampleParse (text : String) : Option SyntaxNode :=
  let tokens := MiniSql.Lexer.lex text.toList
  if tokens = [keyword "show", keyword "databases", mark ';'] then some .showInfo
  else if tokens = [keyword "select", mark '*', keyword "from", .identifier ['t'], mark ';'] then
    some .select
  else if tokens = [keyword "delete", keyword "from", .identifier ['t'], mark ';'] then
    some (.dml text)
  else none

/-- The parser of the example looks at the first word only, as the hypothesis asks. -/
theorem sampleParse_decides : FirstTokenDecides sampleParse := by
  intro text ast h
  simp only [sampleParse] at h
  unfold MiniSql.Lexer.firstToken
  split at h
  · next htokens =>
    obtain rfl := Option.some.inj h
    rw [htokens]
    exact ⟨"show", List.mem_singleton_self _, rfl⟩
  · split at h
    · next htokens =>
      obtain rfl := Option.some.inj h
      rw [htokens]
      exact ⟨"select", List.mem_singleton_self _, rfl⟩
    · split at h
      · next htokens =>
        obtain rfl := Option.some.inj h
        rw [htokens]
        exact ⟨"delete", List.mem_cons_of_mem _ List.mem_cons_self, rfl⟩
      · cases h

end

/-- MiniSQL with tables that count the statements on them. -/
def sampleRepl : Repl Nat where
  parse := sampleParse
  db := { init := 0, apply := fun _ n => n + 1 }
  print := fun _ _ => "Query OK\n"
  crash := fun _ _ => "MiniSQL process closed stdout"

/-- A database is in use. -/
def sampleEngine : ExecuteEngine Nat where
  dbs := fun name => if name = "d" then some 0 else none
  currentDb := "d"

theorem repl_framing_iff_sample :
    Guarded (FramedRight sampleRepl) (ReplSession.step sampleRepl) { engine := some sampleEngine }
        ["show databases".toList, " select * from t; ".toList] ↔
      Guarded (OneLine sampleRepl) (ReplSession.step sampleRepl) { engine := some sampleEngine }
        ["show databases".toList, " select * from t; ".toList] :=
  repl_framing_iff (m := sampleRepl) sampleParse_decides sampleEngine _

/-- A request of two lines, which `isReadOnly` accepts, deletes all rows. -/
theorem not_repl_framing :
    ¬ ∀ (m : Repl Nat), FirstTokenDecides m.parse → ∀ (s : ExecuteEngine Nat) (sqls : List Text),
      Guarded (FramedRight m) (ReplSession.step m) { engine := some s } sqls := by
  intro h
  have hcall := (h sampleRepl sampleParse_decides sampleEngine
    ["select * from t;\ndelete from t;".toList]).1
  obtain ⟨r, hrounds, -, -⟩ := hcall sampleEngine rfl (by
    intro hnone
    have hsome : (sampleRepl.rounds sampleEngine (inputLines (SqlUtils.normalizeChars
        "select * from t;\ndelete from t;".toList))).isSome = true := by
      decide +kernel
    rw [hnone] at hsome
    cases hsome)
  have htwo : (ReplSession.executeStatement sampleRepl { engine := some sampleEngine }
      "select * from t;\ndelete from t;".toList).rounds.length = 2 := by
    decide +kernel
  rw [hrounds] at htwo
  exact absurd htwo (Nat.succ_ne_self 1).symm

/-! ### `LiveEngine` -/

/-- `LiveEngine` returns what is read from the pipe, and keeps what is left on it. -/
theorem liveEngine_eq {e : LiveEngine τ} {x : ReplSession τ} (hready : e.isReady = true)
    (hprocess : e.process = some x) {sql : String} {text : Text}
    (h : (x.executeStatement m sql.toList).returned = some text) :
    e.executeStatement m sql =
      ({ e with process := some (x.executeStatement m sql.toList).session },
        .ok (String.ofList text)) := by
  have hsql : (SqlUtils.normalize sql).toList = SqlUtils.normalizeChars sql.toList := by
    rw [SqlUtils.normalize, String.toList_ofList]
  unfold ReplSession.executeStatement at h ⊢
  unfold LiveEngine.executeStatement LiveEngine.runStatement
  rw [if_pos hready, hprocess, hsql]
  dsimp only
  cases hs : x.engine with
  | none => simp [ReplSession.runStatement, hs] at h
  | some s =>
    dsimp only
    rw [h]

end DisMiniSql.Distributed
