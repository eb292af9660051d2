import DisMiniSql.Proofs.Parser.Productions

/-!
# `DisMiniSql.Proofs.Parser.Spacing`: the tokens that a text can have

`Writable` says which tokens the rules of `minisql.l` make, the rule `.` apart. `Spaced` writes
tokens down with layout between them.

* `writable_token`: the scanner makes no other tokens.
* `Spaced.lex_eq`: it reads tokens back as they were written, whatever the layout is.

So the phrases of the grammar that some text has are the ones of writable tokens, and the layout of
a text does not matter: `yyparse_spaced`.
-/

set_option autoImplicit false

namespace DisMiniSql.MiniSql

/-- What can stand between the quotes of a string. -/
inductive StringBody : List Char → Prop
  | nil : StringBody []
  | plain {c : Char} {s : List Char} (ne_quote : c ≠ '"') (ne_backslash : c ≠ '\\')
      (rest : StringBody s) : StringBody (c :: s)
  | escaped {c : Char} {s : List Char} (ne_line : c ≠ '\n') (rest : StringBody s) :
      StringBody ('\\' :: c :: s)

/-- Digits, or nothing, with a fraction or without. -/
inductive Digits : List Char → Prop
  | whole {digits : List Char} (digits_isDigit : ∀ c ∈ digits, c.isDigit = true) : Digits digits
  | fraction {digits decimals : List Char} (digits_isDigit : ∀ c ∈ digits, c.isDigit = true)
      (ne_nil : decimals ≠ []) (decimals_isDigit : ∀ c ∈ decimals, c.isDigit = true) :
      Digits (digits ++ '.' :: decimals)

/-- A number. The sign alone is one. -/
inductive NumberText : List Char → Prop
  | unsigned {text : List Char} (ne_nil : text ≠ []) (digits : Digits text) : NumberText text
  | negative {text : List Char} (digits : Digits text) : NumberText ('-' :: text)

/-- The operators of two characters. -/
def twoMarks : List (List Char) := [['<', '>'], ['<', '='], ['>', '=']]

/-- The tokens of the rules. -/
def Token.Writable : Token → Prop
  | .keyword word => ∃ w ∈ Lexer.keywords, w.toList = word
  | .identifier name => (∀ w ∈ Lexer.keywords, w.toList ≠ name) ∧
      ∃ c s, name = c :: s ∧ Lexer.isLetter c = true ∧ ∀ d ∈ s, Lexer.isLetterOrDigit d = true
  | .string content => StringBody content
  | .number text => NumberText text
  | .symbol text => text ∈ twoMarks ∨ ∃ c ∈ Lexer.marks, text = [c]
  | .unrecognized _ => False

/-- The tokens with layout between them. What follows a token begins with layout or is the end. -/
inductive Spaced : List Token → List Char → Prop
  | nil {s : List Char} (layout : ∀ c ∈ s, Lexer.isLayout c = true) : Spaced [] s
  | cons {t : Token} {ts : List Token} {before rest : List Char}
      (layout : ∀ c ∈ before, Lexer.isLayout c = true) (writable : t.Writable)
      (boundary : ∀ c ∈ rest.head?, Lexer.isLayout c = true) (further : Spaced ts rest) :
      Spaced (t :: ts) (before ++ (t.text ++ rest))

/-- The texts of the tokens, with a blank before each. -/
def spaced (ts : List Token) : List Char := ts.flatMap fun t => ' ' :: t.text

/-- Blanks between the tokens are a way to lay them out, so every list of writable tokens is the
list of some text. -/
theorem spaced_spaced {ts : List Token} (h : ∀ t ∈ ts, t.Writable) : Spaced ts (spaced ts) := by
  induction ts with
  | nil => exact .nil fun c hc => absurd hc List.not_mem_nil
  | cons t ts ih =>
    rw [List.forall_mem_cons] at h
    have hblank : ∀ c ∈ [' '], Lexer.isLayout c = true := by simp [Lexer.isLayout]
    have hboundary : ∀ c ∈ (spaced ts).head?, Lexer.isLayout c = true := by
      cases ts with
      | nil => simp [spaced]
      | cons u ts => simp [spaced, Lexer.isLayout]
    exact .cons hblank h.1 hboundary (ih h.2)

namespace Lexer

/-! ### What the scanner makes -/

variable {s : List Char}

/-- What is scanned as a string can be written as one: each backslash has a character behind it that
is no line break. -/
theorem stringBody_scanString {content rest : List Char} (h : scanString s = some (content, rest)) :
    StringBody content := by
  fun_induction scanString s generalizing content rest with
  | case1 => cases h
  | case2 =>
    cases h
    exact .nil
  | case3 => cases h
  | case4 d s =>
    cases h
    exact .nil
  | case5 => cases h
  | case6 d s hline hquote ih =>
    obtain ⟨⟨content', rest'⟩, hs, heq⟩ := Option.map_eq_some_iff.mp h
    cases heq
    exact .escaped hline (ih hs)
  | case7 c d s hc hc' ih =>
    obtain ⟨⟨content', rest'⟩, hs, heq⟩ := Option.map_eq_some_iff.mp h
    cases heq
    exact .plain hc hc' (ih hs)

/-- What is scanned as digits can be written: the fraction, if there is one, has digits in front of
it or behind it. -/
theorem digits_scanDigits (s : List Char) : Digits (scanDigits s).1 := by
  have hdigits : ∀ c ∈ s.takeWhile Char.isDigit, c.isDigit = true :=
    fun c hc => List.mem_takeWhile_imp hc
  simp only [scanDigits]
  split
  · next fraction rest h =>
    -- the fraction begins with the dot at which the digits end
    cases hrest : s.dropWhile Char.isDigit with
    | nil =>
      rw [hrest] at h
      cases h
    | cons c rest' =>
      simp only [hrest, scanFraction] at h
      split at h
      · next hc =>
        cases h
        rw [hc.1]
        exact .fraction hdigits hc.2 fun d hd => List.mem_takeWhile_imp hd
      · cases h
  · exact .whole hdigits

variable {c : Char}

/-- The same of a number with its sign. -/
theorem numberText_scanNumber {rest : List Char} {text : List Char}
    (h : scanNumber s = (c :: text, rest)) : NumberText (c :: text) := by
  cases s with
  | nil => cases h
  | cons d s =>
    simp only [scanNumber] at h
    split at h
    · next hd =>
      cases h
      rw [hd]
      exact .negative (digits_scanDigits s)
    · have htext : (scanDigits (d :: s)).1 = c :: text := congrArg Prod.fst h
      rw [← htext]
      exact .unsigned (by rw [htext]; exact List.cons_ne_nil c text) (digits_scanDigits (d :: s))

/-- The same of a mark, if it is one that the scanner knows. -/
theorem writable_scanSymbol (h : (scanSymbol c s).1.recognized = true) :
    (scanSymbol c s).1.Writable := by
  -- two characters are tried first, so a mark of one may begin one of two
  cases s with
  | nil =>
    simp only [scanSymbol] at h ⊢
    split at h
    · next hc =>
      rw [if_pos hc]
      exact .inr ⟨c, hc, rfl⟩
    · cases h
  | cons d s =>
    simp only [scanSymbol] at h ⊢
    split at h
    · next htwo =>
      rw [if_pos htwo]
      exact .inl (by simpa [twoMarks] using htwo)
    · next htwo =>
      rw [if_neg htwo]
      split at h
      · next hc =>
        rw [if_pos hc]
        exact .inr ⟨c, hc, rfl⟩
      · cases h

/-- A word is a keyword, or an identifier that is none. -/
theorem writable_ofWord (hc : isLetter c = true) (hs : ∀ d ∈ s, isLetterOrDigit d = true) :
    (ofWord (c :: s)).Writable := by
  have hmem : keywords.any (fun w => w.toList == c :: s) = true ↔
      ∃ w ∈ keywords, w.toList = c :: s := by simp
  rw [ofWord]
  by_cases hword : keywords.any (fun w => w.toList == c :: s) = true
  · rw [if_pos hword]
    exact hmem.mp hword
  · rw [if_neg hword]
    have hnot : ∀ w ∈ keywords, w.toList ≠ c :: s :=
      fun w hw heq => hword (hmem.mpr ⟨w, hw, heq⟩)
    exact ⟨hnot, c, s, rfl, hc, hs⟩

/-- Every token that a rule makes is writable. -/
theorem writable_token (h : (token c s).1.recognized = true) :
    (token c s).1.Writable := by
  by_cases hc : isLetter c = true
  · rw [token, if_pos hc]
    exact writable_ofWord hc fun d hd => List.mem_takeWhile_imp hd
  · rw [token, if_neg hc] at h ⊢
    by_cases hquote : c = '"'
    · rw [if_pos hquote] at h ⊢
      cases hs : scanString s with
      | none =>
        rw [hs] at h
        cases h
      | some result => exact stringBody_scanString hs
    · rw [if_neg hquote] at h ⊢
      cases hn : scanNumber (c :: s) with
      | mk text rest =>
        rw [hn] at h
        cases text with
        | nil => exact writable_scanSymbol h
        | cons d text => exact numberText_scanNumber hn

/-- The tokens of a text in which a rule takes every character. -/
theorem writable_lex (h : ∀ t ∈ lex s, t.recognized = true) :
    ∀ t ∈ lex s, t.Writable := by
  -- by induction on a bound of the length
  suffices hbound : ∀ n (s : List Char), s.length ≤ n → (∀ t ∈ lex s, t.recognized = true) →
      ∀ t ∈ lex s, t.Writable from hbound s.length s (Nat.le_refl _) h
  intro n
  induction n with
  | zero =>
    intro s hs _ t ht
    rw [List.length_eq_zero_iff.mp (Nat.le_zero.mp hs), lex_nil] at ht
    exact absurd ht List.not_mem_nil
  | succ n ih =>
    intro s hs hall
    cases s with
    | nil => exact fun t ht => absurd ht List.not_mem_nil
    | cons c s =>
      rw [List.length_cons, Nat.add_le_add_iff_right] at hs
      cases hc : isLayout c with
      | true =>
        rw [lex_layout hc] at hall ⊢
        exact ih s hs hall
      | false =>
        rw [lex_token hc, List.forall_mem_cons] at hall ⊢
        exact ⟨writable_token hall.1,
          ih _ (Nat.le_trans (length_token c s) hs) hall.2⟩

/-! ### Reading tokens back -/

/-- No character of the layout goes on with a word, a number or a mark. This is what separates the
tokens of a laid-out text. -/
theorem isLayout_eq (h : isLayout c = true) :
    isLetterOrDigit c = false ∧ c.isDigit = false ∧ c ≠ '.' ∧ c ≠ '>' ∧ c ≠ '=' := by
  simp only [isLayout, Bool.or_eq_true, beq_iff_eq] at h
  rcases h with (((rfl | rfl) | rfl) | rfl) | rfl <;> decide

/-- A digit is no letter, by the ranges of their codes. -/
theorem not_isLetter_of_isDigit (h : c.isDigit = true) : isLetter c = false := by
  have hdigit : 48 ≤ c.toNat ∧ c.toNat ≤ 57 := by
    unfold Char.isDigit at h
    simp only [Bool.and_eq_true, decide_eq_true_eq] at h
    exact h
  rw [← Bool.not_eq_true]
  intro hletter
  have hrange : (65 ≤ c.toNat ∧ c.toNat ≤ 90) ∨ (97 ≤ c.toNat ∧ c.toNat ≤ 122) ∨ c = '_' := by
    unfold isLetter Char.isAlpha Char.isUpper Char.isLower at hletter
    simp only [Bool.or_eq_true, Bool.and_eq_true, decide_eq_true_eq, beq_iff_eq, or_assoc]
      at hletter
    exact hletter
  rcases hrange with hupper | hlower | rfl
  · omega
  · omega
  · exact absurd h (by decide)

/-- A string that is written is scanned as one, up to its quote. The induction is on how its body is
built. -/
theorem scanString_of_body {content : List Char} (h : StringBody content) (rest : List Char) :
    scanString (content ++ '"' :: rest) = some (content, rest) := by
  induction h with
  | nil => cases rest <;> simp [scanString]
  | @plain c s hquote hbackslash hs ih =>
    -- the scanner looks at two characters, and something follows this one
    obtain ⟨d, s', hd⟩ : ∃ d s', s ++ '"' :: rest = d :: s' := List.exists_cons_of_ne_nil (by simp)
    rw [List.cons_append, hd, scanString, if_neg hquote, if_neg hbackslash, ← hd, ih]
    rfl
  | @escaped c s hline hs ih =>
    rw [List.cons_append, List.cons_append, scanString, if_neg (by decide), if_pos rfl,
      if_neg hline, ih]
    rfl

/-- Digits begin with a digit or the point. -/
theorem digits_head {text : List Char} (h : Digits (c :: text)) :
    c.isDigit = true ∨ c = '.' := by
  generalize heq : c :: text = whole at h
  cases h with
  | whole hall =>
    subst heq
    exact .inl (hall c List.mem_cons_self)
  | @fraction digits decimals hall _ _ =>
    cases digits with
    | nil =>
      rw [List.nil_append] at heq
      exact .inr (List.cons.inj heq).1
    | cons d digits =>
      rw [List.cons_append] at heq
      rw [(List.cons.inj heq).1]
      exact .inl (hall d List.mem_cons_self)

/-- A number is read as one, and nothing else is read where it begins. -/
theorem numberText_head {text : List Char} (h : NumberText (c :: text)) :
    isLetter c = false ∧ isLayout c = false ∧ c ≠ '"' := by
  have hc : c.isDigit = true ∨ c = '.' ∨ c = '-' := by
    cases h with
    | unsigned _ h => exact (digits_head h).imp_right .inl
    | negative _ => exact .inr (.inr rfl)
  rcases hc with hdigit | rfl | rfl
  · refine ⟨not_isLetter_of_isDigit hdigit, ?_, ?_⟩
    · rw [← Bool.not_eq_true]
      intro hlayout
      rw [(isLayout_eq hlayout).2.1] at hdigit
      cases hdigit
    · rintro rfl
      exact absurd hdigit (by decide)
  · decide
  · decide

/-- No number begins with a mark. -/
theorem scanNumber_mark (hc : c ∈ marks) (s : List Char) :
    scanNumber (c :: s) = ([], c :: s) := by
  simp only [marks, List.mem_cons, List.not_mem_nil, or_false] at hc
  rcases hc with rfl | rfl | rfl | rfl | rfl | rfl | rfl | rfl | rfl <;> rfl

section Boundary

variable {rest : List Char} (boundary : ∀ c ∈ rest.head?, isLayout c = true)

include boundary

/-- Digits end at the boundary behind them. -/
theorem digits_boundary {digits : List Char} (h : ∀ c ∈ digits, c.isDigit = true) :
    (digits ++ rest).takeWhile Char.isDigit = digits ∧
      (digits ++ rest).dropWhile Char.isDigit = rest := by
  rw [List.takeWhile_append_of_pos h, List.dropWhile_append_of_pos h]
  cases rest with
  | nil => simp
  | cons c rest =>
    have hc : c.isDigit = false := (isLayout_eq (boundary c rfl)).2.1
    simp [hc]

/-- No fraction begins at a boundary. -/
theorem scanFraction_boundary : scanFraction rest = none := by
  cases rest with
  | nil => rfl
  | cons c rest =>
    have hc : c ≠ '.' := (isLayout_eq (boundary c rfl)).2.2.1
    simp [scanFraction, hc]

/-- Digits that are written in front of a boundary are scanned as one piece. -/
theorem scanDigits_of_digits {text : List Char} (h : Digits text) :
    scanDigits (text ++ rest) = (text, rest) := by
  cases h with
  | whole hdigits =>
    obtain ⟨htake, hdrop⟩ := digits_boundary boundary hdigits
    simp [scanDigits, htake, hdrop, scanFraction_boundary boundary]
  | @fraction digits decimals hdigits hne hdecimals =>
    obtain ⟨htake, hdrop⟩ := digits_boundary boundary hdecimals
    -- the first digits end at the dot, the decimals at the boundary
    have htake' : (digits ++ '.' :: (decimals ++ rest)).takeWhile Char.isDigit = digits := by
      simp [List.takeWhile_append_of_pos hdigits]
    have hdrop' : (digits ++ '.' :: (decimals ++ rest)).dropWhile Char.isDigit =
        '.' :: (decimals ++ rest) := by
      simp [List.dropWhile_append_of_pos hdigits]
    rw [List.append_assoc, List.cons_append]
    simp [scanDigits, htake', hdrop', scanFraction, htake, hdrop, hne]

/-- The same of a number with its sign. -/
theorem scanNumber_of_numberText {c : Char} {text : List Char} (h : NumberText (c :: text)) :
    scanNumber (c :: (text ++ rest)) = (c :: text, rest) := by
  rw [scanNumber]
  cases h with
  | negative h => rw [if_pos rfl, scanDigits_of_digits boundary h]
  | unsigned _ h =>
    have hne : c ≠ '-' := by
      rintro rfl
      exact absurd (digits_head h) (by decide)
    rw [if_neg hne, ← List.cons_append, scanDigits_of_digits boundary h]

/-- A word in front of a boundary is one token. -/
theorem word_boundary {c : Char} {s : List Char} (hc : isLetter c = true)
    (hs : ∀ d ∈ s, isLetterOrDigit d = true) :
    isLayout c = false ∧ token c (s ++ rest) = (ofWord (c :: s), rest) := by
  refine ⟨not_isLayout_of_isLetter hc, token_word hc hs ?_⟩
  intro d hd
  exact (isLayout_eq (boundary d hd)).1

/-- A mark in front of a boundary is one token: the character behind it makes no mark of two. -/
theorem mark_boundary {c : Char} (hc : c ∈ marks) :
    isLayout c = false ∧ token c rest = (.symbol [c], rest) := by
  have hfacts : ∀ c ∈ marks, isLetter c = false ∧ isLayout c = false ∧ c ≠ '"' := by decide
  obtain ⟨hletter, hlayout, hquote⟩ := hfacts c hc
  refine ⟨hlayout, ?_⟩
  rw [token, hletter, if_neg Bool.false_ne_true, if_neg hquote, scanNumber_mark hc]
  show scanSymbol c rest = _
  cases rest with
  | nil => rw [scanSymbol, if_pos hc]
  | cons d rest =>
    obtain ⟨-, -, -, hgreater, hequal⟩ := isLayout_eq (boundary d rfl)
    have htwo : ¬([c, d] = ['<', '>'] ∨ [c, d] = ['<', '='] ∨ [c, d] = ['>', '=']) := by
      simp [hgreater, hequal]
    rw [scanSymbol, if_neg htwo, if_pos hc]

/-- A token that layout follows is read back. -/
theorem token_boundary {t : Token} (h : t.Writable) : ∃ c s, t.text = c :: s ∧
    isLayout c = false ∧ token c (s ++ rest) = (t, rest) := by
  cases t with
  | keyword word =>
    obtain ⟨w, hw, rfl⟩ := h
    have hletters : ∀ w ∈ keywords, w.toList ≠ [] ∧ w.toList.all isLetter = true := by decide
    obtain ⟨hne, hall⟩ := hletters w hw
    have hword : ofWord w.toList = .keyword w.toList := by
      rw [ofWord, if_pos (List.any_eq_true.mpr ⟨w, hw, by simp⟩)]
    obtain ⟨c, s, hs⟩ := List.exists_cons_of_ne_nil hne
    rw [hs, List.all_cons, Bool.and_eq_true, List.all_eq_true] at hall
    rw [hs] at hword ⊢
    refine ⟨c, s, rfl, ?_⟩
    rw [← hword]
    refine word_boundary boundary hall.1 fun d hd => ?_
    rw [isLetterOrDigit, hall.2 d hd, Bool.true_or]
  | identifier name =>
    obtain ⟨hnot, c, s, rfl, hc, hs⟩ := h
    have hword : ofWord (c :: s) = .identifier (c :: s) := by
      rw [ofWord, if_neg]
      simpa using hnot
    refine ⟨c, s, rfl, ?_⟩
    rw [← hword]
    exact word_boundary boundary hc hs
  | string content =>
    refine ⟨'"', content ++ ['"'], rfl, rfl, ?_⟩
    have hs := scanString_of_body h rest
    rw [List.append_assoc, List.singleton_append, token, if_neg (by decide), if_pos rfl, hs]
  | number text =>
    cases text with
    | nil =>
      -- a number has a character
      exact absurd h (by rintro ⟨hne, -⟩; exact hne rfl)
    | cons c text =>
      obtain ⟨hletter, hlayout, hquote⟩ := numberText_head h
      refine ⟨c, text, rfl, hlayout, ?_⟩
      rw [token, hletter, if_neg Bool.false_ne_true, if_neg hquote,
        scanNumber_of_numberText boundary h]
  | symbol text =>
    rcases h with htwo | ⟨c, hc, rfl⟩
    · simp only [twoMarks, List.mem_cons, List.not_mem_nil, or_false] at htwo
      rcases htwo with rfl | rfl | rfl
      · exact ⟨'<', ['>'], rfl, rfl, rfl⟩
      · exact ⟨'<', ['='], rfl, rfl, rfl⟩
      · exact ⟨'>', ['='], rfl, rfl, rfl⟩
    · exact ⟨c, [], rfl, mark_boundary boundary hc⟩
  | unrecognized c => exact absurd h id

end Boundary

/-- Layout in front of a text changes none of its tokens. -/
theorem lex_append_layout {before : List Char} (h : ∀ c ∈ before, isLayout c = true)
    (s : List Char) : lex (before ++ s) = lex s := by
  induction before with
  | nil => rfl
  | cons c before ih =>
    rw [List.forall_mem_cons] at h
    rw [List.cons_append, lex_layout h.1]
    exact ih h.2

end Lexer

open Lexer (lex lex_append_layout lex_token token_boundary writable_lex)

/-- The tokens of a laid-out text are those that were laid out. The induction is on the layout, and
`token_boundary` reads one token back. -/
theorem Spaced.lex_eq {ts : List Token} {text : List Char} (h : Spaced ts text) :
    lex text = ts := by
  induction h with
  | @nil s layout =>
    have hlex := lex_append_layout layout []
    rwa [List.append_nil] at hlex
  | @cons t ts before rest layout writable boundary _ ih =>
    obtain ⟨c, s, htext, hc, htoken⟩ := token_boundary boundary writable
    rw [lex_append_layout layout, htext, List.cons_append, lex_token hc, htoken, ih]

open Productions (Start)

/-- A phrase is the statement of some text exactly if its tokens are writable and it fits on the
stack of the parser. Then it is the statement of every text in which the tokens stand with layout
between them. -/
theorem yyparse_spaced (phrase : List Token) (statement : SyntaxTree) :
    ((∃ text, lex text = phrase ∧ yyparse text = { root := some statement, error := false }) ↔
      Start phrase statement ∧ statement.FitsStack ∧ ∀ t ∈ phrase, t.Writable) ∧
    ∀ text, Spaced phrase text →
      (yyparse text = { root := some statement, error := false } ↔
        Start phrase statement ∧ statement.FitsStack) := by
  have hspaced : ∀ text, Spaced phrase text →
      (yyparse text = { root := some statement, error := false } ↔
        Start phrase statement ∧ statement.FitsStack) := by
    intro text htext
    rw [← htext.lex_eq]
    exact ⟨start_of_yyparse, fun h => yyparse_of_start h.1 h.2⟩
  refine ⟨⟨?_, ?_⟩, hspaced⟩
  · intro h
    obtain ⟨text, rfl, hparse⟩ := h
    obtain ⟨hstart, hfits⟩ := start_of_yyparse hparse
    exact ⟨hstart, hfits, writable_lex hstart.recognized⟩
  · intro h
    obtain ⟨hstart, hfits, hwritable⟩ := h
    -- a blank before each token is enough
    have htext := spaced_spaced hwritable
    exact ⟨spaced phrase, htext.lex_eq, (hspaced _ htext).mpr ⟨hstart, hfits⟩⟩

end DisMiniSql.MiniSql
