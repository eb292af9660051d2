import Mathlib.Data.List.TakeWhile
import DisMiniSql.MiniSql.Parser.Lexer

/-!
# `DisMiniSql.Proofs.Parser.Lexer`: a text is its tokens and the layout between them

`lex_eq_cons` takes the first token off a text, and `lex_eq_append` the first few. `insert_spec`
says what the text of an `insert` looks like around its first value.
-/

set_option autoImplicit false

namespace DisMiniSql.MiniSql

/-- What the scanner makes of a word or a number. -/
def Token.WellFormed : Token → Prop
  | .identifier name => ∀ c ∈ name, Lexer.isLetterOrDigit c = true
  | .number text => text ≠ [] ∧ ∀ c ∈ text, c.isDigit = true ∨ c = '-' ∨ c = '.'
  | _ => True

namespace Lexer

/-! ### One token -/

variable {s : List Char}

/-- A string ends with its quote, and the scanner takes what stands before it. The induction follows
the three ways to read one character: a quote, an escaped character, any other. -/
theorem scanString_eq {content rest : List Char} (h : scanString s = some (content, rest)) :
    s = content ++ '"' :: rest := by
  fun_induction scanString s generalizing content rest with
  | case1 => cases h
  | case2 => cases h; rfl
  | case3 => cases h
  | case4 d s => cases h; rfl
  | case5 => cases h
  | case6 d s hc hd ih =>
    obtain ⟨⟨content', rest'⟩, hs, heq⟩ := Option.map_eq_some_iff.mp h
    cases heq
    rw [ih hs]
    rfl
  | case7 c d s hc hc' ih =>
    obtain ⟨⟨content', rest'⟩, hs, heq⟩ := Option.map_eq_some_iff.mp h
    cases heq
    rw [ih hs]
    rfl

/-- A fraction is a dot and digits, and nothing of the text is lost. -/
theorem scanFraction_eq {text rest : List Char} (h : scanFraction s = some (text, rest)) :
    s = text ++ rest ∧ ∀ c ∈ text, c.isDigit = true ∨ c = '-' ∨ c = '.' := by
  cases s with
  | nil => cases h
  | cons c s =>
    simp only [scanFraction] at h
    split at h
    · next hc =>
      cases h
      refine ⟨by rw [List.cons_append, List.takeWhile_append_dropWhile], ?_⟩
      rw [List.forall_mem_cons]
      exact ⟨.inr (.inr hc.1), fun d hd => .inl (List.mem_takeWhile_imp hd)⟩
    · cases h

/-- The same of digits with a fraction behind them, if there is one. -/
theorem scanDigits_eq (s : List Char) :
    (scanDigits s).1 ++ (scanDigits s).2 = s ∧
      ∀ c ∈ (scanDigits s).1, c.isDigit = true ∨ c = '-' ∨ c = '.' := by
  have hdigits : ∀ c ∈ s.takeWhile Char.isDigit, c.isDigit = true ∨ c = '-' ∨ c = '.' :=
    fun c hc => .inl (List.mem_takeWhile_imp hc)
  simp only [scanDigits]
  split
  · next fraction rest h =>
    obtain ⟨hrest, hfraction⟩ := scanFraction_eq h
    refine ⟨?_, fun c hc => ?_⟩
    · rw [List.append_assoc, ← hrest, List.takeWhile_append_dropWhile]
    · exact (List.mem_append.mp hc).elim (hdigits c) (hfraction c)
  · exact ⟨List.takeWhile_append_dropWhile, hdigits⟩

/-- The same of a number with its sign. `token_eq` needs both parts: the text for the round trip,
and the characters for `WellFormed`. -/
theorem scanNumber_eq (s : List Char) :
    (scanNumber s).1 ++ (scanNumber s).2 = s ∧
      ∀ c ∈ (scanNumber s).1, c.isDigit = true ∨ c = '-' ∨ c = '.' := by
  cases s with
  | nil => exact ⟨rfl, fun c hc => absurd hc List.not_mem_nil⟩
  | cons c s =>
    simp only [scanNumber]
    split
    · next hc =>
      obtain ⟨hs, hall⟩ := scanDigits_eq s
      refine ⟨by rw [List.cons_append, hs], ?_⟩
      rw [List.forall_mem_cons]
      exact ⟨.inr (.inl hc), hall⟩
    · exact scanDigits_eq (c :: s)

/-- A mark is one character or two, and it is taken as it stands. -/
theorem scanSymbol_eq (c : Char) (s : List Char) :
    (scanSymbol c s).1.text ++ (scanSymbol c s).2 = c :: s ∧ (scanSymbol c s).1.text ≠ [] ∧
      (scanSymbol c s).1.WellFormed := by
  cases s with
  | nil =>
    simp only [scanSymbol]
    split <;> exact ⟨rfl, List.cons_ne_nil _ _, trivial⟩
  | cons d s =>
    simp only [scanSymbol]
    split
    · exact ⟨rfl, List.cons_ne_nil _ _, trivial⟩
    · split <;> exact ⟨rfl, List.cons_ne_nil _ _, trivial⟩

/-- A token keeps the text of the word it was made from. -/
theorem ofWord_text (word : List Char) : (ofWord word).text = word := by
  unfold ofWord
  split <;> rfl

/-- One token: its text and the rest are the input, the text is not empty, and the token is well
formed. So the tokens of a text can be put together to the text again (`lexUpTo_eq`). -/
theorem token_eq (c : Char) (s : List Char) :
    (token c s).1.text ++ (token c s).2 = c :: s ∧ (token c s).1.text ≠ [] ∧
      (token c s).1.WellFormed := by
  unfold token
  split
  · -- a word: letters and digits up to the first other character
    next hc =>
    refine ⟨?_, ?_, ?_⟩
    · rw [ofWord_text, List.cons_append, List.takeWhile_append_dropWhile]
    · rw [ofWord_text]
      exact List.cons_ne_nil _ _
    · unfold ofWord
      split
      · trivial
      · show ∀ d ∈ c :: s.takeWhile isLetterOrDigit, isLetterOrDigit d = true
        rw [List.forall_mem_cons]
        exact ⟨by rw [isLetterOrDigit, hc, Bool.true_or], fun d hd => List.mem_takeWhile_imp hd⟩
  · -- a string, a number, or a mark
    split
    · next hc =>
      split
      · next content rest h =>
        refine ⟨?_, List.cons_ne_nil _ _, trivial⟩
        rw [scanString_eq h, hc]
        show '"' :: (content ++ ['"']) ++ rest = _
        rw [List.cons_append, List.append_assoc]
        rfl
      · exact ⟨rfl, List.cons_ne_nil _ _, trivial⟩
    · obtain ⟨hs, hall⟩ := scanNumber_eq (c :: s)
      split
      · exact scanSymbol_eq c s
      · next d text rest h =>
        rw [h] at hs hall
        exact ⟨hs, List.cons_ne_nil _ _, List.cons_ne_nil _ _, hall⟩

/-- A token takes at least one character, so the scanner ends. -/
theorem length_token (c : Char) (s : List Char) : (token c s).2.length ≤ s.length := by
  obtain ⟨heq, hne, -⟩ := token_eq c s
  have hlen := congrArg List.length heq
  have hpos := List.length_pos_iff.mpr hne
  rw [List.length_append, List.length_cons] at hlen
  omega

/-! ### All tokens -/

/-- The bound does not matter. -/
theorem lexUpTo_eq {n m : Nat} (hn : s.length ≤ n) (hm : s.length ≤ m) :
    lexUpTo n s = lexUpTo m s := by
  induction n generalizing m s with
  | zero =>
    obtain rfl := List.length_eq_zero_iff.mp (Nat.le_zero.mp hn)
    simp only [lexUpTo]
  | succ n ih =>
    cases s with
    | nil => simp only [lexUpTo]
    | cons c s =>
      obtain ⟨m, rfl⟩ : ∃ k, m = k + 1 := ⟨m - 1, by rw [List.length_cons] at hm; omega⟩
      rw [List.length_cons, Nat.add_le_add_iff_right] at hn hm
      have htoken := length_token c s
      simp only [lexUpTo]
      split
      · exact ih hn hm
      · exact congrArg _ (ih (Nat.le_trans htoken hn) (Nat.le_trans htoken hm))

/-- A character of layout before the next token changes nothing. -/
theorem lex_layout {c : Char} (h : isLayout c = true) : lex (c :: s) = lex s := by
  rw [lex, List.length_cons, lexUpTo, if_pos h, lex]

/-- The first token of a text that does not begin with layout, and the tokens of the rest. -/
theorem lex_token {c : Char} (h : isLayout c = false) :
    lex (c :: s) = (token c s).1 :: lex (token c s).2 := by
  rw [lex, List.length_cons, lexUpTo, if_neg (by rw [h]; exact Bool.false_ne_true)]
  exact congrArg _ (lexUpTo_eq (length_token c s) (Nat.le_refl _))

/-- Nothing is left to scan at the end of the text. -/
theorem lex_nil : lex [] = [] := rfl

/-- The first token. By induction on the text, through the layout before it. -/
theorem lex_eq_cons {t : Token} {ts : List Token} (h : lex s = t :: ts) :
    ∃ layout rest, (∀ c ∈ layout, isLayout c = true) ∧ s = layout ++ (t.text ++ rest) ∧
      lex rest = ts ∧ t.WellFormed := by
  induction s with
  | nil => cases h
  | cons c s ih =>
    cases hc : isLayout c with
    | true =>
      rw [lex_layout hc] at h
      obtain ⟨layout, rest, hlayout, hs, hrest⟩ := ih h
      refine ⟨c :: layout, rest, List.forall_mem_cons.mpr ⟨hc, hlayout⟩, ?_, hrest⟩
      rw [hs, List.cons_append]
    | false =>
      rw [lex_token hc] at h
      obtain ⟨rfl, hrest⟩ := List.cons.inj h
      obtain ⟨heq, -, hwf⟩ := token_eq c s
      exact ⟨[], (token c s).2, fun d hd => absurd hd List.not_mem_nil, heq.symm, hrest, hwf⟩

/-- A text without tokens is layout. -/
theorem layout_of_lex_eq_nil (h : lex s = []) : ∀ c ∈ s, isLayout c = true := by
  induction s with
  | nil => exact fun c hc => absurd hc List.not_mem_nil
  | cons c s ih =>
    cases hc : isLayout c with
    | true =>
      rw [lex_layout hc] at h
      exact List.forall_mem_cons.mpr ⟨hc, ih h⟩
    | false =>
      rw [lex_token hc] at h
      cases h

/-- The text of the first few tokens, and what comes after it. -/
theorem lex_eq_append {ts us : List Token} (h : lex s = ts ++ us) :
    ∃ before after, s = before ++ after ∧ lex after = us := by
  induction ts generalizing s with
  | nil => exact ⟨[], s, rfl, h⟩
  | cons t ts ih =>
    obtain ⟨layout, rest, -, rfl, hrest, -⟩ := lex_eq_cons h
    obtain ⟨before, after, rfl, hafter⟩ := ih hrest
    refine ⟨layout ++ (t.text ++ before), after, ?_, hafter⟩
    rw [List.append_assoc, List.append_assoc]

end Lexer

/-! ### The text of an `insert` -/

namespace Grammar

open Lexer (lex isLayout isLetterOrDigit lex_eq_cons lex_eq_append layout_of_lex_eq_nil)

/-- A character that is not layout does not stand in layout. -/
theorem not_mem_of_layout {s : List Char} (h : ∀ c ∈ s, isLayout c = true) {c : Char}
    (hc : isLayout c = false) : c ∉ s := by
  intro hmem
  rw [h c hmem] at hc
  cases hc

/-- The values after the first one begin with a comma. -/
theorem furtherValues_eq {ts rest : List Token} {values : List Literal}
    (h : furtherValues ts = some (values, rest)) :
    ∃ used, ts = used ++ rest ∧ (used = [] ∨ ∃ used', used = mark ',' :: used') := by
  fun_induction furtherValues ts generalizing values rest with
  | case1 t ts ih =>
    obtain ⟨value, -, h⟩ := Option.bind_eq_some_iff.mp h
    obtain ⟨⟨further, rest'⟩, hfurther, h⟩ := Option.bind_eq_some_iff.mp h
    obtain ⟨rfl, rfl⟩ := Prod.mk.inj (Option.some.inj h)
    obtain ⟨used, rfl, -⟩ := ih hfurther
    exact ⟨mark ',' :: t :: used, rfl, .inr ⟨t :: used, rfl⟩⟩
  | case2 comma t ts hcomma =>
    obtain ⟨rfl, rfl⟩ := Prod.mk.inj (Option.some.inj h)
    exact ⟨[], rfl, .inl rfl⟩
  | case3 ts hts =>
    obtain ⟨rfl, rfl⟩ := Prod.mk.inj (Option.some.inj h)
    exact ⟨[], rfl, .inl rfl⟩

/-- The end of the statement. -/
theorem closing_eq {s : List Char} (h : lex s = [mark ')', mark ';']) :
    ∃ layout after, s = layout ++ ')' :: after ∧ (∀ c ∈ layout, isLayout c = true) ∧
      ')' ∉ after := by
  obtain ⟨l₁, s₁, hl₁, rfl, h₁, -⟩ := lex_eq_cons h
  obtain ⟨l₂, s₂, hl₂, rfl, h₂, -⟩ := lex_eq_cons h₁
  refine ⟨l₁, l₂ ++ ((mark ';').text ++ s₂), rfl, hl₁, ?_⟩
  rw [List.mem_append, List.mem_append, not_or, not_or]
  exact ⟨not_mem_of_layout hl₂ rfl, by decide,
    not_mem_of_layout (layout_of_lex_eq_nil h₂) rfl⟩

/-- What comes after the first value: nothing or a comma, and at the end the parenthesis. -/
theorem remaining_eq {s : List Char} {used : List Token}
    (h : lex s = used ++ [mark ')', mark ';'])
    (hused : used = [] ∨ ∃ used', used = mark ',' :: used') :
    ∃ layout further after, s = layout ++ (further ++ ')' :: after) ∧
      (∀ c ∈ layout, isLayout c = true) ∧
      (further = [] ∨ ∃ further', further = ',' :: further') ∧ ')' ∉ after := by
  rcases hused with rfl | ⟨used', rfl⟩
  · obtain ⟨layout, after, rfl, hlayout, hafter⟩ := closing_eq h
    exact ⟨layout, [], after, rfl, hlayout, .inl rfl, hafter⟩
  · obtain ⟨l₁, s₁, hl₁, rfl, h₁, -⟩ := lex_eq_cons h
    obtain ⟨before, rest, rfl, hrest⟩ := lex_eq_append h₁
    obtain ⟨layout, after, rfl, -, hafter⟩ := closing_eq hrest
    refine ⟨l₁, ',' :: (before ++ layout), after, ?_, hl₁, .inr ⟨_, rfl⟩, hafter⟩
    show l₁ ++ (',' :: (before ++ (layout ++ ')' :: after))) = _
    rw [List.cons_append, List.append_assoc]

/-- The text before the values has no parenthesis, and none that closes comes after them. -/
theorem insert_spec {sql : List Char} {statement : InsertStatement}
    (h : parseInsert sql = some statement) :
    ∃ before layout t between further after,
      sql = before ++ '(' :: (layout ++ (t.text ++ (between ++ (further ++ ')' :: after)))) ∧
        '(' ∉ before ∧ (∀ c ∈ layout, isLayout c = true) ∧ columnValue t = some statement.first ∧
        t.WellFormed ∧ (∀ c ∈ between, isLayout c = true) ∧
        (further = [] ∨ ∃ further', further = ',' :: further') ∧ ')' ∉ after := by
  unfold parseInsert insertStatement at h
  split at h
  · next insert into table values openParen first ts htokens =>
    split at h
    · next hwords =>
      obtain ⟨rfl, rfl, rfl, rfl⟩ := hwords
      obtain ⟨value, hvalue, h⟩ := Option.bind_eq_some_iff.mp h
      obtain ⟨⟨further, rest⟩, hfurther, h⟩ := Option.bind_eq_some_iff.mp h
      dsimp only at h
      split at h
      · next hrest =>
        obtain rfl := Option.some.inj h
        obtain ⟨used, rfl, hused⟩ := furtherValues_eq hfurther
        subst hrest
        obtain ⟨l₁, s₁, hl₁, rfl, h₁, -⟩ := lex_eq_cons htokens
        obtain ⟨l₂, s₂, hl₂, rfl, h₂, -⟩ := lex_eq_cons h₁
        obtain ⟨l₃, s₃, hl₃, rfl, h₃, hname⟩ := lex_eq_cons h₂
        obtain ⟨l₄, s₄, hl₄, rfl, h₄, -⟩ := lex_eq_cons h₃
        obtain ⟨l₅, s₅, hl₅, rfl, h₅, -⟩ := lex_eq_cons h₄
        obtain ⟨layout, s₆, hlayout, rfl, h₆, hwf⟩ := lex_eq_cons h₅
        obtain ⟨between, m, after, rfl, hbetween, hm, hafter⟩ := remaining_eq h₆ hused
        refine ⟨l₁ ++ ("insert".toList ++ (l₂ ++ ("into".toList ++ (l₃ ++ (table ++
          (l₄ ++ ("values".toList ++ l₅))))))), layout, first, between, m, after, ?_, ?_, hlayout,
          hvalue, hwf, hbetween, hm, hafter⟩
        · simp only [List.append_assoc]
          rfl
        · have htable : '(' ∉ table := fun hmem => absurd (hname '(' hmem) (by decide)
          simp only [List.mem_append, not_or]
          exact ⟨not_mem_of_layout hl₁ rfl, by decide, not_mem_of_layout hl₂ rfl, by decide,
            not_mem_of_layout hl₃ rfl, htable, not_mem_of_layout hl₄ rfl, by decide,
            not_mem_of_layout hl₅ rfl⟩
      · cases h
    · cases h
  · cases h

end Grammar

end DisMiniSql.MiniSql
