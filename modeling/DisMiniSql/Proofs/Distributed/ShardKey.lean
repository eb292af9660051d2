import DisMiniSql.Distributed.Common.ShardKey
import DisMiniSql.Proofs.Distributed.JavaText
import DisMiniSql.Proofs.Parser.Lexer

/-!
# `DisMiniSql.Proofs.Distributed.ShardKey`: the shard key in the text of an `insert`

`inferShardKey` cuts the first value out of the raw text of the statement, at the first comma. The
grammar and the pattern agree on where the values begin and end (`values_eq`), so the key is the
first literal without its quotes unless the literal has a comma in it (`shard_key_iff`).
-/

set_option autoImplicit false

namespace DisMiniSql.Distributed

open Lib (Regex)
open Lib.Regex (Matches)
open MiniSql (Token Literal InsertStatement)
open MiniSql.Grammar (parseInsert columnValue insert_spec)

namespace SqlUtils

/-! ### The pattern -/

/-- The pattern up to the first parenthesis. -/
def insertValuesFront : List (Regex Char) :=
  [Text.spaces, Text.word "insert", Text.spaces1, Text.word "into", Text.spaces1,
    .group 1 (.seq (.one fun c => c.isAlpha || c == '_') (.many Text.isWord)), Text.spaces1,
    Text.word "values", Text.spaces]

/-- The pattern after the last parenthesis. -/
def insertValuesBack : List (Regex Char) := [Text.spaces, .opt (Text.char ';'), Text.spaces]

/-- The second group lies between the first parenthesis and the last one. -/
theorem insertValues_spec {sql : Text} {groups : Regex.Groups Char}
    (h : INSERT_VALUES.matchAll sql = some groups) :
    ∃ before values after, sql = before ++ '(' :: (values ++ ')' :: after) ∧ '(' ∉ before ∧
      ')' ∉ after ∧ groups.get 2 = some values := by
  have hm : Matches (.all (insertValuesFront ++ Text.char '(' ::
      .group 2 (.many fun _ => true) :: Text.char ')' :: insertValuesBack)) sql groups :=
    Regex.matches_of_matchAll h
  obtain ⟨before, _, g, _, rfl, rfl, hfront, hrest⟩ := Regex.matches_all_append_iff.mp hm
  obtain ⟨_, _, _, _, rfl, rfl, hopen, hinside⟩ := Regex.matches_all_cons_iff.mp hrest
  obtain ⟨rfl, rfl⟩ := Text.matches_char_iff.mp hopen
  obtain ⟨values, _, _, _, rfl, rfl, hvalues, hend⟩ := Regex.matches_all_cons_iff.mp hinside
  obtain ⟨_, rfl, hmany⟩ := Regex.matches_group_iff.mp hvalues
  obtain ⟨-, rfl⟩ := Regex.matches_many_iff.mp hmany
  obtain ⟨_, after, _, _, rfl, rfl, hclose, hback⟩ := Regex.matches_all_cons_iff.mp hend
  obtain ⟨rfl, rfl⟩ := Text.matches_char_iff.mp hclose
  refine ⟨before, values, after, rfl, Regex.not_mem_of_avoids hfront (by decide +kernel),
    Regex.not_mem_of_avoids hback (by decide +kernel), ?_⟩
  -- the only group before it is the name of the table
  have hnone : g.lookup 2 = none := Regex.lookup_eq_none hfront (by decide +kernel)
  rw [Regex.Groups.get, List.lookup_append, hnone]
  rfl

/-! ### Where the values are -/

/-- Texts that are equal are equal up to the first place of a character. -/
theorem append_cons_inj {x y u v : Text} {a : Char} (hx : a ∉ x) (hy : a ∉ y)
    (h : x ++ a :: u = y ++ a :: v) : x = y ∧ u = v := by
  induction x generalizing y with
  | nil =>
    cases y with
    | nil => exact ⟨rfl, (List.cons.inj h).2⟩
    | cons c y => exact absurd (List.mem_cons.mpr (.inl (List.cons.inj h).1)) hy
  | cons b x ih =>
    rw [List.mem_cons, not_or] at hx
    cases y with
    | nil => exact absurd (List.cons.inj h).1.symm hx.1
    | cons c y =>
      rw [List.mem_cons, not_or] at hy
      obtain ⟨hbc, htail⟩ := List.cons.inj h
      obtain ⟨rfl, rfl⟩ := ih hx.2 hy.2 htail
      exact ⟨by rw [hbc], rfl⟩

/-- And from the last place on. -/
theorem append_cons_inj_right {x y u v : Text} {a : Char} (hu : a ∉ u) (hv : a ∉ v)
    (h : x ++ a :: u = y ++ a :: v) : x = y ∧ u = v := by
  have hreverse := congrArg List.reverse h
  simp only [List.reverse_append, List.reverse_cons, List.append_assoc,
    List.singleton_append] at hreverse
  obtain ⟨huv, hxy⟩ := append_cons_inj (fun hmem => hu (List.mem_reverse.mp hmem))
    (fun hmem => hv (List.mem_reverse.mp hmem)) hreverse
  exact ⟨List.reverse_inj.mp hxy, List.reverse_inj.mp huv⟩

/-- The first value of a statement that the grammar and the pattern take: its text with layout
around it is in front of the first comma after it. -/
theorem values_eq {sql : Text} {statement : InsertStatement} {groups : Regex.Groups Char}
    (hparse : parseInsert sql = some statement)
    (hmatch : INSERT_VALUES.matchAll sql = some groups) :
    ∃ layout t between further, groups.get 2 = some (layout ++ (t.text ++ (between ++ further))) ∧
      (∀ c ∈ layout, MiniSql.Lexer.isLayout c = true) ∧
      (∀ c ∈ between, MiniSql.Lexer.isLayout c = true) ∧
      columnValue t = some statement.first ∧ t.WellFormed ∧
      (further = [] ∨ ∃ further', further = ',' :: further') := by
  obtain ⟨before, layout, t, between, further, after, hsql, hbefore, hlayout, hvalue, hwf,
    hbetween, hfurther, hafter⟩ := insert_spec hparse
  obtain ⟨before', values, after', hsql', hbefore', hafter', hgroup⟩ := insertValues_spec hmatch
  obtain ⟨-, hvalues⟩ := append_cons_inj hbefore' hbefore (hsql'.symm.trans hsql)
  have hassoc : layout ++ (t.text ++ (between ++ (further ++ ')' :: after))) =
      (layout ++ (t.text ++ (between ++ further))) ++ ')' :: after := by
    simp only [List.append_assoc]
  rw [hassoc] at hvalues
  obtain ⟨rfl, -⟩ := append_cons_inj_right hafter' hafter hvalues
  exact ⟨layout, t, between, further, hgroup, hlayout, hbetween, hvalue, hwf, hfurther⟩

/-! ### The quotes -/

/-- A quote at the end is dropped. -/
theorem dropLastQuote_concat (s : Text) {c : Char} (hc : isQuote c = true) :
    dropLastQuote (s ++ [c]) = s := by
  unfold dropLastQuote
  rw [List.reverse_append, List.reverse_singleton, List.singleton_append]
  cases hs : s.reverse with
  | nil =>
    rw [List.reverse_eq_nil_iff.mp hs]
    simp only [hc, if_true]
  | cons d rest =>
    simp only [hc, if_true]
    rw [← hs, List.reverse_reverse]

/-- Without quotes nothing is. -/
theorem dropLastQuote_of_no_quote {s : Text} (h : ∀ c ∈ s, isQuote c = false) :
    dropLastQuote s = s := by
  unfold dropLastQuote
  split
  · next hs => exact (List.reverse_eq_nil_iff.mp hs).symm
  · next c hs =>
    have hc := h c (List.mem_reverse.mp (by rw [hs]; exact List.mem_cons_self))
    rw [← List.reverse_reverse s, hs]
    simp only [hc, Bool.false_eq_true, if_false]
    rfl
  · next c d rest hs =>
    have hc := h c (List.mem_reverse.mp (by rw [hs]; exact List.mem_cons_self))
    have hd := h d (List.mem_reverse.mp
      (by rw [hs]; exact List.mem_cons_of_mem _ List.mem_cons_self))
    simp only [hc, hd, Bool.false_eq_true, if_false, and_false]

/-- Dropping makes no text longer. -/
theorem length_dropLastQuote_le (s : Text) : (dropLastQuote s).length ≤ s.length := by
  have hlen : s.reverse.length = s.length := List.length_reverse
  unfold dropLastQuote
  split
  · exact Nat.zero_le _
  · next c hs =>
    rw [hs] at hlen
    split
    · exact Nat.zero_le _
    · exact Nat.le_of_eq hlen
  · next c d rest hs =>
    rw [hs, List.length_cons, List.length_cons] at hlen
    split
    · rw [List.length_reverse, List.length_cons]
      omega
    · split
      · rw [List.length_reverse, List.length_cons]
        omega
      · exact Nat.le_refl _

/-! ### The key -/

theorem isTrimmed_of_isLayout {c : Char} (h : MiniSql.Lexer.isLayout c = true) :
    isTrimmed c = true := by
  simp only [MiniSql.Lexer.isLayout, Bool.or_eq_true, beq_iff_eq] at h
  rcases h with (((rfl | rfl) | rfl) | rfl) | rfl <;> rfl

/-- A value that is not `null` is its text without the quotes of a string. -/
theorem text_of_columnValue {t : Token} {first : Literal} {value : Text}
    (h : columnValue t = some first) (hvalue : first.value = some value) (hwf : t.WellFormed) :
    t.text = '"' :: value ++ ['"'] ∨
      t.text = value ∧ value ≠ [] ∧ ∀ c ∈ value, c.isDigit = true ∨ c = '-' ∨ c = '.' := by
  unfold columnValue at h
  split at h
  · next content =>
    obtain rfl := Option.some.inj h
    obtain rfl := Option.some.inj hvalue
    exact .inl rfl
  · next text =>
    obtain rfl := Option.some.inj h
    obtain rfl := Option.some.inj hvalue
    exact .inr ⟨rfl, hwf⟩
  · split at h
    · obtain rfl := Option.some.inj h
      cases hvalue
    · cases h

/-- A character of a number. -/
theorem numeral_spec {c : Char} (h : c.isDigit = true ∨ c = '-' ∨ c = '.') :
    isTrimmed c = false ∧ isQuote c = false ∧ c ≠ ',' := by
  rcases h with h | rfl | rfl
  · simp only [Char.isDigit, Bool.and_eq_true, decide_eq_true_eq, ge_iff_le] at h
    have h₁ : 48 ≤ c.toNat := h.1
    have h₂ : c.toNat ≤ 57 := h.2
    refine ⟨?_, ?_, ?_⟩
    · simp only [isTrimmed, decide_eq_false_iff_not]
      omega
    · simp only [isQuote, Bool.or_eq_false_iff, beq_eq_false_iff_ne]
      refine ⟨?_, ?_⟩ <;> rintro rfl <;> exact absurd h₁ (by decide)
    · rintro rfl
      exact absurd h₁ (by decide)
  · decide
  · decide

/-- Without a comma in the first value, the text up to the first comma is this value with the layout
around it. -/
theorem takeWhile_of_not_mem {layout text between further : Text} (hlayout : ',' ∉ layout)
    (htext : ',' ∉ text) (hbetween : ',' ∉ between)
    (hfurther : further = [] ∨ ∃ further', further = ',' :: further') :
    (layout ++ (text ++ (between ++ further))).takeWhile (fun c => c != ',') =
      layout ++ (text ++ between) := by
  have hall : ∀ c ∈ layout ++ (text ++ between), (c != ',') = true := by
    intro c hc
    rw [bne_iff_ne]
    rintro rfl
    simp only [List.mem_append] at hc
    tauto
  have hassoc : layout ++ (text ++ (between ++ further)) =
      (layout ++ (text ++ between)) ++ further := by
    simp only [List.append_assoc]
  rw [hassoc, List.takeWhile_append_of_pos hall]
  rcases hfurther with rfl | ⟨further', rfl⟩
  · rw [List.takeWhile_nil, List.append_nil]
  · rw [List.takeWhile_cons_of_neg (by decide), List.append_nil]

/-- The quotes of a string, and no character of a number, are taken off. -/
theorem unquote_text {text value : Text} (h : text = '"' :: value ++ ['"'] ∨
    text = value ∧ value ≠ [] ∧ ∀ c ∈ value, c.isDigit = true ∨ c = '-' ∨ c = '.') :
    trim text = text ∧ dropLastQuote (dropFirstQuote text) = value := by
  rcases h with rfl | ⟨rfl, hne, hnumeral⟩
  · refine ⟨trim_of_ends ?_ ?_, ?_⟩
    · intro c hc
      obtain rfl := Option.some.inj hc
      rfl
    · intro c hc
      rw [List.getLast?_concat] at hc
      obtain rfl := Option.some.inj hc
      rfl
    · show dropLastQuote (value ++ ['"']) = value
      exact dropLastQuote_concat value rfl
  · refine ⟨trim_of_ends ?_ ?_, ?_⟩
    · exact fun c hc => (numeral_spec (hnumeral c (List.mem_of_mem_head? hc))).1
    · exact fun c hc => (numeral_spec (hnumeral c (List.mem_of_getLast? hc))).1
    · have hfirst : dropFirstQuote text = text := by
        cases text with
        | nil => rfl
        | cons c s =>
          have hc := (numeral_spec (hnumeral c List.mem_cons_self)).2.1
          simp only [dropFirstQuote, hc, Bool.false_eq_true, if_false]
      rw [hfirst]
      exact dropLastQuote_of_no_quote fun c hc => (numeral_spec (hnumeral c hc)).2.1

/-- A string that is cut at its first comma gives a shorter key. -/
theorem length_cut_lt {layout value between further : Text}
    (hlayout : ∀ c ∈ layout, isTrimmed c = true) (hcomma : ',' ∉ layout) (hvalue : ',' ∈ value) :
    (dropLastQuote (dropFirstQuote (trim ((layout ++ (('"' :: value ++ ['"']) ++
      (between ++ further))).takeWhile fun c => c != ',')))).length < value.length := by
  obtain ⟨a, b, rfl, ha⟩ := List.eq_append_cons_of_mem hvalue
  have htext : ',' ∉ '"' :: a := by
    rw [List.mem_cons, not_or]
    exact ⟨by decide, ha⟩
  have hrest : ∃ rest, ',' :: (b ++ (['"'] ++ (between ++ further))) = ',' :: rest := ⟨_, rfl⟩
  have hcut := takeWhile_of_not_mem hcomma htext List.not_mem_nil (.inr hrest)
  have hassoc : layout ++ ('"' :: (a ++ ',' :: b) ++ ['"'] ++ (between ++ further)) =
      layout ++ ('"' :: a ++ ([] ++ ',' :: (b ++ (['"'] ++ (between ++ further))))) := by
    simp only [List.append_assoc, List.cons_append, List.nil_append]
  rw [hassoc, hcut, List.append_nil, trim, List.dropWhile_append_of_pos hlayout,
    List.dropWhile_cons_of_neg (by decide)]
  refine Nat.lt_of_le_of_lt (length_dropLastQuote_le _) ?_
  -- the quote in front is taken off, and the rest is no longer than what is before the comma
  have hprefix := List.rdropWhile_prefix isTrimmed ('"' :: a)
  rw [List.length_append, List.length_cons]
  cases htrim : ('"' :: a).rdropWhile isTrimmed with
  | nil =>
    show 0 < _
    omega
  | cons c rest =>
    rw [htrim, List.cons_prefix_cons] at hprefix
    obtain ⟨rfl, hrest⟩ := hprefix
    have hlen := hrest.length_le
    show rest.length < _
    omega

/-- The key is the value of the first literal exactly if there is no comma in it. -/
theorem inferShardKey_eq_iff {sql : Text} {statement : InsertStatement} {value : Text}
    (hparse : parseInsert sql = some statement) (hmatch : (INSERT_VALUES.matchAll sql).isSome)
    (hvalue : statement.first.value = some value) :
    inferShardKey sql = some value ↔ ',' ∉ value := by
  obtain ⟨groups, hgroups⟩ := Option.isSome_iff_exists.mp hmatch
  obtain ⟨layout, t, between, further, hgroup, hlayout, hbetween, hfirst, hwf, hfurther⟩ :=
    values_eq hparse hgroups
  have hcommas {s : Text} (h : ∀ c ∈ s, MiniSql.Lexer.isLayout c = true) : ',' ∉ s :=
    MiniSql.Grammar.not_mem_of_layout h rfl
  have htext := text_of_columnValue hfirst hvalue hwf
  have hkey : inferShardKey sql = some (dropLastQuote (dropFirstQuote (trim
      ((layout ++ (t.text ++ (between ++ further))).takeWhile fun c => c != ',')))) := by
    unfold inferShardKey
    rw [hgroups]
    dsimp only
    rw [hgroup, Option.getD_some]
  rw [hkey, Option.some.injEq]
  constructor
  · intro heq hmem
    rcases htext with htext | ⟨-, -, hnumeral⟩
    · rw [htext] at heq
      have hlt := congrArg List.length heq
      exact absurd hlt (Nat.ne_of_lt (length_cut_lt
        (fun c hc => isTrimmed_of_isLayout (hlayout c hc)) (hcommas hlayout) hmem))
    · exact absurd rfl (numeral_spec (hnumeral _ hmem)).2.2
  · intro hmem
    obtain ⟨htrim, hunquote⟩ := unquote_text htext
    have hcomma : ',' ∉ t.text := by
      rcases htext with htext | ⟨htext, -⟩
      · rw [htext]
        simp only [List.mem_append, List.mem_cons, not_or]
        exact ⟨⟨by decide, hmem⟩, by decide, List.not_mem_nil⟩
      · rw [htext]
        exact hmem
    rw [takeWhile_of_not_mem (hcommas hlayout) hcomma (hcommas hbetween) hfurther,
      trim_between (fun c hc => isTrimmed_of_isLayout (hlayout c hc))
        (fun c hc => isTrimmed_of_isLayout (hbetween c hc)) htrim, hunquote]

/-- A key that is the inferred one as well leads to the same shard, or to the same error. -/
theorem shardOfWrite_eq {sha256 : Text → Vector (BitVec 8) 32} {shardCount : Int} {sql key : Text}
    (h : inferShardKey sql = some key) :
    shardOfWrite sha256 shardCount sql (some key) = shardOfWrite sha256 shardCount sql none := by
  have hnone : explicitKey none = none := rfl
  unfold shardOfWrite
  rw [hnone, h]
  cases hkey : explicitKey (some key) with
  | none => rfl
  | some k =>
    obtain ⟨hk, -⟩ := Option.filter_eq_some_iff.mp hkey
    rw [Option.some.inj hk]

end SqlUtils

open SqlUtils (INSERT_VALUES inferShardKey inferShardKey_eq_iff shardOfWrite_eq)

/-- Of an `insert` that the grammar and the pattern take, the inferred key is the value of the first
literal, and leads where the same key leads when it is passed explicitly: exactly if there is no
comma in the value. -/
theorem shard_key_iff {sql : Text} {statement : InsertStatement} {value : Text}
    (hparse : parseInsert sql = some statement) (hmatch : (INSERT_VALUES.matchAll sql).isSome)
    (hvalue : statement.first.value = some value) :
    (inferShardKey sql = some value ∧
        ∀ (sha256 : Text → Vector (BitVec 8) 32) (shardCount : Int),
          shardOfWrite sha256 shardCount sql none =
            shardOfWrite sha256 shardCount sql (some value)) ↔
      ',' ∉ value := by
  rw [← inferShardKey_eq_iff hparse hmatch hvalue]
  exact ⟨fun h => h.1, fun h => ⟨h, fun _ _ => (shardOfWrite_eq h).symm⟩⟩

/-- A string with quotes in it. -/
def quotedInsert : Text := "insert into t values ( \"'o\\\"x'\" , -1.5);".toList

/-- What is in the string. -/
def quotedValue : Text := "'o\\\"x'".toList

/-- The quotes inside of the string do no harm. -/
theorem shard_key_iff_quoted :
    (inferShardKey quotedInsert = some quotedValue ∧
        ∀ (sha256 : Text → Vector (BitVec 8) 32) (shardCount : Int),
          shardOfWrite sha256 shardCount quotedInsert none =
            shardOfWrite sha256 shardCount quotedInsert (some quotedValue)) ↔
      ',' ∉ quotedValue := by
  have hparse : parseInsert quotedInsert =
      some ⟨['t'], .string quotedValue, [.number "-1.5".toList]⟩ := by
    decide +kernel
  exact shard_key_iff hparse (by decide +kernel) rfl

/-- The value `a,b` gives the key `a`. -/
theorem not_shard_key :
    ¬ ∀ (sql : Text) (statement : InsertStatement) (value : Text),
      parseInsert sql = some statement → (INSERT_VALUES.matchAll sql).isSome →
        statement.first.value = some value → inferShardKey sql = some value := by
  intro h
  have hkey := h "insert into t values(\"a,b\", 1);".toList
    ⟨['t'], .string "a,b".toList, [.number ['1']]⟩ "a,b".toList (by decide +kernel)
    (by decide +kernel) rfl
  exact absurd hkey (by decide +kernel)

end DisMiniSql.Distributed
