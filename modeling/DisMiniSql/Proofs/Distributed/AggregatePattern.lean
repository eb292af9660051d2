import DisMiniSql.Distributed.Coordinator.QueryPostProcessor
import DisMiniSql.Proofs.Distributed.ResultParser

/-!
# `DisMiniSql.Proofs.Distributed.AggregatePattern`: the aggregates that `AGGREGATE` takes

An expression is one of the four functions, whatever the case of its letters and the blanks in it
(`expression_of_matchAll`), and the group of its column is the one that `aggregate` reads. The
expression is the name of the only column of the answer, and a plain one (`plain_expression`).
-/

set_option autoImplicit false

namespace DisMiniSql.Distributed

open Lib (Regex)
open Lib.Regex (Matches)
open MiniSqlResultParser (Plain)

namespace Text

/-! ### Characters -/

/-- Lower case keeps blanks blank and others not. -/
theorem isSpace_toLower (c : Char) : isSpace c.toLower = isSpace c := by
  rcases toLower_cases c with ⟨h₁, h₂, h⟩ | h
  · have hc : isSpace c = false := by
      simp only [isSpace, Bool.or_eq_false_iff, Bool.and_eq_false_iff, decide_eq_false_iff_not,
        beq_eq_false_iff_ne]
      refine ⟨?_, by omega⟩
      rintro rfl
      exact absurd h₁ (by decide)
    have hl : isSpace c.toLower = false := by
      simp only [isSpace, Bool.or_eq_false_iff, Bool.and_eq_false_iff, decide_eq_false_iff_not,
        beq_eq_false_iff_ne, h]
      refine ⟨fun heq => ?_, by omega⟩
      rw [heq] at h
      have : (' ').toNat = 32 := rfl
      omega
    rw [hc, hl]
  · rw [h]

/-- And letters and digits what they are. -/
theorem isAlphanum_toLower {c : Char} (h : c.isAlphanum = true) : c.toLower.isAlphanum = true := by
  rcases toLower_cases c with ⟨h₁, h₂, heq⟩ | heq
  · rw [isAlphanum_iff, heq]
    omega
  · rwa [heq]

/-- A character of an expression. -/
def NameLike (c : Char) : Prop := c.isAlphanum = true ∨ c ∈ ['_', '.', '(', ')', '*']

/-- The characters of a name lie between the blank and the brace. -/
theorem NameLike.toNat {c : Char} (h : NameLike c) : 32 < c.toNat ∧ c.toNat < 123 := by
  rcases h with h | h
  · rw [isAlphanum_iff] at h
    omega
  · simp only [List.mem_cons, List.not_mem_nil, or_false] at h
    rcases h with rfl | rfl | rfl | rfl | rfl <;> decide

end Text

namespace QueryPostProcessor

variable {sql : Text} {groups : Regex.Groups Char}

/-- `expression` of a text: without blanks, and with letters in lower case. -/
def stripped (s : Text) : Text := (s.filter fun c => !Text.isSpace c).map Char.toLower

/-- Taking the blanks out of two texts. -/
theorem stripped_append (s t : Text) : stripped (s ++ t) = stripped s ++ stripped t := by
  rw [stripped, List.filter_append, List.map_append]
  rfl

/-- Out of blanks nothing is left. -/
theorem stripped_spaces {s : Text} (h : ∀ c ∈ s, Text.isSpace c = true) : stripped s = [] := by
  rw [stripped, List.map_eq_nil_iff, List.filter_eq_nil_iff]
  intro c hc
  rw [h c hc]
  exact Bool.false_ne_true

/-- Out of a word the word is left, in lower case. -/
theorem stripped_word {s w : Text} (h : s.map Char.toLower = w)
    (hw : ∀ c ∈ w, Text.isSpace c = false) : stripped s = w := by
  have hall : s.filter (fun c => !Text.isSpace c) = s := by
    rw [List.filter_eq_self]
    intro c hc
    rw [Bool.not_eq_true', ← Text.isSpace_toLower]
    exact hw _ (h ▸ List.mem_map_of_mem hc)
  rw [stripped, hall, h]

/-- The characters of the name in a pattern, in lower case. -/
theorem nameLike_of_isName {c : Char} (h : isName c = true) : Text.NameLike c.toLower := by
  simp only [isName, Text.isWord, Bool.or_eq_true, beq_iff_eq] at h
  rcases h with (h | rfl) | rfl
  · exact .inl (Text.isAlphanum_toLower h)
  · exact .inr (by decide)
  · exact .inr (by decide)

/-- Blanks, and characters of an expression up to the case of their letters. -/
def ExpressionText (s : Text) : Prop :=
  ∀ c ∈ s, Text.isSpace c = true ∨ Text.NameLike c.toLower

/-- A word of letters is a text of an expression. -/
theorem expressionText_word {s w : Text} (h : s.map Char.toLower = w)
    (hw : ∀ c ∈ w, c.isAlphanum = true) : ExpressionText s :=
  fun _ hc => .inr (.inl (hw _ (h ▸ List.mem_map_of_mem hc)))

/-- A letter or digit is no blank. -/
theorem isSpace_of_isAlphanum {c : Char} (h : c.isAlphanum = true) : Text.isSpace c = false := by
  rw [Text.isAlphanum_iff] at h
  simp only [Text.isSpace, Bool.or_eq_false_iff, Bool.and_eq_false_iff, decide_eq_false_iff_not,
    beq_eq_false_iff_ne]
  refine ⟨?_, by omega⟩
  rintro rfl
  have : (' ').toNat = 32 := rfl
  omega

/-- Two such texts. -/
theorem expressionText_append {s t : Text} (hs : ExpressionText s) (ht : ExpressionText t) :
    ExpressionText (s ++ t) := List.forall_mem_append.mpr ⟨hs, ht⟩

/-- The brackets and the star. -/
theorem expressionText_singleton {c : Char} (h : c ∈ ['(', ')', '*']) : ExpressionText [c] := by
  refine List.forall_mem_singleton.mpr (.inr (.inr ?_))
  simp only [List.mem_cons, List.not_mem_nil, or_false] at h
  rcases h with rfl | rfl | rfl <;> decide

/-- A function and its column. -/
theorem function_spec {name : String} {n : Nat} {s : Text} {g : Regex.Groups Char}
    (h : Matches (function name n) s g) (hname : ∀ c ∈ name.toList, c.isAlphanum = true) :
    ∃ column rest, g = [(n, column)] ∧ stripped s = name.toList ++ '(' :: rest ∧
      ExpressionText s := by
  unfold function at h
  simp only [Regex.matches_all_cons_iff, Regex.matches_all_nil_iff, Text.matches_word_iff,
    Text.matches_spaces_iff, Text.matches_char_iff, Regex.matches_group_iff,
    Regex.matches_plus_iff] at h
  obtain ⟨w, s₁, _, g₁, rfl, rfl, ⟨hw, rfl⟩, blanks, s₂, _, g₂, rfl, rfl, ⟨hblanks, rfl⟩,
    _, s₃, _, g₃, rfl, rfl, ⟨rfl, rfl⟩, before, s₄, _, g₄, rfl, rfl, ⟨hbefore, rfl⟩,
    column, s₅, _, g₅, rfl, rfl, ⟨_, rfl, _, hcolumn, rfl⟩, after, s₆, _, g₆, rfl, rfl,
    ⟨hafter, rfl⟩, _, _, _, _, rfl, rfl, ⟨rfl, rfl⟩, rfl, rfl⟩ := h
  refine ⟨column, stripped (before ++ (column ++ (after ++ [')']))), rfl, ?_, ?_⟩
  · rw [stripped_append, stripped_append, stripped_append,
      stripped_word hw fun c hc => isSpace_of_isAlphanum (hname c hc), stripped_spaces hblanks,
      List.nil_append]
    rfl
  · refine expressionText_append (expressionText_word hw hname) ?_
    refine expressionText_append (fun c hc => .inl (hblanks c hc)) ?_
    refine expressionText_append (expressionText_singleton (by decide)) ?_
    refine expressionText_append (fun c hc => .inl (hbefore c hc)) ?_
    refine expressionText_append (fun c hc => .inr (nameLike_of_isName (hcolumn c hc))) ?_
    refine expressionText_append (fun c hc => .inl (hafter c hc)) ?_
    exact expressionText_singleton (by decide)

/-- The four functions. -/
inductive Aggregate
  | count
  | sum (column : Text)
  | min (column : Text)
  | max (column : Text)
  deriving DecidableEq, Repr

/-- The name of a function, up to the bracket. -/
def Aggregate.name : Aggregate → Text
  | count => "count(".toList
  | sum _ => "sum(".toList
  | min _ => "min(".toList
  | max _ => "max(".toList

/-- The group of the column. -/
def Aggregate.columnGroup : Aggregate → Regex.Groups Char
  | count => []
  | sum column => [(2, column)]
  | min column => [(3, column)]
  | max column => [(4, column)]

/-- The expression of `count`. -/
theorem count_spec {s : Text} {g : Regex.Groups Char}
    (h : Matches countAll s g) :
    g = [] ∧ stripped s = "count(".toList ++ "*)".toList ∧ ExpressionText s := by
  have hname : ∀ c ∈ "count".toList, c.isAlphanum = true := by decide
  unfold countAll at h
  simp only [Regex.matches_all_cons_iff, Regex.matches_all_nil_iff, Text.matches_word_iff,
    Text.matches_spaces_iff, Text.matches_char_iff] at h
  obtain ⟨w, s₁, _, g₁, rfl, rfl, ⟨hw, rfl⟩, blanks, s₂, _, g₂, rfl, rfl, ⟨hblanks, rfl⟩,
    _, s₃, _, g₃, rfl, rfl, ⟨rfl, rfl⟩, before, s₄, _, g₄, rfl, rfl, ⟨hbefore, rfl⟩,
    _, s₅, _, g₅, rfl, rfl, ⟨rfl, rfl⟩, after, s₆, _, g₆, rfl, rfl,
    ⟨hafter, rfl⟩, _, _, _, _, rfl, rfl, ⟨rfl, rfl⟩, rfl, rfl⟩ := h
  refine ⟨rfl, ?_, ?_⟩
  · simp only [stripped_append, stripped_spaces hblanks, stripped_spaces hbefore,
      stripped_spaces hafter, stripped_word hw fun c hc => isSpace_of_isAlphanum (hname c hc)]
    rfl
  · refine expressionText_append (expressionText_word hw hname) ?_
    refine expressionText_append (fun c hc => .inl (hblanks c hc)) ?_
    refine expressionText_append (expressionText_singleton (by decide)) ?_
    refine expressionText_append (fun c hc => .inl (hbefore c hc)) ?_
    refine expressionText_append (expressionText_singleton (by decide)) ?_
    refine expressionText_append (fun c hc => .inl (hafter c hc)) ?_
    exact expressionText_singleton (by decide)

/-- What an aggregate statement is: the function with its column, and the table. -/
theorem aggregate_spec (h : AGGREGATE.matchAll sql = some groups) :
    ∃ (a : Aggregate) (text table rest : Text),
      groups = (1, text) :: a.columnGroup ++ [(5, table)] ∧ stripped text = a.name ++ rest ∧
        ExpressionText text := by
  have h := Regex.matches_of_matchAll h
  unfold AGGREGATE at h
  simp only [Regex.matches_all_cons_iff, Regex.matches_all_nil_iff, Text.matches_word_iff,
    Text.matches_spaces_iff, Text.matches_spaces1_iff, Regex.matches_group_iff,
    Regex.matches_many_iff, Regex.matches_plus_iff, Regex.matches_alt_iff] at h
  obtain ⟨_, _, _, _, rfl, rfl, ⟨_, rfl⟩, _, _, _, _, rfl, rfl, ⟨_, rfl⟩, _, _, _, _, rfl, rfl,
    ⟨_, _, rfl⟩, text, _, _, _, rfl, rfl, ⟨g, rfl, hfunction⟩, _, _, _, _, rfl, rfl, ⟨_, _, rfl⟩,
    _, _, _, _, rfl, rfl, ⟨_, rfl⟩, _, _, _, _, rfl, rfl, ⟨_, _, rfl⟩, table, _, _, _, rfl, rfl,
    ⟨_, rfl, _, _, rfl⟩, _, _, _, _, rfl, rfl, ⟨_, rfl⟩, rfl, rfl⟩ := h
  rcases hfunction with h | h | h | h
  · obtain ⟨rfl, hstripped, htext⟩ := count_spec h
    exact ⟨.count, text, table, _, rfl, hstripped, htext⟩
  · obtain ⟨column, rest, rfl, hstripped, htext⟩ := function_spec h (by decide)
    exact ⟨.sum column, text, table, rest, rfl, hstripped, htext⟩
  · obtain ⟨column, rest, rfl, hstripped, htext⟩ := function_spec h (by decide)
    exact ⟨.min column, text, table, rest, rfl, hstripped, htext⟩
  · obtain ⟨column, rest, rfl, hstripped, htext⟩ := function_spec h (by decide)
    exact ⟨.max column, text, table, rest, rfl, hstripped, htext⟩

/-- The expression can stand in a printed table. -/
theorem plain_stripped {s : Text} (h : ExpressionText s) : Plain (stripped s) := by
  have hall : ∀ c ∈ stripped s, 32 < c.toNat ∧ c.toNat < 123 := by
    intro c hc
    obtain ⟨d, hd, rfl⟩ := List.mem_map.mp hc
    obtain ⟨hd, hspace⟩ := List.mem_filter.mp hd
    rw [Bool.not_eq_true'] at hspace
    refine ((h d hd).resolve_left ?_).toNat
    rw [hspace]
    exact Bool.false_ne_true
  have htrimmed : ∀ c ∈ stripped s, SqlUtils.isTrimmed c = false := by
    intro c hc
    rw [SqlUtils.isTrimmed, decide_eq_false_iff_not, Nat.not_le]
    exact (hall c hc).1
  refine ⟨SqlUtils.trim_of_ends ?_ ?_, fun hbar => ?_, fun c hc => ?_⟩
  · exact fun c hc => htrimmed c (List.mem_of_mem_head? hc)
  · exact fun c hc => htrimmed c (List.mem_of_getLast? hc)
  · exact absurd (hall '|' hbar).2 (by decide)
  · have := hall c hc
    simp only [Text.isLineBreak, Bool.or_eq_false_iff, Bool.and_eq_false_iff,
      decide_eq_false_iff_not, beq_eq_false_iff_ne]
    omega

end QueryPostProcessor

end DisMiniSql.Distributed
