import DisMiniSql.Distributed.Coordinator.QueryPostProcessor
import DisMiniSql.Proofs.Distributed.MergeUnion

/-!
# `DisMiniSql.Proofs.Distributed.OrderBy`: the order of the merged rows

Numbers are compared as numbers, and a number stands for the text `null` among the texts. So the
cells are ordered by their text and then, among the numbers, by their value, with one exception: the
text `null` itself is equal to every number. `orderBy_sorts_iff`: the comparison is a total preorder
on the cells of a column, and every order of the rows is sorted by it, exactly if the column does
not have that text beside two different numbers. Beside two different numbers the sort may throw:
`sortRows_isSome`.
-/

set_option autoImplicit false

namespace DisMiniSql.Distributed

namespace Text

theorem toNat_lt_or {c : Char} : c.toNat < 0xD800 ∨ 0xDFFF < c.toNat := by
  rcases c.valid with h | h
  · exact .inl h
  · exact .inr h.1

/-- The first unit tells the length of a character. -/
theorem units_append_inj {c d : Char} {s t : List Nat} (h : units c ++ s = units d ++ t) :
    c = d ∧ s = t := by
  have hc := toNat_lt_or (c := c)
  have hd := toNat_lt_or (c := d)
  have hc' : c.toNat < 0x110000 := by
    rcases c.valid with h | h
    · exact Nat.lt_trans h (by decide)
    · exact h.2
  have hd' : d.toNat < 0x110000 := by
    rcases d.valid with h | h
    · exact Nat.lt_trans h (by decide)
    · exact h.2
  unfold units at h
  split at h <;> split at h
  · obtain ⟨hval, hrest⟩ := List.cons.inj h
    exact ⟨Char.toNat_inj.mp hval, hrest⟩
  · obtain ⟨hval, -⟩ := List.cons.inj h
    omega
  · obtain ⟨hval, -⟩ := List.cons.inj h
    omega
  · obtain ⟨hhigh, h⟩ := List.cons.inj h
    obtain ⟨hlow, hrest⟩ := List.cons.inj h
    refine ⟨Char.toNat_inj.mp ?_, hrest⟩
    omega

/-- Different texts have different UTF-16 units, by induction along the text. -/
theorem utf16_inj {s t : Text} (h : s.utf16 = t.utf16) : s = t := by
  induction s generalizing t with
  | nil =>
    cases t with
    | nil => rfl
    | cons d t =>
      rw [utf16, utf16, List.flatMap_cons, units] at h
      split at h <;> cases h
  | cons c s ih =>
    cases t with
    | nil =>
      rw [utf16, utf16, List.flatMap_cons, units] at h
      split at h <;> cases h
    | cons d t =>
      obtain ⟨rfl, hrest⟩ := units_append_inj h
      rw [ih hrest]

instance : Std.LawfulEqCmp compareUnits where
  compare_self := by simp [compareUnits]
  eq_of_compare {a b} h := by
    unfold compareUnits at h
    split at h
    · cases h
    · split at h
      · assumption
      · cases h

instance : Std.TransCmp compareUnits where
  eq_swap {a b} := by
    rcases Nat.lt_trichotomy a b with h | rfl | h
    · simp [compareUnits, h, Nat.lt_asymm h, Nat.ne_of_gt h]
    · simp [compareUnits]
    · simp [compareUnits, h, Nat.lt_asymm h, Nat.ne_of_gt h]
  isLE_trans {a b c} hab hbc := by
    have hle {m n : Nat} : (compareUnits m n).isLE ↔ m ≤ n := by
      unfold compareUnits
      split
      · simp only [Ordering.isLE_lt, true_iff]
        omega
      · split
        · simp only [Ordering.isLE_eq, true_iff]
          omega
        · simp only [Ordering.isLE_gt, Bool.false_eq_true, false_iff]
          omega
    rw [hle] at hab hbc ⊢
    exact Nat.le_trans hab hbc

/-- `compareTo` is a linear order of the texts. -/
theorem compareTo_swap (s t : Text) : compareTo t s = (compareTo s t).swap := by
  show List.compareLex compareUnits t.utf16 s.utf16 = _
  exact Std.OrientedCmp.eq_swap

theorem compareTo_trans {s t u : Text} (h : (compareTo s t).isLE) (h' : (compareTo t u).isLE) :
    (compareTo s u).isLE := by
  show (List.compareLex compareUnits s.utf16 u.utf16).isLE
  exact Std.TransCmp.isLE_trans h h'

theorem compareTo_eq_iff {s t : Text} : compareTo s t = .eq ↔ s = t := by
  constructor
  · exact fun h => utf16_inj (Std.LawfulEqCmp.eq_of_compare h)
  · rintro rfl
    show List.compareLex compareUnits s.utf16 s.utf16 = .eq
    exact Std.ReflCmp.compare_self

end Text

namespace QueryPostProcessor

open Lib (Regex TotalPreorder)

variable {δ : Type} [LinearOrder δ] {fold : Char → Char} {doubles : DoubleOps δ}
  {lists : ListSort} {cells : List Text}

/-! ### The comparison of two cells -/

/-- `compareTo` of the values of two cells. -/
def compareCells (doubles : DoubleOps δ) (a b : Text) : Ordering :=
  (comparableValue doubles a).compareTo (comparableValue doubles b)

/-- The text `null` stands beside two different numbers. -/
def MixesNull (doubles : DoubleOps δ) (cells : List Text) : Prop :=
  ∃ a ∈ cells, ∃ b ∈ cells, ∃ c ∈ cells, ∃ m n : δ, m ≠ n ∧
    comparableValue doubles a = .number m ∧ comparableValue doubles b = .number n ∧
    comparableValue doubles c = .text "null".toList

namespace ComparableValue

theorem compareTo_number (m n : δ) :
    (ComparableValue.number m).compareTo (.number n) = compare m n := rfl

theorem compareTo_text_left (s : Text) (b : ComparableValue δ) :
    (ComparableValue.text s).compareTo b = Text.compareTo s b.textOf := by
  cases b <;> rfl

theorem compareTo_text_right (a : ComparableValue δ) (t : Text) :
    a.compareTo (.text t) = Text.compareTo a.textOf t := by
  cases a <;> rfl

omit [LinearOrder δ] in
theorem textOf_number (m : δ) : (ComparableValue.number m).textOf = "null".toList := rfl

omit [LinearOrder δ] in
theorem textOf_text (s : Text) : (ComparableValue.text s : ComparableValue δ).textOf = s := rfl

theorem compareTo_swap (a b : ComparableValue δ) : b.compareTo a = (a.compareTo b).swap := by
  cases a with
  | number m =>
    cases b with
    | number n => exact (Std.OrientedOrd.eq_swap (α := δ))
    | text t => rw [compareTo_text_left, compareTo_text_right, Text.compareTo_swap]
  | text s => rw [compareTo_text_left, compareTo_text_right, Text.compareTo_swap]

/-- Not all values are ordered: with a text `null` between them two numbers have to be the same. -/
theorem compareTo_trans {a b c : ComparableValue δ}
    (hnull : ∀ m n, a = .number m → c = .number n → b = .text "null".toList → m = n)
    (hab : (a.compareTo b).isLE) (hbc : (b.compareTo c).isLE) : (a.compareTo c).isLE := by
  cases b with
  | text t =>
    rw [compareTo_text_right] at hab
    rw [compareTo_text_left] at hbc
    cases a with
    | text s =>
      rw [compareTo_text_left]
      exact Text.compareTo_trans hab hbc
    | number m =>
      cases c with
      | text u =>
        rw [compareTo_text_right]
        exact Text.compareTo_trans hab hbc
      | number n =>
        -- the text lies between `null` and `null`
        rw [textOf_number] at hab hbc
        rw [Text.compareTo_swap] at hbc
        have heq : Text.compareTo "null".toList t = .eq := by
          cases h : Text.compareTo "null".toList t with
          | lt =>
            rw [h] at hbc
            cases hbc
          | eq => rfl
          | gt =>
            rw [h] at hab
            cases hab
        rw [hnull m n rfl rfl (by rw [Text.compareTo_eq_iff.mp heq])]
        show (compare n n).isLE
        exact Std.ReflCmp.isLE_rfl
  | number n =>
    cases a with
    | text s =>
      rw [compareTo_text_left] at hab ⊢
      cases c with
      | number k => exact hab
      | text u =>
        rw [compareTo_text_right] at hbc
        exact Text.compareTo_trans hab hbc
    | number m =>
      cases c with
      | number k => exact Std.TransOrd.isLE_trans hab hbc
      | text u =>
        rw [compareTo_text_right] at hbc ⊢
        exact hbc

/-- Values that compare equal compare alike with a third, unless a number met the text `null`. -/
theorem compareTo_congr {a b c : ComparableValue δ}
    (hnull : ∀ m n, (a = .number m ∧ b = .text "null".toList ∨
      b = .number m ∧ a = .text "null".toList) → c = .number n → m = n)
    (heq : a.compareTo b = .eq) : a.compareTo c = b.compareTo c := by
  -- a number and the text `null` before another value
  have hmixed {m : δ} (hm : ∀ n, c = .number n → m = n) :
      (ComparableValue.number m).compareTo c =
        (ComparableValue.text "null".toList).compareTo c := by
    rw [compareTo_text_left]
    -- the third value is a number or a text, then the other two
    cases c with
    | text u => rw [compareTo_text_right, textOf_number, textOf_text]
    | number n =>
      rw [hm n rfl, textOf_number, Text.compareTo_eq_iff.mpr rfl, compareTo_number]
      exact Std.ReflCmp.compare_self
  cases a with
  | number m =>
    cases b with
    | number k =>
      rw [compareTo_number] at heq
      rw [Std.LawfulEqOrd.eq_of_compare heq]
    | text t =>
      rw [compareTo_text_right, textOf_number] at heq
      rw [← Text.compareTo_eq_iff.mp heq] at hnull ⊢
      exact hmixed fun n hn => hnull m n (.inl ⟨rfl, rfl⟩) hn
  | text s =>
    rw [compareTo_text_left] at heq
    have hs := Text.compareTo_eq_iff.mp heq
    cases b with
    | number k =>
      rw [textOf_number] at hs
      rw [hs] at hnull ⊢
      exact (hmixed fun n hn => hnull k n (.inr ⟨rfl, rfl⟩) hn).symm
    | text t =>
      rw [textOf_text] at hs
      rw [hs]

end ComparableValue

/-! ### The cells of a column -/

/-- The comparison is a total preorder on the cells of a column exactly if the text `null` does not
stand beside two different numbers. -/
theorem totalPreorder_iff :
    TotalPreorder (compareCells doubles) cells ↔ ¬ MixesNull doubles cells := by
  constructor
  · rintro h ⟨a, ha, b, hb, c, hc, m, n, hne, hm, hn, hnull⟩
    have hca : compareCells doubles c a = .eq := by
      rw [compareCells, hnull, hm, ComparableValue.compareTo_text_left]
      exact Text.compareTo_eq_iff.mpr rfl
    have hcb : compareCells doubles c b = .eq := by
      rw [compareCells, hnull, hn, ComparableValue.compareTo_text_left]
      exact Text.compareTo_eq_iff.mpr rfl
    have hab := (h.congr c hc a ha b hb hca).symm.trans hcb
    rw [compareCells, hm, hn, ComparableValue.compareTo_number] at hab
    exact hne (Std.LawfulEqOrd.eq_of_compare hab)
  · intro h
    -- two numbers beside the text are the same
    have hsame {a b c : Text} (ha : a ∈ cells) (hb : b ∈ cells) (hc : c ∈ cells) {m n : δ}
        (hm : comparableValue doubles a = .number m) (hn : comparableValue doubles b = .number n)
        (hnull : comparableValue doubles c = .text "null".toList) : m = n := by
      by_contra hne
      exact h ⟨a, ha, b, hb, c, hc, m, n, hne, hm, hn, hnull⟩
    refine ⟨fun a _ b _ => ComparableValue.compareTo_swap _ _, fun a ha b hb c hc => ?_,
      fun a ha b hb c hc => ?_⟩
    · exact ComparableValue.compareTo_trans fun m n hm hn hnull => hsame ha hc hb hm hn hnull
    · refine ComparableValue.compareTo_congr fun m n hmixed hn => ?_
      rcases hmixed with ⟨hm, hnull⟩ | ⟨hm, hnull⟩
      · exact hsame ha hc hb hm hn hnull
      · exact hsame hb hc ha hm hn hnull

/-! ### The sort -/

/-- Rows that are ordered by a column. -/
def Ordered (doubles : DoubleOps δ) (desc : Bool) (index : Nat) (rows : List (List Text)) : Prop :=
  rows.Pairwise fun a b =>
    if desc then (compareRows doubles index b a).isLE else (compareRows doubles index a b).isLE

/-- The rows are the same before and after the sort. -/
theorem sortRows_perm {desc : Bool} {index : Nat} {rows sorted : List (List Text)}
    (h : sortRows doubles lists desc index rows = some sorted) : sorted.Perm rows :=
  lists.perm h

/-- The comparison of rows is an order if that of the cells of the column is one. -/
theorem TotalPreorder.rows {index : Nat} {rows : List (List Text)}
    (h : TotalPreorder (compareCells doubles) (rows.map (cell · index))) :
    TotalPreorder (compareRows doubles index) rows where
  swap a ha b hb :=
    h.swap (cell a index) (List.mem_map_of_mem ha) (cell b index) (List.mem_map_of_mem hb)
  trans a ha b hb c hc :=
    h.trans (cell a index) (List.mem_map_of_mem ha) (cell b index) (List.mem_map_of_mem hb)
      (cell c index) (List.mem_map_of_mem hc)
  congr a ha b hb c hc :=
    h.congr (cell a index) (List.mem_map_of_mem ha) (cell b index) (List.mem_map_of_mem hb)
      (cell c index) (List.mem_map_of_mem hc)

/-- Where the comparison is an order the sort does not throw, and the rows are in order then, in
either direction. -/
theorem exists_sortRows (lists : ListSort) (desc : Bool) {index : Nat} {rows : List (List Text)}
    (h : TotalPreorder (compareRows doubles index) rows) :
    ∃ sorted, sortRows doubles lists desc index rows = some sorted ∧
      Ordered doubles desc index sorted := by
  unfold sortRows
  cases desc with
  | true => exact ⟨_, lists.stable h.reverse, h.reverse.pairwise_mergeSort⟩
  | false => exact ⟨_, lists.stable h, h.pairwise_mergeSort⟩

/-- The sort does not throw where the text `null` does not stand beside two different numbers, and
what it returns is in order. -/
theorem sortRows_isSome (lists : ListSort) (desc : Bool) {index : Nat} {rows : List (List Text)}
    (h : ¬ MixesNull doubles (rows.map (cell · index))) :
    ∃ sorted, sortRows doubles lists desc index rows = some sorted ∧
      Ordered doubles desc index sorted :=
  exists_sortRows lists desc (TotalPreorder.rows (totalPreorder_iff.mpr h))

/-- `order by` sorts by a column: the comparison is a total preorder on its cells, and whatever the
order of the rows was, they are put in order, in the direction that the statement asks for. -/
def SortsBy (fold : Char → Char) (doubles : DoubleOps δ) (lists : ListSort) (table : QueryTable)
    (index : Nat) : Prop :=
  TotalPreorder (compareCells doubles) (table.rows.map (cell · index)) ∧
  ∀ (sql : Text) (groups : Regex.Groups Char) (rows : List (List Text)), rows.Perm table.rows →
    ORDER_BY.matchAll sql = some groups →
    columnIndex fold table.columns (group groups 2) = some index →
    ∃ sorted, applyOrderBy fold doubles lists sql { table with rows := rows } =
        some { table with rows := sorted } ∧
      sorted.Perm rows ∧ Ordered doubles (isDesc fold groups) index sorted

/-- `order by` sorts by a column exactly if the column does not have the text `null` beside two
different numbers. -/
theorem orderBy_sorts_iff (lists : ListSort) (table : QueryTable) (index : Nat) :
    SortsBy fold doubles lists table index ↔
      ¬ MixesNull doubles (table.rows.map (cell · index)) := by
  refine ⟨fun h => totalPreorder_iff.mp h.1, fun h => ?_⟩
  have htotal := totalPreorder_iff.mpr h
  refine ⟨htotal, fun sql groups rows hperm hsql hindex => ?_⟩
  obtain ⟨sorted, hsorted, hordered⟩ :=
    exists_sortRows lists (isDesc fold groups)
      ((TotalPreorder.rows htotal).subset fun row hrow => hperm.subset hrow)
  refine ⟨sorted, ?_, sortRows_perm hsorted, hordered⟩
  rw [applyOrderBy, hsql]
  dsimp only
  rw [hindex]
  dsimp only
  rw [hsorted]
  rfl

/-- Numbers with one digit. -/
def digits : DoubleOps Nat where
  parse value :=
    match value with
    | [c] => if c.isDigit then some (c.toNat - 48) else none
    | _ => none
  sum := List.foldl (· + ·) 0
  min := List.foldl min
  max := List.foldl max
  trimDouble n := n.repr.toList

/-- The word `null` is equal to 1 and to 2, and 1 is less than 2. -/
theorem not_orderBy_sorts :
    ¬ ∀ (table : QueryTable) (index : Nat), table.Parsed → index < table.columns.length →
      SortsBy Char.toLower digits .neverThrows table index := by
  intro h
  obtain ⟨hcongr, -⟩ := h
    { columns := [['v']], rows := [[['1']], [['2']], ["null".toList]] } 0
    ⟨by decide, by decide⟩ (by decide)
  have heq := hcongr.congr ['1'] (by decide) "null".toList (by decide) ['2'] (by decide)
    (by decide +kernel)
  exact absurd heq (by decide +kernel)

end QueryPostProcessor

end DisMiniSql.Distributed
