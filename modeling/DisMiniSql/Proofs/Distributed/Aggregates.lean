import Mathlib.Algebra.Group.Nat.Defs
import DisMiniSql.Proofs.Distributed.AggregatePattern
import DisMiniSql.Proofs.Distributed.EquiJoin
import DisMiniSql.Proofs.Distributed.ResultText

/-!
# `DisMiniSql.Proofs.Distributed.Aggregates`: aggregates over all shards

An aggregate is computed from all rows of the table: `baseSqlForAggregate` forgets what follows the
name of the table, the answers are read back and merged (`mergeResponses_nodes`), and the numbers of
the column are put together (`aggregate_eq`). When no answer has a row there is no merged table, and
nothing is sent to the client.

`aggregate_right_iff`: where the cells survive the printed table, the answer is right exactly if
there is a row and the rows that the `where` clause rejects do not change the aggregate.
-/

set_option autoImplicit false

namespace DisMiniSql.Distributed

open Lib (Regex)
open MiniSqlResultParser
open DisMiniSql.MiniSql (printScan)

namespace QueryPostProcessor

/-! ### Whole numbers -/

/-- `std::to_string` and `Long.toString`. -/
def decimal (n : Int) : Text :=
  if n < 0 then '-' :: n.natAbs.repr.toList else n.natAbs.repr.toList

/-- `Field::toString` of an integer or of `NULL`. -/
def intCell : Option Int → Text
  | none => "NULL".toList
  | some n => decimal n

/-- The sum of a list. -/
def total (ns : List Int) : Int := ns.foldr (· + ·) 0

/-- What is relied on of `Double`: it is exact on whole numbers below `2 ^ 53`. A sum is exact if
the numbers and all sums on the way to it are below. -/
structure Whole {δ : Type} (doubles : DoubleOps δ) (ofInt : Int → δ) : Prop where
  parse_decimal : ∀ n, n.natAbs < 2 ^ 53 → doubles.parse (decimal n) = some (ofInt n)
  parse_null : doubles.parse "NULL".toList = none
  sum_eq : ∀ ns, (∀ n ∈ ns, n.natAbs < 2 ^ 53) →
    (∀ k, (total (ns.take k)).natAbs < 2 ^ 53) →
    doubles.sum (ns.map ofInt) = ofInt (total ns)
  min_eq : ∀ n ns m, m ∈ n :: ns → (∀ k ∈ n :: ns, m ≤ k ∧ k.natAbs < 2 ^ 53) →
    doubles.min (ofInt n) (ns.map ofInt) = ofInt m
  max_eq : ∀ n ns m, m ∈ n :: ns → (∀ k ∈ n :: ns, k ≤ m ∧ k.natAbs < 2 ^ 53) →
    doubles.max (ofInt n) (ns.map ofInt) = ofInt m
  trimDouble_eq : ∀ n, n.natAbs < 2 ^ 53 → doubles.trimDouble (ofInt n) = decimal n

/-- Different numbers have different digits. -/
theorem repr_inj {m n : Nat} (h : m.repr.toList = n.repr.toList) : m = n := by
  rw [Nat.toList_repr, Nat.toList_repr] at h
  rw [← Nat.ofDigitChars_ten_toDigits (n := m), h, Nat.ofDigitChars_ten_toDigits]

/-- Digits never start with another character. -/
theorem repr_ne_cons {n : Nat} {c : Char} (hc : c.isDigit = false) (s : Text) :
    n.repr.toList ≠ c :: s := by
  intro h
  have hdigit := isDigit_of_mem_repr (n := n) (c := c) (by rw [h]; exact List.mem_cons_self)
  rw [hc] at hdigit
  cases hdigit

/-- The sign tells the negative numbers apart. -/
theorem decimal_inj {m n : Int} (h : decimal m = decimal n) : m = n := by
  unfold decimal at h
  split at h <;> split at h
  · have := repr_inj (List.cons.inj h).2
    omega
  · exact absurd h.symm (repr_ne_cons rfl _)
  · exact absurd h (repr_ne_cons rfl _)
  · have := repr_inj h
    omega

/-- So different values have different cells. -/
theorem intCell_inj {v w : Option Int} (h : intCell v = intCell w) : v = w := by
  have hnull (n : Int) : "NULL".toList ≠ decimal n := by
    unfold decimal
    split
    · exact fun h => absurd (List.cons.inj h).1 (by decide)
    · exact fun h => repr_ne_cons rfl _ h.symm
  cases v with
  | none =>
    cases w with
    | none => rfl
    | some n => exact absurd h (hnull n)
  | some m =>
    cases w with
    | none => exact absurd h.symm (hnull m)
    | some n => rw [decimal_inj h]

/-- The text of a number has digits and perhaps the sign. -/
theorem mem_decimal {n : Int} {c : Char} (h : c ∈ decimal n) : c = '-' ∨ c.isDigit = true := by
  unfold decimal at h
  split at h
  · exact (List.mem_cons.mp h).imp_right isDigit_of_mem_repr
  · exact .inr (isDigit_of_mem_repr h)

/-- The text of an integer can stand in a printed table. -/
theorem plain_intCell (v : Option Int) : Plain (intCell v) := by
  cases v with
  | none => decide
  | some n =>
    have hall : ∀ c ∈ decimal n, SqlUtils.isTrimmed c = false ∧ c ≠ '|' ∧
        Text.isLineBreak c = false := by
      intro c hc
      rcases mem_decimal hc with rfl | hdigit
      · decide
      · obtain ⟨hbreak, htrim, hbar⟩ := isLineBreak_of_isDigit hdigit
        exact ⟨htrim, hbar, hbreak⟩
    refine ⟨SqlUtils.trim_of_ends ?_ ?_, fun hbar => (hall _ hbar).2.1 rfl,
      fun c hc => (hall c hc).2.2⟩
    · exact fun c hc => (hall c (List.mem_of_mem_head? hc)).1
    · exact fun c hc => (hall c (List.mem_of_getLast? hc)).1

/-! ### The value of an aggregate -/

/-- The least number. -/
def least : List Int → Option Int
  | [] => none
  | n :: ns => some ((least ns).elim n fun m => if n ≤ m then n else m)

/-- The greatest number. -/
def greatest : List Int → Option Int
  | [] => none
  | n :: ns => some ((greatest ns).elim n fun m => if m ≤ n then n else m)

/-- The value of an aggregate over the numbers in a column; `none` is `NULL`. -/
def Aggregate.value (a : Aggregate) (numbers : List (Option Int)) : Option Int :=
  let ns := numbers.filterMap id
  match a with
  | .count => some numbers.length
  | .sum _ => if ns = [] then none else some (total ns)
  | .min _ => least ns
  | .max _ => greatest ns

/-- The least of a list, by induction. -/
theorem least_spec {ns : List Int} {m : Int} (h : least ns = some m) :
    m ∈ ns ∧ ∀ k ∈ ns, m ≤ k := by
  induction ns generalizing m with
  | nil => cases h
  | cons n ns ih =>
    obtain rfl := Option.some.inj h
    cases hns : least ns with
    | none =>
      cases ns with
      | nil => simp
      | cons k ns => cases hns
    | some k =>
      obtain ⟨hmem, hle⟩ := ih hns
      show (if n ≤ k then n else k) ∈ n :: ns ∧ ∀ j ∈ n :: ns, (if n ≤ k then n else k) ≤ j
      rw [List.forall_mem_cons]
      split
      · exact ⟨List.mem_cons_self, Int.le_refl n, fun j hj => Int.le_trans ‹_› (hle j hj)⟩
      · exact ⟨List.mem_cons_of_mem _ hmem, by omega, hle⟩

/-- The greatest of a list. -/
theorem greatest_spec {ns : List Int} {m : Int} (h : greatest ns = some m) :
    m ∈ ns ∧ ∀ k ∈ ns, k ≤ m := by
  induction ns generalizing m with
  | nil => cases h
  | cons n ns ih =>
    obtain rfl := Option.some.inj h
    cases hns : greatest ns with
    | none =>
      cases ns with
      | nil => simp
      | cons k ns => cases hns
    | some k =>
      obtain ⟨hmem, hle⟩ := ih hns
      show (if k ≤ n then n else k) ∈ n :: ns ∧ ∀ j ∈ n :: ns, j ≤ (if k ≤ n then n else k)
      rw [List.forall_mem_cons]
      split
      · exact ⟨List.mem_cons_self, Int.le_refl n, fun j hj => Int.le_trans (hle j hj) ‹_›⟩
      · exact ⟨List.mem_cons_of_mem _ hmem, by omega, hle⟩

/-- A list with elements has a least one. -/
theorem exists_least {ns : List Int} (h : ns ≠ []) : ∃ m, least ns = some m := by
  cases ns with
  | nil => exact absurd rfl h
  | cons n ns => exact ⟨_, rfl⟩

/-- And a greatest. -/
theorem exists_greatest {ns : List Int} (h : ns ≠ []) : ∃ m, greatest ns = some m := by
  cases ns with
  | nil => exact absurd rfl h
  | cons n ns => exact ⟨_, rfl⟩

/-- A sum does not depend on the order. -/
theorem total_perm {ns ms : List Int} (h : ns.Perm ms) : total ns = total ms := by
  induction h with
  | nil => rfl
  | cons n _ ih => exact congrArg (n + ·) ih
  | swap n m ns =>
    show m + (n + total ns) = n + (m + total ns)
    omega
  | trans _ _ ih ih' => exact ih.trans ih'

/-- The value does not depend on the order of the rows. -/
theorem Aggregate.value_perm (a : Aggregate) {xs ys : List (Option Int)} (h : xs.Perm ys) :
    a.value xs = a.value ys := by
  have hns : (xs.filterMap id).Perm (ys.filterMap id) := h.filterMap id
  generalize hxs : xs.filterMap id = ns at hns
  generalize hys : ys.filterMap id = ms at hns
  have hnil : ns = [] ↔ ms = [] :=
    ⟨fun h => List.Perm.eq_nil (h ▸ hns).symm, fun h => List.Perm.eq_nil (h ▸ hns)⟩
  cases a with
  | count => rw [value, value, h.length_eq]
  | sum column => simp only [value, hxs, hys, hnil, total_perm hns]
  | min column =>
    simp only [value, hxs, hys]
    by_cases hne : ns = []
    · rw [hne, hnil.mp hne]
    · obtain ⟨m, hm⟩ := exists_least hne
      obtain ⟨m', hm'⟩ := exists_least fun h => hne (hnil.mpr h)
      have h₁ := (least_spec hm').2 m (hns.subset (least_spec hm).1)
      have h₂ := (least_spec hm).2 m' (hns.symm.subset (least_spec hm').1)
      rw [hm, hm', Int.le_antisymm h₂ h₁]
  | max column =>
    simp only [value, hxs, hys]
    by_cases hne : ns = []
    · rw [hne, hnil.mp hne]
    · obtain ⟨m, hm⟩ := exists_greatest hne
      obtain ⟨m', hm'⟩ := exists_greatest fun h => hne (hnil.mpr h)
      have h₁ := (greatest_spec hm').2 m (hns.subset (greatest_spec hm).1)
      have h₂ := (greatest_spec hm).2 m' (hns.symm.subset (greatest_spec hm').1)
      rw [hm, hm', Int.le_antisymm h₁ h₂]

/-! ### The nodes -/

/-- A node that is asked: the rows of the table that it has, and what its engine prints for a
statement. -/
structure Node (ρ : Type) where
  nodeId : String
  rows : List ρ
  engine : Text → Text

section
variable {ρ δ : Type} {fold : Char → Char} {doubles : DoubleOps δ} {ofInt : Int → δ}
  {columns : List Text} {cells : ρ → List Text} {table : Text} {rows : List ρ}
  {nodes : List (Node ρ)} {number : ρ → Option Int}

/-- The rows of a table, each of them once, that are spread over the nodes; a row may be on more
than one. The engines print all their rows for `select *`. -/
structure Spread (columns : List Text) (cells : ρ → List Text) (table : Text) (rows : List ρ)
    (nodes : List (Node ρ)) : Prop where
  nodup : rows.Nodup
  mem_iff : ∀ r, r ∈ rows ↔ ∃ node ∈ nodes, r ∈ node.rows
  columns_ne : columns ≠ []
  fits : ∀ r, (cells r).length = columns.length
  prints : ∀ node ∈ nodes, ∃ milliseconds,
    node.engine (selectAll table) = printScan columns (node.rows.map cells) milliseconds

/-- The table survives the printed text and the merge. -/
structure Clean (columns : List Text) (cells : ρ → List Text) (rows : List ρ) : Prop where
  plain : (∀ column ∈ columns, Plain column) ∧ ∀ r ∈ rows, ∀ c ∈ cells r, Plain c
  keys : ∀ r ∈ rows, ∀ r' ∈ rows, rowKey (cells r) = rowKey (cells r') → r = r'

/-- What `parse` makes of the answer of a node. -/
def tableOf (columns : List Text) (cells : ρ → List Text) (node : Node ρ) : QueryTable :=
  if node.rows = [] then {} else { columns := columns, rows := node.rows.map cells }

/-- The answers of the nodes to a statement. -/
def answers (nodes : List (Node ρ)) (sql : Text) : List ExecuteResponse :=
  nodes.map fun node => .success node.nodeId 0 (String.ofList (node.engine sql))

/-- The answer of a node, printed and parsed, is the table of its rows. -/
theorem parse_tableOf (hs : Spread columns cells table rows nodes)
    (hclean : Clean columns cells rows) {node : Node ρ} (hnode : node ∈ nodes) :
    parse (node.engine (selectAll table)) = some (tableOf columns cells node) := by
  obtain ⟨milliseconds, hprint⟩ := hs.prints node hnode
  rw [hprint, tableOf]
  -- a node without rows prints no table, only its columns' names
  by_cases hrows : node.rows = []
  · rw [if_pos hrows, hrows, List.map_nil, parse_printScan_nil]
  · rw [if_neg hrows]
    have hfit : RowsFit { columns := columns, rows := node.rows.map cells } := by
      show ∀ row ∈ node.rows.map cells, row.length = columns.length
      rw [List.forall_mem_map]
      exact fun r _ => hs.fits r
    have hplain : PlainTable { columns := columns, rows := node.rows.map cells } := by
      refine ⟨hclean.plain.1, ?_⟩
      show ∀ row ∈ node.rows.map cells, ∀ c ∈ row, Plain c
      rw [List.forall_mem_map]
      exact fun r hr => hclean.plain.2 r ((hs.mem_iff r).mpr ⟨node, hnode, hr⟩)
    have hne : node.rows.map cells ≠ [] := fun h => hrows (List.map_eq_nil_iff.mp h)
    exact parse_printScan (t := { columns := columns, rows := node.rows.map cells })
      hs.columns_ne hne hfit hplain milliseconds

/-- So merging the answers is merging these tables. -/
theorem mergeResponses_answers (hs : Spread columns cells table rows nodes)
    (hclean : Clean columns cells rows) :
    mergeResponses fold (answers nodes (selectAll table)) =
      some (merge fold (nodes.map (tableOf columns cells))) := by
  have hok : (answers nodes (selectAll table)).filter (·.ok) = answers nodes (selectAll table) := by
    rw [List.filter_eq_self, answers, List.forall_mem_map]
    exact fun _ _ => rfl
  have hparse (some_nodes : List (Node ρ)) (hsub : ∀ node ∈ some_nodes, node ∈ nodes) :
      ((some_nodes.map fun node =>
        ExecuteResponse.success node.nodeId 0 (String.ofList (node.engine (selectAll table)))).mapM
          fun response => parse response.output.toList) =
        some (some_nodes.map (tableOf columns cells)) := by
    induction some_nodes with
    | nil => rfl
    | cons node rest ih =>
      rw [List.forall_mem_cons] at hsub
      have hout : (ExecuteResponse.success node.nodeId 0
          (String.ofList (node.engine (selectAll table)))).output.toList =
          node.engine (selectAll table) := String.toList_ofList
      rw [List.map_cons, List.mapM_cons, ih hsub.2, hout, parse_tableOf hs hclean hsub.1]
      rfl
  rw [mergeResponses, hok, answers, hparse nodes fun _ h => h, Option.map_some]

/-- Every row of a list comes from one of another list. -/
theorem exists_map_eq {f : ρ → List Text} {xs : List ρ} {ys : List (List Text)}
    (h : ∀ y ∈ ys, ∃ x ∈ xs, f x = y) : ∃ zs : List ρ, zs.map f = ys ∧ ∀ z ∈ zs, z ∈ xs := by
  induction ys with
  | nil => exact ⟨[], rfl, fun z hz => absurd hz List.not_mem_nil⟩
  | cons y ys ih =>
    rw [List.forall_mem_cons] at h
    obtain ⟨x, hx, hxy⟩ := h.1
    obtain ⟨zs, hzs, hmem⟩ := ih h.2
    exact ⟨x :: zs, by rw [List.map_cons, hxy, hzs], List.forall_mem_cons.mpr ⟨hx, hmem⟩⟩

/-- A table that is not empty has the columns. -/
theorem columns_tableOf : ∀ t ∈ nodes.map (tableOf columns cells), t.isEmpty = false →
    t.columns = columns := by
  rw [List.forall_mem_map]
  intro node _ hne
  unfold tableOf at hne ⊢
  split at hne
  · cases hne
  · rw [if_neg ‹_›]

/-- Without rows every answer is empty, and so is the merged table. -/
theorem merge_tableOf_nil (hs : Spread columns cells table rows nodes) (hrows : rows = []) :
    merge fold (nodes.map (tableOf columns cells)) = {} := by
  refine merge_of_isEmpty ?_
  rw [List.forall_mem_map]
  intro node hnode
  -- no node has a row
  have hnone : node.rows = [] := by
    refine List.eq_nil_iff_forall_not_mem.mpr fun r hr => ?_
    have hmem := (hs.mem_iff r).mpr ⟨node, hnode, hr⟩
    rw [hrows] at hmem
    exact List.not_mem_nil hmem
  rw [tableOf, if_pos hnone]
  rfl

/-- With a row the merged table has the columns: those of the answer that has the row. -/
theorem columns_merge_tableOf (hs : Spread columns cells table rows nodes) (hrows : rows ≠ []) :
    (merge fold (nodes.map (tableOf columns cells))).columns = columns := by
  refine merge_columns fold columns_tableOf ?_
  obtain ⟨r, hr⟩ := List.exists_mem_of_ne_nil rows hrows
  obtain ⟨node, hnode, hr⟩ := (hs.mem_iff r).mp hr
  refine ⟨_, List.mem_map_of_mem hnode, ?_⟩
  rw [tableOf, if_neg (List.ne_nil_of_mem hr)]
  exact List.isEmpty_eq_false_iff.mpr hs.columns_ne

/-- The merged table has the rows of the table, each of them once. -/
theorem merge_tableOf (hs : Spread columns cells table rows nodes)
    (hclean : Clean columns cells rows) :
    ∃ merged_rows : List ρ, merged_rows.Perm rows ∧
      (merge fold (nodes.map (tableOf columns cells))).rows = merged_rows.map cells := by
  have hparsed : ∀ t ∈ nodes.map (tableOf columns cells), t.Parsed := by
    rw [List.forall_mem_map]
    exact fun node hnode => parse_parsed (parse_tableOf hs hclean hnode)
  have hin (row : List Text) : InTables (nodes.map (tableOf columns cells)) row ↔
      ∃ r ∈ rows, cells r = row := by
    constructor
    · rintro ⟨t, ht, hrow⟩
      obtain ⟨node, hnode, rfl⟩ := List.mem_map.mp ht
      unfold tableOf at hrow
      split at hrow
      · exact absurd hrow List.not_mem_nil
      · obtain ⟨r, hr, rfl⟩ := List.mem_map.mp hrow
        exact ⟨r, (hs.mem_iff r).mpr ⟨node, hnode, hr⟩, rfl⟩
    · rintro ⟨r, hr, rfl⟩
      obtain ⟨node, hnode, hr⟩ := (hs.mem_iff r).mp hr
      refine ⟨_, List.mem_map_of_mem hnode, ?_⟩
      rw [tableOf, if_neg (List.ne_nil_of_mem hr)]
      exact List.mem_map_of_mem hr
  have hkeys : KeysDistinct (nodes.map (tableOf columns cells)) := by
    intro row row' hrow hrow' heq
    obtain ⟨r, hr, rfl⟩ := (hin row).mp hrow
    obtain ⟨r', hr', rfl⟩ := (hin row').mp hrow'
    rw [hclean.keys r hr r' hr' heq]
  have hmem := mem_merge_iff fold hparsed columns_tableOf hkeys
  obtain ⟨merged_rows, hmap, hsub⟩ := exists_map_eq (f := cells)
    fun row hrow => (hin row).mp ((hmem row).mp hrow)
  have hnodup : merged_rows.Nodup := by
    have hall := ((merge_keeps fold hparsed columns_tableOf).1).of_map
    rw [← hmap] at hall
    exact hall.of_map
  refine ⟨merged_rows, (List.perm_ext_iff_of_nodup hnodup hs.nodup).mpr fun r => ?_, hmap.symm⟩
  refine ⟨hsub r, fun hr => ?_⟩
  have hrow := (hmem (cells r)).mpr ((hin (cells r)).mpr ⟨r, hr, rfl⟩)
  rw [← hmap] at hrow
  obtain ⟨r', hr', heq⟩ := List.mem_map.mp hrow
  rwa [← hclean.keys r' (hsub r' hr') r hr (by rw [heq])]

/-! ### The aggregate of the merged table -/

/-- What an aggregate statement asks for. -/
def Aggregate.ofGroups (groups : Regex.Groups Char) : Aggregate :=
  match groups.get 2, groups.get 3, groups.get 4 with
  | some column, _, _ => .sum column
  | none, some column, _ => .min column
  | none, none, some column => .max column
  | none, none, none => .count

/-- The aggregate is over a column of integers: the one that its operand names. Names of columns
have no dot, and no column before that one has its name up to case. A count has no operand. -/
def OverInts (fold : Char → Char) (columns : List Text) (cells : ρ → List Text) (table : Text)
    (rows : List ρ) (number : ρ → Option Int) (a : Aggregate) : Prop :=
  (∀ g ∈ a.columnGroup, (∀ c ∈ columns, '.' ∉ c) ∧
    ∃ i, Names table columns g.2 i ∧ FirstNamed fold columns i ∧
      ∀ r ∈ rows, cell (cells r) i = intCell (number r)) ∧
  (∀ r ∈ rows, ∀ n, number r = some n → n.natAbs ≤ 2 ^ 31) ∧
  ∀ part : List ρ, part.Nodup → (∀ r ∈ part, r ∈ rows) →
    (total (part.filterMap number)).natAbs < 2 ^ 53

/-- The bound of `int` is below that of exact doubles. -/
theorem lt_of_le_two_pow {n : Int} (h : n.natAbs ≤ 2 ^ 31) : n.natAbs < 2 ^ 53 :=
  Nat.lt_of_le_of_lt h (by decide)

/-- Reading a cell back gives its number, without rounding. -/
theorem parseDouble_intCell (hwhole : Whole doubles ofInt) {v : Option Int}
    (hv : ∀ n, v = some n → n.natAbs ≤ 2 ^ 31) :
    parseDouble doubles (intCell v) = v.map ofInt := by
  have hquote : (intCell v).filter (· != '\'') = intCell v := by
    rw [List.filter_eq_self]
    intro c hc
    rw [bne_iff_ne]
    rintro rfl
    cases v with
    | none => exact absurd hc (by decide)
    | some n =>
      rcases mem_decimal hc with h | h
      · exact absurd h (by decide)
      · exact absurd h (by decide)
  rw [parseDouble, hquote]
  cases v with
  | none => exact hwhole.parse_null
  | some n => exact hwhole.parse_decimal n (lt_of_le_two_pow (hv n rfl))

/-- The numbers of the column, as they are read. -/
theorem filterMap_parseDouble (hwhole : Whole doubles ofInt) {i : Nat} {some_rows : List ρ}
    (hcell : ∀ r ∈ some_rows, cell (cells r) i = intCell (number r))
    (hrange : ∀ r ∈ some_rows, ∀ n, number r = some n → n.natAbs ≤ 2 ^ 31) :
    (some_rows.map cells).filterMap (fun row => parseDouble doubles (cell row i)) =
      (some_rows.filterMap number).map ofInt := by
  induction some_rows with
  | nil => rfl
  | cons r rest ih =>
    rw [List.forall_mem_cons] at hcell hrange
    have hparse := parseDouble_intCell hwhole (v := number r) hrange.1
    rw [List.map_cons, List.filterMap_cons, hcell.1, hparse, List.filterMap_cons,
      ih hcell.2 hrange.2]
    cases number r <;> rfl

/-- The function that the expression names. -/
theorem aggregateValue_eq (hwhole : Whole doubles ofInt) {a : Aggregate} {rest : Text}
    {ns : List Int} (ha : a ≠ .count) (hrange : ∀ n ∈ ns, n.natAbs ≤ 2 ^ 31)
    (htotal : ∀ k, (total (ns.take k)).natAbs < 2 ^ 53) :
    aggregateValue doubles (a.name ++ rest) (ns.map ofInt) =
      intCell (a.value (ns.map some)) := by
  have hid : (ns.map some).filterMap id = ns := by
    rw [List.filterMap_map]
    exact List.filterMap_some
  have hlt {n : Int} (hn : n ∈ ns) : n.natAbs < 2 ^ 53 := lt_of_le_two_pow (hrange n hn)
  cases ns with
  | nil => cases a <;> first | rfl | exact absurd rfl ha
  | cons n ns =>
    have hne : n :: ns ≠ [] := List.cons_ne_nil n ns
    cases a with
    | count => exact absurd rfl ha
    | sum column =>
      have hvalue : (Aggregate.sum column).value ((n :: ns).map some) = some (total (n :: ns)) := by
        rw [Aggregate.value, hid, if_neg hne]
      have hsum := hwhole.sum_eq (n :: ns) (fun k hk => hlt hk) htotal
      have hall := htotal (n :: ns).length
      rw [List.take_length] at hall
      rw [hvalue]
      show doubles.trimDouble (doubles.sum ((n :: ns).map ofInt)) = decimal (total (n :: ns))
      rw [hsum, hwhole.trimDouble_eq _ hall]
    | min column =>
      obtain ⟨m, hm⟩ := exists_least hne
      obtain ⟨hmem, hle⟩ := least_spec hm
      have hvalue : (Aggregate.min column).value ((n :: ns).map some) = some m := by
        rw [Aggregate.value, hid, hm]
      rw [hvalue]
      show doubles.trimDouble (doubles.min (ofInt n) (ns.map ofInt)) = decimal m
      rw [hwhole.min_eq n ns m hmem fun k hk => ⟨hle k hk, hlt hk⟩,
        hwhole.trimDouble_eq _ (hlt hmem)]
    | max column =>
      obtain ⟨m, hm⟩ := exists_greatest hne
      obtain ⟨hmem, hle⟩ := greatest_spec hm
      have hvalue : (Aggregate.max column).value ((n :: ns).map some) = some m := by
        rw [Aggregate.value, hid, hm]
      rw [hvalue]
      show doubles.trimDouble (doubles.max (ofInt n) (ns.map ofInt)) = decimal m
      rw [hwhole.max_eq n ns m hmem fun k hk => ⟨hle k hk, hlt hk⟩,
        hwhole.trimDouble_eq _ (hlt hmem)]

/-- Parts of the rows in any order have small sums. -/
theorem total_take (h : ∀ part : List ρ, part.Nodup → (∀ r ∈ part, r ∈ rows) →
    (total (part.filterMap number)).natAbs < 2 ^ 53) {some_rows : List ρ}
    (hnodup : some_rows.Nodup) (hsub : ∀ r ∈ some_rows, r ∈ rows) (k : Nat) :
    (total ((some_rows.filterMap number).take k)).natAbs < 2 ^ 53 := by
  -- the first numbers are those of the first rows
  have hrows (rs : List ρ) (k : Nat) : ∃ j, (rs.take j).filterMap number =
      (rs.filterMap number).take k := by
    induction rs generalizing k with
    | nil => exact ⟨0, by rw [List.take_nil, List.filterMap_nil, List.take_nil]⟩
    | cons r rs ih =>
      cases hr : number r with
      | none =>
        obtain ⟨j, hj⟩ := ih k
        exact ⟨j + 1, by rw [List.take_succ_cons, List.filterMap_cons, hr, List.filterMap_cons, hr,
          ← hj]⟩
      | some n =>
        cases k with
        | zero => exact ⟨0, rfl⟩
        | succ k =>
          obtain ⟨j, hj⟩ := ih k
          exact ⟨j + 1, by rw [List.take_succ_cons, List.filterMap_cons, hr, List.filterMap_cons,
            hr, List.take_succ_cons, ← hj]⟩
  obtain ⟨j, hj⟩ := hrows some_rows k
  rw [← hj]
  exact h _ (hnodup.sublist (List.take_sublist j _))
    fun r hr => hsub r (List.mem_of_mem_take hr)

/-- The value of an aggregate over a column looks at the numbers only. -/
theorem Aggregate.value_filterMap {a : Aggregate} (ha : a ≠ .count) (rs : List ρ) :
    a.value ((rs.filterMap number).map some) = a.value (rs.map number) := by
  have hid : ((rs.filterMap number).map some).filterMap id = (rs.map number).filterMap id := by
    rw [List.filterMap_map, List.filterMap_map]
    exact List.filterMap_some
  cases a with
  | count => exact absurd rfl ha
  | sum column => rw [value, value, hid]
  | min column => rw [value, value, hid]
  | max column => rw [value, value, hid]

variable {sql : Text} {groups : Regex.Groups Char}

/-- The groups of an aggregate statement. -/
theorem ofGroups_spec (hsql : AGGREGATE.matchAll sql = some groups) :
    ∃ text table rest,
      groups = (1, text) :: (Aggregate.ofGroups groups).columnGroup ++ [(5, table)] ∧
      expression groups = (Aggregate.ofGroups groups).name ++ rest ∧ Plain (expression groups) := by
  obtain ⟨a, text, table, rest, rfl, hname, htext⟩ := aggregate_spec hsql
  have ha : Aggregate.ofGroups ((1, text) :: a.columnGroup ++ [(5, table)]) = a := by
    cases a <;> rfl
  have hexpression : expression ((1, text) :: a.columnGroup ++ [(5, table)]) = stripped text := rfl
  rw [ha, hexpression]
  exact ⟨text, table, rest, rfl, hname, plain_stripped htext⟩

/-- The group of the column that `aggregate` reads. -/
def columnOf (groups : Regex.Groups Char) : Text :=
  ((groups.get 2).orElse fun _ => (groups.get 3).orElse fun _ => groups.get 4).getD []

/-- An aggregate other than `count` names a column in its pattern. -/
theorem columnOf_mem (hsql : AGGREGATE.matchAll sql = some groups)
    (ha : Aggregate.ofGroups groups ≠ .count) :
    ∃ n, (n, columnOf groups) ∈ (Aggregate.ofGroups groups).columnGroup := by
  obtain ⟨text, table, rest, hgroups, -, -⟩ := ofGroups_spec hsql
  generalize Aggregate.ofGroups groups = a at hgroups ha
  subst hgroups
  cases a with
  | count => exact absurd rfl ha
  | sum column => exact ⟨2, List.mem_cons_self⟩
  | min column => exact ⟨3, List.mem_cons_self⟩
  | max column => exact ⟨4, List.mem_cons_self⟩

/-- What is computed from a table with the rows in any order. -/
theorem aggregate_eq (hwhole : Whole doubles ofInt) (hdot : ∀ c, fold c = fold '.' → c = '.')
    (hsql : AGGREGATE.matchAll sql = some groups)
    (hover : OverInts fold columns cells table rows number (Aggregate.ofGroups groups))
    (hnodup : rows.Nodup) {merged : QueryTable}
    (hcolumns : merged.columns = columns) {merged_rows : List ρ} (hperm : merged_rows.Perm rows)
    (hrows : merged.rows = merged_rows.map cells) :
    aggregate fold doubles sql merged =
      { columns := [expression groups]
        rows := [[intCell ((Aggregate.ofGroups groups).value (rows.map number))]] } := by
  obtain ⟨-, -, rest, -, hname, -⟩ := ofGroups_spec hsql
  obtain ⟨hcolumn, hrange, htotal⟩ := hover
  rw [aggregate, hsql]
  simp only [QueryTable.mk.injEq, true_and]
  rw [hname]
  by_cases ha : Aggregate.ofGroups groups = .count
  · rw [ha]
    show [[merged.rows.length.repr.toList]] = _
    rw [hrows, List.length_map, hperm.length_eq]
    show _ = [[decimal (rows.map number).length]]
    rw [decimal, if_neg (by omega), List.length_map]
    rfl
  · obtain ⟨n, hmem⟩ := columnOf_mem hsql ha
    obtain ⟨hnoDot, i, hnames, hfirst, hcell⟩ := hcolumn _ hmem
    have hindex : columnIndex fold merged.columns (columnOf groups) = some i := by
      rw [hcolumns]
      exact columnIndex_of_names hnames hdot hnoDot hfirst
    have hcount : "count(".toList.isPrefixOf ((Aggregate.ofGroups groups).name ++ rest) =
        false := by
      generalize Aggregate.ofGroups groups = a at ha
      cases a <;> first | rfl | exact absurd rfl ha
    have hsub : ∀ r ∈ merged_rows, r ∈ rows := fun r hr => hperm.subset hr
    have hvalues := filterMap_parseDouble hwhole (fun r hr => hcell r (hsub r hr))
      fun r hr => hrange r (hsub r hr)
    have hrange' : ∀ k ∈ merged_rows.filterMap number, k.natAbs ≤ 2 ^ 31 := by
      intro k hk
      obtain ⟨r, hr, hk⟩ := List.mem_filterMap.mp hk
      exact hrange r (hsub r hr) k hk
    rw [columnOf] at hindex
    rw [hcount, if_neg Bool.false_ne_true]
    simp only [hindex]
    rw [hrows, hvalues, aggregateValue_eq hwhole ha hrange'
      (total_take htotal (hperm.nodup_iff.mpr hnodup) hsub), Aggregate.value_filterMap ha,
      Aggregate.value_perm _ (hperm.map number)]

/-- The table of one value. -/
def answerTable (name : Text) (v : Option Int) : QueryTable :=
  { columns := [name], rows := [[intCell v]] }

/-- Different answers print differently. -/
theorem answerTable_inj {name : Text} (hname : Plain name) {v w : Option Int}
    (h : (answerTable name v).toAsciiTable = (answerTable name w).toAsciiTable) : v = w := by
  have hread (u : Option Int) :
      parse (answerTable name u).toAsciiTable = some (answerTable name u) :=
    parse_toAsciiTable (List.cons_ne_nil _ _) (List.forall_mem_singleton.mpr rfl)
      ⟨List.forall_mem_singleton.mpr hname,
        List.forall_mem_singleton.mpr (List.forall_mem_singleton.mpr (plain_intCell u))⟩
  have hsame := hread v
  rw [h, hread w, Option.some.injEq] at hsame
  have hrows := (QueryTable.mk.inj hsame).2
  exact (intCell_inj (List.cons.inj (List.cons.inj hrows).1).1).symm

/-- What is sent to the client. -/
theorem mergeSelect_answers [LinearOrder δ] {lists : ListSort} (hwhole : Whole doubles ofInt)
    (hdot : ∀ c, fold c = fold '.' → c = '.') (hsql : AGGREGATE.matchAll sql = some groups)
    (hs : Spread columns cells (group groups 5) rows nodes)
    (hover : OverInts fold columns cells (group groups 5) rows number (Aggregate.ofGroups groups))
    (hclean : Clean columns cells rows) :
    mergeSelect fold doubles lists sql (answers nodes (baseSqlForAggregate sql)) =
      if rows = [] then .ok []
      else .ok (answerTable (expression groups)
        ((Aggregate.ofGroups groups).value (rows.map number))).toAsciiTable := by
  have hbase : baseSqlForAggregate sql = selectAll (group groups 5) := by
    rw [baseSqlForAggregate, hsql]
  have haggregate : isAggregate sql = true := by
    rw [isAggregate, hsql]
    rfl
  rw [mergeSelect, hbase, mergeResponses_answers hs hclean]
  dsimp only
  by_cases hrows : rows = []
  · rw [merge_tableOf_nil hs hrows, if_pos hrows]
    rfl
  · have hcolumns : (merge fold (nodes.map (tableOf columns cells))).columns = columns :=
      columns_merge_tableOf hs hrows
    have hne : (merge fold (nodes.map (tableOf columns cells))).isEmpty = false := by
      rw [QueryTable.isEmpty, hcolumns]
      exact List.isEmpty_eq_false_iff.mpr hs.columns_ne
    obtain ⟨merged_rows, hperm, hmerged⟩ := merge_tableOf hs hclean
    rw [hne, if_neg Bool.false_ne_true, haggregate, if_pos rfl, if_neg hrows,
      aggregate_eq hwhole hdot hsql hover hs.nodup hcolumns hperm hmerged]
    rfl

/-- The answer is right exactly if the table has a row and the rows that do not satisfy the `where`
clause leave the aggregate as it is. -/
theorem aggregate_right_iff [LinearOrder δ] (lists : ListSort) (hwhole : Whole doubles ofInt)
    (hdot : ∀ c, fold c = fold '.' → c = '.') (hsql : AGGREGATE.matchAll sql = some groups)
    (hs : Spread columns cells (group groups 5) rows nodes)
    (hover : OverInts fold columns cells (group groups 5) rows number (Aggregate.ofGroups groups))
    (hclean : Clean columns cells rows) (satisfies : ρ → Bool) :
    mergeSelect fold doubles lists sql (answers nodes (baseSqlForAggregate sql)) =
        .ok (answerTable (expression groups) ((Aggregate.ofGroups groups).value
          ((rows.filter satisfies).map number))).toAsciiTable ↔
      rows ≠ [] ∧ (Aggregate.ofGroups groups).value (rows.map number) =
        (Aggregate.ofGroups groups).value ((rows.filter satisfies).map number) := by
  obtain ⟨-, -, -, -, -, hplain⟩ := ofGroups_spec hsql
  rw [mergeSelect_answers hwhole hdot hsql hs hover hclean]
  by_cases hrows : rows = []
  · rw [if_pos hrows]
    refine iff_of_false (fun h => ?_) fun h => h.1 hrows
    have hne : ∀ t : QueryTable, t.toAsciiTable ≠ [] := by
      intro t
      unfold QueryTable.toAsciiTable
      split
      · decide
      · simp
    exact hne _ (Except.ok.inj h).symm
  · rw [if_neg hrows, Except.ok.injEq]
    constructor
    · exact fun h => ⟨hrows, answerTable_inj hplain h⟩
    · exact fun h => by rw [h.2]

end

/-! ### Examples -/

/-- The digits of a number. -/
def readNat (digits : Text) : Option Nat :=
  if digits ≠ [] ∧ digits.all Char.isDigit = true then some (Nat.ofDigitChars 10 digits 0) else none

/-- Whole numbers, as `Double` treats them. -/
def wholes : DoubleOps Int where
  parse value :=
    if value.head? = some '-' then (readNat value.tail).map fun n : Nat => -(n : Int)
    else (readNat value).map fun n : Nat => (n : Int)
  sum := total
  min n ns := (least (n :: ns)).getD n
  max n ns := (greatest (n :: ns)).getD n
  trimDouble := decimal

/-- The whole numbers up to 2^53 are such numbers, so the hypothesis has an instance. -/
theorem whole_wholes : Whole wholes id where
  parse_decimal n _ := by
    have hread (m : Nat) : readNat m.repr.toList = some m := by
      have hne : m.repr.toList ≠ [] := by
        rw [Nat.toList_repr]
        exact Nat.toDigits_ne_nil
      rw [readNat, if_pos ⟨hne, List.all_eq_true.mpr fun c hc => isDigit_of_mem_repr hc⟩,
        Nat.toList_repr, Nat.ofDigitChars_ten_toDigits]
    unfold decimal
    split
    · show (readNat n.natAbs.repr.toList).map (fun n : Nat => -(n : Int)) = some n
      rw [hread, Option.map_some]
      congr 1
      omega
    · have hhead : n.natAbs.repr.toList.head? ≠ some '-' := by
        intro h
        have hdigit := isDigit_of_mem_repr (List.mem_of_mem_head? h)
        cases hdigit
      show (if n.natAbs.repr.toList.head? = some '-' then _ else _) = some n
      rw [if_neg hhead, hread, Option.map_some]
      congr 1
      omega
  parse_null := rfl
  sum_eq ns _ _ := by
    rw [List.map_id]
    rfl
  min_eq n ns m hmem hle := by
    obtain ⟨k, hk⟩ := exists_least (List.cons_ne_nil n ns)
    have h₁ := (least_spec hk).2 m hmem
    have h₂ := (hle k (least_spec hk).1).1
    show (least (n :: ns.map id)).getD n = m
    rw [List.map_id, hk, Option.getD_some]
    exact Int.le_antisymm h₁ h₂
  max_eq n ns m hmem hle := by
    obtain ⟨k, hk⟩ := exists_greatest (List.cons_ne_nil n ns)
    have h₁ := (greatest_spec hk).2 m hmem
    have h₂ := (hle k (greatest_spec hk).1).1
    show (greatest (n :: ns.map id)).getD n = m
    rw [List.map_id, hk, Option.getD_some]
    exact Int.le_antisymm h₂ h₁
  trimDouble_eq n _ := rfl

/-- A node with rows of one number. -/
def intNode (rows : List Int) : Node Int where
  nodeId := "n"
  rows := rows
  engine _ := printScan [['i', 'd']] (rows.map fun n => [decimal n]) 0

/-- The two nodes of the failing input. -/
theorem spread_two : Spread [['i', 'd']] (fun n : Int => [decimal n]) ['t'] [1, 2]
    [intNode [1], intNode [2, 1]] where
  nodup := by decide
  mem_iff r := by simp [intNode, or_comm]
  columns_ne := List.cons_ne_nil _ _
  fits _ := rfl
  prints := by
    simp only [List.forall_mem_cons, List.not_mem_nil, false_implies, implies_true, and_true]
    exact ⟨⟨0, rfl⟩, 0, rfl⟩

/-- Its cells are plain. -/
theorem clean_two : Clean [['i', 'd']] (fun n : Int => [decimal n]) [1, 2] where
  plain := ⟨by decide, fun n _ => List.forall_mem_singleton.mpr (plain_intCell (some n))⟩
  keys m _ n _ h := by
    simp only [rowKey, Text.join, List.intercalate_singleton] at h
    exact decimal_inj h

/-- Its column holds numbers. -/
theorem overInts_count (rows : List Int) :
    OverInts Char.toLower [['i', 'd']] (fun n : Int => [decimal n]) ['t'] rows (fun _ => none)
      .count := by
  refine ⟨fun g hg => absurd hg List.not_mem_nil, fun _ _ n hn => absurd hn (by simp),
    fun part _ _ => ?_⟩
  have hnone : part.filterMap (fun _ => (none : Option Int)) = [] := by simp
  rw [hnone]
  decide

/-- Only the dot is the dot in lower case. -/
theorem toLower_eq_dot {c : Char} (h : c.toLower = Char.toLower '.') : c = '.' := by
  rcases Text.toLower_cases c with ⟨h₁, _, heq⟩ | heq
  · rw [h] at heq
    have : (Char.toLower '.').toNat = 46 := by decide
    omega
  · rw [← heq, h]
    rfl

/-- The groups of a statement that counts the rows of `t`. -/
def countGroups : Regex.Groups Char := [(1, "count(*)".toList), (5, ['t'])]

/-- The statement of the witness matches the pattern. -/
theorem matchAll_count :
    AGGREGATE.matchAll "select count(*) from t;".toList = some countGroups := by
  decide +kernel

/-- Two rows, one of them on both nodes. -/
theorem aggregate_right_iff_count :
    mergeSelect Char.toLower wholes .neverThrows "select count(*) from t;".toList
        (answers [intNode [1], intNode [2, 1]]
          (baseSqlForAggregate "select count(*) from t;".toList)) =
      .ok (answerTable (expression countGroups) (some 2)).toAsciiTable ↔
    ([1, 2] : List Int) ≠ [] ∧ (some 2 : Option Int) = some 2 :=
  aggregate_right_iff .neverThrows whole_wholes (fun _ => toLower_eq_dot) matchAll_count spread_two
    (overInts_count [1, 2]) clean_two fun _ => true

/-- So does the one with a condition behind it, which the pattern drops. -/
theorem matchAll_count_where :
    AGGREGATE.matchAll "select count(*) from t where id = 1;".toList = some countGroups := by
  decide +kernel

/-- Of the two rows only one has `id = 1`, and both are counted. -/
theorem not_aggregate_right :
    ¬ ∀ (sql : Text) (groups : Regex.Groups Char) (nodes : List (Node Int)) (rows : List Int)
      (satisfies : Int → Bool), AGGREGATE.matchAll sql = some groups →
      Spread [['i', 'd']] (fun n : Int => [decimal n]) (group groups 5) rows nodes →
      OverInts Char.toLower [['i', 'd']] (fun n : Int => [decimal n]) (group groups 5) rows
        (fun _ => none) (Aggregate.ofGroups groups) →
      mergeSelect Char.toLower wholes .neverThrows sql (answers nodes (baseSqlForAggregate sql)) =
        .ok (answerTable (expression groups) ((Aggregate.ofGroups groups).value
          ((rows.filter satisfies).map fun _ => none))).toAsciiTable := by
  intro h
  have hanswer := h _ _ _ _ (fun n => n == 1) matchAll_count_where spread_two
    (overInts_count [1, 2])
  rw [mergeSelect_answers whole_wholes (fun _ => toLower_eq_dot) matchAll_count_where spread_two
    (overInts_count [1, 2]) clean_two, if_neg (List.cons_ne_nil _ _), Except.ok.injEq] at hanswer
  obtain ⟨-, -, -, -, -, hplain⟩ := ofGroups_spec matchAll_count_where
  exact absurd (answerTable_inj hplain hanswer) (by decide)

end QueryPostProcessor

end DisMiniSql.Distributed
