import Mathlib.Data.List.Basic

/-!
# `DisMiniSql.Lib.Regex`: patterns with groups

Regular expressions over an alphabet whose repeated parts are single characters. `run` is a
backtracking matcher: it lists all ways to match a front part of a text, in the order in which they
are tried. `matchAll` is the first way that takes the whole text, with its groups.

`Matches` says which texts a pattern takes and what its groups hold then, without an order, and
`mem_run_iff` that `run` finds these ways and no others. So the groups of `matchAll` are those of
a way to match the whole text (`matches_of_matchAll`).
-/

set_option autoImplicit false

namespace DisMiniSql.Lib

universe u

/-- A pattern. -/
inductive Regex (α : Type u)
  | eps
  /-- One character of a class. -/
  | one (p : α → Bool)
  /-- As many characters of a class as possible. -/
  | many (p : α → Bool)
  /-- As few characters of a class as possible. -/
  | manyLazy (p : α → Bool)
  | seq (r s : Regex α)
  /-- The first one is tried first. -/
  | alt (r s : Regex α)
  | group (n : Nat) (r : Regex α)

namespace Regex

variable {α : Type u}

/-- One or more characters of a class. -/
def plus (p : α → Bool) : Regex α := seq (one p) (many p)

/-- With the pattern if possible. -/
def opt (r : Regex α) : Regex α := alt r eps

/-- One pattern after the other. -/
def all : List (Regex α) → Regex α
  | [] => eps
  | r :: rs => seq r (all rs)

/-- The groups that took part in a match, with what they hold. -/
abbrev Groups (α : Type u) := List (Nat × List α)

/-- A way to match a front part of a text. -/
structure Found (α : Type u) where
  taken : List α
  rest : List α
  groups : Groups α

/-- A text with the characters of a class in front, cut after each of them. The shortest front part
comes first. -/
def fronts (p : α → Bool) : List α → List (Found α)
  | [] => [⟨[], [], []⟩]
  | c :: s =>
    ⟨[], c :: s, []⟩ ::
      if p c then (fronts p s).map (fun m => { m with taken := c :: m.taken }) else []

/-- The ways to match, in the order in which they are tried. -/
def run : Regex α → List α → List (Found α)
  | eps, s => [⟨[], s, []⟩]
  | one _, [] => []
  | one p, c :: s => if p c then [⟨[c], s, []⟩] else []
  | many p, s => (fronts p s).reverse
  | manyLazy p, s => fronts p s
  | seq r t, s =>
    (run r s).flatMap fun m => (run t m.rest).map fun m' =>
      ⟨m.taken ++ m'.taken, m'.rest, m.groups ++ m'.groups⟩
  | alt r t, s => run r s ++ run t s
  | group n r, s => (run r s).map fun m => { m with groups := (n, m.taken) :: m.groups }

/-- The groups of the first way to match a whole text. -/
def matchAll (r : Regex α) (s : List α) : Option (Groups α) :=
  ((run r s).find? (·.rest.isEmpty)).map (·.groups)

/-- No class of the pattern has the character. -/
def avoids (a : α) : Regex α → Bool
  | eps => true
  | one p | many p | manyLazy p => !p a
  | seq r t | alt r t => avoids a r && avoids a t
  | group _ r => avoids a r

/-- The numbers of the groups. -/
def numbers : Regex α → List Nat
  | eps | one _ | many _ | manyLazy _ => []
  | seq r t | alt r t => numbers r ++ numbers t
  | group n r => n :: numbers r

/-- What a group holds, if it took part. -/
def Groups.get (groups : Groups α) (n : Nat) : Option (List α) := groups.lookup n

/-- A pattern takes a text, and its groups hold these parts of it. -/
inductive Matches : Regex α → List α → Groups α → Prop
  | eps : Matches eps [] []
  | one {p : α → Bool} {c : α} (h : p c = true) : Matches (one p) [c] []
  | many {p : α → Bool} {s : List α} (h : ∀ c ∈ s, p c = true) : Matches (many p) s []
  | manyLazy {p : α → Bool} {s : List α} (h : ∀ c ∈ s, p c = true) : Matches (manyLazy p) s []
  | seq {r t : Regex α} {s s' : List α} {g g' : Groups α} (h : Matches r s g)
      (h' : Matches t s' g') : Matches (seq r t) (s ++ s') (g ++ g')
  | altLeft {r t : Regex α} {s : List α} {g : Groups α} (h : Matches r s g) : Matches (alt r t) s g
  | altRight {r t : Regex α} {s : List α} {g : Groups α} (h : Matches t s g) :
      Matches (alt r t) s g
  | group {r : Regex α} {s : List α} {g : Groups α} (n : Nat) (h : Matches r s g) :
      Matches (group n r) s ((n, s) :: g)

/-! ### The ways that are found -/

/-- By induction on the text. -/
theorem mem_fronts_iff {p : α → Bool} {s : List α} {m : Found α} :
    m ∈ fronts p s ↔ s = m.taken ++ m.rest ∧ (∀ c ∈ m.taken, p c = true) ∧ m.groups = [] := by
  induction s generalizing m with
  | nil =>
    rw [fronts, List.mem_singleton]
    constructor
    · rintro rfl
      exact ⟨rfl, fun c hc => absurd hc List.not_mem_nil, rfl⟩
    · rintro ⟨hs, -, hg⟩
      obtain ⟨htaken, hrest⟩ := List.append_eq_nil_iff.mp hs.symm
      cases m
      simp only at htaken hrest hg
      rw [htaken, hrest, hg]
  | cons c s ih =>
    rw [fronts, List.mem_cons]
    constructor
    · rintro (rfl | hm)
      · exact ⟨rfl, fun d hd => absurd hd List.not_mem_nil, rfl⟩
      · split at hm
        · next hc =>
          obtain ⟨m', hm', rfl⟩ := List.mem_map.mp hm
          obtain ⟨hs, hall, hg⟩ := ih.mp hm'
          exact ⟨congrArg (c :: ·) hs, List.forall_mem_cons.mpr ⟨hc, hall⟩, hg⟩
        · exact absurd hm List.not_mem_nil
    · obtain ⟨taken, rest, groups⟩ := m
      rintro ⟨hs, hall, hg⟩
      simp only at hs hall hg
      subst hg
      cases taken with
      | nil => exact .inl (by rw [hs, List.nil_append])
      | cons d taken =>
        rw [List.cons_append, List.cons.injEq] at hs
        obtain ⟨rfl, hs⟩ := hs
        rw [List.forall_mem_cons] at hall
        rw [if_pos hall.1]
        exact .inr (List.mem_map.mpr ⟨⟨taken, rest, []⟩, ih.mpr ⟨hs, hall.2, rfl⟩, rfl⟩)

/-- `run` finds the ways to match and no others. By induction on the pattern. -/
theorem mem_run_iff {r : Regex α} {s : List α} {m : Found α} :
    m ∈ run r s ↔ s = m.taken ++ m.rest ∧ Matches r m.taken m.groups := by
  induction r generalizing s m with
  | eps =>
    rw [run, List.mem_singleton]
    constructor
    · rintro rfl
      exact ⟨rfl, .eps⟩
    · obtain ⟨taken, rest, groups⟩ := m
      rintro ⟨hs, hm⟩
      cases hm
      rw [hs, List.nil_append]
  | one p =>
    cases s with
    | nil =>
      rw [run]
      refine iff_of_false List.not_mem_nil ?_
      rintro ⟨hs, hm⟩
      have htaken := (List.append_eq_nil_iff.mp hs.symm).1
      rw [htaken] at hm
      cases hm
    | cons c s =>
      rw [run]
      obtain ⟨taken, rest, groups⟩ := m
      constructor
      · intro hm
        split at hm
        · next hc =>
          obtain ⟨rfl, rfl, rfl⟩ := Found.mk.inj (List.mem_singleton.mp hm)
          exact ⟨rfl, .one hc⟩
        · exact absurd hm List.not_mem_nil
      · rintro ⟨hs, hm⟩
        cases hm with
        | @one _ d hd =>
          obtain ⟨rfl, rfl⟩ := List.cons.inj hs
          rw [if_pos hd]
          exact List.mem_cons_self
  | many p =>
    rw [run, List.mem_reverse, mem_fronts_iff]
    obtain ⟨taken, rest, groups⟩ := m
    refine and_congr_right fun _ => ⟨?_, ?_⟩
    · rintro ⟨hall, rfl⟩
      exact .many hall
    · intro hm
      cases hm with
      | many hall => exact ⟨hall, rfl⟩
  | manyLazy p =>
    rw [run, mem_fronts_iff]
    obtain ⟨taken, rest, groups⟩ := m
    refine and_congr_right fun _ => ⟨?_, ?_⟩
    · rintro ⟨hall, rfl⟩
      exact .manyLazy hall
    · intro hm
      cases hm with
      | manyLazy hall => exact ⟨hall, rfl⟩
  | seq r t ihr iht =>
    rw [run, List.mem_flatMap]
    constructor
    · rintro ⟨m₁, hm₁, hm⟩
      obtain ⟨m₂, hm₂, rfl⟩ := List.mem_map.mp hm
      obtain ⟨hs, hr⟩ := ihr.mp hm₁
      obtain ⟨hrest, ht⟩ := iht.mp hm₂
      exact ⟨by rw [hs, hrest, List.append_assoc], .seq hr ht⟩
    · obtain ⟨taken, rest, groups⟩ := m
      rintro ⟨hs, hm⟩
      cases hm with
      | @seq _ _ s₁ s₂ g₁ g₂ hr ht =>
        have hs : s = s₁ ++ (s₂ ++ rest) := hs.trans (List.append_assoc s₁ s₂ rest)
        refine ⟨⟨s₁, s₂ ++ rest, g₁⟩, ihr.mpr ⟨hs, hr⟩, List.mem_map.mpr ⟨⟨s₂, rest, g₂⟩, ?_, rfl⟩⟩
        exact iht.mpr ⟨rfl, ht⟩
  | alt r t ihr iht =>
    rw [run, List.mem_append, ihr, iht, ← and_or_left]
    refine and_congr_right fun _ => ⟨?_, ?_⟩
    · exact fun h => h.elim .altLeft .altRight
    · intro hm
      cases hm with
      | altLeft h => exact .inl h
      | altRight h => exact .inr h
  | group n r ih =>
    rw [run, List.mem_map]
    constructor
    · rintro ⟨m', hm', rfl⟩
      obtain ⟨hs, hr⟩ := ih.mp hm'
      exact ⟨hs, .group n hr⟩
    · obtain ⟨taken, rest, groups⟩ := m
      rintro ⟨hs, hm⟩
      dsimp only at hm
      cases hm with
      | @group _ _ g _ hr => exact ⟨⟨taken, rest, g⟩, ih.mpr ⟨hs, hr⟩, rfl⟩

/-! ### Whole texts -/

/-- What the matcher finds is a match: `Matches` says what an expression means, the lemmas below
what each of its forms does. -/
theorem matches_of_matchAll {r : Regex α} {s : List α} {g : Groups α}
    (h : matchAll r s = some g) : Matches r s g := by
  obtain ⟨m, hm, rfl⟩ := Option.map_eq_some_iff.mp h
  obtain ⟨hs, hmatches⟩ := mem_run_iff.mp (List.mem_of_find?_eq_some hm)
  have hrest : m.rest = [] :=
    List.isEmpty_iff.mp (List.find?_some (p := fun m : Found α => m.rest.isEmpty) hm)
  rw [hs, hrest, List.append_nil]
  exact hmatches

/-! ### What a pattern takes

One equation for each constructor. -/

section
variable {r t : Regex α} {p : α → Bool} {s : List α} {g : Groups α} {n : Nat}

/-- The empty expression matches the empty string. -/
theorem matches_eps_iff : Matches eps s g ↔ s = [] ∧ g = [] := by
  constructor
  · intro h
    cases h
    exact ⟨rfl, rfl⟩
  · rintro ⟨rfl, rfl⟩
    exact .eps

/-- One character. -/
theorem matches_one_iff : Matches (one p) s g ↔ ∃ c, p c = true ∧ s = [c] ∧ g = [] := by
  constructor
  · intro h
    cases h with
    | one hc => exact ⟨_, hc, rfl, rfl⟩
  · rintro ⟨c, hc, rfl, rfl⟩
    exact .one hc

/-- Any number of characters. -/
theorem matches_many_iff : Matches (many p) s g ↔ (∀ c ∈ s, p c = true) ∧ g = [] := by
  constructor
  · intro h
    cases h with
    | many hall => exact ⟨hall, rfl⟩
  · rintro ⟨hall, rfl⟩
    exact .many hall

/-- One expression after the other, with the groups of both. -/
theorem matches_seq_iff : Matches (seq r t) s g ↔
    ∃ s₁ s₂ g₁ g₂, s = s₁ ++ s₂ ∧ g = g₁ ++ g₂ ∧ Matches r s₁ g₁ ∧ Matches t s₂ g₂ := by
  constructor
  · intro h
    cases h with
    | seq hr ht => exact ⟨_, _, _, _, rfl, rfl, hr, ht⟩
  · rintro ⟨s₁, s₂, g₁, g₂, rfl, rfl, hr, ht⟩
    exact .seq hr ht

/-- Either of two. -/
theorem matches_alt_iff : Matches (alt r t) s g ↔ Matches r s g ∨ Matches t s g := by
  constructor
  · intro h
    cases h with
    | altLeft h => exact .inl h
    | altRight h => exact .inr h
  · exact fun h => h.elim .altLeft .altRight

/-- A group also records the string it matched. -/
theorem matches_group_iff : Matches (group n r) s g ↔ ∃ g', g = (n, s) :: g' ∧ Matches r s g' := by
  constructor
  · intro h
    cases h with
    | group _ h => exact ⟨_, rfl, h⟩
  · rintro ⟨g', rfl, h⟩
    exact .group n h

/-- One or more characters. -/
theorem matches_plus_iff : Matches (plus p) s g ↔ s ≠ [] ∧ (∀ c ∈ s, p c = true) ∧ g = [] := by
  rw [plus, matches_seq_iff]
  constructor
  · rintro ⟨s₁, s₂, g₁, g₂, rfl, rfl, hone, hmany⟩
    obtain ⟨c, hc, rfl, rfl⟩ := matches_one_iff.mp hone
    obtain ⟨hall, rfl⟩ := matches_many_iff.mp hmany
    exact ⟨List.cons_ne_nil _ _, List.forall_mem_cons.mpr ⟨hc, hall⟩, rfl⟩
  · rintro ⟨hne, hall, rfl⟩
    obtain ⟨c, s, rfl⟩ := List.exists_cons_of_ne_nil hne
    rw [List.forall_mem_cons] at hall
    exact ⟨[c], s, [], [], rfl, rfl, .one hall.1, .many hall.2⟩

theorem matches_all_nil_iff : Matches (all []) s g ↔ s = [] ∧ g = [] := matches_eps_iff

/-- The first of a list, then the others. -/
theorem matches_all_cons_iff {rs : List (Regex α)} : Matches (all (r :: rs)) s g ↔
    ∃ s₁ s₂ g₁ g₂, s = s₁ ++ s₂ ∧ g = g₁ ++ g₂ ∧ Matches r s₁ g₁ ∧ Matches (all rs) s₂ g₂ :=
  matches_seq_iff

/-- Two lists of expressions, by induction on the first. -/
theorem matches_all_append_iff {rs ts : List (Regex α)} : Matches (all (rs ++ ts)) s g ↔
    ∃ s₁ s₂ g₁ g₂, s = s₁ ++ s₂ ∧ g = g₁ ++ g₂ ∧ Matches (all rs) s₁ g₁ ∧
      Matches (all ts) s₂ g₂ := by
  induction rs generalizing s g with
  | nil =>
    constructor
    · exact fun h => ⟨[], s, [], g, rfl, rfl, .eps, h⟩
    · rintro ⟨s₁, s₂, g₁, g₂, rfl, rfl, hnil, h⟩
      obtain ⟨rfl, rfl⟩ := matches_all_nil_iff.mp hnil
      exact h
  | cons r rs ih =>
    rw [List.cons_append, matches_all_cons_iff]
    constructor
    · rintro ⟨s₁, s₂, g₁, g₂, rfl, rfl, hr, hall⟩
      obtain ⟨s₃, s₄, g₃, g₄, rfl, rfl, hrs, hts⟩ := ih.mp hall
      exact ⟨s₁ ++ s₃, s₄, g₁ ++ g₃, g₄, (List.append_assoc _ _ _).symm,
        (List.append_assoc _ _ _).symm, .seq hr hrs, hts⟩
    · rintro ⟨s₁, s₂, g₁, g₂, rfl, rfl, hrs, hts⟩
      obtain ⟨s₃, s₄, g₃, g₄, rfl, rfl, hr, hall⟩ := matches_all_cons_iff.mp hrs
      exact ⟨s₃, s₄ ++ s₂, g₃, g₄ ++ g₂, List.append_assoc _ _ _, List.append_assoc _ _ _, hr,
        ih.mpr ⟨s₄, s₂, g₄, g₂, rfl, rfl, hall, hts⟩⟩

/-- By induction on the match. -/
theorem not_mem_of_avoids {a : α} (hm : Matches r s g) (h : r.avoids a = true) : a ∉ s := by
  have hclass {p : α → Bool} {s : List α} (hall : ∀ c ∈ s, p c = true) (hp : (!p a) = true) :
      a ∉ s := by
    intro hmem
    rw [hall a hmem] at hp
    exact Bool.false_ne_true hp
  induction hm with
  | eps => exact List.not_mem_nil
  | one hc => exact hclass (List.forall_mem_singleton.mpr hc) h
  | many hall | manyLazy hall => exact hclass hall h
  | seq _ _ ihr iht =>
    rw [avoids, Bool.and_eq_true] at h
    rw [List.mem_append, not_or]
    exact ⟨ihr h.1, iht h.2⟩
  | altLeft _ ih =>
    rw [avoids, Bool.and_eq_true] at h
    exact ih h.1
  | altRight _ ih =>
    rw [avoids, Bool.and_eq_true] at h
    exact ih h.2
  | group _ _ ih => exact ih h

/-- A group whose number the pattern does not have took no part. By induction on the match. -/
theorem lookup_eq_none (hm : Matches r s g) (h : n ∉ r.numbers) : g.lookup n = none := by
  induction hm with
  | eps | one _ | many _ | manyLazy _ => rfl
  | seq _ _ ihr iht =>
    rw [numbers, List.mem_append, not_or] at h
    rw [List.lookup_append, ihr h.1, iht h.2]
    rfl
  | altLeft _ ih => exact ih fun hn => h (List.mem_append_left _ hn)
  | altRight _ ih => exact ih fun hn => h (List.mem_append_right _ hn)
  | group m _ ih =>
    rw [numbers, List.mem_cons, not_or] at h
    have hne : (n == m) = false := beq_eq_false_iff_ne.mpr h.1
    rw [List.lookup_cons, hne]
    exact ih h.2

end

end Regex

end DisMiniSql.Lib
