import Mathlib.Data.List.Basic
import Mathlib.Data.List.Forall2
import Mathlib.Order.Lattice

/-!
# `DisMiniSql.Lib.Comparison`: comparisons of elements and of tuples

A comparison may be an order on the elements of a list and not on all values of its type.
`TotalPreorder cmp xs` says that it is one on the elements of `xs`, and `pairwise_mergeSort` that a
stable sort then puts them in order.

`lexCompare lt xs ys` is negative, zero or positive: the first column in which one side is less than
the other decides. Swapping the sides changes the sign (`lexCompare_swap`). On tuples whose columns
are comparable, by which an element that is neither less nor greater is equal, only equal tuples
compare as zero (`eq_of_lexCompare`), and the comparison is transitive (`lexCompare_trans`).
-/

set_option autoImplicit false

namespace DisMiniSql.Lib

universe u

variable {α : Type u} {lt : α → α → Bool}

/-! ### Sorting by a comparison -/

section

variable {cmp : α → α → Ordering} {xs ys : List α}

/-- A comparison is a total preorder on the elements of a list: swapping the sides swaps the result,
it is transitive, and equal elements compare alike with every other one. -/
structure TotalPreorder (cmp : α → α → Ordering) (xs : List α) : Prop where
  swap : ∀ a ∈ xs, ∀ b ∈ xs, cmp b a = (cmp a b).swap
  trans : ∀ a ∈ xs, ∀ b ∈ xs, ∀ c ∈ xs, (cmp a b).isLE → (cmp b c).isLE → (cmp a c).isLE
  congr : ∀ a ∈ xs, ∀ b ∈ xs, ∀ c ∈ xs, cmp a b = .eq → cmp a c = cmp b c

namespace TotalPreorder

/-- Fewer elements keep a comparison an order. -/
theorem subset (h : TotalPreorder cmp xs) (hsub : ∀ a ∈ ys, a ∈ xs) : TotalPreorder cmp ys where
  swap a ha b hb := h.swap a (hsub a ha) b (hsub b hb)
  trans a ha b hb c hc := h.trans a (hsub a ha) b (hsub b hb) c (hsub c hc)
  congr a ha b hb c hc := h.congr a (hsub a ha) b (hsub b hb) c (hsub c hc)

/-- The comparison the other way round. -/
theorem reverse (h : TotalPreorder cmp xs) : TotalPreorder (fun a b => cmp b a) xs where
  swap a ha b hb := h.swap b hb a ha
  trans a ha b hb c hc hab hbc := h.trans c hc b hb a ha hbc hab
  congr a ha b hb c hc heq := by
    rw [h.swap a ha c hc, h.swap b hb c hc, h.congr a ha b hb c hc]
    rw [h.swap b hb a ha]
    show (cmp b a).swap = .eq
    rw [heq]
    rfl

/-- Any two elements are comparable. -/
theorem isLE_total (h : TotalPreorder cmp xs) {a b : α} (ha : a ∈ xs) (hb : b ∈ xs) :
    (cmp a b).isLE = true ∨ (cmp b a).isLE = true := by
  rw [h.swap a ha b hb]
  cases cmp a b
  · exact .inl rfl
  · exact .inl rfl
  · exact .inr rfl

/-- A stable sort puts the elements in order. -/
theorem pairwise_mergeSort (h : TotalPreorder cmp xs) :
    (xs.mergeSort fun a b => (cmp a b).isLE).Pairwise fun a b => (cmp a b).isLE = true := by
  have hsort : (xs.attach.mergeSort fun a b => (cmp a.1 b.1).isLE).map Subtype.val =
      xs.mergeSort fun a b => (cmp a b).isLE := by
    rw [List.map_mergeSort (s := fun a b => (cmp a b).isLE) fun _ _ _ _ => rfl]
    rw [List.attach_map_subtype_val]
  rw [← hsort, List.pairwise_map]
  refine @List.pairwise_mergeSort {a // a ∈ xs} (fun a b => (cmp a.1 b.1).isLE) ?_ ?_ _
  · exact fun a b c hab hbc => h.trans a.1 a.2 b.1 b.2 c.1 c.2 hab hbc
  · intro a b
    rw [Bool.or_eq_true]
    exact h.isLE_total a.2 b.2

end TotalPreorder

end

/-! ### Tuples, column by column -/

/-- The sign of the first difference of two tuples. -/
def lexCompare (lt : α → α → Bool) : List α → List α → Int
  | x :: xs, y :: ys => if lt x y then -1 else if lt y x then 1 else lexCompare lt xs ys
  | _, _ => 0

/-- The other way round. -/
theorem lexCompare_swap (hasymm : ∀ x y, lt x y = true → lt y x = false) (xs ys : List α) :
    lexCompare lt ys xs = -lexCompare lt xs ys := by
  induction xs generalizing ys with
  | nil => cases ys <;> rfl
  | cons x xs ih =>
    cases ys with
    | nil => rfl
    | cons y ys =>
      unfold lexCompare
      cases hxy : lt x y with
      | true => simp [hasymm x y hxy]
      | false =>
        cases hyx : lt y x with
        | true => simp
        | false => simpa using ih ys

/-- Tuples without a difference. -/
theorem lexCompare_eq_zero {xs ys : List α}
    (h : List.Forall₂ (fun x y => lt x y = false ∧ lt y x = false) xs ys) :
    lexCompare lt xs ys = 0 := by
  induction h with
  | nil => rfl
  | cons hxy _ ih =>
    rw [lexCompare, hxy.1, hxy.2, if_neg Bool.false_ne_true, if_neg Bool.false_ne_true]
    exact ih

/-- Comparable elements: one that is neither less nor greater is equal. -/
def Comparable (lt : α → α → Bool) (x y : α) : Prop :=
  lt x y = false → lt y x = false → x = y

/-- Only equal tuples compare as zero. -/
theorem eq_of_lexCompare {xs ys : List α} (h : List.Forall₂ (Comparable lt) xs ys)
    (hzero : lexCompare lt xs ys = 0) : xs = ys := by
  induction h with
  | nil => rfl
  | @cons x y xs ys hxy _ ih =>
    unfold lexCompare at hzero
    cases hlt : lt x y with
    | true =>
      rw [hlt, if_pos rfl] at hzero
      exact absurd hzero (by decide)
    | false =>
      cases hgt : lt y x with
      | true =>
        rw [hlt, hgt, if_neg Bool.false_ne_true, if_pos rfl] at hzero
        exact absurd hzero (by decide)
      | false =>
        rw [hlt, hgt, if_neg Bool.false_ne_true, if_neg Bool.false_ne_true] at hzero
        rw [hxy hlt hgt, ih hzero]

/-- The comparison of tuples is transitive. -/
theorem lexCompare_trans (htrans : ∀ x y z, lt x y = true → lt y z = true → lt x z = true)
    {xs ys zs : List α}
    (hxy : List.Forall₂ (Comparable lt) xs ys) (hyz : List.Forall₂ (Comparable lt) ys zs)
    (h₁ : lexCompare lt xs ys ≤ 0) (h₂ : lexCompare lt ys zs ≤ 0) : lexCompare lt xs zs ≤ 0 := by
  induction hxy generalizing zs with
  | nil => exact Int.le_refl 0
  | @cons x y xs ys hx _ ih =>
    cases hyz with
    | @cons _ z _ zs hy hyz =>
      unfold lexCompare at h₁ h₂ ⊢
      -- a positive sign in the first column ends the comparison
      have hgt₁ : lt y x = true → lt x y = true := by
        intro hgt
        cases hlt : lt x y with
        | true => rfl
        | false => simp [hlt, hgt] at h₁
      have hgt₂ : lt z y = true → lt y z = true := by
        intro hgt
        cases hlt : lt y z with
        | true => rfl
        | false => simp [hlt, hgt] at h₂
      cases hlt₁ : lt x y with
      | true =>
        cases hlt₂ : lt y z with
        | true => simp [htrans x y z hlt₁ hlt₂]
        | false =>
          have heq : y = z := hy hlt₂ (by
            cases hgt : lt z y with
            | true => rw [hgt₂ hgt] at hlt₂; exact hlt₂
            | false => rfl)
          simp [← heq, hlt₁]
      | false =>
        have heq : x = y := hx hlt₁ (by
          cases hgt : lt y x with
          | true => rw [hgt₁ hgt] at hlt₁; exact hlt₁
          | false => rfl)
        subst heq
        cases hlt₂ : lt x z with
        | true => simp
        | false =>
          have hgt : lt z x = false := by
            cases hgt : lt z x with
            | true => rw [hgt₂ hgt] at hlt₂; exact hlt₂
            | false => rfl
          have h₁' : lexCompare lt xs ys ≤ 0 := by simpa [hlt₁] using h₁
          have h₂' : lexCompare lt ys zs ≤ 0 := by simpa [hlt₂, hgt] using h₂
          simpa [hgt] using ih hyz h₁' h₂'

end DisMiniSql.Lib
