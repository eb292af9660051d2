import Mathlib.Data.Set.Basic
import Mathlib.Logic.Function.Basic

/-!
# `DisMiniSql.Lib.LocalUpdate`: updates of a function at some of its arguments

`LocalOn W f` says that `f` changes a map only at the keys of `W`, and that what it writes there
depends on those keys only. Such updates compose. Where several of them work on pairwise disjoint
sets, their order does not matter: `LocalOn.foldl_eq_of_mem` and `LocalOn.foldl_eq_of_not_mem` give
the value at each key. Where the sets go by labels, only the order within a label matters:
`LocalOn.foldl_eq_filter`.
-/

set_option autoImplicit false

namespace DisMiniSql.Lib

universe u v w

variable {κ : Type u} {α : Type v} {ι : Type w}

/-- `f` writes keys of `W` only, and reads no other key for it. -/
structure LocalOn (W : Set κ) (f : (κ → α) → κ → α) : Prop where
  outside : ∀ d k, k ∉ W → f d k = d k
  inside : ∀ d e, (∀ k ∈ W, d k = e k) → ∀ k ∈ W, f d k = f e k

namespace LocalOn

/-- The update that changes nothing is local on every set. -/
theorem id (W : Set κ) : LocalOn (α := α) W fun d => d where
  outside := fun _ _ _ => rfl
  inside := fun _ _ h => h

/-- An update stays local on a larger set. -/
theorem mono {W V : Set κ} {f : (κ → α) → κ → α} (hf : LocalOn W f) (hWV : W ⊆ V) :
    LocalOn V f where
  outside := fun d k hk => hf.outside d k fun hW => hk (hWV hW)
  inside := by
    intro d e hde k hk
    by_cases hW : k ∈ W
    · exact hf.inside d e (fun i hi => hde i (hWV hi)) k hW
    · rw [hf.outside d k hW, hf.outside e k hW]
      exact hde k hk

/-- Two local updates, one after the other. -/
theorem comp {W : Set κ} {f g : (κ → α) → κ → α} (hg : LocalOn W g) (hf : LocalOn W f) :
    LocalOn W fun d => g (f d) where
  outside := by
    intro d k hk
    show g (f d) k = d k
    rw [hg.outside (f d) k hk, hf.outside d k hk]
  inside := fun d e hde k hk => hg.inside (f d) (f e) (hf.inside d e hde) k hk

/-- A new value at one key. -/
theorem update [DecidableEq κ] {W : Set κ} {key : κ} (h : key ∈ W) (a : α) :
    LocalOn W fun d => Function.update d key a where
  outside := by
    intro d k hk
    have hne : k ≠ key := fun heq => hk (heq.symm ▸ h)
    exact Function.update_of_ne hne _ _
  inside := by
    intro d e hde k hk
    by_cases heq : k = key
    · simp [heq]
    · simp [heq, hde k hk]

/-- A choice between local updates by the value at one key. -/
theorem choose_at {W : Set κ} {key : κ} (h : key ∈ W) {f : α → (κ → α) → κ → α}
    (hf : ∀ a, LocalOn W (f a)) : LocalOn W fun d => f (d key) d where
  outside := fun d k hk => (hf (d key)).outside d k hk
  inside := by
    intro d e hde k hk
    show f (d key) d k = f (e key) e k
    rw [hde key h]
    exact (hf (e key)).inside d e hde k hk

/-- A list of updates that are local on one set. -/
theorem foldl {W : Set κ} {f : ι → (κ → α) → κ → α} (l : List ι) (hf : ∀ i ∈ l, LocalOn W (f i)) :
    LocalOn W fun d => l.foldl (fun d i => f i d) d := by
  induction l with
  | nil => exact id W
  | cons i l ih =>
    have hrest : LocalOn W fun d => l.foldl (fun d i => f i d) d :=
      ih fun j hj => hf j (List.mem_cons_of_mem i hj)
    exact hrest.comp (hf i List.mem_cons_self)

section Disjoint

variable {W : ι → Set κ} {f : ι → (κ → α) → κ → α}

/-- Outside of all sets, a list of updates changes nothing. -/
theorem foldl_eq_of_not_mem (l : List ι) (hf : ∀ i ∈ l, LocalOn (W i) (f i)) (d : κ → α) {k : κ}
    (hk : ∀ i ∈ l, k ∉ W i) : l.foldl (fun d i => f i d) d k = d k := by
  induction l generalizing d with
  | nil => rfl
  | cons i l ih =>
    show l.foldl (fun d i => f i d) (f i d) k = d k
    rw [ih (fun j hj => hf j (List.mem_cons_of_mem i hj)) (f i d)
      fun j hj => hk j (List.mem_cons_of_mem i hj)]
    exact (hf i List.mem_cons_self).outside d k (hk i List.mem_cons_self)

/-- In the set of one of the updates, a list of updates on pairwise disjoint sets does what this one
does alone. -/
theorem foldl_eq_of_mem (l : List ι) (hf : ∀ i ∈ l, LocalOn (W i) (f i))
    (hW : l.Pairwise fun i j => ∀ k ∈ W i, k ∉ W j) (d : κ → α) {i : ι} (hi : i ∈ l) {k : κ}
    (hk : k ∈ W i) : l.foldl (fun d i => f i d) d k = f i d k := by
  induction l generalizing d with
  | nil => exact absurd hi List.not_mem_nil
  | cons j l ih =>
    have hfl : ∀ i ∈ l, LocalOn (W i) (f i) := fun i hi => hf i (List.mem_cons_of_mem j hi)
    have hj : LocalOn (W j) (f j) := hf j List.mem_cons_self
    obtain ⟨hjl, hl⟩ := List.pairwise_cons.mp hW
    show l.foldl (fun d i => f i d) (f j d) k = f i d k
    rcases List.mem_cons.mp hi with rfl | hi'
    · -- the updates after this one leave its keys alone
      exact foldl_eq_of_not_mem l hfl (f i d) fun m hm => hjl m hm k hk
    · -- the first update leaves the keys of `W i` as they were
      have hagree : ∀ x ∈ W i, f j d x = d x :=
        fun x hx => hj.outside d x fun hxj => hjl i hi' x hxj hx
      rw [ih hfl hl (f j d) hi']
      exact (hfl i hi').inside (f j d) d hagree k hk

/-- On the set of one label, a list of updates does what those with this label do alone. -/
theorem foldl_eq_filter {β : Type u} [DecidableEq β] {V : β → Set κ} {label : ι → β} (l : List ι)
    (hf : ∀ i ∈ l, LocalOn (V (label i)) (f i)) (hV : ∀ a b, a ≠ b → ∀ k ∈ V a, k ∉ V b) (b : β)
    {d e : κ → α} (hde : ∀ k ∈ V b, d k = e k) {k : κ} (hk : k ∈ V b) :
    l.foldl (fun d i => f i d) d k = (l.filter (label · = b)).foldl (fun d i => f i d) e k := by
  induction l generalizing d e with
  | nil => exact hde k hk
  | cons i l ih =>
    have hi : LocalOn (V (label i)) (f i) := hf i List.mem_cons_self
    have hfl : ∀ j ∈ l, LocalOn (V (label j)) (f j) := fun j hj => hf j (List.mem_cons_of_mem i hj)
    by_cases hlabel : label i = b
    · -- both lists start with this update
      subst hlabel
      rw [List.filter_cons_of_pos (by simp)]
      exact ih hfl (hi.inside d e hde)
    · -- the update leaves the set of the label alone
      rw [List.filter_cons_of_neg (by simpa using hlabel)]
      refine ih hfl fun x hx => ?_
      show f i d x = e x
      rw [hi.outside d x fun hxi => hV _ _ hlabel x hxi hx]
      exact hde x hx

end Disjoint

end LocalOn

end DisMiniSql.Lib
