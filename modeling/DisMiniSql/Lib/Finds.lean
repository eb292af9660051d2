import Mathlib.Data.List.Basic
import Mathlib.Data.List.Nodup

/-!
# `DisMiniSql.Lib.Finds`: a list that is searched by a key

`Finds f l key val` says that the partial function `f` looks its argument up among the keys of the
list `l`. Two functions that look up in one list are the same (`Finds.eq`), and an entry with a new
key goes to the end of the list (`Finds.append`).
-/

set_option autoImplicit false

namespace DisMiniSql.Lib

universe u v w

variable {κ : Type u} {ν : Type v} {α : Type w} [DecidableEq κ]

/-- `f` looks the key up in the list `l`, and answers the value of the first entry that has it. -/
def Finds (f : κ → Option α) (l : List ν) (key : ν → κ) (val : ν → α) : Prop :=
  ∀ k, f k = (l.find? fun x => decide (key x = k)).map val

variable {f g : κ → Option α} {l : List ν} {key : ν → κ} {val : ν → α}

/-- Two searches of one list agree. -/
theorem Finds.eq (hf : Finds f l key val) (hg : Finds g l key val) (k : κ) : g k = f k := by
  rw [hf, hg]

/-- A new key is found at the end of the list, and every other key where it was. -/
theorem Finds.append (h : Finds f l key val) {y : ν} (hnew : key y ∉ l.map key)
    (hg : ∀ k, g k = if k = key y then some (val y) else f k) :
    Finds g (l ++ [y]) key val := by
  intro k
  rw [hg, List.find?_append, List.find?_singleton]
  by_cases hk : k = key y
  · subst hk
    have hnone : (l.find? fun x => decide (key x = key y)) = none := by
      rw [List.find?_eq_none]
      intro x hx hkey
      rw [decide_eq_true_eq] at hkey
      exact hnew (List.mem_map.mpr ⟨x, hx, hkey⟩)
    simp [hnone]
  · have hne : ¬ key y = k := fun heq => hk heq.symm
    simp [hk, hne, h k]

/-- A found value comes from an element of the list. -/
theorem Finds.mem (h : Finds f l key val) {k : κ} {v : α} (hf : f k = some v) :
    ∃ x ∈ l, key x = k ∧ val x = v := by
  rw [h k, Option.map_eq_some_iff] at hf
  obtain ⟨x, hx, hval⟩ := hf
  exact ⟨x, List.mem_of_find?_eq_some hx, by simpa using List.find?_some hx, hval⟩

/-- A key that is not found is no entry's. -/
theorem Finds.not_mem (h : Finds f l key val) {k : κ} (hf : f k = none) : k ∉ l.map key := by
  intro hmem
  obtain ⟨x, hx, hkey⟩ := List.mem_map.mp hmem
  rw [h k, Option.map_eq_none_iff, List.find?_eq_none] at hf
  exact hf x hx (by simpa using hkey)

/-- Where no two entries share a key, each is found under its own. -/
theorem Finds.of_mem (h : Finds f l key val) (hnodup : (l.map key).Nodup) {x : ν} (hx : x ∈ l) :
    f (key x) = some (val x) := by
  cases hf : f (key x) with
  | none => exact absurd (List.mem_map_of_mem hx) (h.not_mem hf)
  | some v =>
    obtain ⟨y, hy, hkey, hval⟩ := h.mem hf
    rw [← hval, List.inj_on_of_nodup_map hnodup hy hx hkey]

end DisMiniSql.Lib
