import Mathlib.Data.List.Basic

/-!
# `DisMiniSql.Lib.Effects`: writes to one cell in different orders

A cell is empty or has a value. An effect keeps the cell, puts something into it, or fills it if it
is empty. A list of effects amounts to one effect, its `net`.

Several effects, one for each index of a list, may come in any order. `foldl_perm_iff` says when
every order leaves what a given effect `g` leaves: each of the effects has to agree with `g`. An
effect that does not agree shows it in the first place or in the last.
-/

set_option autoImplicit false

namespace DisMiniSql.Lib

universe u v

variable {α : Type u} {ι : Type v}

/-- What is done to a cell. -/
inductive Effect (α : Type u)
  | keep
  | put (c : Option α)
  | fill (a : α)
  deriving DecidableEq

namespace Effect

/-- The cell after the effect. -/
def apply : Effect α → Option α → Option α
  | keep, x => x
  | put c, _ => c
  | fill a, x => some (x.getD a)

@[simp] theorem apply_keep (x : Option α) : (keep : Effect α).apply x = x := rfl

@[simp] theorem apply_put (c x : Option α) : (put c).apply x = c := rfl

/-- The effect that fills in only where nothing is. -/
@[simp] theorem apply_fill (a : α) (x : Option α) : (fill a).apply x = some (x.getD a) := rfl

/-- `e`, and then `g`. -/
def andThen (e g : Effect α) : Effect α :=
  match g, e with
  | keep, e => e
  | put c, _ => put c
  | fill a, keep => fill a
  | fill a, put c => put (some (c.getD a))
  | fill _, fill b => fill b

/-- Keeping is the unit. -/
@[simp] theorem keep_andThen (g : Effect α) : keep.andThen g = g := by
  cases g <;> rfl

/-- One effect after the other. -/
@[simp] theorem apply_andThen (e g : Effect α) (x : Option α) :
    (e.andThen g).apply x = g.apply (e.apply x) := by
  cases g with
  | keep => rfl
  | put c => rfl
  | fill a => cases e <;> simp [andThen]

/-- What is in the cell does not depend on what was. -/
def IsPut : Effect α → Prop
  | put _ => True
  | _ => False

/-- Two effects overwrite when one of them does. -/
@[simp] theorem isPut_andThen {e g : Effect α} : (e.andThen g).IsPut ↔ e.IsPut ∨ g.IsPut := by
  cases g <;> cases e <;> simp [andThen, IsPut]

/-- And keep when both do. -/
@[simp] theorem andThen_eq_keep {e g : Effect α} : e.andThen g = keep ↔ e = keep ∧ g = keep := by
  cases g <;> cases e <;> simp [andThen]

/-! ### A list of effects -/

/-- The effects of a list, the first one first. -/
def net : List (Effect α) → Effect α
  | [] => keep
  | e :: es => e.andThen (net es)

/-- A list of effects overwrites when one of them does. -/
theorem isPut_net {es : List (Effect α)} : (net es).IsPut ↔ ∃ e ∈ es, e.IsPut := by
  induction es with
  | nil => simp [net, IsPut]
  | cons e es ih => simp [net, ih]

/-- And keeps when all do. -/
theorem net_eq_keep {es : List (Effect α)} : net es = keep ↔ ∀ e ∈ es, e = keep := by
  induction es with
  | nil => simp [net]
  | cons e es ih => simp [net, ih]

/-- An effect that keeps the cell can be left out at the end. -/
theorem net_append_keep (es : List (Effect α)) : net (es ++ [keep]) = net es := by
  induction es with
  | nil => rfl
  | cons e es ih => simp [net, ih]

variable {l : List ι}

/-- Effects that keep the cell can be left out. -/
theorem net_map_filter {f : ι → Effect α} {p : ι → Bool} (h : ∀ i ∈ l, p i = false → f i = keep) :
    net ((l.filter p).map f) = net (l.map f) := by
  induction l with
  | nil => rfl
  | cons i l ih =>
    obtain ⟨hi, hl⟩ := List.forall_mem_cons.mp h
    cases hp : p i with
    | true => simp [hp, net, ih hl]
    | false => simp [hp, net, ih hl, hi hp]

/-! ### Effects in any order -/

/-- On a cell with `x` in it, `e` does not get into the way of `g`: it puts what `g` puts, and where
it fills the cell, `g` leaves something there, and the same if the cell is empty. -/
def Admits (g : Effect α) (x : Option α) : Effect α → Prop
  | keep => True
  | put c => g = put c
  | fill a =>
    match g with
    | keep => False
    | put c => c ≠ none
    | fill b => x = none → a = b

/-- An effect is always as good as itself. -/
theorem admits_self (g : Effect α) (x : Option α) : g.Admits x g := by
  cases g with
  | keep => trivial
  | put c => rfl
  | fill a => exact fun _ => rfl

variable {e : ι → Effect α} {g : Effect α} {x : Option α}

/-- An effect that `g` admits leaves the cell as `g` leaves it. -/
theorem Admits.apply_apply {f : Effect α} (h : g.Admits x f) :
    f.apply (g.apply x) = g.apply x := by
  cases f with
  | keep => rfl
  | put c =>
    have hg : g = put c := h
    simp [hg]
  | fill a =>
    cases g with
    | keep => exact h.elim
    | put c =>
      obtain ⟨b, rfl⟩ := Option.ne_none_iff_exists'.mp h
      rfl
    | fill b => rfl

/-- Once the cell is as `g` leaves it, it stays so. -/
theorem foldl_of_settled (h : ∀ i ∈ l, g.Admits x (e i)) :
    l.foldl (fun x i => (e i).apply x) (g.apply x) = g.apply x := by
  induction l with
  | nil => rfl
  | cons i l ih =>
    rw [List.foldl_cons, (h i List.mem_cons_self).apply_apply]
    exact ih fun j hj => h j (List.mem_cons_of_mem i hj)

/-- Effects that `g` admits do what it does, in the order of the list: one of them puts something if
`g` does, and one of them is there if `g` is no `keep`. -/
theorem foldl_eq_of_admits (h : ∀ i ∈ l, g.Admits x (e i)) (hput : g.IsPut → ∃ i ∈ l, (e i).IsPut)
    (hkeep : g ≠ keep → ∃ i ∈ l, e i ≠ keep) :
    l.foldl (fun x i => (e i).apply x) x = g.apply x := by
  induction l generalizing x with
  | nil =>
    have hg : g = keep := by
      by_contra hne
      simpa using hkeep hne
    simp [hg]
  | cons i l ih =>
    obtain ⟨hi, hl⟩ := List.forall_mem_cons.mp h
    rw [List.foldl_cons]
    -- the first effect settles the cell, unless it is to be overwritten
    cases he : e i with
    | keep =>
      refine ih hl (fun hg => ?_) fun hg => ?_
      · simpa [he, IsPut] using hput hg
      · simpa [he] using hkeep hg
    | put c =>
      have hg : g = put c := by rwa [he] at hi
      have hsettled := foldl_of_settled hl
      rwa [hg] at hsettled ⊢
    | fill a =>
      rw [he] at hi
      cases g with
      | keep => exact hi.elim
      | put c =>
        refine ih hl (fun hg => ?_) fun hg => ?_
        · simpa [he, IsPut] using hput hg
        · obtain ⟨j, hj, hisPut⟩ := hput trivial
          rcases List.mem_cons.mp hj with rfl | hj
          · rw [he] at hisPut
            exact hisPut.elim
          · exact ⟨j, hj, fun hjk => by rw [hjk] at hisPut; exact hisPut⟩
      | fill b =>
        have hfirst : (fill a).apply x = (fill b).apply x := by
          cases x with
          | none => simp [show a = b from hi rfl]
          | some y => rfl
        rw [hfirst]
        exact foldl_of_settled hl

/-- Without anything that is put, a value stays. -/
theorem foldl_some (h : ∀ i ∈ l, ¬ (e i).IsPut) (a : α) :
    l.foldl (fun x i => (e i).apply x) (some a) = some a := by
  induction l with
  | nil => rfl
  | cons i l ih =>
    obtain ⟨hi, hl⟩ := List.forall_mem_cons.mp h
    have hstep : (e i).apply (some a) = some a := by
      cases he : e i with
      | put c => exact absurd (by rw [he]; trivial) hi
      | _ => rfl
    rw [List.foldl_cons, hstep]
    exact ih hl

/-- An effect that is not admitted does not come last, or does not come first. -/
theorem admits_of_foldl_eq
    (h : ∀ l' : List ι, l'.Perm l → l'.foldl (fun x i => (e i).apply x) x = g.apply x)
    (hput : ∀ i ∈ l, (e i).IsPut → g.IsPut) (hkeep : g = keep → ∀ i ∈ l, e i = keep) {i : ι}
    (hi : i ∈ l) : g.Admits x (e i) := by
  obtain ⟨before, after, rfl⟩ := List.append_of_mem hi
  have hlast := h ((before ++ after) ++ [i])
    ((List.perm_append_singleton i (before ++ after)).trans List.perm_middle.symm)
  have hfirst := h (i :: (before ++ after)) List.perm_middle.symm
  rw [List.foldl_append, List.foldl_cons, List.foldl_nil] at hlast
  rw [List.foldl_cons] at hfirst
  cases he : e i with
  | keep => trivial
  | put c =>
    cases g with
    | put c' =>
      rw [he] at hlast
      exact congrArg put hlast.symm
    | _ => exact (hput i hi (by rw [he]; trivial)).elim
  | fill a =>
    cases g with
    | keep => exact absurd (hkeep rfl i hi) (by simp [he])
    | put c =>
      rw [he] at hlast
      intro hc
      rw [hc] at hlast
      cases hlast
    | fill b =>
      rintro rfl
      have hrest : ∀ j ∈ before ++ after, ¬ (e j).IsPut := by
        intro j hj hjp
        exact hput j (List.perm_middle.symm.subset (List.mem_cons_of_mem i hj)) hjp
      rw [he, apply_fill, foldl_some hrest] at hfirst
      simpa using hfirst

/-- Every order of the effects leaves what `g` leaves exactly if `g` admits each of them. -/
theorem foldl_perm_iff (hput : g.IsPut ↔ ∃ i ∈ l, (e i).IsPut)
    (hkeep : g = keep ↔ ∀ i ∈ l, e i = keep) :
    (∀ l' : List ι, l'.Perm l → l'.foldl (fun x i => (e i).apply x) x = g.apply x) ↔
      ∀ i ∈ l, g.Admits x (e i) := by
  constructor
  · intro h i hi
    exact admits_of_foldl_eq h (fun j hj hjp => hput.mpr ⟨j, hj, hjp⟩) hkeep.mp hi
  · intro h l' hperm
    refine foldl_eq_of_admits (fun i hi => h i (hperm.subset hi)) (fun hg => ?_) fun hg => ?_
    · obtain ⟨i, hi, hip⟩ := hput.mp hg
      exact ⟨i, hperm.symm.subset hi, hip⟩
    · rw [ne_eq, hkeep] at hg
      push Not at hg
      obtain ⟨i, hi, hik⟩ := hg
      exact ⟨i, hperm.symm.subset hi, hik⟩

end Effect

end DisMiniSql.Lib
