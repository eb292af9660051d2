import Mathlib.Data.List.Basic

/-!
# `DisMiniSql.Lib.Parsing`: parsers and the phrases that they take

A language with values is a relation between phrases and the values that they stand for. `Parses`
says that a function takes exactly the phrases of a language off the front of its input, and builds
their values. A phrase can be longer when some tokens follow it, so the function has to be right
only before an input that begins with none of these: `Ends` names them.

* `Parses.eq_some_iff`: the whole input is a phrase.
* `Parses.eq_some_append_iff`: where no token makes a phrase longer, the input begins with one.
* `Parses.prefix_unique`: and then it begins with one phrase only.
-/

set_option autoImplicit false

namespace DisMiniSql.Lib

universe u v

variable {τ : Type u} {α : Type v}

/-- Phrases and their values. -/
abbrev Language (τ : Type u) (α : Type v) := List τ → α → Prop

/-- The input does not begin with one of the tokens. -/
def Ends (further : List τ) (input : List τ) : Prop := ∀ t ∈ input.head?, t ∉ further

@[simp] theorem ends_nil_left (input : List τ) : Ends [] input := fun _ _ => List.not_mem_nil

/-- The end of the input is always allowed. -/
@[simp] theorem ends_nil_right (further : List τ) : Ends further [] :=
  fun _ h => absurd h (by simp)

/-- Otherwise the next token decides. -/
@[simp] theorem ends_cons {further : List τ} {t : τ} {input : List τ} :
    Ends further (t :: input) ↔ t ∉ further := by
  simp [Ends]

/-- Forbidding fewer tokens allows more. -/
theorem Ends.mono {s more input : List τ} (h : Ends more input) (hsub : ∀ t ∈ s, t ∈ more) :
    Ends s input :=
  fun t ht hmem => h t ht (hsub t hmem)

/-- `p` takes the phrases of `D` off its input, each before an input that does not begin with a
token of `further`. -/
structure Parses (p : List τ → Option (α × List τ)) (D : Language τ α) (further : List τ) :
    Prop where
  sound : ∀ {input a rest}, p input = some (a, rest) → ∃ phrase, input = phrase ++ rest ∧ D phrase a
  complete : ∀ {phrase a r}, D phrase a → Ends further r → p (phrase ++ r) = some (a, r)

namespace Parses

variable {p : List τ → Option (α × List τ)} {D : Language τ α} {further : List τ}

/-- The whole input is a phrase. -/
theorem eq_some_iff (h : Parses p D further) {input : List τ} {a : α} :
    p input = some (a, []) ↔ D input a := by
  constructor
  · intro hp
    obtain ⟨phrase, heq, hD⟩ := h.sound hp
    rw [heq, List.append_nil]
    exact hD
  · intro hD
    simpa using h.complete hD (ends_nil_right further)

/-- Where no token can make a phrase longer, the function takes a phrase off whatever follows it. -/
theorem eq_some_append_iff (h : Parses p D []) {input rest : List τ} {a : α} :
    p input = some (a, rest) ↔ ∃ phrase, input = phrase ++ rest ∧ D phrase a := by
  constructor
  · exact h.sound
  · intro hphrase
    obtain ⟨phrase, rfl, hD⟩ := hphrase
    exact h.complete hD (ends_nil_left rest)

/-- The input begins with one phrase at most. -/
theorem prefix_unique (h : Parses p D []) {phrase phrase' rest rest' : List τ} {a b : α}
    (ha : D phrase a) (hb : D phrase' b) (heq : phrase ++ rest = phrase' ++ rest') :
    phrase = phrase' ∧ a = b := by
  have hpa := h.complete ha (ends_nil_left rest)
  have hpb := h.complete hb (ends_nil_left rest')
  rw [heq, hpb] at hpa
  simp only [Option.some.injEq, Prod.mk.injEq] at hpa
  obtain ⟨rfl, rfl⟩ := hpa
  exact ⟨List.append_cancel_right heq, rfl⟩

end Parses

end DisMiniSql.Lib
