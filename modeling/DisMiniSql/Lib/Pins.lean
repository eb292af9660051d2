import DisMiniSql.Lib.Run
import Mathlib.Logic.Function.Basic

/-!
# `DisMiniSql.Lib.Pins`: the pins that one caller takes and gives back

A caller takes and gives back pins of items, and uses items. `pinsAfter` is what its events leave of
the pins of all callers: a pin is given back also where the caller has none left, and nothing is
given back of an item without pins. `Disciplined` says that each use is under a pin of the caller's
own.

`Block own es` says that the events `es` of a caller that has the pins `own` are disciplined and
leave all pins as they were. Blocks follow each other (`Block.append`), and a pin that is taken
before a block and given back behind it makes a block (`Block.bracket`).
-/

set_option autoImplicit false

namespace DisMiniSql.Lib

universe u

/-- A pin of the item is taken or given back, the item is used, or it is deleted, which leaves its
pins. -/
inductive PinEvent (ι : Type u)
  | take (i : ι)
  | give (i : ι)
  | use (i : ι)
  | drop (i : ι)

variable {ι : Type u} [DecidableEq ι]

namespace PinEvent

/-- The pins after an event. -/
def apply (pins : ι → Nat) : PinEvent ι → ι → Nat
  | .take i => Function.update pins i (pins i + 1)
  | .give i => Function.update pins i (pins i - 1)
  | .use _ => pins
  | .drop _ => pins

/-- An item is used under a pin. -/
def Allowed (own : ι → Nat) : PinEvent ι → Prop
  | .take _ => True
  | .give _ => True
  | .use i => 0 < own i
  | .drop _ => True

end PinEvent

/-- The pins after some events. -/
def pinsAfter (pins : ι → Nat) (es : List (PinEvent ι)) : ι → Nat := es.foldl PinEvent.apply pins

/-- Every use is under a pin of the caller, who has the pins `own` at the beginning. -/
def Disciplined (own : ι → Nat) (es : List (PinEvent ι)) : Prop :=
  Guarded PinEvent.Allowed PinEvent.apply own es

variable {pins own : ι → Nat} {es es' : List (PinEvent ι)} {e : PinEvent ι} {i j : ι}

/-- The pins after two lists of events. -/
theorem pinsAfter_append (pins : ι → Nat) (es es' : List (PinEvent ι)) :
    pinsAfter pins (es ++ es') = pinsAfter (pinsAfter pins es) es' := List.foldl_append

/-- Two lists are in order when each is, the second with the pins the first leaves. -/
theorem disciplined_append : Disciplined own (es ++ es') ↔
    Disciplined own es ∧ Disciplined (pinsAfter own es) es' := Guarded.append

/-- One event and the rest. -/
theorem disciplined_cons : Disciplined own (e :: es) ↔
    e.Allowed own ∧ Disciplined (e.apply own) es := Iff.rfl

/-- A use of an item that the caller has no pin of. -/
theorem not_disciplined_of_unpinned (h : pinsAfter own es i = 0) (rest : List (PinEvent ι)) :
    ¬ Disciplined own (es ++ .use i :: rest) := by
  rw [disciplined_append, disciplined_cons]
  rintro ⟨-, huse, -⟩
  have hpos : 0 < pinsAfter own es i := huse
  omega

/-- A caller with a pin of `i` more. -/
def addPin (own : ι → Nat) (i : ι) : ι → Nat := Function.update own i (own i + 1)

/-- A page just pinned has a pin. -/
theorem addPin_self_pos (own : ι → Nat) (i : ι) : 0 < addPin own i i := by
  unfold addPin
  rw [Function.update_self]
  exact Nat.succ_pos _

/-- And keeps it when another page is pinned. -/
theorem addPin_pos (h : 0 < own i) (j : ι) : 0 < addPin own j i := by
  unfold addPin
  by_cases hij : i = j
  · rw [hij, Function.update_self]
    exact Nat.succ_pos _
  · rw [Function.update_of_ne hij]
    exact h

theorem addPin_of_ne (h : i ≠ j) : addPin own j i = own i := Function.update_of_ne h ..

/-- A pin more, and it is given back. -/
theorem apply_give_addPin (own : ι → Nat) (i : ι) :
    (PinEvent.give i).apply (addPin own i) = own := by
  show Function.update (Function.update own i (own i + 1)) i
    (Function.update own i (own i + 1) i - 1) =
    own
  rw [Function.update_self, Nat.add_sub_cancel, Function.update_idem, Function.update_eq_self]

/-- A pin more is never the same. -/
theorem addPin_ne (pins : ι → Nat) (i : ι) : addPin pins i ≠ pins := by
  intro heq
  have hself := congrFun heq i
  unfold addPin at hself
  rw [Function.update_self] at hself
  exact Nat.succ_ne_self _ hself

/-- The events of a caller with the pins `own` are disciplined and leave all pins. -/
structure Block (own : ι → Nat) (es : List (PinEvent ι)) : Prop where
  neutral : ∀ pins, pinsAfter pins es = pins
  disciplined : Disciplined own es

namespace Block

theorem nil (own : ι → Nat) : Block own [] := ⟨fun _ => rfl, trivial⟩

/-- Two stretches that each return their pins. -/
theorem append (h : Block own es) (h' : Block own es') : Block own (es ++ es') := by
  refine ⟨fun pins => ?_, disciplined_append.mpr ⟨h.disciplined, ?_⟩⟩
  · rw [pinsAfter_append, h.neutral, h'.neutral]
  · rw [h.neutral]
    exact h'.disciplined

/-- A use of an item that the caller has a pin of. -/
theorem use (hi : 0 < own i) (h : Block own es) : Block own (.use i :: es) :=
  ⟨h.neutral, hi, h.disciplined⟩

/-- A deletion in front of one. -/
theorem drop (i : ι) (h : Block own es) : Block own (.drop i :: es) :=
  ⟨h.neutral, trivial, h.disciplined⟩

/-- A pin is taken before a block and given back behind it. -/
theorem bracket (h : Block (addPin own i) es) (h' : Block own es') :
    Block own (.take i :: es ++ .give i :: es') := by
  constructor
  · intro pins
    rw [pinsAfter_append]
    show pinsAfter ((PinEvent.give i).apply (pinsAfter (addPin pins i) es)) es' = pins
    rw [h.neutral, apply_give_addPin, h'.neutral]
  · rw [disciplined_append, disciplined_cons]
    refine ⟨⟨trivial, h.disciplined⟩, ?_⟩
    show Disciplined (pinsAfter (addPin own i) es) (.give i :: es')
    rw [h.neutral]
    refine ⟨trivial, ?_⟩
    show Disciplined ((PinEvent.give i).apply (addPin own i)) es'
    rw [apply_give_addPin]
    exact h'.disciplined

end Block

end DisMiniSql.Lib
