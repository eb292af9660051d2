/-!
# `DisMiniSql.Lib.Slots`: arrays of slots and the loops that move them

A page keeps its records in an array that is longer than the records need, and a counter says
how many slots are in use. The array is a function from the slot number, so a slot beyond the
counter can be read and holds what was left in it.

`shiftUp` and `shiftDown` are the two copying loops, `copyN` is `memcpy` of whole slots.
`slots d n` is the list of the first `n` slots. The theorems `slots_*` say what each operation
does to this list.
-/

set_option autoImplicit false

namespace DisMiniSql.Lib

variable {α : Type}

/-- `d[i] = a`. -/
def setSlot (d : Nat → α) (i : Nat) (a : α) : Nat → α :=
  fun j => if j = i then a else d j

/-- `for (; i > index; i--) d[i] = d[i - 1]`. -/
def shiftUp (d : Nat → α) (index : Nat) : Nat → (Nat → α)
  | 0 => d
  | i + 1 => if i + 1 > index then shiftUp (setSlot d (i + 1) (d i)) index i else d

/-- `for (; n > 0; i++, n--) d[i] = d[i + 1]`: the loop runs `n` times. -/
def shiftDown (d : Nat → α) (i : Nat) : Nat → (Nat → α)
  | 0 => d
  | n + 1 => shiftDown (setSlot d i (d (i + 1))) (i + 1) n

/-- `memcpy` of `n` slots of `src`, from slot `start` on, to the slots of `d` from `i` on. -/
def copyN (d : Nat → α) (i : Nat) (src : Nat → α) (start n : Nat) : Nat → α :=
  fun j => if i ≤ j ∧ j < i + n then src (start + (j - i)) else d j

/-- The first `n` slots. -/
def slots (d : Nat → α) (n : Nat) : List α :=
  (List.range n).map d

/-! ### What the loops compute -/

/-- What the loop that makes room leaves: the entries behind the place have moved up by one.
Induction on the number of turns. -/
theorem shiftUp_apply (d : Nat → α) (index i j : Nat) :
    shiftUp d index i j = if index < j ∧ j ≤ i then d (j - 1) else d j := by
  induction i generalizing d with
  | zero =>
    rw [if_neg (by omega)]
    rfl
  | succ i ih =>
    rw [shiftUp]
    by_cases hi : i + 1 > index
    · rw [if_pos hi, ih]
      unfold setSlot
      by_cases hj : index < j ∧ j ≤ i
      · rw [if_pos hj, if_neg (by omega), if_pos (by omega)]
      · rw [if_neg hj]
        by_cases he : j = i + 1
        · rw [if_pos he, if_pos (by omega), he]
          rfl
        · rw [if_neg he, if_neg (by omega)]
    · rw [if_neg hi, if_neg (by omega)]

/-- What the loop that closes a gap leaves: the entries behind the place have moved down by one. -/
theorem shiftDown_apply (d : Nat → α) (i n j : Nat) :
    shiftDown d i n j = if i ≤ j ∧ j < i + n then d (j + 1) else d j := by
  induction n generalizing d i with
  | zero =>
    rw [if_neg (by omega)]
    rfl
  | succ n ih =>
    rw [shiftDown, ih]
    unfold setSlot
    by_cases hj : i + 1 ≤ j ∧ j < i + 1 + n
    · rw [if_pos hj, if_neg (by omega), if_pos (by omega)]
    · rw [if_neg hj]
      by_cases he : j = i
      · rw [if_pos he, if_pos (by omega), he]
      · rw [if_neg he, if_neg (by omega)]

/-! ### The list of the slots in use -/

/-- The first slots as a list. -/
@[simp] theorem length_slots (d : Nat → α) (n : Nat) : (slots d n).length = n := by
  simp [slots]

/-- Its elements. -/
@[simp] theorem getElem_slots (d : Nat → α) (n i : Nat) (h : i < (slots d n).length) :
    (slots d n)[i] = d i := by
  simp [slots]

@[simp] theorem slots_zero (d : Nat → α) : slots d 0 = [] := rfl

variable {d : Nat → α} {n : Nat}

/-- What stands in one of them. -/
theorem mem_slots {a : α} : a ∈ slots d n ↔ ∃ i, i < n ∧ d i = a := by
  simp [slots]

/-- Two lists of slots are the same when their slots are. -/
theorem slots_congr {e : Nat → α} (h : ∀ i, i < n → d i = e i) :
    slots d n = slots e n := by
  apply List.map_congr_left
  intro i hi
  exact h i (List.mem_range.mp hi)

/-- A smaller counter keeps a prefix. -/
theorem slots_take (d : Nat → α) {m : Nat} (h : m ≤ n) : slots d m = (slots d n).take m := by
  simp [slots, ← List.map_take, List.take_range, Nat.min_eq_left h]

/-- The slots from `m` on. -/
theorem slots_drop (d : Nat → α) (m n : Nat) :
    slots (fun j => d (m + j)) n = (slots d (m + n)).drop m := by
  apply List.ext_getElem
  · simp
  · intro i _ _
    simp

/-- The slot at the end of a prefix. -/
theorem slots_mid {l r : List α} {a : α} (h : slots d n = l ++ a :: r) : d l.length = a := by
  have hlen : l.length < (slots d n).length := by simp [h]
  rw [← getElem_slots d n l.length hlen]
  simp [h]

/-- A slot in use splits the list. -/
theorem slots_split (d : Nat → α) {i : Nat} (h : i < n) :
    slots d n = (slots d n).take i ++ d i :: (slots d n).drop (i + 1) := by
  have hlen : i < (slots d n).length := by simpa using h
  conv => lhs; rw [← List.take_append_drop i (slots d n), List.drop_eq_getElem_cons hlen,
    getElem_slots]

/-- Writing a slot in use. -/
theorem slots_setSlot {l r : List α} {a : α} (h : slots d n = l ++ a :: r) (b : α) :
    slots (setSlot d l.length b) n = l ++ b :: r := by
  have hlen : n = (l ++ a :: r).length := by rw [← h, length_slots]
  apply List.ext_getElem
  · simp [hlen]
  · intro i h1 h2
    rw [getElem_slots]
    unfold setSlot
    by_cases hi : i = l.length
    · simp [hi]
    · rw [if_neg hi, ← getElem_slots d n i (by simpa using h1)]
      simp only [h]
      by_cases hlt : i < l.length
      · rw [List.getElem_append_left hlt, List.getElem_append_left hlt]
      · obtain ⟨j, rfl⟩ : ∃ j, i = l.length + (j + 1) := ⟨i - l.length - 1, by omega⟩
        simp [List.getElem_append_right]

/-- Writing a slot that is not in use. -/
theorem slots_setSlot_of_le (d : Nat → α) {i : Nat} (h : n ≤ i) (b : α) :
    slots (setSlot d i b) n = slots d n :=
  slots_congr fun j hj => if_neg (by omega)

/-- Appending a slot. -/
theorem slots_succ (d : Nat → α) (n : Nat) : slots d (n + 1) = slots d n ++ [d n] := by
  simp [slots, List.range_succ]

/-- Making room at `l.length` and writing there. -/
theorem slots_insert {l r : List α} (h : slots d n = l ++ r) (a : α) :
    slots (setSlot (shiftUp d l.length n) l.length a) (n + 1) = l ++ a :: r := by
  have hlen : n = l.length + r.length := by rw [← length_slots d n, h, List.length_append]
  apply List.ext_getElem
  · simp [hlen]
    omega
  · intro i h1 h2
    rw [getElem_slots]
    unfold setSlot
    by_cases hi : i = l.length
    · simp [hi]
    · rw [if_neg hi, shiftUp_apply]
      rw [length_slots] at h1
      by_cases hlt : i < l.length
      · rw [if_neg (by omega), ← getElem_slots d n i (by rw [length_slots]; omega)]
        simp only [h]
        rw [List.getElem_append_left hlt, List.getElem_append_left hlt]
      · obtain ⟨j, rfl⟩ : ∃ j, i = l.length + (j + 1) := ⟨i - l.length - 1, by omega⟩
        rw [if_pos (by omega), ← getElem_slots d n _ (by rw [length_slots]; omega)]
        simp only [h]
        simp [List.getElem_append_right]

/-- Closing the gap at `l.length`. -/
theorem slots_erase {l r : List α} {a : α} (h : slots d n = l ++ a :: r) :
    slots (shiftDown d l.length (n - 1 - l.length)) (n - 1) = l ++ r := by
  have hlen : n = l.length + (r.length + 1) := by rw [← length_slots d n, h]; simp
  apply List.ext_getElem
  · simp [hlen]
  · intro i h1 h2
    rw [getElem_slots, shiftDown_apply]
    rw [length_slots] at h1
    by_cases hlt : i < l.length
    · rw [if_neg (by omega), ← getElem_slots d n i (by rw [length_slots]; omega)]
      simp only [h]
      rw [List.getElem_append_left hlt, List.getElem_append_left hlt]
    · obtain ⟨j, rfl⟩ : ∃ j, i = l.length + j := ⟨i - l.length, by omega⟩
      rw [if_pos (by omega), ← getElem_slots d n _ (by rw [length_slots]; omega)]
      simp only [h]
      simp [List.getElem_append_right, Nat.add_assoc]

/-- Copying slots behind those in use. -/
theorem slots_copyN (d : Nat → α) (n : Nat) (src : Nat → α) (start m : Nat) :
    slots (copyN d n src start m) (n + m) = slots d n ++ (slots src (start + m)).drop start := by
  rw [← slots_drop]
  apply List.ext_getElem
  · simp
  · intro i h1 h2
    rw [length_slots] at h1
    rw [getElem_slots]
    unfold copyN
    by_cases hi : n ≤ i
    · rw [if_pos ⟨hi, h1⟩, List.getElem_append_right (by simpa using hi)]
      simp
    · rw [if_neg (by omega), List.getElem_append_left (by simpa using hi)]
      simp

end DisMiniSql.Lib
