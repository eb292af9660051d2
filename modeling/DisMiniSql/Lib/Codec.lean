import DisMiniSql.Lib.Bytes

/-!
# `DisMiniSql.Lib.Codec`: values written to a memory and read from it

`m.Holds a bs` says that the bytes `bs` stand in the memory from the address `a` on. A writer takes
a memory and an address and gives the memory afterwards with the number of bytes it wrote, a reader
gives a value with the number of bytes it took. `Writes w bs` and `Reads r bs x` say what one does
with the bytes `bs`. They are stated for every memory and address, so they go together along a
format: `writeAll_eq` and `readAll_eq` are the loops over the parts.
-/

set_option autoImplicit false

namespace DisMiniSql.Lib

universe u v

namespace Bytes

/-- The four bytes of a number, the lowest first. -/
def le32 (v : Nat) : List UInt8 :=
  [UInt8.ofNat v, UInt8.ofNat (v / 2 ^ 8), UInt8.ofNat (v / 2 ^ 16), UInt8.ofNat (v / 2 ^ 24)]

@[simp] theorem length_le32 (v : Nat) : (le32 v).length = 4 := rfl

variable {m m' : Bytes} {a : Nat} {bs cs : List UInt8}

/-- `set32` writes these bytes. -/
theorem set32_eq_blit (v : Nat) : m.set32 a v = m.blit a (le32 v) := rfl

/-- Two writes, one right behind the other. -/
theorem blit_append : m.blit a (bs ++ cs) = (m.blit a bs).blit (a + bs.length) cs := by
  symm
  funext i
  by_cases hlow : i < a + bs.length
  · rw [blit_of_outside (Or.inl hlow)]
    unfold blit
    split
    · rw [List.getElem?_append_left (by omega)]
    · rfl
  · have hge : a ≤ i := by omega
    have hge' : a + bs.length ≤ i := by omega
    have hnone : bs[i - a]? = none := List.getElem?_eq_none (by omega)
    unfold blit
    rw [if_pos hge', if_pos hge, if_pos hge, List.getElem?_append_right (by omega), hnone,
      Option.getD_none, Nat.sub_add_eq]

/-- Nothing is written. -/
theorem blit_nil : m.blit a [] = m := by
  funext i
  exact blit_of_outside (by rw [List.length_nil]; omega)

/-- The bytes `bs` stand from the address `a` on. -/
def Holds (m : Bytes) (a : Nat) (bs : List UInt8) : Prop :=
  ∀ i, (h : i < bs.length) → m (a + i) = bs[i]

/-- What was written stands there. -/
theorem holds_blit : (m.blit a bs).Holds a bs :=
  fun _ h => blit_of_inside h

/-- What stands there is written again. -/
theorem Holds.blit_eq (h : m.Holds a bs) : m.blit a bs = m := by
  funext i
  by_cases hi : i < a ∨ a + bs.length ≤ i
  · exact blit_of_outside hi
  · obtain ⟨j, rfl⟩ : ∃ j, i = a + j := ⟨i - a, by omega⟩
    have hj : j < bs.length := by omega
    rw [blit_of_inside hj, h j hj]

/-- A memory with the same bytes there. -/
theorem Holds.congr (h : m.Holds a bs) (heq : ∀ i < bs.length, m' (a + i) = m (a + i)) :
    m'.Holds a bs :=
  fun i hi => (heq i hi).trans (h i hi)

/-- The first part. -/
theorem Holds.left (h : m.Holds a (bs ++ cs)) : m.Holds a bs := by
  intro i hi
  have hi' : i < (bs ++ cs).length := by rw [List.length_append]; omega
  rw [h i hi', List.getElem_append_left hi]

/-- The rest. -/
theorem Holds.right (h : m.Holds a (bs ++ cs)) : m.Holds (a + bs.length) cs := by
  intro i hi
  have hi' : bs.length + i < (bs ++ cs).length := by rw [List.length_append]; omega
  rw [Nat.add_assoc, h (bs.length + i) hi', List.getElem_append_right (by omega)]
  simp only [Nat.add_sub_cancel_left]

/-- The bytes are read back. -/
theorem Holds.slice (h : m.Holds a bs) : m.slice a bs.length = bs := by
  refine List.ext_getElem length_slice (fun i hi hi' => ?_)
  simp only [Bytes.slice, List.getElem_map, List.getElem_range]
  exact h i hi'

/-- Two parts, one right behind the other. -/
theorem holds_append :
    m.Holds a (bs ++ cs) ↔ m.Holds a bs ∧ m.Holds (a + bs.length) cs := by
  refine ⟨fun h => ⟨h.left, h.right⟩, fun ⟨hbs, hcs⟩ i hi => ?_⟩
  by_cases hlow : i < bs.length
  · rw [hbs i hlow, List.getElem_append_left hlow]
  · rw [List.length_append] at hi
    rw [List.getElem_append_right (by omega), ← hcs (i - bs.length) (by omega)]
    congr 1
    omega

/-- The number is read back. -/
theorem Holds.get32 {v : Nat} (h : m.Holds a (le32 v)) (hv : v < 2 ^ 32) : m.get32 a = v := by
  have hself : (m.blit a (le32 v)).get32 a = v := get32_set32_self hv
  rw [← hself]
  refine get32_congr fun i hi => ?_
  rw [h i hi]
  have hi' : i < (le32 v).length := hi
  exact (blit_of_inside hi').symm

end Bytes

/-- The writer writes the bytes `bs`. -/
def Writes (w : Bytes → Nat → Bytes × Nat) (bs : List UInt8) : Prop :=
  ∀ m p, w m p = (m.blit p bs, bs.length)

/-- Where the bytes `bs` stand, the reader takes them for `x`. -/
def Reads {α : Type u} (r : Bytes → Nat → Option (α × Nat)) (bs : List UInt8) (x : α) : Prop :=
  ∀ m p, m.Holds p bs → r m p = some (x, bs.length)

section Loops

variable {α : Type u} {β : Type v}

/-- `for (x : xs) p += x->SerializeTo(p)`: the memory and the address behind the last part. -/
def writeAll (write : α → Bytes → Nat → Bytes × Nat) : List α → Bytes → Nat → Bytes × Nat
  | [], m, p => (m, p)
  | x :: xs, m, p => writeAll write xs (write x m p).1 (p + (write x m p).2)

/-- A loop that reads one value after another: the values and the address behind the last. The
list has what each turn of the loop knows about its value. -/
def readAll (read : β → Bytes → Nat → Option (α × Nat)) :
    List β → Bytes → Nat → Option (List α × Nat)
  | [], _, p => some ([], p)
  | b :: bs, m, p =>
    match read b m p with
    | none => none
    | some (x, n) =>
      match readAll read bs m (p + n) with
      | none => none
      | some (xs, q) => some (x :: xs, q)

/-- The parts are written one behind the other. -/
theorem writeAll_eq {write : α → Bytes → Nat → Bytes × Nat} {bytes : α → List UInt8} (xs : List α)
    (h : ∀ x ∈ xs, Writes (write x) (bytes x)) (m : Bytes) (p : Nat) :
    writeAll write xs m p = (m.blit p (xs.flatMap bytes), p + (xs.flatMap bytes).length) := by
  induction xs generalizing m p with
  | nil => rw [List.flatMap_nil, Bytes.blit_nil]; rfl
  | cons x xs ih =>
    have hx : write x m p = (m.blit p (bytes x), (bytes x).length) := h x List.mem_cons_self m p
    rw [writeAll, hx, ih fun y hy => h y (List.mem_cons_of_mem x hy)]
    rw [List.flatMap_cons, Bytes.blit_append, List.length_append, Nat.add_assoc]

/-- The parts are read one behind the other. -/
theorem readAll_eq {read : β → Bytes → Nat → Option (α × Nat)} {bytes : α → List UInt8}
    {bs : List β} {xs : List α} (h : List.Forall₂ (fun b x => Reads (read b) (bytes x) x) bs xs)
    {m : Bytes} {p : Nat} (hm : m.Holds p (xs.flatMap bytes)) :
    readAll read bs m p = some (xs, p + (xs.flatMap bytes).length) := by
  induction h generalizing p with
  | nil => rfl
  | @cons b x bs xs hx _ ih =>
    rw [List.flatMap_cons] at hm
    rw [readAll, hx m p hm.left]
    simp only [ih hm.right]
    rw [List.flatMap_cons, List.length_append, Nat.add_assoc]

/-- Each value of a loop is what a turn of it read. -/
theorem forall₂_of_readAll {read : β → Bytes → Nat → Option (α × Nat)} {bs : List β} {m : Bytes}
    {p q : Nat} {xs : List α} (h : readAll read bs m p = some (xs, q)) :
    List.Forall₂ (fun b x => ∃ a n, read b m a = some (x, n)) bs xs := by
  induction bs generalizing p q xs with
  | nil =>
    rw [readAll, Option.some.injEq, Prod.mk.injEq] at h
    rw [← h.1]
    exact .nil
  | cons b bs ih =>
    rw [readAll] at h
    split at h
    · exact nomatch h
    · next x n hread =>
      split at h
      · exact nomatch h
      · next ys _ hrest =>
        rw [Option.some.injEq, Prod.mk.injEq] at h
        rw [← h.1]
        exact .cons ⟨p, n, hread⟩ (ih hrest)

end Loops

end DisMiniSql.Lib
