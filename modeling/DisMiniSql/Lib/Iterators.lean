import Mathlib.Data.List.Nodup

/-!
# `DisMiniSql.Lib.Iterators`: lists whose nodes have addresses, and iterators on them

A `std::list` is a list of cells, an iterator is the address of one of them or the end position.
The list is a ring with the end position in it: the iterator behind the last cell is the end, and
the one behind the end is the first cell. An operation has no result where its iterator is not one
of the list, such as one of an erased cell.

`Split l it front back` says that the iterator stands between `front` and `back`, so at the first
cell of `back`. The theorems say what each operation does to a list that is split so.
-/

set_option autoImplicit false

namespace DisMiniSql.Lib

/-- A cell of a list. -/
structure ListCell (α : Type) where
  addr : Nat
  val : α
  deriving DecidableEq, Repr

/-- An iterator: `none` is the end position. -/
abbrev Iter := Option Nat

namespace Cells

variable {α : Type} {l front back : List (ListCell α)} {c : ListCell α} {it : Iter}

/-- The addresses. -/
def addrs (l : List (ListCell α)) : List Nat := l.map (·.addr)

/-- `l.begin()`. -/
def first (l : List (ListCell α)) : Iter := l.head?.map (·.addr)

/-- The cells in front of an iterator. -/
def before (l : List (ListCell α)) (it : Iter) : List (ListCell α) :=
  l.takeWhile fun c => some c.addr != it

/-- The cells from an iterator on. -/
def onward (l : List (ListCell α)) (it : Iter) : List (ListCell α) :=
  l.dropWhile fun c => some c.addr != it

/-- `++it`. -/
def next (l : List (ListCell α)) (it : Iter) : Option Iter :=
  match it, onward l it with
  | none, _ => some (first l)
  | some _, [] => none
  | some _, _ :: back => some (first back)

/-- `--it`. -/
def prev (l : List (ListCell α)) (it : Iter) : Option Iter :=
  match it, onward l it with
  | some _, [] => none
  | _, _ => some ((before l it).getLast?.map (·.addr))

/-- `*it`: the end position has no value. -/
def get (l : List (ListCell α)) (it : Iter) : Option α := (onward l it).head?.map (·.val)

/-- `l.insert(it, …)`: in front of the iterator. -/
def insert (l : List (ListCell α)) (it : Iter) (c : ListCell α) : Option (List (ListCell α)) :=
  match it, onward l it with
  | some _, [] => none
  | _, back => some (before l it ++ c :: back)

/-- `l.erase(it)`. -/
def erase (l : List (ListCell α)) (it : Iter) : Option (List (ListCell α)) :=
  match onward l it with
  | [] => none
  | _ :: back => some (before l it ++ back)

/-- The iterator stands at the first cell of `back`, or at the end. -/
structure Split (l : List (ListCell α)) (it : Iter) (front back : List (ListCell α)) : Prop where
  eq : l = front ++ back
  iter : it = first back
  nodup : (addrs l).Nodup

/-- The first cell of a list. -/
@[simp] theorem first_cons (c : ListCell α) (l : List (ListCell α)) :
    first (c :: l) = some c.addr := rfl

@[simp] theorem first_nil : first ([] : List (ListCell α)) = none := rfl

/-- The iterator is that of no cell of `front`. -/
theorem Split.ne (h : Split l it front back) {c : ListCell α} (hc : c ∈ front) :
    (some c.addr != it) = true := by
  rw [bne_iff_ne, h.iter]
  cases back with
  | nil => simp
  | cons d back =>
    have hnodup := h.nodup
    rw [addrs, h.eq, List.map_append, List.nodup_append] at hnodup
    simpa using hnodup.2.2 c.addr (List.mem_map_of_mem hc) d.addr (by simp)

/-- What comes before the place of a split. -/
theorem Split.before (h : Split l it front back) : before l it = front := by
  have hall := fun c hc => h.ne (c := c) hc
  unfold Cells.before
  rw [h.eq, List.takeWhile_append_of_pos hall]
  cases back with
  | nil => simp
  | cons c back => simp [h.iter]

/-- And what comes from there on. -/
theorem Split.onward (h : Split l it front back) : onward l it = back := by
  have hall := fun c hc => h.ne (c := c) hc
  unfold Cells.onward
  rw [h.eq, List.dropWhile_append_of_pos hall]
  cases back with
  | nil => simp
  | cons c back => simp [h.iter]

/-- The cell at the iterator and those behind it. -/
theorem Split.next (h : Split l it front (c :: back)) :
    next l it = some (first back) ∧ Split l (first back) (front ++ [c]) back := by
  refine ⟨?_, ⟨by simp [h.eq], rfl, h.nodup⟩⟩
  have hiter : it = some c.addr := h.iter
  have honward := h.onward
  rw [hiter] at honward ⊢
  simp [Cells.next, honward]

/-- The cell at the place. -/
theorem Split.get (h : Split l it front (c :: back)) : Cells.get l it = some c.val := by
  simp [Cells.get, h.onward]

/-- The cell in front of the iterator. -/
theorem Split.prev (h : Split l it (front ++ [c]) back) : Cells.prev l it = some (some c.addr) := by
  have hbefore := h.before
  have honward := h.onward
  unfold Cells.prev
  rw [hbefore, honward]
  cases back with
  | nil =>
    have hiter : it = none := h.iter
    simp [hiter]
  | cons d back =>
    have hiter : it = some d.addr := h.iter
    simp [hiter]

/-- A new cell in front of the iterator. -/
theorem Split.insert (h : Split l it front back) (hc : c.addr ∉ addrs l) :
    ∃ l', Cells.insert l it c = some l' ∧ Split l' it (front ++ [c]) back := by
  refine ⟨front ++ c :: back, ?_, ⟨by simp, h.iter, ?_⟩⟩
  · have hbefore := h.before
    have honward := h.onward
    unfold Cells.insert
    rw [hbefore, honward]
    cases back with
    | nil =>
      have hiter : it = none := h.iter
      simp [hiter]
    | cons d back =>
      have hiter : it = some d.addr := h.iter
      simp [hiter]
  · have hnodup := h.nodup
    rw [addrs, h.eq] at hnodup hc
    rw [addrs, List.map_append, List.map_cons, List.nodup_middle, List.nodup_cons,
      ← List.map_append]
    exact ⟨hc, hnodup⟩

/-- Erasing the cell at an iterator. -/
theorem Split.erase (h : Split l it front (c :: back)) :
    Cells.erase l it = some (front ++ back) := by
  simp [Cells.erase, h.before, h.onward]

/-- Every cell has an iterator. -/
theorem exists_split (hl : (addrs l).Nodup) (hc : c ∈ l) :
    ∃ front back, Split l (some c.addr) front (c :: back) := by
  obtain ⟨front, back, rfl⟩ := List.append_of_mem hc
  exact ⟨front, back, rfl, rfl, hl⟩

/-- The list without a cell. -/
def without (l : List (ListCell α)) (a : Nat) : List (ListCell α) := l.filter fun c => c.addr != a

/-- Taking a cell out leaves the cells at other addresses. -/
theorem mem_without {a : Nat} : c ∈ without l a ↔ c ∈ l ∧ c.addr ≠ a := by
  simp [without]

/-- Taking out the cell of a split leaves its two parts; no other cell has its address. -/
theorem Split.without_eq (h : Split l it front (c :: back)) : without l c.addr = front ++ back := by
  have hnot : c.addr ∉ addrs (front ++ back) := by
    have hnodup := h.nodup
    rw [addrs, h.eq, List.map_append, List.map_cons, List.nodup_middle, ← List.map_append] at hnodup
    exact (List.nodup_cons.mp hnodup).1
  have hkeep (l : List (ListCell α)) (hl : l ⊆ front ++ back) : without l c.addr = l := by
    unfold without
    rw [List.filter_eq_self]
    intro d hd
    have hne : d.addr ≠ c.addr := fun heq => hnot (heq ▸ List.mem_map_of_mem (hl hd))
    simpa using hne
  have hfront := hkeep front (by simp)
  have hback := hkeep back (by simp)
  unfold without at hfront hback ⊢
  rw [h.eq, List.filter_append, List.filter_cons_of_neg (by simp), hfront, hback]

/-- Erasing a cell. -/
theorem erase_eq (hl : (addrs l).Nodup) (hc : c ∈ l) :
    erase l (some c.addr) = some (without l c.addr) := by
  obtain ⟨front, back, hsplit⟩ := exists_split hl hc
  rw [hsplit.erase, hsplit.without_eq]

/-- The value at a cell. -/
theorem get_eq (hl : (addrs l).Nodup) (hc : c ∈ l) : get l (some c.addr) = some c.val := by
  obtain ⟨front, back, hsplit⟩ := exists_split hl hc
  exact hsplit.get

/-- An iterator stays valid when another cell is erased. -/
theorem Split.without (h : Split l it front back) {a : Nat} (ha : it ≠ some a) :
    Split (without l a) it (Cells.without front a) (Cells.without back a) := by
  refine ⟨by simp [Cells.without, h.eq], ?_, h.nodup.sublist (List.filter_sublist.map _)⟩
  rw [h.iter]
  cases back with
  | nil => rfl
  | cons c back =>
    have hne : c.addr ≠ a := fun heq => ha (by simp [h.iter, heq])
    simp [Cells.without, hne]

/-! ### The ring from an iterator on -/

/-- The cells in the order in which an iterator comes to them, the end position being skipped. -/
def Ring (l : List (ListCell α)) (it : Iter) (ring : List (ListCell α)) : Prop :=
  ∃ front back, Split l it front back ∧ ring = back ++ front

variable {ring : List (ListCell α)} {a : Nat}

/-- An empty list is an empty ring. -/
theorem ring_nil : Ring ([] : List (ListCell α)) none [] :=
  ⟨[], [], ⟨rfl, rfl, List.nodup_nil⟩, rfl⟩

/-- An iterator of a list has a ring. -/
theorem exists_ring (hl : (addrs l).Nodup) (hit : it = none ∨ ∃ c ∈ l, it = some c.addr) :
    ∃ ring, Ring l it ring := by
  rcases hit with rfl | ⟨c, hc, rfl⟩
  · exact ⟨_, l, [], ⟨by simp, rfl, hl⟩, rfl⟩
  · obtain ⟨front, back, hsplit⟩ := exists_split hl hc
    exact ⟨_, front, c :: back, hsplit, rfl⟩

/-- A ring read from its place on, then from the start. -/
theorem Ring.eq (h : Ring l it ring) : onward l it ++ before l it = ring := by
  obtain ⟨front, back, hsplit, rfl⟩ := h
  rw [hsplit.onward, hsplit.before]

/-- It has the cells of the list. -/
theorem Ring.perm (h : Ring l it ring) : ring.Perm l := by
  obtain ⟨front, back, hsplit, rfl⟩ := h
  rw [hsplit.eq]
  exact List.perm_append_comm

/-- Their addresses are different. -/
theorem Ring.nodup (h : Ring l it ring) : (addrs l).Nodup := by
  obtain ⟨front, back, hsplit, rfl⟩ := h
  exact hsplit.nodup

/-- The iterator is at a cell or at the end. -/
theorem Ring.iter (h : Ring l it ring) : it = none ∨ ∃ c ∈ l, it = some c.addr := by
  obtain ⟨front, back, hsplit, rfl⟩ := h
  cases back with
  | nil => exact .inl hsplit.iter
  | cons c back => exact .inr ⟨c, by simp [hsplit.eq], hsplit.iter⟩

/-- The first cell of the ring is behind the end position, if the iterator is there. -/
theorem Ring.skip_end (h : Ring l it (c :: ring)) :
    (if it = none then next l it else some it) = some (some c.addr) ∧
      Ring l (some c.addr) (c :: ring) := by
  obtain ⟨front, back, hsplit, hring⟩ := h
  cases back with
  | nil =>
    have hiter : it = none := hsplit.iter
    obtain rfl : c :: ring = l := by simpa [hsplit.eq] using hring
    subst hiter
    exact ⟨rfl, [], c :: ring, ⟨rfl, rfl, hsplit.nodup⟩, by simp⟩
  | cons d back =>
    obtain ⟨rfl, rfl⟩ : c = d ∧ ring = back ++ front := by simpa using hring
    have hiter : it = some c.addr := hsplit.iter
    subst hiter
    exact ⟨by simp, front, c :: back, hsplit, rfl⟩

/-- The end position is skipped, unless there is nothing but it. -/
theorem Ring.skip (h : Ring l it ring) :
    ∃ it', (if it = none then next l it else some it) = some it' ∧ Ring l it' ring := by
  cases ring with
  | nil =>
    have hl : l = [] := List.nil_perm.mp h.perm
    subst hl
    rcases h.iter with rfl | ⟨c, hc, -⟩
    · exact ⟨none, rfl, ring_nil⟩
    · simp at hc
  | cons c ring => exact ⟨_, h.skip_end⟩

/-- An iterator that is not at the end is at the first cell of the ring. -/
theorem Ring.split (h : Ring l (some a) (c :: ring)) :
    a = c.addr ∧ ∃ front back, Split l (some a) front (c :: back) ∧ ring = back ++ front := by
  obtain ⟨front, back, hsplit, hring⟩ := h
  cases back with
  | nil => exact nomatch hsplit.iter
  | cons d back =>
    obtain ⟨rfl, rfl⟩ : c = d ∧ ring = back ++ front := by simpa using hring
    exact ⟨Option.some.inj hsplit.iter, front, back, hsplit, rfl⟩

/-- The cell at the place comes first. -/
theorem Ring.get (h : Ring l (some a) (c :: ring)) : Cells.get l (some a) = some c.val := by
  obtain ⟨-, front, back, hsplit, -⟩ := h.split
  exact hsplit.get

/-- The next cell: the first one is the last one now. It may be erased. -/
theorem Ring.next (h : Ring l (some a) (c :: ring)) :
    ∃ it', Cells.next l (some a) = some it' ∧ Ring l it' (ring ++ [c]) ∧
      Ring (Cells.without l a) it' ring := by
  obtain ⟨rfl, front, back, hsplit, rfl⟩ := h.split
  obtain ⟨hnext, hsplit'⟩ := hsplit.next
  refine ⟨first back, hnext, ⟨_, _, hsplit', by simp⟩, front, back, ⟨?_, rfl, ?_⟩, rfl⟩
  · exact hsplit.without_eq
  · exact hsplit.nodup.sublist (List.filter_sublist.map _)

/-- The list without its first cell. -/
theorem without_head (h : (addrs (c :: l)).Nodup) : Cells.without (c :: l) c.addr = l := by
  have hsplit : Split (c :: l) (some c.addr) [] (c :: l) := ⟨rfl, rfl, h⟩
  exact hsplit.without_eq

/-- An iterator that is at another cell stays where it is. -/
theorem Ring.without (h : Ring l it ring) (ha : it ≠ some a) :
    Ring (Cells.without l a) it (Cells.without ring a) := by
  obtain ⟨front, back, hsplit, rfl⟩ := h
  exact ⟨_, _, hsplit.without ha, by simp [Cells.without]⟩

/-- A new cell in front of the iterator is the last one of the ring, and the iterator comes back to
where it was by a step back and one on. -/
theorem Ring.insert (h : Ring l it ring) (hc : c.addr ∉ addrs l) :
    ∃ l', Cells.insert l it c = some l' ∧ l'.Perm (c :: l) ∧ prev l' it = some (some c.addr) ∧
      Cells.next l' (some c.addr) = some it ∧ Ring l' it (ring ++ [c]) := by
  obtain ⟨front, back, hsplit, rfl⟩ := h
  obtain ⟨l', hinsert, hsplit'⟩ := hsplit.insert hc
  have hback : Split l' (some c.addr) front (c :: back) :=
    ⟨by simp [hsplit'.eq], rfl, hsplit'.nodup⟩
  refine ⟨l', hinsert, ?_, hsplit'.prev, ?_, _, _, hsplit', by simp⟩
  · rw [hback.eq, hsplit.eq]
    exact List.perm_middle
  · rw [hback.next.1, hsplit.iter]

end Cells

end DisMiniSql.Lib
