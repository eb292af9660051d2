import Mathlib.Data.List.Chain
import Mathlib.Data.List.Nodup

/-!
# `DisMiniSql.Lib.LinkedList`: doubly linked lists in memory

`Memory` is memory of nodes: which addresses are allocated, and the three fields at every address.
To follow a pointer is to ask for an allocated address, so an operation on memory has no result
where it follows a pointer to a node that is not there. The fields at other addresses are garbage.

`Linked m l` says that the nodes `l` are different and form a list: the `next` of each one is the
one after it, whose `prev` is the one before. `Linked.unlink` and `Linked.link` are what taking a
node out and putting one in do to such a list.
-/

set_option autoImplicit false

namespace DisMiniSql.Lib

/-- Memory of nodes with a value of `α`. -/
structure Memory (α : Type) where
  live : Nat → Bool
  val : Nat → α
  prev : Nat → Nat
  next : Nat → Nat

namespace Memory

variable {α : Type} {m m' : Memory α} {a b n : Nat} {l : List Nat}

/-- `p->val`. -/
def getVal (m : Memory α) (p : Nat) : Option α := if m.live p then some (m.val p) else none

/-- `p->prev`. -/
def getPrev (m : Memory α) (p : Nat) : Option Nat := if m.live p then some (m.prev p) else none

/-- `p->next`. -/
def getNext (m : Memory α) (p : Nat) : Option Nat := if m.live p then some (m.next p) else none

/-- `p->val = v`. -/
def setVal (m : Memory α) (p : Nat) (v : α) : Option (Memory α) :=
  if m.live p then some { m with val := Function.update m.val p v } else none

/-- `p->prev = q`. -/
def setPrev (m : Memory α) (p q : Nat) : Option (Memory α) :=
  if m.live p then some { m with prev := Function.update m.prev p q } else none

/-- `p->next = q`. -/
def setNext (m : Memory α) (p q : Nat) : Option (Memory α) :=
  if m.live p then some { m with next := Function.update m.next p q } else none

/-- `p = new node`. -/
def alloc (m : Memory α) (p : Nat) : Memory α := { m with live := Function.update m.live p true }

/-- `delete p`. -/
def free (m : Memory α) (p : Nat) : Option (Memory α) :=
  if m.live p then some { m with live := Function.update m.live p false } else none

/-- `(p->next)->prev = p->prev; (p->prev)->next = p->next`. -/
def unlink (m : Memory α) (p : Nat) : Option (Memory α) := do
  let m ← m.setPrev (← m.getNext p) (← m.getPrev p)
  m.setNext (← m.getPrev p) (← m.getNext p)

/-- A new node `p` with the value `v` behind `q`: `p = new node; p->val = v; p->prev = q;
p->next = q->next; q->next->prev = p; q->next = p`. -/
def linkBehind (m : Memory α) (q p : Nat) (v : α) : Option (Memory α) := do
  let m ← (m.alloc p).setVal p v
  let m ← m.setPrev p q
  let m ← m.setNext p (← m.getNext q)
  let m ← m.setPrev (← m.getNext q) p
  m.setNext q p

/-! ### Lists -/

/-- The nodes stand one behind the other. -/
structure Joined (m : Memory α) (a b : Nat) : Prop where
  live : m.live a
  live' : m.live b
  next : m.next a = b
  prev : m.prev b = a

/-- The nodes form a list. -/
structure Linked (m : Memory α) (l : List Nat) : Prop where
  chain : l.IsChain m.Joined
  nodup : l.Nodup

/-- A chain depends on the nodes, the `next` of all but the last and the `prev` of all but the
first. -/
theorem chain_congr (h : l.IsChain m.Joined) (hlive : ∀ x ∈ l, m'.live x = m.live x)
    (hnext : ∀ x ∈ l.dropLast, m'.next x = m.next x) (hprev : ∀ x ∈ l.tail, m'.prev x = m.prev x) :
    l.IsChain m'.Joined := by
  induction l with
  | nil => exact .nil
  | cons x l ih =>
    cases l with
    | nil => exact .singleton x
    | cons y l =>
      obtain ⟨hxy, hchain⟩ := List.isChain_cons_cons.mp h
      have htail : (y :: l).IsChain m'.Joined := by
        apply ih hchain
        · exact fun z hz => hlive z (List.mem_cons_of_mem x hz)
        · exact fun z hz => hnext z (List.mem_cons_of_mem x hz)
        · exact fun z hz => hprev z (List.mem_cons_of_mem y hz)
      have hjoined : m'.Joined x y := by
        constructor
        · rw [hlive x (by simp)]
          exact hxy.live
        · rw [hlive y (by simp)]
          exact hxy.live'
        · rw [hnext x (by simp)]
          exact hxy.next
        · rw [hprev y (by simp)]
          exact hxy.prev
      exact List.isChain_cons_cons.mpr ⟨hjoined, htail⟩

/-- Writing the `next` of a node that is not in front of another one, and the `prev` of a node that
is not behind one, keeps a chain. -/
theorem chain_update (h : l.IsChain m.Joined) (hnext : a ∉ l.dropLast) (hprev : b ∉ l.tail)
    (q q' : Nat) : l.IsChain
      { m with
        next := Function.update m.next a q
        prev := Function.update m.prev b q' }.Joined := by
  apply chain_congr h
  · exact fun _ _ => rfl
  · intro x hx
    have hne : x ≠ a := by
      rintro rfl
      exact hnext hx
    simp [hne]
  · intro x hx
    have hne : x ≠ b := by
      rintro rfl
      exact hprev hx
    simp [hne]

/-- Taking out a node: its neighbours point at each other. -/
theorem Linked.unlink {front back : List Nat} (h : m.Linked (front ++ a :: n :: b :: back)) :
    ∃ m', m.unlink n = some m' ∧ m'.Linked (front ++ a :: b :: back) ∧ m'.val = m.val ∧
      m'.live = m.live := by
  obtain ⟨hfront, han, hrest⟩ := List.isChain_append_cons_cons.mp h.chain
  obtain ⟨hnb, hback⟩ := List.isChain_cons_cons.mp hrest
  have hnodup : (front ++ a :: b :: back).Nodup :=
    h.nodup.sublist ((List.Sublist.refl front).append ((List.sublist_cons_self n _).cons_cons a))
  obtain ⟨-, hmiddle, hdisjoint⟩ := List.nodup_append.mp h.nodup
  obtain ⟨ha', hn⟩ := List.nodup_cons.mp hmiddle
  obtain ⟨hn, hb'⟩ := List.nodup_cons.mp hn
  have hne : n ≠ b := by
    rintro rfl
    simp at hn
  have ha : a ∉ front := fun hmem => hdisjoint a hmem a (by simp) rfl
  have hb : b ∉ front ++ [a] := by
    rw [List.mem_append, List.mem_singleton]
    rintro (hmem | rfl)
    · exact hdisjoint b hmem b (by simp) rfl
    · simp at ha'
  have hunlink : m.unlink n = some
      { m with next := Function.update m.next a b, prev := Function.update m.prev b a } := by
    simp [Memory.unlink, getNext, getPrev, setPrev, setNext, hnb.live, hnb.live', han.live,
      hnb.next, han.prev, hne]
  refine ⟨_, hunlink, ⟨?_, hnodup⟩, rfl, rfl⟩
  -- only the link between the neighbours is new
  rw [List.isChain_append_cons_cons]
  refine ⟨?_, ⟨han.live, hnb.live', by simp, by simp⟩, ?_⟩
  · apply chain_update hfront
    · simpa using ha
    · exact fun hmem => hb (List.mem_of_mem_tail hmem)
  · apply chain_update hback
    · exact fun hmem => ha' (List.mem_cons_of_mem n (List.dropLast_subset _ hmem))
    · exact (List.nodup_cons.mp hb').1

/-- The same with what is in front of the node and behind it. -/
theorem Linked.unlink_middle {front back : List Nat} (h : m.Linked (front ++ n :: back))
    (hfront : front ≠ []) (hback : back ≠ []) :
    ∃ m', m.unlink n = some m' ∧ m'.Linked (front ++ back) ∧ m'.val = m.val ∧ m'.live = m.live := by
  obtain ⟨b, back, rfl⟩ := List.exists_cons_of_ne_nil hback
  rcases List.eq_nil_or_concat front with rfl | ⟨front, a, rfl⟩
  · exact absurd rfl hfront
  · rw [List.concat_append] at h ⊢
    exact h.unlink

/-- The nodes of a list of two at least are allocated. -/
theorem Linked.live (h : m.Linked l) (hl : 2 ≤ l.length) (hn : n ∈ l) : m.live n := by
  obtain ⟨front, back, rfl⟩ := List.append_of_mem hn
  cases back with
  | cons b back => exact (List.isChain_append_cons_cons.mp h.chain).2.1.live
  | nil =>
    rcases List.eq_nil_or_concat front with rfl | ⟨front, a, rfl⟩
    · simp at hl
    · have hchain := h.chain
      rw [List.concat_append] at hchain
      exact (List.isChain_append_cons_cons.mp hchain).2.1.live'

/-- Putting in a new node behind the first one. -/
theorem Linked.linkBehind (h : m.Linked (a :: b :: l)) (hn : m.live n = false) (v : α) :
    ∃ m', m.linkBehind a n v = some m' ∧ m'.Linked (a :: n :: b :: l) ∧
      m'.val = Function.update m.val n v ∧ m'.live = Function.update m.live n true := by
  have hnot : n ∉ a :: b :: l := by
    intro hmem
    rw [h.live (by simp) hmem] at hn
    cases hn
  obtain ⟨hab, hchain⟩ := List.isChain_cons_cons.mp h.chain
  obtain ⟨ha, hb⟩ := List.nodup_cons.mp h.nodup
  have hna : a ≠ n := fun heq => hnot (by simp [heq])
  have hnb : b ≠ n := fun heq => hnot (by simp [heq])
  have hlink : m.linkBehind a n v = some
      { live := Function.update m.live n true
        val := Function.update m.val n v
        prev := Function.update (Function.update m.prev n a) b n
        next := Function.update (Function.update m.next n b) a n } := by
    simp [Memory.linkBehind, alloc, setVal, getNext, setPrev, setNext, hab.live, hab.live',
      hab.next, hna, hnb]
  refine ⟨_, hlink, ⟨?_, List.nodup_cons.mpr ⟨?_, List.nodup_cons.mpr ⟨?_, hb⟩⟩⟩, rfl, rfl⟩
  · rw [List.isChain_cons_cons, List.isChain_cons_cons]
    refine ⟨⟨?_, ?_, ?_, ?_⟩, ⟨?_, ?_, ?_, ?_⟩, ?_⟩
    -- the new node behind the first one, and the old list behind the new node
    all_goals try simp [hab.live, hab.live', hna, hnb, Ne.symm hna, Ne.symm hnb]
    -- behind the new node nothing has changed
    apply chain_congr hchain
    · intro x hx
      have hxn : x ≠ n := fun heq => hnot (heq ▸ List.mem_cons_of_mem a hx)
      simp [hxn]
    · intro x hx
      have hmem := List.dropLast_subset _ hx
      have hxn : x ≠ n := fun heq => hnot (heq ▸ List.mem_cons_of_mem a hmem)
      have hxa : x ≠ a := fun heq => ha (heq ▸ hmem)
      simp [hxn, hxa]
    · intro x hx
      have hmem : x ∈ l := hx
      have hxn : x ≠ n := fun heq => hnot (heq ▸ by simp [hmem])
      have hxb : x ≠ b := fun heq => (List.nodup_cons.mp hb).1 (heq ▸ hmem)
      simp [hxn, hxb]
  · rw [List.mem_cons, not_or]
    exact ⟨hna, ha⟩
  · exact fun hmem => hnot (List.mem_cons_of_mem a hmem)

/-- A node that is not in the list is given back. -/
theorem Linked.free (h : m.Linked l) (hn : m.live n) (hnot : n ∉ l) :
    ∃ m', m.free n = some m' ∧ m'.Linked l ∧ m'.val = m.val ∧
      m'.live = Function.update m.live n false := by
  refine ⟨_, if_pos hn, ⟨chain_congr h.chain ?_ (fun _ _ => rfl) (fun _ _ => rfl), h.nodup⟩, rfl,
    rfl⟩
  intro x hx
  have hne : x ≠ n := by
    rintro rfl
    exact hnot hx
  simp [hne]

end Memory

end DisMiniSql.Lib
