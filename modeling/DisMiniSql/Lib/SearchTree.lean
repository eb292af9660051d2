import Mathlib.Data.Prod.Lex
import Mathlib.Order.Lattice
import Mathlib.Data.List.Flatten
import Mathlib.Data.List.Chain

/-!
# `DisMiniSql.Lib.SearchTree`: search trees whose leaves hold the records

`STree h` is a tree of height `h`. A leaf has records, a node has children, each with a key in
front of it. The key in front of the first child separates nothing. Every node has a name in
`ι`, and a leaf has the name of the next leaf.

`Ctx h` is a tree with a hole for a subtree of height `h`, read from the hole to the root, and
`plug` fills it.

`items` lists the keys of a tree from left to right: the keys of the records and, between the
children of a node, the separating keys. A separator comes just before a record with the same
key, so an item is a pair of a key and a flag in the lexicographic order. A tree is searchable
when its items increase strictly. A leaf without records is listed with the key it kept in its
first slot.

* `items_plug`, `leaves_plug`: the items and the leaves of a filled hole.
* `pairwise_replace`: an increasing list stays so when its middle is replaced.
-/

set_option autoImplicit false

namespace DisMiniSql.Lib

/-- A leaf: its name, the name of the next leaf, the key in its first slot and its records. -/
structure Leaf (ι κ ν : Type) where
  id : ι
  next : ι
  first : κ
  entries : List (κ × ν)

/-- A tree of height `h`. -/
def STree (ι κ ν : Type) : Nat → Type
  | 0 => Leaf ι κ ν
  | h + 1 => ι × List (κ × STree ι κ ν h)

/-- A tree with a hole for a subtree of height `h`. In `frame`, the hole is a child of the node
`id`, with the key `key`, between the children `left` and `right`. -/
inductive Ctx (ι κ ν : Type) : Nat → Type
  | root {h : Nat} : Ctx ι κ ν h
  | frame {h : Nat} (id : ι) (left : List (κ × STree ι κ ν h)) (key : κ)
      (right : List (κ × STree ι κ ν h)) (up : Ctx ι κ ν (h + 1)) : Ctx ι κ ν h

variable {ι κ ν : Type}

namespace STree

/-- A leaf is a tree of height 0. -/
def leaf (l : Leaf ι κ ν) : STree ι κ ν 0 := l

/-- A node over its children. -/
def node {h : Nat} (id : ι) (children : List (κ × STree ι κ ν h)) : STree ι κ ν (h + 1) :=
  (id, children)

/-- The name of the topmost node. -/
def rootId : {h : Nat} → STree ι κ ν h → ι
  | 0, l => Leaf.id l
  | _ + 1, t => t.1

/-- The number of records of a leaf, or of children of a node. -/
def width : {h : Nat} → STree ι κ ν h → Nat
  | 0, l => (Leaf.entries l).length
  | _ + 1, t => t.2.length

/-- The key in front of the first child of a node. -/
def slot0 : {h : Nat} → STree ι κ ν h → Option κ
  | 0, _ => none
  | _ + 1, t => t.2.head?.map Prod.fst

/-- The leaves, from left to right. -/
def leaves : {h : Nat} → STree ι κ ν h → List (Leaf ι κ ν)
  | 0, l => [l]
  | _ + 1, t => t.2.flatMap (fun e => leaves e.2)

/-- The names of all nodes. -/
def ids : {h : Nat} → STree ι κ ν h → List ι
  | 0, l => [Leaf.id l]
  | _ + 1, t => t.1 :: t.2.flatMap (fun e => ids e.2)

/-- The records, from left to right. -/
def pairs {h : Nat} (t : STree ι κ ν h) : List (κ × ν) :=
  t.leaves.flatMap Leaf.entries

/-- The keys of the records, from left to right. -/
def keys {h : Nat} (t : STree ι κ ν h) : List κ :=
  t.pairs.map Prod.fst

/-- The root of a leaf. -/
@[simp] theorem rootId_leaf (l : Leaf ι κ ν) : (leaf l).rootId = l.id := rfl

/-- The root of a node. -/
@[simp] theorem rootId_node {h : Nat} (id : ι) (cs : List (κ × STree ι κ ν h)) :
    (node id cs).rootId = id := rfl

@[simp] theorem leaves_leaf (l : Leaf ι κ ν) : (leaf l).leaves = [l] := rfl

/-- The leaves of a node. -/
@[simp] theorem leaves_node {h : Nat} (id : ι) (cs : List (κ × STree ι κ ν h)) :
    (node id cs).leaves = cs.flatMap (fun e => e.2.leaves) := rfl

@[simp] theorem ids_leaf (l : Leaf ι κ ν) : (leaf l).ids = [l.id] := rfl

/-- The pages of a node, itself first. -/
@[simp] theorem ids_node {h : Nat} (id : ι) (cs : List (κ × STree ι κ ν h)) :
    (node id cs).ids = id :: cs.flatMap (fun e => e.2.ids) := rfl

/-- The pairs of a leaf are its entries. -/
theorem pairs_leaf (l : Leaf ι κ ν) : (leaf l).pairs = l.entries := by
  simp [pairs]

/-- The pairs of a node are those of its children. -/
theorem pairs_node {h : Nat} (id : ι) (cs : List (κ × STree ι κ ν h)) :
    (node id cs).pairs = cs.flatMap (fun e => e.2.pairs) := by
  simp [pairs, List.flatMap_assoc]

/-- The keys of a leaf. -/
theorem keys_leaf (l : Leaf ι κ ν) : (leaf l).keys = l.entries.map Prod.fst := by
  simp [keys, pairs_leaf]

/-- The keys of a node. -/
theorem keys_node {h : Nat} (id : ι) (cs : List (κ × STree ι κ ν h)) :
    (node id cs).keys = cs.flatMap (fun e => e.2.keys) := by
  simp [keys, pairs_node, List.map_flatMap]

/-- A tree of height 0 is a leaf. -/
theorem exists_leaf (t : STree ι κ ν 0) : ∃ l, leaf l = t := ⟨t, rfl⟩

/-- A tree of a larger height is a node. -/
theorem exists_node {h : Nat} (t : STree ι κ ν (h + 1)) : ∃ id cs, node id cs = t :=
  ⟨t.1, t.2, rfl⟩

end STree

/-! ### Items -/

/-- The item of a separating key. -/
def sep (k : κ) : κ ×ₗ Bool := toLex (k, false)

/-- The item of the key of a record. -/
def keyItem (k : κ) : κ ×ₗ Bool := toLex (k, true)

section Order
variable [LinearOrder κ]

/-- A separator stands just before the entries with its key. -/
@[simp] theorem sep_lt_keyItem {a b : κ} : sep a < keyItem b ↔ a ≤ b := by
  rw [sep, keyItem, Prod.Lex.toLex_lt_toLex]
  constructor
  · rintro (h | ⟨h, -⟩)
    · exact le_of_lt h
    · exact le_of_eq h
  · intro h
    rcases lt_or_eq_of_le h with hlt | heq
    · exact Or.inl hlt
    · exact Or.inr ⟨heq, by simp⟩

/-- So an entry is below a separator only with a smaller key. -/
@[simp] theorem keyItem_lt_sep {a b : κ} : keyItem a < sep b ↔ a < b := by
  rw [sep, keyItem, Prod.Lex.toLex_lt_toLex]
  constructor
  · rintro (h | ⟨-, h⟩)
    · exact h
    · exact absurd (show true < false from h) (by decide)
  · exact Or.inl

/-- Entries are ordered by their keys. -/
@[simp] theorem keyItem_lt_keyItem {a b : κ} : keyItem a < keyItem b ↔ a < b := by
  simp [keyItem, Prod.Lex.toLex_lt_toLex]

/-- Separators too. -/
@[simp] theorem sep_lt_sep {a b : κ} : sep a < sep b ↔ a < b := by
  simp [sep, Prod.Lex.toLex_lt_toLex]

/-- And not strictly. -/
@[simp] theorem keyItem_le_keyItem {a b : κ} : keyItem a ≤ keyItem b ↔ a ≤ b := by
  rw [← not_lt, ← not_lt, keyItem_lt_keyItem]

/-- Separators not strictly. -/
@[simp] theorem sep_le_sep {a b : κ} : sep a ≤ sep b ↔ a ≤ b := by
  rw [← not_lt, ← not_lt, sep_lt_sep]

end Order

/-- An entry is given by its key. -/
theorem keyItem_injective : Function.Injective (keyItem : κ → κ ×ₗ Bool) := by
  intro a b h
  exact congrArg (fun x => (ofLex x).1) h

/-- So is a separator. -/
theorem sep_injective : Function.Injective (sep : κ → κ ×ₗ Bool) := by
  intro a b h
  exact congrArg (fun x => (ofLex x).1) h

/-- The two are never the same. -/
theorem sep_ne_keyItem (a b : κ) : sep a ≠ keyItem b := by
  intro h
  exact Bool.false_ne_true (congrArg (fun x => (ofLex x).2) h)

/-- The items of a leaf. -/
def Leaf.items (l : Leaf ι κ ν) : List (κ ×ₗ Bool) :=
  if l.entries = [] then [keyItem l.first] else l.entries.map (fun e => keyItem e.1)

/-- The items of a leaf with entries are their keys. -/
theorem Leaf.items_of_ne_nil {l : Leaf ι κ ν} (h : l.entries ≠ []) :
    l.items = l.entries.map (fun e => keyItem e.1) :=
  if_neg h

/-- A leaf has no separators. -/
theorem Leaf.sep_not_mem_items (l : Leaf ι κ ν) (k : κ) : sep k ∉ l.items := by
  unfold Leaf.items
  split
  · rw [List.mem_singleton]
    exact sep_ne_keyItem k l.first
  · intro h
    obtain ⟨e, -, he⟩ := List.mem_map.mp h
    exact sep_ne_keyItem k e.1 he.symm

namespace STree

/-- The items of a tree, from left to right. -/
def items : {h : Nat} → STree ι κ ν h → List (κ ×ₗ Bool)
  | 0, l => Leaf.items l
  | _ + 1, t => (t.2.flatMap (fun e => sep e.1 :: items e.2)).tail

end STree

/-- The items of some children, each with the separator in front of it. -/
def seg {h : Nat} (cs : List (κ × STree ι κ ν h)) : List (κ ×ₗ Bool) :=
  cs.flatMap (fun e => sep e.1 :: e.2.items)

/-- The items between the separators of a list of children. -/
@[simp] theorem seg_nil {h : Nat} : seg ([] : List (κ × STree ι κ ν h)) = [] := rfl

/-- A child contributes its separator and its own items. -/
@[simp] theorem seg_cons {h : Nat} (k : κ) (t : STree ι κ ν h) (cs : List (κ × STree ι κ ν h)) :
    seg ((k, t) :: cs) = sep k :: (t.items ++ seg cs) := by
  simp [seg]

/-- Two lists of children. -/
@[simp] theorem seg_append {h : Nat} (as bs : List (κ × STree ι κ ν h)) :
    seg (as ++ bs) = seg as ++ seg bs := by
  simp [seg]

namespace STree

/-- The items of a leaf. -/
@[simp] theorem items_leaf (l : Leaf ι κ ν) : (leaf l).items = l.items := rfl

/-- The items of a node: its first separator is not counted, as the code never reads it. -/
@[simp] theorem items_node {h : Nat} (id : ι) (cs : List (κ × STree ι κ ν h)) :
    (node id cs).items = (seg cs).tail := rfl

end STree

/-! ### Filling a hole -/

namespace Ctx

/-- The tree whose hole is filled with `t`. -/
def plug : {h : Nat} → Ctx ι κ ν h → STree ι κ ν h → (h' : Nat) × STree ι κ ν h'
  | h, .root, t => ⟨h, t⟩
  | _, .frame id left key right up, t => up.plug (.node id (left ++ (key, t) :: right))

/-- The items before the hole. -/
def pre : {h : Nat} → Ctx ι κ ν h → List (κ ×ₗ Bool)
  | _, .root => []
  | _, .frame _ left key _ up => up.pre ++ (seg left ++ [sep key]).tail

/-- The items behind the hole. -/
def post : {h : Nat} → Ctx ι κ ν h → List (κ ×ₗ Bool)
  | _, .root => []
  | _, .frame _ _ _ right up => seg right ++ up.post

/-- The leaves before the hole. -/
def leavesPre : {h : Nat} → Ctx ι κ ν h → List (Leaf ι κ ν)
  | _, .root => []
  | _, .frame _ left _ _ up => up.leavesPre ++ left.flatMap (fun e => e.2.leaves)

/-- The leaves behind the hole. -/
def leavesPost : {h : Nat} → Ctx ι κ ν h → List (Leaf ι κ ν)
  | _, .root => []
  | _, .frame _ _ _ right up => right.flatMap (fun e => e.2.leaves) ++ up.leavesPost

/-- The number of nodes above the hole. -/
def depth : {h : Nat} → Ctx ι κ ν h → Nat
  | _, .root => 0
  | _, .frame _ _ _ _ up => up.depth + 1

/-- The name of the node above the hole, `nil` at the top. -/
def parentId (nil : ι) : {h : Nat} → Ctx ι κ ν h → ι
  | _, .root => nil
  | _, .frame id _ _ _ _ => id

/-- At the top there is no parent. -/
@[simp] theorem parentId_root (nil : ι) {h : Nat} :
    (root : Ctx ι κ ν h).parentId nil = nil := rfl

/-- Below a node it is the node. -/
@[simp] theorem parentId_frame (nil : ι) {h : Nat} (id : ι) (left : List (κ × STree ι κ ν h))
    (key : κ) (right : List (κ × STree ι κ ν h)) (up : Ctx ι κ ν (h + 1)) :
    (frame id left key right up).parentId nil = id := rfl

/-- The name of the topmost node, when the hole is filled with a tree named `hole`. -/
def topId (hole : ι) : {h : Nat} → Ctx ι κ ν h → ι
  | _, .root => hole
  | _, .frame id _ _ _ up => up.topId id

/-- Cutting a node open at a child. -/
theorem tail_seg_mid {h : Nat} (left : List (κ × STree ι κ ν h)) (key : κ) (t : STree ι κ ν h)
    (right : List (κ × STree ι κ ν h)) :
    (seg (left ++ (key, t) :: right)).tail
      = (seg left ++ [sep key]).tail ++ (t.items ++ seg right) := by
  cases left with
  | nil => simp
  | cons e left =>
    obtain ⟨k, c⟩ := e
    simp

/-- A node that is cut in two gives the same items, with a separator at the cut. -/
theorem seg_cut {h : Nat} {as bs : List (κ × STree ι κ ν h)} {k : κ} {t : STree ι κ ν h}
    (has : as ≠ []) :
    (seg as).tail ++ sep k :: (seg ((k, t) :: bs)).tail = (seg (as ++ (k, t) :: bs)).tail := by
  cases as with
  | nil => exact absurd rfl has
  | cons e as =>
    obtain ⟨ke, te⟩ := e
    simp

/-- Putting a tree into its place surrounds its items by those of the place. -/
theorem items_plug {h : Nat} (c : Ctx ι κ ν h) (t : STree ι κ ν h) :
    (c.plug t).2.items = c.pre ++ (t.items ++ c.post) := by
  induction c with
  | root => simp [plug, pre, post]
  | frame id left key right up ih =>
    rw [plug, ih, STree.items_node, tail_seg_mid]
    simp [pre, post]

/-- Its leaves likewise. -/
theorem leaves_plug {h : Nat} (c : Ctx ι κ ν h) (t : STree ι κ ν h) :
    (c.plug t).2.leaves = c.leavesPre ++ (t.leaves ++ c.leavesPost) := by
  induction c with
  | root => simp [plug, leavesPre, leavesPost]
  | frame id left key right up ih =>
    rw [plug, ih, STree.leaves_node]
    simp [leavesPre, leavesPost]

/-- The root of the whole is the place's, unless the place is the top. -/
theorem rootId_plug {h : Nat} (c : Ctx ι κ ν h) (t : STree ι κ ν h) :
    (c.plug t).2.rootId = c.topId t.rootId := by
  induction c with
  | root => rfl
  | frame id left key right up ih =>
    rw [plug, ih]
    rfl

end Ctx

/-! ### Records among the items -/

/-- The items of the records of some leaves. -/
def recordItems (leaves : List (Leaf ι κ ν)) : List (κ ×ₗ Bool) :=
  (leaves.flatMap Leaf.entries).map (fun e => keyItem e.1)

/-- The items of two lists of leaves. -/
@[simp] theorem recordItems_append (as bs : List (Leaf ι κ ν)) :
    recordItems (as ++ bs) = recordItems as ++ recordItems bs := by
  simp [recordItems]

/-- The records of a leaf are among its items. -/
theorem Leaf.recordItems_sublist (l : Leaf ι κ ν) : (recordItems [l]).Sublist l.items := by
  unfold recordItems Leaf.items
  split
  · rename_i hnil
    simp [hnil]
  · simp

/-- The records of some children are among their items. -/
theorem recordItems_sublist_seg {h : Nat} {cs : List (κ × STree ι κ ν h)}
    (hcs : ∀ e ∈ cs, (recordItems e.2.leaves).Sublist e.2.items) :
    (recordItems (cs.flatMap fun e => e.2.leaves)).Sublist (seg cs) := by
  induction cs with
  | nil => simp [recordItems]
  | cons e cs ih =>
    obtain ⟨k, t⟩ := e
    rw [List.flatMap_cons, recordItems_append, seg_cons]
    exact ((hcs (k, t) (by simp)).append (ih fun e he => hcs e (by simp [he]))).cons _

/-- The records of a tree are among its items. -/
theorem STree.recordItems_sublist {h : Nat} (t : STree ι κ ν h) :
    (recordItems t.leaves).Sublist t.items := by
  induction h with
  | zero => exact Leaf.recordItems_sublist t
  | succ h ih =>
    obtain ⟨id, cs, rfl⟩ := t.exists_node
    rw [leaves_node, items_node]
    cases cs with
    | nil => simp [recordItems]
    | cons e cs =>
      obtain ⟨k, t⟩ := e
      rw [List.flatMap_cons, recordItems_append, seg_cons, List.tail_cons]
      exact (ih t).append (recordItems_sublist_seg fun e _ => ih e.2)

/-- The key of a record is an item. -/
theorem STree.keyItem_mem_items {h : Nat} {t : STree ι κ ν h} {k : κ} (hk : k ∈ t.keys) :
    keyItem k ∈ t.items := by
  obtain ⟨e, he, rfl⟩ := List.mem_map.mp hk
  exact t.recordItems_sublist.subset (List.mem_map.mpr ⟨e, he, rfl⟩)

/-- The names of the leaves are among those of all nodes. -/
theorem STree.leaves_ids_sublist {h : Nat} (t : STree ι κ ν h) :
    (t.leaves.map Leaf.id).Sublist t.ids := by
  induction h with
  | zero => exact List.Sublist.refl _
  | succ h ih =>
    obtain ⟨id, cs, rfl⟩ := t.exists_node
    rw [leaves_node, ids_node, List.map_flatMap]
    exact (List.Sublist.flatMap_right cs fun e _ => ih e.2).cons id

namespace Ctx

/-- The last item before the hole is a separator. -/
theorem pre_eq_nil_or_sep {h : Nat} (c : Ctx ι κ ν h) :
    c.pre = [] ∨ ∃ as k, c.pre = as ++ [sep k] := by
  induction c with
  | root => exact Or.inl rfl
  | frame id left key right up ih =>
    cases left with
    | nil => simpa [pre] using ih
    | cons e left =>
      obtain ⟨ke, te⟩ := e
      exact Or.inr ⟨up.pre ++ (te.items ++ seg left), key, by simp [pre]⟩

/-- The records before the hole are among the items before it. -/
theorem recordItems_leavesPre_sublist {h : Nat} (c : Ctx ι κ ν h) :
    (recordItems c.leavesPre).Sublist c.pre := by
  induction c with
  | root => simp [leavesPre, recordItems]
  | frame id left key right up ih =>
    rw [leavesPre, pre, recordItems_append]
    refine ih.append ?_
    cases left with
    | nil => simp [recordItems]
    | cons e left =>
      obtain ⟨k, t⟩ := e
      rw [List.flatMap_cons, recordItems_append, seg_cons, List.cons_append, List.tail_cons,
        List.append_assoc]
      exact t.recordItems_sublist.append
        ((recordItems_sublist_seg fun e _ => e.2.recordItems_sublist).trans
          (List.sublist_append_left _ _))

/-- The records behind the hole are among the items behind it. -/
theorem recordItems_leavesPost_sublist {h : Nat} (c : Ctx ι κ ν h) :
    (recordItems c.leavesPost).Sublist c.post := by
  induction c with
  | root => simp [leavesPost, recordItems]
  | frame id left key right up ih =>
    rw [leavesPost, post, recordItems_append]
    exact (recordItems_sublist_seg fun e _ => e.2.recordItems_sublist).append ih

end Ctx

/-! ### Searching -/

section Search
variable [LinearOrder κ]

namespace Ctx

/-- The key belongs into the hole: it is above all items before and below all items behind. -/
def Admits {h : Nat} (c : Ctx ι κ ν h) (key : κ) : Prop :=
  (∀ x ∈ c.pre, x < keyItem key) ∧ ∀ x ∈ c.post, keyItem key < x

/-- The hole in a child admits the key when the separators around the child do. -/
theorem Admits.frame {h : Nat} {c : Ctx ι κ ν (h + 1)} {key : κ}
    (hc : c.Admits key) {id : ι} {left right : List (κ × STree ι κ ν h)} {k : κ}
    {t : STree ι κ ν h}
    (hord : (c.plug (.node id (left ++ (k, t) :: right))).2.items.Pairwise (· < ·))
    (hlo : left ≠ [] → k ≤ key) (hhi : ∀ e ∈ right.head?, key < e.1) :
    (frame id left k right c).Admits key := by
  rw [Ctx.items_plug, STree.items_node, Ctx.tail_seg_mid] at hord
  constructor
  · intro x hx
    rcases List.mem_append.mp hx with hx | hx
    · exact hc.1 x hx
    · -- The last item before the hole is the separator `k`.
      cases left with
      | nil => cases hx
      | cons e left =>
        obtain ⟨ke, te⟩ := e
        have hk : sep k < keyItem key := sep_lt_keyItem.mpr (hlo (List.cons_ne_nil _ _))
        have hsplit : c.pre ++ ((seg ((ke, te) :: left) ++ [sep k]).tail ++ (t.items ++ seg right)
            ++ c.post) = (c.pre ++ (te.items ++ seg left))
              ++ sep k :: (t.items ++ seg right ++ c.post) := by simp
        rw [hsplit] at hord
        have hx' : x ∈ te.items ++ seg left ∨ x = sep k := by simpa [or_assoc] using hx
        rcases hx' with hx' | rfl
        · exact lt_trans ((List.pairwise_append.mp hord).2.2 x (List.mem_append_right _ hx')
            (sep k) List.mem_cons_self) hk
        · exact hk
  · intro x hx
    rcases List.mem_append.mp hx with hx | hx
    · cases right with
      | nil => cases hx
      | cons e right =>
        obtain ⟨ke, te⟩ := e
        have hk : keyItem key < sep ke := keyItem_lt_sep.mpr (hhi (ke, te) rfl)
        have hsplit : c.pre ++ ((seg left ++ [sep k]).tail ++ (t.items ++ seg ((ke, te) :: right))
            ++ c.post) = (c.pre ++ ((seg left ++ [sep k]).tail ++ t.items))
              ++ sep ke :: (te.items ++ seg right ++ c.post) := by simp
        rw [hsplit] at hord
        have hafter := (List.pairwise_cons.mp (List.pairwise_append.mp hord).2.1).1
        rw [seg_cons] at hx
        rcases List.mem_cons.mp hx with rfl | hx
        · exact hk
        · exact lt_trans hk (hafter x (List.mem_append_left _ hx))
    · exact hc.2 x hx

/-- The hole around the node of a hole admits what the hole admits. -/
theorem Admits.up {h : Nat} {id : ι} {left right : List (κ × STree ι κ ν h)} {k key : κ}
    {c : Ctx ι κ ν (h + 1)} (hc : (Ctx.frame id left k right c).Admits key) : c.Admits key :=
  ⟨fun x hx => hc.1 x (List.mem_append_left _ hx), fun x hx => hc.2 x (List.mem_append_right _ hx)⟩

/-- The keys in the children on the left are less than an admitted key. -/
theorem Admits.lt_of_mem_left {h : Nat} {id : ι} {left right : List (κ × STree ι κ ν h)} {k key : κ}
    {c : Ctx ι κ ν (h + 1)} (hc : (Ctx.frame id left k right c).Admits key)
    {e : κ × STree ι κ ν h} (he : e ∈ left) {y : κ} (hy : y ∈ e.2.keys) : y < key := by
  refine keyItem_lt_keyItem.mp (hc.1 _ (List.mem_append_right _ ?_))
  have hitem := STree.keyItem_mem_items hy
  obtain ⟨A, B, rfl⟩ := List.append_of_mem he
  obtain ⟨ke, te⟩ := e
  cases A with
  | nil => simp [hitem]
  | cons a A =>
    obtain ⟨ka, ta⟩ := a
    simp [hitem]

/-- The keys in the children on the right are greater than an admitted key. -/
theorem Admits.lt_of_mem_right {h : Nat} {id : ι} {left right : List (κ × STree ι κ ν h)}
    {k key : κ} {c : Ctx ι κ ν (h + 1)} (hc : (Ctx.frame id left k right c).Admits key)
    {e : κ × STree ι κ ν h} (he : e ∈ right) {y : κ} (hy : y ∈ e.2.keys) : key < y := by
  refine keyItem_lt_keyItem.mp (hc.2 _ (List.mem_append_left _ ?_))
  exact List.mem_flatMap.mpr ⟨e, he, List.mem_cons_of_mem _ (STree.keyItem_mem_items hy)⟩

/-- A record with an admitted key is in the hole. -/
theorem Admits.mem_pairs_iff {h : Nat} {c : Ctx ι κ ν h} {key : κ} (hc : c.Admits key)
    (t : STree ι κ ν h) (v : ν) : (key, v) ∈ (c.plug t).2.pairs ↔ (key, v) ∈ t.pairs := by
  unfold STree.pairs
  rw [leaves_plug, List.flatMap_append, List.flatMap_append, List.mem_append, List.mem_append]
  constructor
  · rintro (hpre | hmid | hpost)
    · have hitem : keyItem key ∈ c.pre :=
        c.recordItems_leavesPre_sublist.subset (List.mem_map.mpr ⟨_, hpre, rfl⟩)
      exact absurd (hc.1 _ hitem) (lt_irrefl _)
    · exact hmid
    · have hitem : keyItem key ∈ c.post :=
        c.recordItems_leavesPost_sublist.subset (List.mem_map.mpr ⟨_, hpost, rfl⟩)
      exact absurd (hc.2 _ hitem) (lt_irrefl _)
  · exact fun hmid => Or.inr (Or.inl hmid)

end Ctx

/-- The keys of the records of a searchable tree increase. -/
theorem STree.keys_pairwise {h : Nat} {t : STree ι κ ν h} (ht : t.items.Pairwise (· < ·)) :
    t.keys.Pairwise (· < ·) := by
  have hrec := ht.sublist t.recordItems_sublist
  rw [recordItems, List.pairwise_map] at hrec
  rw [keys, List.pairwise_map]
  exact hrec.imp fun h => keyItem_lt_keyItem.mp h

end Search

/-! ### Sizes -/

/-- How many records a leaf and how many children a node has. The lower bounds hold below the
topmost node. -/
structure Limits where
  leafMin : Nat
  leafMax : Nat
  nodeMin : Nat
  nodeMax : Nat

/-- The tree keeps the limits, with the lower bounds `lo` and `lo'` for its topmost node: `lo`
when it is a leaf and `lo'` when it is a node. -/
def STree.SizedFrom (b : Limits) : {h : Nat} → (lo lo' : Nat) → STree ι κ ν h → Prop
  | 0, lo, _, l => lo ≤ (Leaf.entries l).length ∧ (Leaf.entries l).length ≤ b.leafMax
  | _ + 1, _, lo', t => lo' ≤ t.2.length ∧ t.2.length ≤ b.nodeMax ∧
      ∀ e ∈ t.2, SizedFrom b b.leafMin b.nodeMin e.2

/-- The tree keeps the limits as a subtree. -/
def STree.Sized (b : Limits) {h : Nat} (t : STree ι κ ν h) : Prop :=
  t.SizedFrom b b.leafMin b.nodeMin

/-- The tree keeps the limits as a whole: a node at the top has two children. -/
def STree.SizedTop (b : Limits) {h : Nat} (t : STree ι κ ν h) : Prop :=
  t.SizedFrom b (min 1 b.leafMin) 2

/-- The limits of a leaf. -/
theorem STree.sizedFrom_leaf {b : Limits} {lo lo' : Nat} {l : Leaf ι κ ν} :
    (leaf l).SizedFrom b lo lo' ↔ lo ≤ l.entries.length ∧ l.entries.length ≤ b.leafMax :=
  Iff.rfl

/-- The limits of a node and of what is below it. -/
theorem STree.sizedFrom_node {b : Limits} {lo lo' h : Nat} {id : ι}
    {cs : List (κ × STree ι κ ν h)} : (node id cs).SizedFrom b lo lo' ↔
      lo' ≤ cs.length ∧ cs.length ≤ b.nodeMax ∧ ∀ e ∈ cs, e.2.Sized b :=
  Iff.rfl

namespace Ctx

/-- The least number of records of a leaf in the hole. -/
def leafMin (b : Limits) : {h : Nat} → Ctx ι κ ν h → Nat
  | _, .root => min 1 b.leafMin
  | _, .frame _ _ _ _ _ => b.leafMin

/-- The least number of children of a node in the hole. -/
def nodeMin (b : Limits) : {h : Nat} → Ctx ι κ ν h → Nat
  | _, .root => 2
  | _, .frame _ _ _ _ _ => b.nodeMin

/-- The tree around the hole keeps the limits. -/
def Sized (b : Limits) : {h : Nat} → Ctx ι κ ν h → Prop
  | _, .root => True
  | _, .frame _ left _ right up =>
    up.Sized b ∧ up.nodeMin b ≤ left.length + right.length + 1 ∧
      left.length + right.length + 1 ≤ b.nodeMax ∧
      (∀ e ∈ left, e.2.Sized b) ∧ ∀ e ∈ right, e.2.Sized b

/-- A filled hole keeps the limits when the tree around it and the tree in it do. -/
theorem sized_plug {b : Limits} {h : Nat} (c : Ctx ι κ ν h) (t : STree ι κ ν h) :
    (c.plug t).2.SizedTop b ↔ c.Sized b ∧ t.SizedFrom b (c.leafMin b) (c.nodeMin b) := by
  induction c with
  | root => simp [plug, Sized, leafMin, nodeMin, STree.SizedTop]
  | frame id left key right up ih =>
    rw [plug, ih, STree.sizedFrom_node]
    have hlen : (left ++ (key, t) :: right).length = left.length + right.length + 1 := by
      simp; omega
    rw [hlen]
    simp only [Sized, leafMin, nodeMin, List.forall_mem_append, List.forall_mem_cons]
    exact ⟨fun ⟨hup, hlo, hhi, hl, ht, hr⟩ => ⟨⟨hup, hlo, hhi, hl, hr⟩, ht⟩,
      fun ⟨⟨hup, hlo, hhi, hl, hr⟩, ht⟩ => ⟨hup, hlo, hhi, hl, ht, hr⟩⟩

end Ctx

/-- In a tree whose nodes have children there is a name on each level. -/
theorem STree.height_lt_length_ids {b : Limits} (hb : 1 ≤ b.nodeMin) {h lo lo' : Nat}
    (hlo : 1 ≤ lo') {t : STree ι κ ν h} (ht : t.SizedFrom b lo lo') : h < t.ids.length := by
  induction h generalizing lo lo' with
  | zero => exact Nat.one_pos
  | succ h ih =>
    obtain ⟨id, cs, rfl⟩ := t.exists_node
    obtain ⟨hlen, -, hsub⟩ := STree.sizedFrom_node.mp ht
    cases cs with
    | nil => simp at hlen; omega
    | cons e cs =>
      have he := ih hb (hsub e (by simp))
      simp only [STree.ids_node, List.flatMap_cons, List.length_cons, List.length_append]
      omega

/-- A tree whose leaves have records begins with a record. -/
theorem STree.exists_first_key {b : Limits} (hleaf : 1 ≤ b.leafMin) (hnode : 1 ≤ b.nodeMin)
    {h lo lo' : Nat} (hlo : 1 ≤ lo) (hlo' : 1 ≤ lo') {t : STree ι κ ν h}
    (ht : t.SizedFrom b lo lo') : ∃ k rest, k ∈ t.keys ∧ t.items = keyItem k :: rest := by
  induction h generalizing lo lo' with
  | zero =>
    obtain ⟨l, rfl⟩ := t.exists_leaf
    obtain ⟨hmin, -⟩ := STree.sizedFrom_leaf.mp ht
    cases hent : l.entries with
    | nil => rw [hent, List.length_nil] at hmin; omega
    | cons e rest =>
      refine ⟨e.1, rest.map (fun e => keyItem e.1), by simp [keys_leaf, hent], ?_⟩
      rw [items_leaf, Leaf.items_of_ne_nil (by simp [hent]), hent, List.map_cons]
  | succ h ih =>
    obtain ⟨id, cs, rfl⟩ := t.exists_node
    obtain ⟨hlen, -, hsub⟩ := STree.sizedFrom_node.mp ht
    cases cs with
    | nil => simp at hlen; omega
    | cons e cs =>
      obtain ⟨ke, te⟩ := e
      obtain ⟨k, rest, hk, hitems⟩ := ih hleaf hnode (hsub (ke, te) (by simp))
      refine ⟨k, rest ++ seg cs, by simp [keys_node, hk], ?_⟩
      rw [items_node, seg_cons, List.tail_cons, hitems, List.cons_append]

/-- A tree whose leaves have records ends with a record. -/
theorem STree.exists_last_key {b : Limits} (hleaf : 1 ≤ b.leafMin) (hnode : 1 ≤ b.nodeMin)
    {h lo lo' : Nat} (hlo : 1 ≤ lo) (hlo' : 1 ≤ lo') {t : STree ι κ ν h}
    (ht : t.SizedFrom b lo lo') : ∃ k rest, k ∈ t.keys ∧ t.items = rest ++ [keyItem k] := by
  induction h generalizing lo lo' with
  | zero =>
    obtain ⟨l, rfl⟩ := t.exists_leaf
    obtain ⟨hmin, -⟩ := STree.sizedFrom_leaf.mp ht
    rcases List.eq_nil_or_concat l.entries with hent | ⟨rest, e, hent⟩
    · rw [hent, List.length_nil] at hmin; omega
    · refine ⟨e.1, rest.map (fun e => keyItem e.1), by simp [keys_leaf, hent], ?_⟩
      rw [items_leaf, Leaf.items_of_ne_nil (by simp [hent]), hent]
      simp
  | succ h ih =>
    obtain ⟨id, cs, rfl⟩ := t.exists_node
    obtain ⟨hlen, -, hsub⟩ := STree.sizedFrom_node.mp ht
    rcases List.eq_nil_or_concat cs with rfl | ⟨cs, ⟨ke, te⟩, rfl⟩
    · simp at hlen; omega
    · rw [List.concat_eq_append] at hsub ⊢
      obtain ⟨k, rest, hk, hitems⟩ := ih hleaf hnode (hsub (ke, te) (by simp))
      refine ⟨k, (seg cs ++ [sep ke]).tail ++ rest, by simp [keys_node, hk], ?_⟩
      rw [items_node, Ctx.tail_seg_mid, hitems]
      simp

/-! ### Links -/

/-- Each leaf has the name of the next one, and the last leaf has the name `nil`. -/
def Linked (nil : ι) (leaves : List (Leaf ι κ ν)) : Prop :=
  ((leaves.map fun l => (l.id, l.next)) ++ [(nil, nil)]).IsChain (fun a b => a.2 = b.1)

variable {A B : List (Leaf ι κ ν)}

/-- Records may change as long as names and links stay. -/
theorem Linked.congr {nil : ι} {l a : Leaf ι κ ν} (h : Linked nil (A ++ l :: B)) (hid : a.id = l.id)
    (hnext : a.next = l.next) :
    Linked nil (A ++ a :: B) := by
  unfold Linked at h ⊢
  simpa [hid, hnext] using h

/-- A leaf is split in two. -/
theorem Linked.split {nil : ι} {l a b : Leaf ι κ ν} (h : Linked nil (A ++ l :: B))
    (hid : a.id = l.id) (hlink : a.next = b.id) (hnext : b.next = l.next) :
    Linked nil (A ++ a :: b :: B) := by
  unfold Linked at h ⊢
  simp only [List.map_append, List.map_cons, List.append_assoc, List.cons_append,
    List.isChain_append, List.isChain_cons, List.head?_cons, Option.mem_some_iff,
    forall_eq'] at h ⊢
  obtain ⟨has, ⟨hl, hbs⟩, hlast⟩ := h
  exact ⟨has, ⟨hlink, hnext ▸ hl, hbs⟩, hid ▸ hlast⟩

/-- Two neighbouring leaves are merged. -/
theorem Linked.merge {nil : ι} {l a b : Leaf ι κ ν} (h : Linked nil (A ++ a :: b :: B))
    (hid : l.id = a.id) (hnext : l.next = b.next) :
    Linked nil (A ++ l :: B) := by
  unfold Linked at h ⊢
  simp only [List.map_append, List.map_cons, List.append_assoc, List.cons_append,
    List.isChain_append, List.isChain_cons, List.head?_cons, Option.mem_some_iff,
    forall_eq'] at h ⊢
  obtain ⟨has, ⟨-, hl, hbs⟩, hlast⟩ := h
  exact ⟨has, ⟨hnext ▸ hl, hbs⟩, hid ▸ hlast⟩

/-! ### Lists -/

/-- A list of two elements or more begins with two. -/
theorem exists_cons_cons_of_two_le {α : Type} {as : List α} (h : 2 ≤ as.length) :
    ∃ a b rest, as = a :: b :: rest := by
  match as, h with
  | a :: b :: rest, _ => exact ⟨a, b, rest, rfl⟩

section Increasing
variable {α : Type} [LinearOrder α]

/-- The middle of an increasing list may be replaced by an increasing list that stays between
its bounds. -/
theorem pairwise_replace {A B M C : List α} (h : (A ++ (B ++ C)).Pairwise (· < ·))
    (hb : M.Pairwise (· < ·)) (hlo : ∀ x ∈ M, ∃ y ∈ B, y ≤ x)
    (hhi : ∀ x ∈ M, ∃ y ∈ B, x ≤ y) : (A ++ (M ++ C)).Pairwise (· < ·) := by
  rw [List.pairwise_append, List.pairwise_append] at h ⊢
  obtain ⟨ha, ⟨-, hc, hbc⟩, habc⟩ := h
  refine ⟨ha, ⟨hb, hc, ?_⟩, ?_⟩
  · intro x hx z hz
    obtain ⟨y, hy, hxy⟩ := hhi x hx
    exact lt_of_le_of_lt hxy (hbc y hy z hz)
  · intro a ha' x hx
    rcases List.mem_append.mp hx with hx | hx
    · obtain ⟨y, hy, hyx⟩ := hlo x hx
      exact lt_of_lt_of_le (habc a ha' y (by simp [hy])) hyx
    · exact habc a ha' x (by simp [hx])

/-- The middle of an increasing list may be replaced by a sublist of it. -/
theorem pairwise_shrink {A B M C : List α} (h : (A ++ (B ++ C)).Pairwise (· < ·))
    (hb : M.Sublist B) : (A ++ (M ++ C)).Pairwise (· < ·) :=
  h.sublist ((List.Sublist.refl A).append (hb.append_right C))

/-- An element fits between two parts of an increasing list. -/
theorem pairwise_insert {A B : List α} {x : α} (h : (A ++ B).Pairwise (· < ·))
    (has : ∀ a ∈ A, a < x) (hbs : ∀ b ∈ B, x < b) : (A ++ x :: B).Pairwise (· < ·) := by
  rw [List.pairwise_append] at h
  rw [List.pairwise_append, List.pairwise_cons]
  refine ⟨h.1, ⟨hbs, h.2.1⟩, ?_⟩
  intro a ha b hb
  rcases List.mem_cons.mp hb with rfl | hb
  · exact has a ha
  · exact h.2.2 a ha b hb

end Increasing

/-- Another separator between two records. -/
theorem pairwise_replace_sep [LinearOrder κ] {A B : List (κ ×ₗ Bool)} {a b k k' : κ}
    (h : (A ++ keyItem a :: sep k :: keyItem b :: B).Pairwise (· < ·)) (ha : a < k')
    (hb : k' ≤ b) : (A ++ keyItem a :: sep k' :: keyItem b :: B).Pairwise (· < ·) := by
  have hab : keyItem a < keyItem b := keyItem_lt_keyItem.mpr (lt_of_lt_of_le ha hb)
  have hak : keyItem a < sep k' := keyItem_lt_sep.mpr ha
  have hkb : sep k' < keyItem b := sep_lt_keyItem.mpr hb
  refine pairwise_replace (B := [keyItem a, sep k, keyItem b])
    (M := [keyItem a, sep k', keyItem b]) h ?_ ?_ ?_
  · simp [hab, hak, hkb]
  · simp only [List.forall_mem_cons]
    exact ⟨⟨_, by simp, le_refl _⟩, ⟨keyItem a, by simp, le_of_lt hak⟩, ⟨_, by simp, le_of_lt hab⟩,
      by simp⟩
  · simp only [List.forall_mem_cons]
    exact ⟨⟨_, by simp, le_refl _⟩, ⟨keyItem b, by simp, le_of_lt hkb⟩, ⟨_, by simp, le_refl _⟩,
      by simp⟩

/-- The key of a record is a separator in front of it, behind another record. -/
theorem pairwise_insert_sep [LinearOrder κ] {A B : List (κ ×ₗ Bool)} {a b : κ}
    (h : (A ++ keyItem a :: keyItem b :: B).Pairwise (· < ·)) :
    (A ++ keyItem a :: sep b :: keyItem b :: B).Pairwise (· < ·) := by
  have hsplit : A ++ keyItem a :: keyItem b :: B = (A ++ [keyItem a]) ++ keyItem b :: B := by
    simp
  rw [hsplit] at h
  obtain ⟨hl, hr, hlr⟩ := List.pairwise_append.mp h
  have hab : keyItem a < sep b :=
    keyItem_lt_sep.mpr (keyItem_lt_keyItem.mp (hlr _ (by simp) _ List.mem_cons_self))
  have hb : sep b < keyItem b := sep_lt_keyItem.mpr (le_refl b)
  have hins := pairwise_insert (x := sep b) h
    (fun x hx => by
      rcases List.mem_append.mp hx with hx | hx
      · exact lt_trans ((List.pairwise_append.mp hl).2.2 x hx _ (by simp)) hab
      · rw [List.mem_singleton.mp hx]
        exact hab)
    (fun x hx => by
      rcases List.mem_cons.mp hx with rfl | hx
      · exact hb
      · exact lt_trans hb ((List.pairwise_cons.mp hr).1 x hx))
  simpa using hins

/-- The key separates the two lists of keys. -/
def Separates [LinearOrder κ] (left : List κ) (k : κ) (right : List κ) : Prop :=
  (∀ x ∈ left, x < k) ∧ ∀ x ∈ right, k ≤ x

/-- Another separator between two trees whose leaves have records. -/
theorem Separates.pairwise [LinearOrder κ] {b : Limits} (hleaf : 1 ≤ b.leafMin)
    (hnode : 1 ≤ b.nodeMin) {h lo lo' : Nat} (hlo : 1 ≤ lo) (hlo' : 1 ≤ lo') {L R : STree ι κ ν h}
    (hL : L.SizedFrom b lo lo') (hR : R.SizedFrom b lo lo') {as bs : List (κ ×ₗ Bool)} {k k' : κ}
    (hsep : Separates L.keys k' R.keys)
    (h : (as ++ (L.items ++ sep k :: (R.items ++ bs))).Pairwise (· < ·)) :
    (as ++ (L.items ++ sep k' :: (R.items ++ bs))).Pairwise (· < ·) := by
  obtain ⟨a, l, ha, hl⟩ := STree.exists_last_key hleaf hnode hlo hlo' hL
  obtain ⟨c, r, hc, hr⟩ := STree.exists_first_key hleaf hnode hlo hlo' hR
  rw [hl, hr] at h ⊢
  have hrep := pairwise_replace_sep (A := as ++ l) (B := r ++ bs) (by simpa using h)
    (hsep.1 a ha) (hsep.2 c hc)
  simpa using hrep

/-! ### Another key in front of the hole -/

namespace Ctx

/-- The context with another key in front of the hole. -/
def setKey (k : κ) : {h : Nat} → Ctx ι κ ν h → Ctx ι κ ν h
  | _, .root => .root
  | _, .frame id left _ right up => .frame id left k right up

/-- The contexts differ in the keys before the hole only. -/
structure SameShape {h : Nat} (c c' : Ctx ι κ ν h) : Prop where
  parentId : ∀ nil, c'.parentId nil = c.parentId nil
  topId : ∀ hole, c'.topId hole = c.topId hole
  sized : ∀ b, c.Sized b → c'.Sized b
  leafMin : ∀ b, c'.leafMin b = c.leafMin b
  nodeMin : ∀ b, c'.nodeMin b = c.nodeMin b
  leavesPre : c'.leavesPre = c.leavesPre
  leavesPost : c'.leavesPost = c.leavesPost
  post : c'.post = c.post
  depth : c'.depth = c.depth

/-- A place has the shape of itself. -/
theorem SameShape.rfl {h : Nat} {c : Ctx ι κ ν h} : c.SameShape c := by
  constructor <;> simp

/-- A key of the path may change without changing the shape. -/
theorem SameShape.frame {h : Nat} {id : ι} {left right : List (κ × STree ι κ ν h)} {k k' : κ}
    {c c' : Ctx ι κ ν (h + 1)} (hc : c.SameShape c') :
    (Ctx.frame id left k right c).SameShape (.frame id left k' right c') where
  parentId := fun _ => Eq.refl id
  topId := fun _ => hc.topId id
  sized := fun b ⟨hup, hmin, hrest⟩ => ⟨hc.sized b hup, hc.nodeMin b ▸ hmin, hrest⟩
  leafMin := fun b => Eq.refl b.leafMin
  nodeMin := fun b => Eq.refl b.nodeMin
  leavesPre := by rw [Ctx.leavesPre, Ctx.leavesPre, hc.leavesPre]
  leavesPost := by rw [Ctx.leavesPost, Ctx.leavesPost, hc.leavesPost]
  post := by rw [Ctx.post, Ctx.post, hc.post]
  depth := by rw [Ctx.depth, Ctx.depth, hc.depth]

/-- So may the key a place is reached by. -/
theorem setKey_sameShape {h : Nat} (c : Ctx ι κ ν h) (k : κ) : c.SameShape (c.setKey k) := by
  cases c with
  | root => exact .rfl
  | frame id left key right up => exact SameShape.rfl.frame

/-- The key in front of the hole is the last item before it, unless the hole is the first child. -/
theorem setKey_pre {h : Nat} (c : Ctx ι κ ν h) (k : κ) : (c.setKey k).pre = c.pre ∨
    ∃ as k₀, c.pre = as ++ [sep k₀] ∧ (c.setKey k).pre = as ++ [sep k] := by
  cases c with
  | root => exact Or.inl rfl
  | frame id left key right up =>
    cases left with
    | nil => exact Or.inl rfl
    | cons e left =>
      obtain ⟨ke, te⟩ := e
      exact Or.inr ⟨up.pre ++ (te.items ++ seg left), key, by simp [pre], by simp [setKey, pre]⟩

/-- The key of the first record behind it is a key for the hole. -/
theorem pairwise_setKey [LinearOrder κ] {h : Nat} {c : Ctx ι κ ν h} {k : κ}
    {rest : List (κ ×ₗ Bool)} (hord : (c.pre ++ keyItem k :: rest).Pairwise (· < ·)) :
    ((c.setKey k).pre ++ keyItem k :: rest).Pairwise (· < ·) := by
  rcases c.setKey_pre k with hpre | ⟨as, k₀, hc, hpre⟩
  · rw [hpre]
    exact hord
  · rw [hc, List.append_assoc, List.singleton_append] at hord
    rw [hpre, List.append_assoc, List.singleton_append]
    have hle : k₀ ≤ k := by
      have htail := (List.pairwise_append.mp hord).2.1
      exact sep_lt_keyItem.mp ((List.pairwise_cons.mp htail).1 _ List.mem_cons_self)
    have hk : sep k < keyItem k := sep_lt_keyItem.mpr (le_refl k)
    refine pairwise_replace (B := [sep k₀, keyItem k]) (M := [sep k, keyItem k]) hord ?_ ?_ ?_
    · simp
    · simp only [List.forall_mem_cons]
      exact ⟨⟨sep k₀, by simp, sep_le_sep.mpr hle⟩, ⟨keyItem k, by simp, le_refl _⟩, by simp⟩
    · simp only [List.forall_mem_cons]
      exact ⟨⟨keyItem k, by simp, le_of_lt hk⟩, ⟨keyItem k, by simp, le_refl _⟩, by simp⟩

end Ctx

end DisMiniSql.Lib
