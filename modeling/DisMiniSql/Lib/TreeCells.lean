import DisMiniSql.Lib.SearchTree
import Mathlib.Data.List.Perm.Subperm

/-!
# `DisMiniSql.Lib.TreeCells`: a search tree spread over named cells

A heap stores each node of a tree in a cell of its own, under the name of the node. The cell
has the name of the parent, and a node's cell has the keys and the names of its children.
`flat nil t` lists the cells of `t`, with `nil` as the parent of the topmost node, and
`Ctx.flat` those of a tree with a hole.

* `flat_plug`: the cells of a filled hole are those around it and those in it.
-/

set_option autoImplicit false

namespace DisMiniSql.Lib

/-- What is stored under the name of a node. -/
inductive Cell (ι κ ν : Type)
  | leaf (parent next : ι) (first : κ) (entries : List (κ × ν))
  | node (parent : ι) (children : List (κ × ι))

variable {ι κ ν : Type}

/-- Lists with the same counts are the same up to order. The counts of appended lists add up, so
this turns a permutation of appended lists into arithmetic. -/
theorem perm_of_countP {α : Type} {as bs : List α}
    (h : ∀ P : α → Bool, as.countP P = bs.countP P) : as.Perm bs := by
  classical
  exact List.perm_iff_count.mpr fun a => h (· == a)

/-- The keys and names of some children. -/
def names {h : Nat} (cs : List (κ × STree ι κ ν h)) : List (κ × ι) :=
  cs.map (fun e => (e.1, e.2.rootId))

@[simp] theorem names_nil {h : Nat} : names ([] : List (κ × STree ι κ ν h)) = [] := rfl

/-- A child is named by its key and its root. -/
@[simp] theorem names_cons {h : Nat} (k : κ) (t : STree ι κ ν h)
    (cs : List (κ × STree ι κ ν h)) : names ((k, t) :: cs) = (k, t.rootId) :: names cs := rfl

/-- The names of two lists of children. -/
@[simp] theorem names_append {h : Nat} (as bs : List (κ × STree ι κ ν h)) :
    names (as ++ bs) = names as ++ names bs := by
  simp [names]

/-- One name for each child. -/
@[simp] theorem length_names {h : Nat} (cs : List (κ × STree ι κ ν h)) :
    (names cs).length = cs.length := by
  simp [names]

namespace STree

/-- The topmost cell, below the node `parent`. -/
def topCell (parent : ι) : {h : Nat} → STree ι κ ν h → Cell ι κ ν
  | 0, l => .leaf parent (Leaf.next l) (Leaf.first l) (Leaf.entries l)
  | _ + 1, t => .node parent (names t.2)

/-- The cells below the topmost one. -/
def below : {h : Nat} → STree ι κ ν h → List (ι × Cell ι κ ν)
  | 0, _ => []
  | _ + 1, t => t.2.flatMap (fun e => (e.2.rootId, e.2.topCell t.1) :: below e.2)

/-- All cells, below the node `parent`. -/
def flat (parent : ι) {h : Nat} (t : STree ι κ ν h) : List (ι × Cell ι κ ν) :=
  (t.rootId, t.topCell parent) :: t.below

end STree

/-- The cells of some children of the node `parent`. -/
def forest (parent : ι) {h : Nat} (cs : List (κ × STree ι κ ν h)) : List (ι × Cell ι κ ν) :=
  cs.flatMap (fun e => e.2.flat parent)

/-- The cells of no children. -/
@[simp] theorem forest_nil (parent : ι) {h : Nat} :
    forest parent ([] : List (κ × STree ι κ ν h)) = [] := rfl

/-- Those of a child and of its siblings. -/
@[simp] theorem forest_cons (parent : ι) {h : Nat} (k : κ) (t : STree ι κ ν h)
    (cs : List (κ × STree ι κ ν h)) :
    forest parent ((k, t) :: cs) = t.flat parent ++ forest parent cs := by
  simp [forest]

/-- Those of two lists of children. -/
@[simp] theorem forest_append (parent : ι) {h : Nat} (as bs : List (κ × STree ι κ ν h)) :
    forest parent (as ++ bs) = forest parent as ++ forest parent bs := by
  simp [forest]

namespace STree

/-- The cell of a leaf. -/
theorem topCell_leaf (parent : ι) (l : Leaf ι κ ν) :
    (leaf l).topCell parent = .leaf parent l.next l.first l.entries := rfl

/-- The cell of a node names its children only. -/
theorem topCell_node (parent : ι) {h : Nat} (id : ι) (cs : List (κ × STree ι κ ν h)) :
    (node id cs).topCell parent = .node parent (names cs) := rfl

/-- A leaf is one cell. -/
theorem flat_leaf (parent : ι) (l : Leaf ι κ ν) :
    (leaf l).flat parent = [(l.id, .leaf parent l.next l.first l.entries)] := rfl

/-- A node is its own cell and those of its children. -/
theorem flat_node (parent : ι) {h : Nat} (id : ι) (cs : List (κ × STree ι κ ν h)) :
    (node id cs).flat parent = (id, .node parent (names cs)) :: forest id cs := rfl

/-- The names of the cells are the names of the nodes. -/
theorem map_fst_flat (parent : ι) {h : Nat} (t : STree ι κ ν h) :
    (t.flat parent).map Prod.fst = t.ids := by
  induction h generalizing parent with
  | zero => rfl
  | succ h ih =>
    obtain ⟨id, cs, rfl⟩ := t.exists_node
    rw [flat_node, ids_node, List.map_cons, forest, List.map_flatMap]
    simp [ih]

end STree

/-- The cells of children carry their ids. -/
theorem map_fst_forest (parent : ι) {h : Nat} (cs : List (κ × STree ι κ ν h)) :
    (forest parent cs).map Prod.fst = cs.flatMap (fun e => e.2.ids) := by
  simp [forest, List.map_flatMap, STree.map_fst_flat]

namespace Ctx

/-- The cells around the hole, when the hole is filled with a tree named `hole`. -/
def flat (nil hole : ι) : {h : Nat} → Ctx ι κ ν h → List (ι × Cell ι κ ν)
  | _, .root => []
  | _, .frame id left key right up =>
    up.flat nil id ++ (id, .node (up.parentId nil) (names left ++ (key, hole) :: names right)) ::
      (forest id left ++ forest id right)

/-- The names around the hole. -/
def ids : {h : Nat} → Ctx ι κ ν h → List ι
  | _, .root => []
  | _, .frame id left _ right up =>
    up.ids ++ id :: (left.flatMap (fun e => e.2.ids) ++ right.flatMap (fun e => e.2.ids))

/-- So do the cells of a place. -/
theorem map_fst_flat (nil hole : ι) {h : Nat} (c : Ctx ι κ ν h) :
    (c.flat nil hole).map Prod.fst = c.ids := by
  induction c generalizing hole with
  | root => rfl
  | frame id left key right up ih =>
    simp [flat, ids, ih, map_fst_forest]

/-- The cells of a filled hole are those around it and those in it. -/
theorem flat_plug (nil : ι) {h : Nat} (c : Ctx ι κ ν h) (t : STree ι κ ν h) :
    ((c.plug t).2.flat nil).Perm (c.flat nil t.rootId ++ t.flat (c.parentId nil)) := by
  induction c with
  | root => simp [plug, flat, parentId]
  | frame id left key right up ih =>
    rw [plug]
    refine (ih _).trans ?_
    simp only [flat, parentId, STree.rootId_node, STree.flat_node, names_append, names_cons,
      forest_append, forest_cons, List.append_assoc, List.cons_append]
    refine List.Perm.append_left _ (List.Perm.cons _ (List.Perm.append_left _ ?_))
    exact List.perm_append_comm

/-- There are at least as many names around the hole as nodes above it. -/
theorem depth_le_length_ids {h : Nat} (c : Ctx ι κ ν h) : c.depth ≤ c.ids.length := by
  induction c with
  | root => exact Nat.le_refl 0
  | frame id left key right up ih =>
    simp only [depth, ids, List.length_append, List.length_cons]
    omega

end Ctx

end DisMiniSql.Lib
