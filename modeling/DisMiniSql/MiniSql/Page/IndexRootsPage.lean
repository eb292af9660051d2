import Mathlib.Logic.Function.Basic
import DisMiniSql.Lib.Run
import DisMiniSql.Lib.Slots
import DisMiniSql.MiniSql.Config

/-!
# `DisMiniSql.MiniSql.Page.IndexRootsPage`: `IndexRootsPage`

`page/index_roots_page.cpp`: the table of the root page of every index. For the tree that looks its
root up, `roots_` and `count_` are a list, its length being `count_`.

`page/index_roots_page.h` declares `roots_` as an array of no length at the end of the page, so
`roots_[i]` is an address for every `i`. In `Slots`, `roots` is the memory from the array on: a
function of the slot. The slots below `MAX_INDEX_COUNT` lie in the page, and those from there on are
memory of something else. `Slots.toPage` is the list of the entries.

`RootMap` says what the page is for: a map from the index id to the root page id, and what each
call answers and does to it.
-/

set_option autoImplicit false

namespace DisMiniSql.MiniSql

/-- `index_id_t`. -/
abbrev IndexId := Nat

/-- `IndexRootsPage`. -/
structure IndexRootsPage where
  roots : List (IndexId × PageId)

namespace IndexRootsPage

/-- `IndexRootsPage::FindIndex`: the slot of an index. -/
def findIndex (r : IndexRootsPage) (indexId : IndexId) : Option Nat :=
  r.roots.findIdx? (fun e => e.1 = indexId)

/-- `IndexRootsPage::Insert`. -/
def insert (r : IndexRootsPage) (indexId : IndexId) (rootId : PageId) : Bool × IndexRootsPage :=
  match r.findIndex indexId with
  | some _ => (false, r)
  | none => (true, { roots := r.roots ++ [(indexId, rootId)] })

/-- `IndexRootsPage::Update`. -/
def update (r : IndexRootsPage) (indexId : IndexId) (rootId : PageId) : Bool × IndexRootsPage :=
  match r.findIndex indexId with
  | none => (false, r)
  | some i => (true, { roots := r.roots.set i (indexId, rootId) })

/-- `IndexRootsPage::GetRootId`. -/
def getRootId (r : IndexRootsPage) (indexId : IndexId) : Option PageId :=
  match r.findIndex indexId with
  | none => none
  | some i => (r.roots[i]?).map Prod.snd

/-! ### The slots -/

/-- `MAX_INDEX_COUNT`: how many slots fit behind `count_`. -/
def MAX_INDEX_COUNT : Nat := (PAGE_SIZE - 4) / 8

/-- The calls. -/
inductive Call
  | insert (indexId : IndexId) (rootId : PageId)
  | delete (indexId : IndexId)
  | update (indexId : IndexId) (rootId : PageId)
  | getRootId (indexId : IndexId)
  deriving DecidableEq, Repr

/-- What a call answers: its success, and `*root_id`. -/
inductive Answer
  | done (ok : Bool)
  | root (rootId : Option PageId)
  deriving DecidableEq, Repr

/-- `IndexRootsPage`, with `roots_` as memory. -/
structure Slots where
  count : Nat
  roots : Nat → IndexId × PageId

namespace Slots

/-- `IndexRootsPage::Init`: whatever is in the slots stays there. -/
def init (roots : Nat → IndexId × PageId) : Slots := ⟨0, roots⟩

/-- `IndexRootsPage::FindIndex`, where `none` is `-1`. -/
def findIndex (r : Slots) (indexId : IndexId) : Option Nat :=
  (List.range r.count).find? fun i => (r.roots i).1 = indexId

/-- `roots_[count_] = e; count_++`. -/
def push (r : Slots) (e : IndexId × PageId) : Slots :=
  ⟨r.count + 1, Lib.setSlot r.roots r.count e⟩

/-- The loop that closes the gap at `i`, and `count_--`. -/
def close (r : Slots) (i : Nat) : Slots :=
  ⟨r.count - 1, Lib.shiftDown r.roots i (r.count - 1 - i)⟩

/-- `roots_[i].second = root_id`. -/
def setRoot (r : Slots) (i : Nat) (rootId : PageId) : Slots :=
  ⟨r.count, Lib.setSlot r.roots i ((r.roots i).1, rootId)⟩

/-- `IndexRootsPage::Insert`. -/
def insert (r : Slots) (indexId : IndexId) (rootId : PageId) : Bool × Slots :=
  match r.findIndex indexId with
  | some _ => (false, r)
  -- `count_` is not compared with `MAX_INDEX_COUNT`
  | none => (true, r.push (indexId, rootId))

/-- `IndexRootsPage::Delete`. -/
def delete (r : Slots) (indexId : IndexId) : Bool × Slots :=
  match r.findIndex indexId with
  | none => (false, r)
  | some i => (true, r.close i)

/-- `IndexRootsPage::Update`. -/
def update (r : Slots) (indexId : IndexId) (rootId : PageId) : Bool × Slots :=
  match r.findIndex indexId with
  | none => (false, r)
  | some i => (true, r.setRoot i rootId)

/-- `IndexRootsPage::GetRootId`: `*root_id`, if the call succeeds. -/
def getRootId (r : Slots) (indexId : IndexId) : Option PageId :=
  (r.findIndex indexId).map fun i => (r.roots i).2

/-- A call: its answer and the page after it. -/
def call (r : Slots) : Call → Answer × Slots
  | .insert indexId rootId => ((r.insert indexId rootId).map .done id)
  | .delete indexId => ((r.delete indexId).map .done id)
  | .update indexId rootId => ((r.update indexId rootId).map .done id)
  | .getRootId indexId => (.root (r.getRootId indexId), r)

/-- The page after a call. -/
def step (r : Slots) (c : Call) : Slots := (r.call c).2

/-- The entries, in the order of the slots. -/
def entries (r : Slots) : List (IndexId × PageId) := Lib.slots r.roots r.count

/-- The page with its entries as a list. -/
def toPage (r : Slots) : IndexRootsPage := ⟨r.entries⟩

end Slots

/-! ### The map -/

/-- The root page id of every index that has one. -/
abbrev RootMap := IndexId → Option PageId

namespace RootMap

/-- What a call answers, and the map after it. -/
def call (m : RootMap) : Call → Answer × RootMap
  | .insert indexId rootId =>
    if m indexId = none then (.done true, Function.update m indexId (some rootId))
    else (.done false, m)
  | .delete indexId =>
    if m indexId = none then (.done false, m)
    else (.done true, Function.update m indexId none)
  | .update indexId rootId =>
    if m indexId = none then (.done false, m)
    else (.done true, Function.update m indexId (some rootId))
  | .getRootId indexId => (.root (m indexId), m)

end RootMap

namespace Slots

/-- The map that the entries are. -/
def map (r : Slots) : RootMap := fun indexId => r.entries.lookup indexId

/-- A call answers and does what it answers and does on the map, no more entries are counted than
fit, and memory outside the page keeps its contents. -/
structure KeepsMap (r : Slots) (c : Call) : Prop where
  answer : (r.call c).1 = (r.map.call c).1
  map : (r.step c).map = (r.map.call c).2
  count : (r.step c).count ≤ MAX_INDEX_COUNT
  outside : ∀ i, MAX_INDEX_COUNT ≤ i → (r.step c).roots i = r.roots i

/-- An `Insert` of an id that is absent finds a slot of the page free. -/
def HasRoom (r : Slots) : Call → Prop
  | .insert indexId _ => r.findIndex indexId = none → r.count < MAX_INDEX_COUNT
  | _ => True

end Slots

end IndexRootsPage

end DisMiniSql.MiniSql
