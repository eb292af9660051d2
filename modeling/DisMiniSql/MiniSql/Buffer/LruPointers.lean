import DisMiniSql.Lib.LinkedList
import DisMiniSql.MiniSql.Buffer.LruReplacer

/-!
# `DisMiniSql.MiniSql.Buffer.LruPointers`: the pointers of `LRUReplacer`

`buffer/lru_replacer.cpp` statement by statement: the nodes lie in memory, `head` and `tail` are
two of them, and `map` holds addresses. A call has no result where it follows a pointer to a node
that was deleted or never created, or reads `unpinned` beyond its end.

`Queue` says what the replacer is for: the time at which each frame came in, and what each call
answers and does. `Victim` takes the frame that came in first.
-/

set_option autoImplicit false

namespace DisMiniSql.MiniSql

/-- `LRUReplacer`, with its nodes in memory. -/
structure LruPointers where
  memory : Lib.Memory FrameId
  head : Nat
  tail : Nat
  /-- `MAX_NUM_PAGES` -/
  maxNumPages : Nat
  /-- `now_size` -/
  nowSize : Nat
  map : FrameId → Option Nat
  unpinned : List Bool
  /-- The address the next `new node` returns. -/
  nextAddr : Nat

namespace LruPointers

/-- `LRUReplacer::LRUReplacer`. The fields of the nodes that it does not set are what `garbage` has
there. -/
def new (garbage : Lib.Memory FrameId) (numPages : Nat) : LruPointers where
  memory :=
    { live := fun p => p = 0 || p = 1
      val := garbage.val
      prev := Function.update garbage.prev 1 0
      next := Function.update garbage.next 0 1 }
  head := 0
  tail := 1
  maxNumPages := numPages
  nowSize := 0
  map := fun _ => none
  unpinned := List.replicate (numPages + 5) false
  nextAddr := 2

/-- `unpinned[frame_id]`. -/
def getUnpinned (r : LruPointers) (frameId : FrameId) : Option Bool := r.unpinned[frameId]?

/-- `unpinned[frame_id] = b`. -/
def setUnpinned (r : LruPointers) (frameId : FrameId) (b : Bool) : Option LruPointers :=
  if frameId < r.unpinned.length then some { r with unpinned := r.unpinned.set frameId b } else none

/-- `LRUReplacer::Victim`: `*frame_id`, or `none` when the call returns `false`. -/
def victim (r : LruPointers) : Option (Option FrameId × LruPointers) :=
  if r.nowSize = 0 then some (none, r)
  else do
    let now ← r.memory.getPrev r.tail
    let frameId ← r.memory.getVal now
    let memory ← r.memory.unlink now
    let r ← { r with memory, map := Function.update r.map frameId none }.setUnpinned frameId false
    let memory ← r.memory.free now
    some (some frameId, { r with memory, nowSize := r.nowSize - 1 })

/-- `LRUReplacer::Pin`. -/
def pin (r : LruPointers) (frameId : FrameId) : Option LruPointers :=
  if frameId > r.maxNumPages then some r
  else do
    if !(← r.getUnpinned frameId) then return r
    let r ← r.setUnpinned frameId false
    -- `map[frame_id]` is a null pointer if the frame is no key
    let now ← r.map frameId
    let memory ← r.memory.unlink now
    let memory ← memory.free now
    return { r with memory, map := Function.update r.map frameId none, nowSize := r.nowSize - 1 }

/-- `LRUReplacer::Unpin`. -/
def unpin (r : LruPointers) (frameId : FrameId) : Option LruPointers :=
  if frameId > r.maxNumPages then some r
  else do
    if ← r.getUnpinned frameId then return r
    let r ← r.setUnpinned frameId true
    let now := r.nextAddr
    let memory ← r.memory.linkBehind r.head now frameId
    return { r with
      memory, map := Function.update r.map frameId (some now)
      nowSize := r.nowSize + 1, nextAddr := now + 1 }

/-- A call, and the frame that it returns. -/
def call (r : LruPointers) : ReplacerCall → Option (Option FrameId × LruPointers)
  | .victim => r.victim
  | .pin frameId => (r.pin frameId).map fun r => (none, r)
  | .unpin frameId => (r.unpin frameId).map fun r => (none, r)

/-- Calls, one after another, and the frames that they return. -/
def calls (r : LruPointers) : List ReplacerCall → Option (List (Option FrameId) × LruPointers)
  | [] => some ([], r)
  | c :: cs => do
    let (answer, r) ← r.call c
    let (answers, r) ← r.calls cs
    some (answer :: answers, r)

end LruPointers

/-! ### The queue -/

/-- The frames that are in, each with the time of the `Unpin` that put it there. -/
structure Queue where
  time : Nat := 0
  since : FrameId → Option Nat := fun _ => none

namespace Queue

/-- A frame goes out. -/
def remove (q : Queue) (f : FrameId) : Queue :=
  { q with since := Function.update q.since f none }

/-- A frame comes in. -/
def enter (q : Queue) (f : FrameId) : Queue :=
  { time := q.time + 1, since := Function.update q.since f (some q.time) }

/-- A removed frame has no time of entry. -/
theorem since_remove (q : Queue) (f g : FrameId) :
    (q.remove f).since g = if g = f then none else q.since g :=
  Function.update_apply ..

/-- A frame that enters gets the present one. -/
theorem since_enter (q : Queue) (f g : FrameId) :
    (q.enter f).since g = if g = f then some q.time else q.since g :=
  Function.update_apply ..

/-- What a call may answer and do. -/
inductive Step : Queue → ReplacerCall → Option FrameId → Queue → Prop
  /-- `Victim` fails when no frame is in. -/
  | empty (q : Queue) (hempty : ∀ f, q.since f = none) : Step q .victim none q
  /-- `Victim` takes the frame that is in for the longest time. -/
  | victim (q : Queue) (f : FrameId) (t : Nat) (hf : q.since f = some t)
      (hfirst : ∀ g u, q.since g = some u → t ≤ u) :
      Step q .victim (some f) (q.remove f)
  /-- `Pin` takes its frame out, if it is in. -/
  | pin (q : Queue) (f : FrameId) : Step q (.pin f) none (q.remove f)
  /-- `Unpin` puts in a frame that is not. -/
  | unpin (q : Queue) (f : FrameId) (hf : q.since f = none) : Step q (.unpin f) none (q.enter f)
  /-- `Unpin` of a frame that is in changes nothing. -/
  | again (q : Queue) (f : FrameId) (hf : q.since f ≠ none) : Step q (.unpin f) none q

/-- Calls, one after another. -/
inductive Steps : Queue → List ReplacerCall → List (Option FrameId) → Queue → Prop
  | nil (q : Queue) : Steps q [] [] q
  | cons {q q' q'' : Queue} {c : ReplacerCall} {cs : List ReplacerCall} {a : Option FrameId}
      {as : List (Option FrameId)} (hstep : Step q c a q') (hrest : Steps q' cs as q'') :
      Steps q (c :: cs) (a :: as) q''

end Queue

namespace LruPointers

/-- The list, the map, the flags and the size all are the frames of the queue, the list in the
order in which they came in: the last one is behind `head`. -/
structure Holds (r : LruPointers) (q : Queue) (nodes : List LruNode) : Prop where
  /-- The nodes are linked between `head` and `tail`, and hold their frames. -/
  linked : r.memory.Linked (r.head :: (nodes.map (·.addr) ++ [r.tail]))
  vals : ∀ n ∈ nodes, r.memory.val n.addr = n.val
  nodup : (nodes.map (·.val)).Nodup
  map : ∀ f a, r.map f = some a ↔ ⟨a, f⟩ ∈ nodes
  unpinned : ∀ f, r.unpinned[f]? = some true ↔ f ∈ nodes.map (·.val)
  size : r.nowSize = nodes.length
  mem : ∀ f, f ∈ nodes.map (·.val) ↔ q.since f ≠ none
  /-- A frame in front of another one came in later. -/
  order : (nodes.map (·.val)).Pairwise fun f g => ∀ t u, q.since f = some t → q.since g = some u →
    u < t

end LruPointers

end DisMiniSql.MiniSql
