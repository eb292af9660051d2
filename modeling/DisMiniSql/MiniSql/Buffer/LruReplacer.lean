import DisMiniSql.MiniSql.Config

/-!
# `DisMiniSql.MiniSql.Buffer.LruReplacer`: `LRUReplacer`

`buffer/lru_replacer.cpp` keeps the evictable frames in a doubly linked list between the
sentinels `head` and `tail`. `Unpin` links a new node behind `head`, `Victim` unlinks the node
before `tail`. The map finds the node of a frame, and the flags `unpinned` say which frames
have one.

The model keeps the nodes as a list from `head->next` to `tail->prev`. A node carries an
address, so that `map` can point at it as in the source: `Pin` unlinks the node that `map`
points at, whatever its value is.
-/

set_option autoImplicit false

namespace DisMiniSql.MiniSql

/-- The calls of `Replacer`: `Victim`, `Pin` and `Unpin`. -/
inductive ReplacerCall
  | victim
  | pin (frameId : FrameId)
  | unpin (frameId : FrameId)
  deriving DecidableEq, Repr

/-- The frame of the call is at most `bound`. -/
def ReplacerCall.AtMost (bound : Nat) : ReplacerCall → Prop
  | .victim => True
  | .pin frameId => frameId ≤ bound
  | .unpin frameId => frameId ≤ bound

/-- `LRUReplacer::node`: the frame it holds, and the address `new node` gave it. -/
structure LruNode where
  addr : Nat
  val : FrameId
  deriving DecidableEq, Repr

/-- `LRUReplacer`. -/
structure LRUReplacer where
  /-- `MAX_NUM_PAGES` -/
  maxNumPages : Nat
  /-- `now_size` -/
  nowSize : Nat
  /-- The nodes strictly between `head` and `tail`, from `head->next` on. -/
  nodes : List LruNode
  /-- `map`: the node of a frame. -/
  map : FrameId → Option Nat
  /-- `unpinned` -/
  unpinned : FrameId → Bool
  /-- The address the next `new node` returns. -/
  nextAddr : Nat

namespace LRUReplacer

/-- `LRUReplacer::LRUReplacer`. -/
def new (numPages : Nat) : LRUReplacer where
  maxNumPages := numPages
  nowSize := 0
  nodes := []
  map := fun _ => none
  unpinned := fun _ => false
  nextAddr := 0

/-- `(now->next)->prev = now->prev; (now->prev)->next = now->next`. -/
def unlink (nodes : List LruNode) (addr : Nat) : List LruNode :=
  nodes.filter (fun n => n.addr != addr)

/-- `LRUReplacer::Size`. -/
def size (r : LRUReplacer) : Nat := r.nowSize

/-- `LRUReplacer::Victim`: the frame written to `*frame_id`, or `none` when the call returns
`false`. -/
def victim (r : LRUReplacer) : Option FrameId × LRUReplacer :=
  if r.nowSize == 0 then (none, r)
  else
    match r.nodes.getLast? with
    | none => (none, r)
    | some now =>
        (some now.val,
          { r with
              nodes := unlink r.nodes now.addr
              map := fun f => if f = now.val then none else r.map f
              unpinned := fun f => if f = now.val then false else r.unpinned f
              nowSize := r.nowSize - 1 })

/-- `LRUReplacer::Pin`. -/
def pin (r : LRUReplacer) (frameId : FrameId) : LRUReplacer :=
  if frameId > r.maxNumPages then r
  else if !r.unpinned frameId then r
  else
    match r.map frameId with
    | none => r
    | some now =>
        { r with
            unpinned := fun f => if f = frameId then false else r.unpinned f
            nodes := unlink r.nodes now
            map := fun f => if f = frameId then none else r.map f
            nowSize := r.nowSize - 1 }

/-- `LRUReplacer::Unpin`. -/
def unpin (r : LRUReplacer) (frameId : FrameId) : LRUReplacer :=
  if frameId > r.maxNumPages then r
  else if r.unpinned frameId then r
  else
    { r with
        unpinned := fun f => if f = frameId then true else r.unpinned f
        nowSize := r.nowSize + 1
        nodes := ⟨r.nextAddr, frameId⟩ :: r.nodes
        map := fun f => if f = frameId then some r.nextAddr else r.map f
        nextAddr := r.nextAddr + 1 }

end LRUReplacer

end DisMiniSql.MiniSql
