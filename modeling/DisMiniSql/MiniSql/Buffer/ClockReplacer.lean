import DisMiniSql.Lib.Iterators
import DisMiniSql.Lib.Run
import DisMiniSql.MiniSql.Buffer.LruReplacer

/-!
# `DisMiniSql.MiniSql.Buffer.ClockReplacer`: `CLOCKReplacer`

`buffer/clock_replacer.cpp` keeps the evictable frames in a list, with a hand `now` that is an
iterator of it. `Victim` moves the hand on, over the end, until it comes to a frame whose status is
0, and clears the status of the frames it passes. `Unpin` inserts a frame in front of the hand, and
`Pin` erases one.

A call has no result where it uses an iterator that is not one of the list, or reads the value at
the end. The vectors have `num_pages + 5` entries. No call gets to one beyond: a frame of the list
was let in by `Unpin`.

`Clock` says what the replacer is for: the frames in a ring, beginning at the hand.
-/

set_option autoImplicit false

namespace DisMiniSql.MiniSql

open Lib

/-- `CLOCKReplacer`. -/
structure CLOCKReplacer where
  capacity : Nat
  /-- `MAX_NUM_PAGES` -/
  maxNumPages : Nat
  now : Iter
  clockList : List (ListCell FrameId)
  status : FrameId → Nat
  unpinned : FrameId → Bool
  map : FrameId → Option Nat
  /-- The address of the next cell of the list. -/
  nextAddr : Nat

namespace CLOCKReplacer

/-- `CLOCKReplacer::CLOCKReplacer`. -/
def new (numPages : Nat) : CLOCKReplacer where
  capacity := 0
  maxNumPages := numPages
  now := Cells.first ([] : List (ListCell FrameId))
  clockList := []
  status := fun _ => 0
  unpinned := fun _ => false
  map := fun _ => none
  nextAddr := 0

/-- `now++`. -/
def advance (r : CLOCKReplacer) : Option CLOCKReplacer :=
  (Cells.next r.clockList r.now).map fun now => { r with now }

/-- `now--`. -/
def retreat (r : CLOCKReplacer) : Option CLOCKReplacer :=
  (Cells.prev r.clockList r.now).map fun now => { r with now }

/-- `*now`. -/
def atHand (r : CLOCKReplacer) : Option FrameId := Cells.get r.clockList r.now

/-- `if (now == clock_list.end()) now++`. -/
def skipEnd (r : CLOCKReplacer) : Option CLOCKReplacer :=
  if r.now = none then r.advance else some r

/-- `status[f] = 0`. -/
def clear (r : CLOCKReplacer) (f : FrameId) : CLOCKReplacer :=
  { r with status := Function.update r.status f 0 }

/-- The two loops of `Victim`, with what they do to a frame that they pass: `n` more rounds. The
first component is `found`. -/
def sweep (pass : CLOCKReplacer → FrameId → CLOCKReplacer) (r : CLOCKReplacer) :
    Nat → Option (Bool × CLOCKReplacer)
  | 0 => some (false, r)
  | n + 1 => do
    let r ← r.skipEnd
    let f ← r.atHand
    if r.status f = 0 then some (true, r)
    else sweep pass (← (pass r f).advance) n

/-- The search of `Victim`: a second loop, if the first one has found nothing. -/
def search (r : CLOCKReplacer) : Option (Bool × CLOCKReplacer) := do
  let (found, r) ← r.sweep clear r.capacity
  if found then some (true, r) else r.sweep (fun r _ => r) r.capacity

/-- The end of `Victim`: the frame at the hand is erased, and the hand is behind it. -/
def evict (r : CLOCKReplacer) : Option (FrameId × CLOCKReplacer) := do
  let nowFrameId ← r.atHand
  let toBeErased := r.now
  let r ← r.advance
  let clockList ← Cells.erase r.clockList toBeErased
  some (nowFrameId,
    { r with
      clockList
      map := Function.update r.map nowFrameId none
      unpinned := Function.update r.unpinned nowFrameId false
      capacity := r.capacity - 1 })

/-- `CLOCKReplacer::Victim`: `*frame_id`, or `none` when the call returns `false`. -/
def victim (r : CLOCKReplacer) : Option (Option FrameId × CLOCKReplacer) :=
  if r.capacity = 0 then some (none, r)
  else do
    let (found, r) ← r.search
    if !found then return (none, r)
    let (frameId, r) ← r.evict
    return (some frameId, r)

/-- The end of `Pin`: the cell of the frame is erased, and the hand moves on if it is there. -/
def release (r : CLOCKReplacer) (frameId : FrameId) (toBeReleased : Nat) :
    Option CLOCKReplacer := do
  let value ← Cells.get r.clockList (some toBeReleased)
  -- `*now` is read at the end position too
  let r ← if value = (← r.atHand) then r.advance else some r
  let clockList ← Cells.erase r.clockList (some toBeReleased)
  some { r with
    clockList, map := Function.update r.map frameId none, capacity := r.capacity - 1 }

/-- `CLOCKReplacer::Pin`. -/
def pin (r : CLOCKReplacer) (frameId : FrameId) : Option CLOCKReplacer :=
  if frameId > r.maxNumPages then some r
  else if !r.unpinned frameId then some r
  else
    let r := { r with unpinned := Function.update r.unpinned frameId false }
    match r.map frameId with
    | none => some r
    | some toBeReleased => r.release frameId toBeReleased

/-- `CLOCKReplacer::Unpin`. -/
def unpin (r : CLOCKReplacer) (frameId : FrameId) : Option CLOCKReplacer :=
  if frameId > r.maxNumPages then some r
  else if r.unpinned frameId then some r
  else do
    let r := { r with
      unpinned := Function.update r.unpinned frameId true, capacity := r.capacity + 1 }
    let r ← r.skipEnd
    let clockList ← Cells.insert r.clockList r.now ⟨r.nextAddr, frameId⟩
    let r ← { r with clockList, nextAddr := r.nextAddr + 1 }.retreat
    let r := { r with map := Function.update r.map frameId r.now }
    let r ← r.advance
    some { r with status := Function.update r.status frameId 1 }

/-- A call, and the frame that it returns. -/
def call (r : CLOCKReplacer) : ReplacerCall → Option (Option FrameId × CLOCKReplacer)
  | .victim => r.victim
  | .pin frameId => (r.pin frameId).map fun r => (none, r)
  | .unpin frameId => (r.unpin frameId).map fun r => (none, r)

/-- The replacer after a call, as it was where the call has no result. -/
def step (r : CLOCKReplacer) (c : ReplacerCall) : CLOCKReplacer :=
  ((r.call c).map Prod.snd).getD r

/-- The frames, in the order of the list. -/
def frames (r : CLOCKReplacer) : List FrameId := r.clockList.map (·.val)

end CLOCKReplacer

/-! ### The clock -/

/-- The frames in a ring from the hand on, and their reference bits. -/
structure Clock where
  ring : List FrameId
  bit : FrameId → Bool

namespace Clock

/-- The reference bits after some frames were passed. -/
def pass (bit : FrameId → Bool) (passed : List FrameId) : FrameId → Bool :=
  fun f => if f ∈ passed then false else bit f

/-- What a call may answer and do. -/
inductive Step : Clock → ReplacerCall → Option FrameId → Clock → Prop
  /-- `Victim` fails when no frame is there. -/
  | empty (bit : FrameId → Bool) : Step ⟨[], bit⟩ .victim none ⟨[], bit⟩
  /-- The first frame without its bit is the victim, and those that were passed lose theirs. -/
  | victim (passed rest : List FrameId) (f : FrameId) (bit : FrameId → Bool)
      (hpassed : ∀ g ∈ passed, bit g) (hf : bit f = false) :
      Step ⟨passed ++ f :: rest, bit⟩ .victim (some f) ⟨rest ++ passed, pass bit passed⟩
  /-- When every frame has its bit, all lose it, and the first one is the victim. -/
  | second (f : FrameId) (rest : List FrameId) (bit : FrameId → Bool)
      (hall : ∀ g ∈ f :: rest, bit g) :
      Step ⟨f :: rest, bit⟩ .victim (some f) ⟨rest, pass bit (f :: rest)⟩
  /-- `Pin` takes its frame out, if it is there. -/
  | pin (c : Clock) (f : FrameId) : Step c (.pin f) none ⟨c.ring.erase f, c.bit⟩
  /-- `Unpin` puts in a frame that is not there, with its bit, where the hand comes last. -/
  | unpin (c : Clock) (f : FrameId) (hf : f ∉ c.ring) :
      Step c (.unpin f) none ⟨c.ring ++ [f], Function.update c.bit f true⟩
  /-- `Unpin` of a frame that is there changes nothing. -/
  | again (c : Clock) (f : FrameId) (hf : f ∈ c.ring) : Step c (.unpin f) none c

end Clock

namespace CLOCKReplacer

/-- The ring of the list, from the hand on. -/
def clock (r : CLOCKReplacer) : Clock where
  ring := (Cells.onward r.clockList r.now ++ Cells.before r.clockList r.now).map (·.val)
  bit := fun f => r.status f != 0

/-- The list, the map, the flags and the capacity are the same frames, each of them once, and the
hand is at one of them or at the end. -/
structure Describes (r : CLOCKReplacer) : Prop where
  addrs : (Cells.addrs r.clockList).Nodup
  nodup : r.frames.Nodup
  capacity : r.capacity = r.clockList.length
  map : ∀ f a, r.map f = some a ↔ ⟨a, f⟩ ∈ r.clockList
  unpinned : ∀ f, r.unpinned f = true ↔ f ∈ r.frames
  hand : r.now = none ∨ ∃ c ∈ r.clockList, r.now = some c.addr

/-- A call uses iterators of the list only, answers and does what it answers and does on the clock,
and the four parts still are the same frames. -/
def KeepsClock (r : CLOCKReplacer) (c : ReplacerCall) : Prop :=
  ∃ answer r', r.call c = some (answer, r') ∧ r'.Describes ∧ Clock.Step r.clock c answer r'.clock

/-- The call does not pin a frame of the list while the hand is at the end. -/
def HandReadable (r : CLOCKReplacer) : ReplacerCall → Prop
  | .pin frameId => r.unpinned frameId = true → r.now ≠ none
  | _ => True

end CLOCKReplacer

end DisMiniSql.MiniSql
