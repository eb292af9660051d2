import DisMiniSql.Distributed.Zk.ZkMetadataStore
import DisMiniSql.Lib.Calls

/-!
# `DisMiniSql.Distributed.Zk.LiveNodes`: the directory of the nodes, one operation at a time

`registerNode`, `updateNode` and `liveNodes` as programs over the operations they make on the
directory `nodes` of ZooKeeper. Its znodes are ephemeral: the end of a session takes them away,
between any two operations of any call. The directory itself is made by the first coordinator and
stays.
-/

set_option autoImplicit false

namespace DisMiniSql.Distributed

open DisMiniSql.Lib (Prog)

/-- The znode of a node. Its name is the id of the node. -/
structure Ephemeral where
  data : NodeInfo
  version : Nat := 0
  deriving DecidableEq, Repr

/-- The name of a znode. -/
def Ephemeral.name (z : Ephemeral) : String := z.data.nodeId

/-- The directory. -/
structure NodeDir where
  znodes : List Ephemeral
  nodup : (znodes.map (·.name)).Nodup

namespace NodeDir

/-- The directory before the first node is registered. -/
def empty : NodeDir := { znodes := [], nodup := List.nodup_nil }

/-- The names in the directory. -/
def names (d : NodeDir) : List String := d.znodes.map (·.name)

/-- The znode of a name. -/
def find (d : NodeDir) (name : String) : Option Ephemeral :=
  d.znodes.find? fun z => z.name == name

/-- A node is created under a name that is not taken. -/
theorem nodup_create {d : NodeDir} {info : NodeInfo} (h : info.nodeId ∉ d.names) :
    ((d.znodes ++ [({ data := info } : Ephemeral)]).map (·.name)).Nodup := by
  rw [List.map_append]
  refine List.nodup_append.mpr ⟨d.nodup, List.nodup_singleton _, ?_⟩
  rintro a ha b hb rfl
  obtain rfl := List.mem_singleton.mp hb
  exact h ha

/-- `setData` in the list of the znodes. -/
def replace (info : NodeInfo) (version : Nat) (z : Ephemeral) : Ephemeral :=
  if z.name = info.nodeId then { data := info, version := version } else z

/-- Replacing the data of a node keeps its name. -/
@[simp] theorem replace_name (info : NodeInfo) (version : Nat) (z : Ephemeral) :
    (replace info version z).name = z.name := by
  unfold replace
  split
  · next h => exact h.symm
  · rfl

/-- So the names stay different. -/
theorem nodup_replace (d : NodeDir) (info : NodeInfo) (version : Nat) :
    ((d.znodes.map (replace info version)).map (·.name)).Nodup := by
  rw [List.map_map]
  show (d.znodes.map fun z => (replace info version z).name).Nodup
  simp only [replace_name]
  exact d.nodup

/-- And stay so when nodes go. -/
theorem nodup_filter (d : NodeDir) (p : Ephemeral → Bool) :
    ((d.znodes.filter p).map (·.name)).Nodup :=
  d.nodup.sublist (List.filter_sublist.map _)

/-- `create`; `false` is `NodeExists`. -/
def create (d : NodeDir) (info : NodeInfo) : Bool × NodeDir :=
  if h : info.nodeId ∈ d.names then (false, d)
  else (true, { znodes := d.znodes ++ [{ data := info }], nodup := nodup_create h })

/-- `setData`; `false` is `NoNode` or `BadVersion`. -/
def setData (d : NodeDir) (info : NodeInfo) (version : Nat) : Bool × NodeDir :=
  match d.find info.nodeId with
  | none => (false, d)
  | some z =>
    if z.version = version then
      (true, { znodes := d.znodes.map (replace info (version + 1)),
               nodup := d.nodup_replace info (version + 1) })
    else (false, d)

/-- `delete` of any version, and the end of a session. -/
def delete (d : NodeDir) (name : String) : NodeDir :=
  { znodes := d.znodes.filter fun z => z.name != name, nodup := d.nodup_filter _ }

end NodeDir

/-- The operations on the directory. -/
inductive DirOp
  | getChildren
  | getData (name : String)
  | existsNode (name : String)
  | create (info : NodeInfo)
  | setData (info : NodeInfo) (version : Nat)
  | delete (name : String)
  deriving DecidableEq, Repr

/-- The answers. `none` is `NoNode` or a null `Stat`, `false` another exception. -/
@[reducible]
def DirOp.Res : DirOp → Type
  | .getChildren => List String
  | .getData _ => Option NodeInfo
  | .existsNode _ => Option Nat
  | .create _ => Bool
  | .setData _ _ => Bool
  | .delete _ => Bool

/-- The operations. ZooKeeper lists the names in any order; it is `order` if these are the names. -/
def NodeDir.sem (order : List String) (d : NodeDir) : (o : DirOp) → o.Res × NodeDir
  | .getChildren => (if order.Perm d.names then order else d.names, d)
  | .getData name => ((d.find name).map (·.data), d)
  | .existsNode name => ((d.find name).map (·.version), d)
  | .create info => d.create info
  | .setData info version => d.setData info version
  | .delete name => (decide (name ∈ d.names), d.delete name)

/-- A program over the operations on the directory. -/
abbrev DirProg (α : Type) := Prog DirOp DirOp.Res α

namespace DirProg

/-- `create`, where every exception ends the call. -/
def createOrThrow (info : NodeInfo) : DirProg Unit := do
  let created ← Prog.op (DirOp.create info)
  if created then pure () else .throw

/-- `ZkMetadataStore.upsertEphemeral`, which is `registerNode` and `updateNode`. -/
def upsertEphemeral (info : NodeInfo) : DirProg Unit := do
  let stat ← Prog.op (DirOp.existsNode info.nodeId)
  match stat with
  | none =>
    let created ← Prog.op (DirOp.create info)
    if created then pure ()
    else
      -- the znode came in between
      let deleted ← Prog.op (DirOp.delete info.nodeId)
      if deleted then createOrThrow info else .throw
  | some version =>
    let written ← Prog.op (DirOp.setData info version)
    if written then pure () else .throw

/-- The loop of `liveNodes`. The handler of `NoNode` is outside the loop. -/
def readEach (result : List NodeInfo) : List String → DirProg (List NodeInfo)
  | [] => pure (result.insertionSort fun a b => a.nodeId ≤ b.nodeId)
  | child :: children => do
    let data ← Prog.op (DirOp.getData child)
    match data with
    | none => pure []
    | some info => readEach (result ++ [info]) children

/-- `ZkMetadataStore.liveNodes`. -/
def liveNodes : DirProg (List NodeInfo) := do
  let children ← Prog.op DirOp.getChildren
  readEach [] children

end DirProg

/-- The directory, the calls that write to it, and a call of `liveNodes`. Other calls of `liveNodes`
change nothing. -/
structure NodeListing where
  dir : NodeDir := .empty
  /-- The calls of `registerNode` and `updateNode`. -/
  updates : List (DirProg Unit) := []
  /-- What is left of the call of `liveNodes`. -/
  listing : Option (DirProg (List NodeInfo)) := none
  /-- Not in the source: the directories of the moments of the call, up to its result. -/
  moments : List NodeDir := []

/-- A call starts or makes its next operation, or a session ends. -/
inductive NodeEvent
  /-- `registerNode` or `updateNode`. -/
  | upsert (info : NodeInfo)
  /-- An operation of the k-th of these calls. -/
  | write (k : Nat)
  /-- The session that has the znode ends. -/
  | expire (nodeId : String)
  /-- `liveNodes`. -/
  | list
  /-- An operation of this call. If it is `getChildren`, `order` is the order of the names. -/
  | read (order : List String)
  deriving DecidableEq, Repr

namespace NodeListing

/-- The call has no result yet. -/
def isRunning (s : NodeListing) : Bool :=
  match s.listing with
  | some (.call _ _) => true
  | _ => false

/-- The directory changes. -/
def setDir (s : NodeListing) (d : NodeDir) : NodeListing :=
  { s with dir := d, moments := if s.isRunning then s.moments ++ [d] else s.moments }

/-- One event. -/
def step (s : NodeListing) : NodeEvent → NodeListing
  | .upsert info => { s with updates := s.updates ++ [DirProg.upsertEphemeral info] }
  | .write k =>
    match s.updates[k]? with
    | some (.call o next) =>
      { s.setDir (s.dir.sem [] o).2 with updates := s.updates.set k (next (s.dir.sem [] o).1) }
    | _ => s
  | .expire nodeId => s.setDir (s.dir.delete nodeId)
  | .list => { s with listing := some DirProg.liveNodes, moments := [s.dir] }
  | .read order =>
    match s.listing with
    | some (.call o next) =>
      { s with dir := (s.dir.sem order o).2, listing := some (next (s.dir.sem order o).1) }
    | _ => s

end NodeListing

end DisMiniSql.Distributed
