import DisMiniSql.Lib.LocalUpdate
import DisMiniSql.Proofs.Distributed.OrderedRead
import DisMiniSql.Proofs.Distributed.SerialRecovery

/-!
# `DisMiniSql.Proofs.Distributed.CurrentReads`: a read returns the rows that were written

A node holds the rows that its statements leave. `Routed` says that a statement touches rows of
its own shard only. So the rows of a shard are decided by the statements of this shard, and those
are the whole log on each replica that is registered.

A node that loses a shard in a rebalance keeps its rows, and a read that asks the node about
another shard returns them: they are `Remaining`.

* `Serial.agrees`: after each serial run the replicas agree.
* `held_iff`: the rows of a registered node are current or remaining ones.
* `serial_read_current`: a read over all shards returns every current row.
-/

set_option autoImplicit false

namespace DisMiniSql.Distributed

open Lib (LocalOn)
open DisMiniSql.MiniSql (printScan)
open MiniSqlResultParser
open QueryPostProcessor (OrderedBy Unorderable isAggregate sortFailure)

/-! ### Serial runs keep the agreement -/

namespace Cluster

variable {c : Cluster} {logs : Int → List Stmt}

/-- In a new cluster no node is registered and nothing is logged. -/
theorem agrees_new (nodeIds : List String) (shardCount replicationFactor : Nat) :
    (new nodeIds shardCount replicationFactor).Agrees fun _ => [] where
  quiet :=
    { reachable := ⟨nodeIds, shardCount, replicationFactor, [], .nil _⟩
      requests := rfl
      recoveries := fun _ => rfl
      whole := fun i => DataNode.Whole.new i
      listening := by
        intro i
        rw [mem_liveIds]
        simp [new, ZkMetadataStore.initializeShards]
      registered := fun _ hm => absurd hm List.not_mem_nil
      serving := fun _ hm => absurd hm List.not_mem_nil
      shards := fun _ hm => absurd hm List.not_mem_nil }
  wf :=
    { shard := fun _ _ hx => absurd hx List.not_mem_nil
      line := fun _ _ hx => absurd hx List.not_mem_nil
      used := fun _ _ hx => absurd hx List.not_mem_nil
      unique := fun _ _ hx => absurd hx List.not_mem_nil
      nodup := fun _ => List.nodup_nil }
  known := fun _ h => absurd rfl h
  isPrefix := fun _ _ => List.prefix_refl []
  complete := fun _ _ _ _ => rfl

/-- After a serial run the replicas agree. -/
theorem Serial.agrees (h : Serial c logs) : c.Agrees logs := by
  induction h with
  | new nodeIds shardCount replicationFactor =>
    exact agrees_new nodeIds shardCount replicationFactor
  | start _ hdown hsupplies ih => exact ih.startNode hdown hsupplies
  | stop nodeId _ ih => exact ih.stopNode nodeId
  | write _ hline hrun ih => exact ih.serialWrite hline hrun
  | read _ hread ih => exact ih.read hread
  | snapshot _ hsnapshot ih => exact ih.snapshot hsnapshot
  | rebalance _ htouch ih => exact ih.rebalance htouch

end Cluster

/-! ### The rows of a node -/

section Rows

variable {ρ : Type} {effect : Stmt → (ρ → Prop) → ρ → Prop} {home : ρ → Int}
  {logs : Int → List Stmt} {c : Cluster} {held : String → List ρ}

/-- The rows that statements leave of an empty database. -/
def rowsAfter (effect : Stmt → (ρ → Prop) → ρ → Prop) (stmts : List Stmt) : ρ → Prop :=
  stmts.foldl (fun rows x => effect x rows) fun _ => False

/-- The log of its shard leaves the row. -/
def Current (effect : Stmt → (ρ → Prop) → ρ → Prop) (home : ρ → Int) (logs : Int → List Stmt)
    (r : ρ) : Prop :=
  rowsAfter effect (logs (home r)) r

/-- A registered node that is no replica of its shard still has the row: the beginning of the log
that the node has leaves it. -/
def Remaining (effect : Stmt → (ρ → Prop) → ρ → Prop) (home : ρ → Int) (logs : Int → List Stmt)
    (c : Cluster) (r : ρ) : Prop :=
  ∃ i ∈ c.liveIds, ¬ c.zk.Places (home r) i ∧
    ∃ stmts, stmts <+: logs (home r) ∧ stmts = (c.node i).shardSql (home r) ∧
      rowsAfter effect stmts r

/-- A statement touches rows of its own shard only, and no other rows matter to it. -/
def Routed (effect : Stmt → (ρ → Prop) → ρ → Prop) (home : ρ → Int)
    (logs : Int → List Stmt) : Prop :=
  ∀ s, ∀ x ∈ logs s, LocalOn {r | home r = s} (effect x)

/-- The registered nodes hold the rows that their statements leave. -/
def Holds (effect : Stmt → (ρ → Prop) → ρ → Prop) (c : Cluster) (held : String → List ρ) : Prop :=
  ∀ i ∈ c.liveIds, ∀ r, r ∈ held i ↔ rowsAfter effect (c.node i).replaySql r

/-- The statements of other shards do not matter to a row. -/
theorem rowsAfter_replaySql (hagrees : c.Agrees logs) (hrouted : Routed effect home logs)
    (i : String) (r : ρ) : rowsAfter effect (c.node i).replaySql r =
      rowsAfter effect ((c.node i).shardSql (home r)) r := by
  have hlocal : ∀ x ∈ (c.node i).replaySql, LocalOn {r | home r = x.shardId} (effect x) :=
    fun x hx => hrouted x.shardId x (hagrees.mem_logs hx)
  have hdisjoint : ∀ s t : Int, s ≠ t → ∀ r ∈ {r | home r = s}, r ∉ {r | home r = t} :=
    fun s t hst r hs ht => hst (hs.symm.trans ht)
  exact LocalOn.foldl_eq_filter (V := fun s => {r | home r = s}) (c.node i).replaySql hlocal
    hdisjoint (home r) (fun _ _ => rfl) rfl

/-- A registered replica of the shard of a row has the row if it is current. -/
theorem held_iff_of_places (hagrees : c.Agrees logs) (hrouted : Routed effect home logs)
    (hheld : Holds effect c held) {i : String} {r : ρ} (hi : i ∈ c.liveIds)
    (hplaced : c.zk.Places (home r) i) : r ∈ held i ↔ Current effect home logs r := by
  rw [hheld i hi, rowsAfter_replaySql hagrees hrouted, hagrees.complete _ i hplaced hi]
  rfl

/-- The rows of a registered node are current ones, or they remain on it. -/
theorem current_or_remaining (hagrees : c.Agrees logs) (hrouted : Routed effect home logs)
    (hheld : Holds effect c held) {i : String} {r : ρ} (hi : i ∈ c.liveIds) (hr : r ∈ held i) :
    Current effect home logs r ∨ Remaining effect home logs c r := by
  by_cases hplaced : c.zk.Places (home r) i
  · exact .inl ((held_iff_of_places hagrees hrouted hheld hi hplaced).mp hr)
  · rw [hheld i hi, rowsAfter_replaySql hagrees hrouted] at hr
    exact .inr ⟨i, hi, hplaced, _, hagrees.isPrefix i (home r), rfl, hr⟩

/-- A shard with a current row is in ZooKeeper. -/
theorem Current.known (hagrees : c.Agrees logs) {r : ρ} (hr : Current effect home logs r) :
    ∃ m ∈ c.zk.shardNodes, m.shardId = home r := by
  refine hagrees.known (home r) fun hnil => ?_
  unfold Current at hr
  rw [hnil] at hr
  exact hr

end Rows

/-! ### The read -/

/-- Fewer rows are as clean. -/
theorem QueryPostProcessor.Clean.mono {ρ : Type} {columns : List Text}
    {cells : ρ → List Text} {rows more : List ρ}
    (h : QueryPostProcessor.Clean columns cells more) (hsub : ∀ r ∈ rows, r ∈ more) :
    QueryPostProcessor.Clean columns cells rows where
  plain := ⟨h.plain.1, fun r hr => h.plain.2 r (hsub r hr)⟩
  keys := fun r hr r' hr' => h.keys r (hsub r hr) r' (hsub r' hr')

/-- What the coordinator meets is the state of the cluster. -/
structure Meets (w : Surroundings) (c : Cluster) : Prop where
  liveNodes : w.liveNodes = c.zk.liveNodes
  shards : w.shards = c.zk.shards
  nodesFailure : w.nodesFailure = none
  shardsFailure : w.shardsFailure = none

/-- There are shards, and each of them has a replica that is registered. -/
def Staffed (c : Cluster) : Prop :=
  c.zk.shardNodes ≠ [] ∧ ∀ m ∈ c.zk.shardNodes, ∃ i ∈ c.liveIds, i ∈ m.replicas

instance (c : Cluster) : Decidable (Staffed c) := inferInstanceAs (Decidable (_ ∧ _))

section Read

variable {ρ δ : Type} [LinearOrder δ] {fold : Char → Char} {doubles : DoubleOps δ}
  {lists : ListSort} {effect : Stmt → (ρ → Prop) → ρ → Prop} {home : ρ → Int}
  {logs : Int → List Stmt}
  {c : Cluster} {w : Surroundings} {sql : Text} {columns : List Text} {cells : ρ → List Text}
  {held : String → List ρ}
variable (sha256 : Text → Vector (BitVec 8) 32) (shardCount : Int)

/-- The shards the read sees are those of the store. -/
theorem Meets.mem_shards (h : Meets w c) {m : ShardMetadata} :
    m ∈ w.shards ↔ m ∈ c.zk.shardNodes := by
  rw [h.shards]
  exact List.mem_insertionSort _

/-- The nodes it asks are the live replicas. -/
theorem Meets.mem_chooseForWrite (h : Meets w c) (hagrees : c.Agrees logs)
    {replicas : List String} {i : String} :
    i ∈ (chooseForWrite replicas w.liveNodes).map (·.nodeId) ↔ i ∈ replicas ∧ i ∈ c.liveIds := by
  rw [h.liveNodes]
  exact hagrees.quiet.mem_chooseForWrite

/-- In a staffed cluster nothing around the read fails. -/
theorem Meets.healthy (h : Meets w c) (hagrees : c.Agrees logs) (hstaffed : Staffed c) :
    Healthy w where
  nodesFailure := h.nodesFailure
  shardsFailure := h.shardsFailure
  nodup := by
    rw [h.liveNodes]
    exact hagrees.quiet.reachable.addressInv.nodes.liveNodes
  shards_ne := by
    obtain ⟨m, hm⟩ := List.exists_mem_of_ne_nil _ hstaffed.1
    exact List.ne_nil_of_mem (h.mem_shards.mpr hm)
  choosable := by
    intro m hm
    obtain ⟨i, hi, hreplica⟩ := hstaffed.2 m (h.mem_shards.mp hm)
    have hchosen := (h.mem_chooseForWrite hagrees).mpr ⟨hreplica, hi⟩
    exact fun hnil => List.ne_nil_of_mem hchosen (List.map_eq_nil_iff.mpr hnil)

/-- A node that is asked is a registered replica of the shard that it is asked about. -/
theorem Meets.of_ask (h : Meets w c) (hagrees : c.Agrees logs) {n : Nat} {m : ShardMetadata}
    {a : Answer} (ha : w.ask (dispatchSql sql) n m = .ok a) :
    a.node.nodeId ∈ m.replicas ∧ a.node.nodeId ∈ c.liveIds :=
  (h.mem_chooseForWrite hagrees).mp
    (List.mem_map_of_mem (mem_chooseForWrite_of_ask ha).1)

/-- One node is asked about each shard. -/
theorem Meets.exists_asked (h : Meets w c) (hagrees : c.Agrees logs) (hstaffed : Staffed c)
    {m : ShardMetadata} (hm : m ∈ c.zk.shardNodes) :
    ∃ a, w.Gets sha256 shardCount (dispatchSql sql) none a ∧ a.node.nodeId ∈ m.replicas ∧
      a.node.nodeId ∈ c.liveIds := by
  have hhealthy := h.healthy hagrees hstaffed
  have hm' := h.mem_shards.mpr hm
  obtain ⟨n, hn⟩ := List.mem_iff_getElem?.mp hm'
  obtain ⟨a, ha⟩ :=
    (w.exists_ask_iff (dispatchSql sql) n m).mpr ⟨hhealthy.nodup, hhealthy.choosable m hm'⟩
  exact ⟨a, ⟨n, m, hn, ha⟩, h.of_ask hagrees ha⟩

/-- The rows of the nodes that are asked: every current row is among them. -/
theorem Meets.exists_rows (h : Meets w c) (hagrees : c.Agrees logs) (hstaffed : Staffed c)
    (hrouted : Routed effect home logs) (hheld : Holds effect c held) (hcolumns : columns ≠ [])
    (hfits : ∀ r, (cells r).length = columns.length) :
    ∃ rows, Asked sha256 shardCount w sql none columns cells held rows ∧
      (∀ r, Current effect home logs r → r ∈ rows) ∧
      (∀ r ∈ rows, Current effect home logs r ∨ Remaining effect home logs c r) ∧
      ∀ r ∈ rows, r ∈ c.liveIds.flatMap held := by
  classical
  obtain ⟨answers, -, -, hmem⟩ := Surroundings.readResponses_spec sha256 shardCount
    (dispatchSql sql) (not_throws sha256 shardCount (h.healthy hagrees hstaffed))
  have hrows : ∀ r, r ∈ (answers.flatMap fun a => held a.node.nodeId).dedup ↔
      ∃ a, w.Gets sha256 shardCount (dispatchSql sql) none a ∧ r ∈ held a.node.nodeId := by
    intro r
    rw [List.mem_dedup, List.mem_flatMap]
    simp only [hmem]
  have hlive : ∀ a, w.Gets sha256 shardCount (dispatchSql sql) none a →
      a.node.nodeId ∈ c.liveIds := by
    intro a hgets
    obtain ⟨n, m, -, ha⟩ := hgets
    exact (h.of_ask hagrees ha).2
  refine ⟨(answers.flatMap fun a => held a.node.nodeId).dedup,
    ⟨List.nodup_dedup _, hrows, hcolumns, hfits⟩, fun r hr => ?_, fun r hr => ?_, fun r hr => ?_⟩
  · -- the node that is asked about the shard of the row has it
    obtain ⟨m, hm, hhome⟩ := hr.known hagrees
    obtain ⟨a, hgets, hreplica, hi⟩ : ∃ a, w.Gets sha256 shardCount (dispatchSql sql) none a ∧
        a.node.nodeId ∈ m.replicas ∧ a.node.nodeId ∈ c.liveIds :=
      h.exists_asked sha256 shardCount hagrees hstaffed hm
    refine (hrows r).mpr ⟨a, hgets, ?_⟩
    exact (held_iff_of_places hagrees hrouted hheld hi ⟨m, hm, hhome, hreplica⟩).mpr hr
  · obtain ⟨a, hgets, hr⟩ := (hrows r).mp hr
    exact current_or_remaining hagrees hrouted hheld (hlive a hgets) hr
  · obtain ⟨a, hgets, hr⟩ := (hrows r).mp hr
    exact List.mem_flatMap.mpr ⟨_, hlive a hgets, hr⟩

/-- After a serial run each registered replica has exactly the statements that were logged for the
shard, in their order, and a `select` over all shards returns every current row, in the order that
the statement asks for. Each row is returned once, and those that are not current remain on a node
that has lost their shard. The read fails only in the sort, at rows that have no order. -/
theorem serial_read_current (lists : ListSort) (h : c.Serial logs) (hmeets : Meets w c)
    (hstaffed : Staffed c) (hrouted : Routed effect home logs) (hheld : Holds effect c held)
    (hsql : isAggregate sql = false) (hprints : Prints w sql columns cells held)
    (hcolumns : columns ≠ []) (hfits : ∀ r, (cells r).length = columns.length)
    (hclean : QueryPostProcessor.Clean columns cells (c.liveIds.flatMap held)) :
    (∀ m ∈ c.zk.shardNodes, ∀ i ∈ m.replicas, i ∈ c.liveIds →
      (c.node i).replaySql.filter (fun x => x.shardId == m.shardId) = logs m.shardId) ∧
    ∃ rows, rows.Nodup ∧
      (∀ r, Current effect home logs r → r ∈ rows) ∧
      (∀ r ∈ rows, Current effect home logs r ∨ Remaining effect home logs c r) ∧
      ((distributedRead fold doubles lists sha256 shardCount w sql (dispatchSql sql) none =
          .error sortFailure ∧ Unorderable fold doubles columns sql (rows.map cells)) ∨
        ∃ response, distributedRead fold doubles lists sha256 shardCount w sql (dispatchSql sql)
            none = .ok response ∧ response.ok = true ∧
          (rows = [] → response.mergedOutput = []) ∧
          (rows ≠ [] →
            parse response.mergedOutput = some { columns := columns, rows := rows.map cells } ∧
            OrderedBy fold doubles columns sql (rows.map cells))) := by
  have hagrees := h.agrees
  refine ⟨fun m hm i hi hlive => hagrees.complete m.shardId i ⟨m, hm, rfl, hi⟩ hlive, ?_⟩
  have hhealthy := hmeets.healthy hagrees hstaffed
  obtain ⟨rows, hasked, hcurrent, hfrom, hlive⟩ :
      ∃ rows, Asked sha256 shardCount w sql none columns cells held rows ∧ _ :=
    hmeets.exists_rows sha256 shardCount hagrees hstaffed hrouted hheld hcolumns hfits
  have hread : (_ ∧ Unorderable fold doubles columns sql (rows.map cells)) ∨
      ∃ response, distributedRead fold doubles lists sha256 shardCount w sql (dispatchSql sql)
        none = .ok response ∧ _ :=
    distributedRead_asked sha256 shardCount lists hsql (not_throws sha256 shardCount hhealthy)
      (not_silent sha256 shardCount hhealthy) (hprints.asksFor sha256 shardCount none) hasked
      (hclean.mono hlive)
  rcases hread with hfails | ⟨response, hresponse, hok, hempty, hsome⟩
  · exact ⟨rows, hasked.nodup, hcurrent, hfrom, .inl hfails⟩
  by_cases hrows : rows = []
  · exact ⟨rows, hasked.nodup, hcurrent, hfrom,
      .inr ⟨response, hresponse, hok, hempty, fun hne => absurd hrows hne⟩⟩
  · -- the rows in the order of the merged text
    obtain ⟨sorted, hperm, hparse, hordered⟩ := hsome hrows
    refine ⟨sorted, hperm.nodup_iff.mpr hasked.nodup, fun r hr => hperm.mem_iff.mpr (hcurrent r hr),
      fun r hr => hfrom r (hperm.mem_iff.mp hr),
      .inr ⟨response, hresponse, hok, fun hnil => absurd ?_ hrows, fun _ => ⟨hparse, hordered⟩⟩⟩
    rw [hnil] at hperm
    exact hperm.symm.eq_nil

end Read

/-! ### A row that is returned after it was deleted -/

open Cluster (serialWrite writeStmt)
open QueryPostProcessor (decimal wholes clean_two)

/-- The statement that adds a row to a table of whole numbers, or takes one away. -/
def sqlEffect (sql : String) (rows : Int → Prop) : Int → Prop :=
  if sql = "insert into t values(1);" then Function.update rows 1 True
  else if sql = "insert into t values(2);" then Function.update rows 2 True
  else if sql = "delete from t where id=1;" then Function.update rows 1 False
  else rows

/-- `sqlEffect` of the text. -/
def rowEffect (x : Stmt) : (Int → Prop) → Int → Prop := sqlEffect x.sql

/-- Two nodes that are replicas of both shards, and a row in each shard. -/
def twoInserted : Option Cluster :=
  (((Cluster.new ["n1", "n2"] 2 2).startNode "n1").startNode "n2").run
    (serialWrite 0 0 "insert into t values(1);" "r1" ["", ""] ++
      serialWrite 1 1 "insert into t values(2);" "r2" ["", ""])

/-- The shards get one replica each, and the first row is deleted there. -/
def oneDeleted : Cluster :=
  (twoInserted.bind fun c => (c.rebalanceAndRefresh 1).run
    (serialWrite 2 0 "delete from t where id=1;" "r3" [""])).getD (Cluster.new [] 0 0)

/-- What is logged for the two shards. -/
def threeLogged (s : Int) : List Stmt :=
  if s = 0 then
    [writeStmt 0 "insert into t values(1);" "r1", writeStmt 0 "delete from t where id=1;" "r3"]
  else if s = 1 then [writeStmt 1 "insert into t values(2);" "r2"]
  else []

/-- The second node has lost the shard of the deleted row. -/
def heldAfter (nodeId : String) : List Int := if nodeId = "n1" then [2] else [1, 2]

/-- The coordinator meets this cluster. -/
def afterDelete : Surroundings where
  liveNodes := oneDeleted.zk.liveNodes
  shards := oneDeleted.zk.shards
  nodesFailure := none
  shardsFailure := none
  counter := fun _ => 0
  randomUUID := fun n => n.repr
  postJson := fun _ node _ => .ok (.success node.nodeId 0 (String.ofList
    (printScan [['i', 'd']] ((heldAfter node.nodeId).map fun n => [decimal n]) 0)))

/-- The run of the example: two writes to their shards, a rebalance, a broadcast. -/
theorem serial_oneDeleted : oneDeleted.Serial threeLogged := by
  have hsome : (twoInserted.bind fun c => (c.rebalanceAndRefresh 1).run
      (serialWrite 2 0 "delete from t where id=1;" "r3" [""])).isSome = true := by decide +kernel
  have htouch : twoInserted.all (fun c => decide (c.KeepsTouch 1)) = true := by decide +kernel
  obtain ⟨c, hc⟩ := Option.isSome_iff_exists.mp hsome
  have heq : oneDeleted = c := by
    unfold oneDeleted
    rw [hc]
    rfl
  obtain ⟨c₂, hinserted, hdeleted⟩ := Option.bind_eq_some_iff.mp hc
  rw [hinserted] at htouch
  unfold twoInserted at hinserted
  rw [Cluster.run_append] at hinserted
  obtain ⟨c₁, hfirst, hsecond⟩ := Option.bind_eq_some_iff.mp hinserted
  -- the operations, one after another
  have hone : ((Cluster.new ["n1", "n2"] 2 2).startNode "n1").Serial fun _ => [] :=
    .start (.new _ _ _) (by decide) (by decide +kernel)
  have htwo : (((Cluster.new ["n1", "n2"] 2 2).startNode "n1").startNode "n2").Serial
      fun _ => [] := .start hone (by decide +kernel) (by decide +kernel)
  have hwritten := (htwo.write (by decide +kernel) hfirst).write (by decide +kernel) hsecond
  have hserial := (hwritten.rebalance (of_decide_eq_true htouch)).write (by decide +kernel) hdeleted
  have hlogs : ∀ {given : Int → List Stmt}, c.Serial given → given = threeLogged →
      oneDeleted.Serial threeLogged := fun h heq' => heq ▸ heq' ▸ h
  refine hlogs hserial (funext fun s => ?_)
  simp only [threeLogged, Function.update_apply]
  by_cases h0 : s = 0
  · simp [h0]
  · by_cases h1 : s = 1
    · simp [h1]
    · simp [h0, h1]

/-- A statement that is routed to the shard of its row. -/
theorem localOn_rowEffect {x : Stmt} {s : Int}
    (hfirst : x.sql = "insert into t values(1);" ∨ x.sql = "delete from t where id=1;" → s = 0)
    (hsecond : x.sql = "insert into t values(2);" → s = 1) :
    LocalOn {r : Int | r - 1 = s} (rowEffect x) := by
  by_cases hone : x.sql = "insert into t values(1);"
  · have heq : rowEffect x = fun rows => Function.update rows 1 True :=
      funext fun rows => by simp [rowEffect, sqlEffect, hone]
    rw [heq, hfirst (.inl hone)]
    exact LocalOn.update (by simp) True
  by_cases htwo : x.sql = "insert into t values(2);"
  · have heq : rowEffect x = fun rows => Function.update rows 2 True :=
      funext fun rows => by simp [rowEffect, sqlEffect, htwo]
    rw [heq, hsecond htwo]
    exact LocalOn.update (by simp) True
  by_cases hdelete : x.sql = "delete from t where id=1;"
  · have heq : rowEffect x = fun rows => Function.update rows 1 False :=
      funext fun rows => by simp [rowEffect, sqlEffect, hdelete]
    rw [heq, hfirst (.inr hdelete)]
    exact LocalOn.update (by simp) False
  · have heq : rowEffect x = fun rows => rows :=
      funext fun rows => by simp [rowEffect, sqlEffect, hone, htwo, hdelete]
    rw [heq]
    exact LocalOn.id _

/-- Its writes are routed by their rows. -/
theorem routed_threeLogged : Routed rowEffect (fun n => n - 1) threeLogged := by
  intro s x hx
  unfold threeLogged at hx
  split at hx
  · rename_i hs
    subst hs
    have hnot : ∀ x ∈ [writeStmt 0 "insert into t values(1);" "r1",
        writeStmt 0 "delete from t where id=1;" "r3"], x.sql ≠ "insert into t values(2);" := by
      decide +kernel
    exact localOn_rowEffect (fun _ => rfl) fun h => absurd h (hnot x hx)
  · split at hx
    · rename_i hs
      subst hs
      have hnot : ∀ x ∈ [writeStmt 1 "insert into t values(2);" "r2"],
          ¬(x.sql = "insert into t values(1);" ∨ x.sql = "delete from t where id=1;") := by
        decide +kernel
      exact localOn_rowEffect (fun h => absurd h (hnot x hx)) fun _ => rfl
    · cases hx

/-- What the two nodes have logged in the end. -/
theorem state_oneDeleted : oneDeleted.liveIds = ["n1", "n2"] ∧ Staffed oneDeleted ∧
    (oneDeleted.node "n1").replaySql.map (·.sql) =
      ["insert into t values(1);", "insert into t values(2);", "delete from t where id=1;"] ∧
    (oneDeleted.node "n2").replaySql.map (·.sql) =
      ["insert into t values(1);", "insert into t values(2);"] := by
  decide +kernel

/-- And the rows they hold. -/
theorem holds_heldAfter : Holds rowEffect oneDeleted heldAfter := by
  obtain ⟨hids, -, hone, htwo⟩ := state_oneDeleted
  have hfold : ∀ stmts, rowsAfter rowEffect stmts =
      (stmts.map (·.sql)).foldl (fun rows sql => sqlEffect sql rows) fun _ => False := by
    intro stmts
    rw [List.foldl_map]
    rfl
  intro i hi r
  rw [hids] at hi
  rw [hfold]
  rcases List.mem_pair.mp hi with rfl | rfl
  · rw [hone]
    by_cases hr : r = 1 <;> simp [heldAfter, sqlEffect, Function.update_apply, hr]
  · rw [htwo]
    by_cases hr : r = 1 <;> simp [heldAfter, sqlEffect, Function.update_apply, hr]

/-- The second row is the only one that is left, and the read returns both. -/
theorem serial_read_current_remaining :
    (∀ m ∈ oneDeleted.zk.shardNodes, ∀ i ∈ m.replicas, i ∈ oneDeleted.liveIds →
      (oneDeleted.node i).replaySql.filter (fun x => x.shardId == m.shardId) =
        threeLogged m.shardId) ∧
    ∃ rows, rows.Nodup ∧
      (∀ r, Current rowEffect (fun n => n - 1) threeLogged r → r ∈ rows) ∧
      (∀ r ∈ rows, Current rowEffect (fun n => n - 1) threeLogged r ∨
        Remaining rowEffect (fun n => n - 1) threeLogged oneDeleted r) ∧
      ((distributedRead Char.toLower wholes .neverThrows (fun _ => Vector.replicate 32 0) 2
          afterDelete "select * from t;".toList (dispatchSql "select * from t;".toList) none =
          .error sortFailure ∧
          Unorderable Char.toLower wholes [['i', 'd']] "select * from t;".toList
            (rows.map fun n => [decimal n])) ∨
        ∃ response, distributedRead Char.toLower wholes .neverThrows
            (fun _ => Vector.replicate 32 0) 2 afterDelete "select * from t;".toList
            (dispatchSql "select * from t;".toList) none = .ok response ∧ response.ok = true ∧
          (rows = [] → response.mergedOutput = []) ∧
          (rows ≠ [] →
            parse response.mergedOutput =
              some { columns := [['i', 'd']], rows := rows.map fun n => [decimal n] } ∧
            OrderedBy Char.toLower wholes [['i', 'd']] "select * from t;".toList
              (rows.map fun n => [decimal n]))) := by
  obtain ⟨hids, hstaffed, -⟩ := state_oneDeleted
  have hmeets : Meets afterDelete oneDeleted := ⟨rfl, rfl, rfl, rfl⟩
  have hprints : Prints afterDelete "select * from t;".toList [['i', 'd']]
      (fun n => [decimal n]) heldAfter :=
    fun _ node _ _ => ⟨_, rfl, rfl, 0, String.toList_ofList⟩
  have hclean : QueryPostProcessor.Clean [['i', 'd']] (fun n => [decimal n])
      (oneDeleted.liveIds.flatMap heldAfter) := by
    rw [hids]
    exact clean_two.mono (by decide)
  exact serial_read_current _ _ .neverThrows serial_oneDeleted hmeets hstaffed routed_threeLogged
    holds_heldAfter (by decide +kernel) hprints (by decide) (fun _ => rfl) hclean

/-- The read returns the deleted row. -/
example : ((distributedRead Char.toLower wholes .neverThrows (fun _ => Vector.replicate 32 0) 2
    afterDelete "select * from t;".toList (dispatchSql "select * from t;".toList)
      none).toOption.bind fun response => parse response.mergedOutput).map (·.rows) =
    some [[['2']], [['1']]] := by
  decide +kernel

end DisMiniSql.Distributed
