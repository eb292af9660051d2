import DisMiniSql.Distributed.Coordinator.Reads
import DisMiniSql.Proofs.Distributed.OrderBy

/-!
# Reads that leave a shard out

A read asks one replica of every shard it needs and drops the answers that are errors. So a shard
is left out silently when the replica that was chosen for it fails and no other node that was asked
happens to hold the shard.

`askEach_spec` says what the loop over the shards returns, `readResponses_spec` what a read gets and
when it throws, and `exists_mergeSelect_iff` when the answers are merged. `no_partial_reads_iff`
puts the two together for a read and for a join.
-/

set_option autoImplicit false

namespace DisMiniSql.Distributed

open SqlUtils (hashToShard explicitKey)

/-! ### One replica -/

/-- A node is chosen only among live replicas with different names. -/
theorem chooseForRead_ok {shardId count : Int} {replicaIds : List String}
    {liveNodes : List NodeInfo} {node : NodeInfo}
    (h : chooseForRead shardId count replicaIds liveNodes = .ok node) :
    (liveNodes.map (·.nodeId)).Nodup ∧ chooseForWrite replicaIds liveNodes ≠ [] := by
  unfold chooseForRead at h
  split at h
  · next hnodup =>
    refine ⟨hnodup, fun hnone => ?_⟩
    rw [hnone] at h
    cases h
  · cases h

theorem exists_chooseForRead (shardId count : Int) {replicaIds : List String}
    {liveNodes : List NodeInfo} (hnodup : (liveNodes.map (·.nodeId)).Nodup)
    (hsome : chooseForWrite replicaIds liveNodes ≠ []) :
    ∃ node, chooseForRead shardId count replicaIds liveNodes = .ok node := by
  unfold chooseForRead
  rw [if_pos hnodup]
  cases hc : chooseForWrite replicaIds liveNodes with
  | nil => exact absurd hc hsome
  | cons first rest => exact ⟨_, rfl⟩

theorem chooseForWrite_nil (replicaIds : List String) : chooseForWrite replicaIds [] = [] := by
  have hnone : replicaIds.filterMap (fun r => List.find? (fun m : NodeInfo => m.nodeId == r) []) =
      [] := by
    simp
  simp only [chooseForWrite, candidates, hnone, List.insertionSort_nil, List.filter_nil]

namespace Surroundings

/-- A replica of the shard can be chosen. -/
def Choosable (w : Surroundings) (shard : ShardMetadata) : Prop :=
  (w.liveNodes.map (·.nodeId)).Nodup ∧ chooseForWrite shard.replicas w.liveNodes ≠ []

/-- A shard can be asked exactly when a node can be chosen for it. -/
theorem exists_ask_iff (w : Surroundings) (sql : Text) (n : Nat) (shard : ShardMetadata) :
    (∃ a, w.ask sql n shard = .ok a) ↔ w.Choosable shard := by
  unfold ask
  constructor
  · rintro ⟨a, h⟩
    cases hc : chooseForRead shard.shardId (w.counter n) shard.replicas w.liveNodes with
    | error message =>
      rw [hc] at h
      cases h
    | ok node => exact chooseForRead_ok hc
  · intro h
    obtain ⟨node, hnode⟩ := exists_chooseForRead shard.shardId (w.counter n) h.1 h.2
    rw [hnode]
    exact ⟨_, rfl⟩

/-! ### The loop over the shards -/

theorem askEach_cons (w : Surroundings) (sql : Text) (n : Nat) (shard : ShardMetadata)
    (shards : List ShardMetadata) :
    w.askEach sql n (shard :: shards) =
      (w.ask sql n shard).bind fun a => (w.askEach sql (n + 1) shards).bind fun answers =>
        .ok (a :: answers) := rfl

/-- The loop asks about each shard in turn. -/
theorem askEach_spec {w : Surroundings} (sql : Text) {shards : List ShardMetadata}
    (h : ∀ shard ∈ shards, w.Choosable shard) (n : Nat) :
    ∃ answers, w.askEach sql n shards = .ok answers ∧ answers.length = shards.length ∧
      ∀ a, a ∈ answers ↔ ∃ i shard, shards[i]? = some shard ∧ w.ask sql (n + i) shard = .ok a := by
  induction shards generalizing n with
  | nil =>
    refine ⟨[], rfl, rfl, fun a => ⟨fun ha => absurd ha List.not_mem_nil, ?_⟩⟩
    rintro ⟨i, shard, hi, -⟩
    rw [List.getElem?_nil] at hi
    cases hi
  | cons shard shards ih =>
    obtain ⟨first, hfirst⟩ := (w.exists_ask_iff sql n shard).mpr (h shard List.mem_cons_self)
    obtain ⟨rest, hrest, hlen, hmem⟩ := ih (fun s hs => h s (List.mem_cons_of_mem _ hs)) (n + 1)
    refine ⟨first :: rest, ?_, by rw [List.length_cons, List.length_cons, hlen], fun a => ?_⟩
    · rw [askEach_cons, hfirst, hrest]
      rfl
    · rw [List.mem_cons, hmem]
      constructor
      · rintro (rfl | ⟨i, s, hi, ha⟩)
        · exact ⟨0, shard, rfl, hfirst⟩
        · refine ⟨i + 1, s, hi, ?_⟩
          rw [← Nat.add_assoc, Nat.add_right_comm]
          exact ha
      · rintro ⟨i, s, hi, ha⟩
        cases i with
        | zero =>
          left
          obtain rfl := Option.some.inj hi
          rw [Nat.add_zero, hfirst] at ha
          exact (Except.ok.inj ha).symm
        | succ i =>
          right
          refine ⟨i, s, hi, ?_⟩
          rw [Nat.add_right_comm, Nat.add_assoc]
          exact ha

/-- One shard that cannot be asked makes the whole read fail, by induction on the shards. -/
theorem askEach_error {w : Surroundings} {sql : Text} {shards : List ShardMetadata}
    (h : ∃ shard ∈ shards, ¬ w.Choosable shard) (n : Nat) :
    ∃ message, w.askEach sql n shards = .error message := by
  induction shards generalizing n with
  | nil =>
    obtain ⟨shard, hmem, -⟩ := h
    exact absurd hmem List.not_mem_nil
  | cons shard shards ih =>
    rw [askEach_cons]
    -- if the first shard answers, the failing one is among the others
    cases hfirst : w.ask sql n shard with
    | error message => exact ⟨message, rfl⟩
    | ok a =>
      have hrest : ∃ s ∈ shards, ¬ w.Choosable s := by
        obtain ⟨s, hs, hnot⟩ := h
        rcases List.mem_cons.mp hs with rfl | hs
        · exact absurd ((w.exists_ask_iff sql n s).mp ⟨a, hfirst⟩) hnot
        · exact ⟨s, hs, hnot⟩
      obtain ⟨message, hmessage⟩ := ih hrest (n + 1)
      rw [hmessage]
      exact ⟨message, rfl⟩

/-! ### What a read gets -/

section
variable (sha256 : Text → Vector (BitVec 8) 32) (shardCount : Int)

/-- The shards that a read needs. -/
def neededShards (w : Surroundings) (shardKey : Option Text) : List ShardMetadata :=
  match explicitKey shardKey with
  | none => w.shards
  | some key =>
    match hashToShard sha256 key shardCount with
    | .error _ => []
    | .ok shardId => (w.shards.find? fun s => s.shardId == shardId).toList

/-- A read throws: ZooKeeper can not be read, the shard of the key does not exist, or a needed shard
has no live replica that is serving. -/
def Throws (w : Surroundings) (shardKey : Option Text) : Prop :=
  w.nodesFailure.isSome ∨
    w.liveNodes ≠ [] ∧
      (w.shardsFailure.isSome ∨
        ((explicitKey shardKey).isSome ∧ w.neededShards sha256 shardCount shardKey = []) ∨
        ∃ shard ∈ w.neededShards sha256 shardCount shardKey, ¬ w.Choosable shard)

/-- A read asks nobody. -/
def Silent (w : Surroundings) (shardKey : Option Text) : Prop :=
  w.liveNodes = [] ∨ w.neededShards sha256 shardCount shardKey = []

/-- The counters, the live nodes and the answers of the nodes give `a` for a needed shard. -/
def Gets (w : Surroundings) (sql : Text) (shardKey : Option Text) (a : Answer) : Prop :=
  ∃ n shard, (w.neededShards sha256 shardCount shardKey)[n]? = some shard ∧
    w.ask sql n shard = .ok a

/-- No needed shard is lost: the node that is asked about it answers, or another one that is asked
is a replica of it and answers. -/
def Covers (w : Surroundings) (sql : Text) (shardKey : Option Text) : Prop :=
  ∀ shard ∈ w.neededShards sha256 shardCount shardKey,
    ∃ a, w.Gets sha256 shardCount sql shardKey a ∧ a.node.nodeId ∈ shard.replicas ∧
      a.response.ok = true

/-- A node answers with a text that can not be parsed. -/
def Garbled (w : Surroundings) (sql : Text) (shardKey : Option Text) : Prop :=
  ∃ a, w.Gets sha256 shardCount sql shardKey a ∧ a.response.ok = true ∧
    MiniSqlResultParser.parse a.response.output.toList = none

/-- The read has the answer of a replica of the shard. -/
def Answered (w : Surroundings) (sql : Text) (shardKey : Option Text) (shard : ShardMetadata) :
    Prop :=
  ∃ answers, w.readResponses sha256 shardCount sql shardKey = .ok answers ∧
    ∃ a ∈ answers, a.node.nodeId ∈ shard.replicas ∧ a.response.ok = true

variable {w : Surroundings} {shardKey : Option Text}

/-- Where nothing in the surroundings fails, the read asks every shard it needs. -/
theorem readResponses_eq (sql : Text) (hnodes : w.nodesFailure = none) (hlive : w.liveNodes ≠ [])
    (hshards : w.shardsFailure = none)
    (hkey : (explicitKey shardKey).isSome → w.neededShards sha256 shardCount shardKey ≠ []) :
    w.readResponses sha256 shardCount sql shardKey =
      w.askEach sql 0 (w.neededShards sha256 shardCount shardKey) := by
  have hempty : w.liveNodes.isEmpty = false := by
    rw [List.isEmpty_eq_false_iff]
    exact hlive
  unfold readResponses neededShards at *
  rw [hnodes]
  simp only [hempty, Bool.false_eq_true, if_false]
  -- with an explicit key it needs the one shard of the hash
  cases hk : explicitKey shardKey with
  | none =>
    simp only [allShards, hshards]
    rfl
  | some key =>
    rw [hk] at hkey
    cases hh : hashToShard sha256 key shardCount with
    | error message =>
      simp only [hh] at hkey
      exact absurd rfl (hkey rfl)
    | ok shardId =>
      simp only [hh] at hkey ⊢
      cases hf : w.shards.find? (fun s => s.shardId == shardId) with
      | none =>
        rw [hf] at hkey
        exact absurd rfl (hkey rfl)
      | some shard =>
        have hshard : w.shard shardId = .ok shard := by
          simp only [Surroundings.shard, hshards, hf]
        rw [Option.toList_some, askEach_cons]
        show (w.shard shardId).bind _ = _
        rw [hshard]
        rfl

/-- A shard record that cannot be read makes the read fail. -/
theorem shard_error {shardId : Int}
    (h : w.shardsFailure.isSome ∨ w.shards.find? (fun s => s.shardId == shardId) = none) :
    ∃ message, w.shard shardId = .error message := by
  unfold Surroundings.shard
  rcases h with h | h
  · obtain ⟨failure, hfailure⟩ := Option.isSome_iff_exists.mp h
    rw [hfailure]
    exact ⟨_, rfl⟩
  · rw [h]
    cases w.shardsFailure with
    | none => exact ⟨_, rfl⟩
    | some failure => exact ⟨_, rfl⟩

/-- A read with a key throws when the shard can not be read. -/
theorem readResponses_key_error {w : Surroundings} (sql : Text) {shardKey : Option Text}
    {key : Text}
    (hnodes : w.nodesFailure = none) (hlive : w.liveNodes.isEmpty = false)
    (hkey : explicitKey shardKey = some key)
    (h : ∀ shardId, hashToShard sha256 key shardCount = .ok shardId →
      ∃ message, w.shard shardId = .error message) :
    ∃ message, w.readResponses sha256 shardCount sql shardKey = .error message := by
  unfold readResponses
  rw [hnodes, hkey]
  simp only [hlive, Bool.false_eq_true, if_false]
  cases hh : hashToShard sha256 key shardCount with
  | error message => exact ⟨message, rfl⟩
  | ok shardId =>
    obtain ⟨message, hmessage⟩ := h shardId hh
    refine ⟨message, ?_⟩
    show (w.shard shardId).bind _ = _
    rw [hmessage]
    rfl

/-- Every cause named in `Throws` makes the read fail, one case for each. -/
theorem readResponses_error (sql : Text) (h : w.Throws sha256 shardCount shardKey) :
    ∃ message, w.readResponses sha256 shardCount sql shardKey = .error message := by
  cases hnodes : w.nodesFailure with
  | some failure =>
    unfold readResponses
    rw [hnodes]
    exact ⟨_, rfl⟩
  | none =>
    have hthrows := h.resolve_left (by rw [hnodes]; decide)
    have hlive : w.liveNodes.isEmpty = false := List.isEmpty_eq_false_iff.mpr hthrows.1
    cases hshards : w.shardsFailure with
    | some failure =>
      have hfails : w.shardsFailure.isSome := by
        rw [hshards]
        rfl
      cases hk : explicitKey shardKey with
      | some key =>
        exact readResponses_key_error sha256 shardCount sql hnodes hlive hk fun shardId _ =>
          shard_error (.inl hfails)
      | none =>
        unfold readResponses
        rw [hnodes, hk]
        simp only [hlive, Bool.false_eq_true, if_false, allShards, hshards]
        exact ⟨_, rfl⟩
    | none =>
      rcases hthrows.2 with hfails | ⟨hkey, hneeded⟩ | ⟨shard, hmem, hnot⟩
      · rw [hshards] at hfails
        cases hfails
      · obtain ⟨key, hk⟩ := Option.isSome_iff_exists.mp hkey
        refine readResponses_key_error sha256 shardCount sql hnodes hlive hk fun shardId hh =>
          shard_error (.inr ?_)
        unfold neededShards at hneeded
        simp only [hk, hh] at hneeded
        exact Option.toList_eq_nil_iff.mp hneeded
      · rw [readResponses_eq sha256 shardCount sql hnodes hthrows.1 hshards
          fun _ => List.ne_nil_of_mem hmem]
        exact askEach_error ⟨shard, hmem, hnot⟩ 0

/-- A read that does not throw gets the answer for each needed shard. -/
theorem readResponses_spec (sql : Text) (h : ¬ w.Throws sha256 shardCount shardKey) :
    ∃ answers, w.readResponses sha256 shardCount sql shardKey = .ok answers ∧
      (answers = [] ↔ w.Silent sha256 shardCount shardKey) ∧
      ∀ a, a ∈ answers ↔ w.Gets sha256 shardCount sql shardKey a := by
  have hnodes : w.nodesFailure = none :=
    Option.not_isSome_iff_eq_none.mp fun hsome => h (.inl hsome)
  by_cases hlive : w.liveNodes = []
  · have hempty : w.liveNodes.isEmpty := by rw [hlive]; rfl
    refine ⟨[], ?_, ⟨fun _ => .inl hlive, fun _ => rfl⟩,
      fun a => ⟨fun ha => absurd ha List.not_mem_nil, ?_⟩⟩
    · unfold readResponses
      rw [hnodes]
      simp only [hempty, if_true]
    · -- without live nodes no replica can be chosen
      rintro ⟨n, shard, -, ha⟩
      have hsome := ((w.exists_ask_iff sql n shard).mp ⟨a, ha⟩).2
      rw [hlive, chooseForWrite_nil] at hsome
      exact absurd rfl hsome
  · have hshards : w.shardsFailure = none :=
      Option.not_isSome_iff_eq_none.mp fun hsome => h (.inr ⟨hlive, .inl hsome⟩)
    have hkey : (explicitKey shardKey).isSome → w.neededShards sha256 shardCount shardKey ≠ [] :=
      fun hk hneeded => h (.inr ⟨hlive, .inr (.inl ⟨hk, hneeded⟩)⟩)
    have hchoosable : ∀ shard ∈ w.neededShards sha256 shardCount shardKey, w.Choosable shard := by
      intro shard hmem
      by_contra hnot
      exact h (.inr ⟨hlive, .inr (.inr ⟨shard, hmem, hnot⟩)⟩)
    obtain ⟨answers, hanswers, hlen, hmem⟩ := askEach_spec sql hchoosable 0
    refine ⟨answers, ?_, ?_, fun a => ?_⟩
    · rw [readResponses_eq sha256 shardCount sql hnodes hlive hshards hkey, hanswers]
    · rw [← List.length_eq_zero_iff, hlen, List.length_eq_zero_iff]
      exact (or_iff_right hlive).symm
    · simp only [hmem, Nat.zero_add]
      rfl

theorem answered_iff {sql : Text} {shard : ShardMetadata}
    (h : ¬ w.Throws sha256 shardCount shardKey) :
    w.Answered sha256 shardCount sql shardKey shard ↔
      ∃ a, w.Gets sha256 shardCount sql shardKey a ∧ a.node.nodeId ∈ shard.replicas ∧
        a.response.ok = true := by
  obtain ⟨answers, hanswers, -, hmem⟩ := readResponses_spec sha256 shardCount sql h
  simp only [Answered, hanswers, Except.ok.injEq, exists_eq_left', hmem]

end

end Surroundings

/-! ### What is made of the answers -/

/-- One failure makes the whole map fail. -/
theorem mapM_eq_none_iff {α β : Type} {f : α → Option β} {xs : List α} :
    xs.mapM f = none ↔ ∃ x ∈ xs, f x = none := by
  induction xs with
  | nil => simp
  | cons x xs ih =>
    simp only [List.mapM_cons, List.mem_cons, exists_eq_or_imp]
    cases hx : f x with
    | none => simp
    | some y =>
      rw [← ih]
      cases hxs : xs.mapM f with
      | none => simp
      | some ys => simp

section
variable {δ : Type} [LinearOrder δ] (fold : Char → Char) (doubles : DoubleOps δ) (lists : ListSort)

open QueryPostProcessor (mergeResponses mergeSelect applyOrderBy isAggregate join isSimpleJoin
  SIMPLE_JOIN)

theorem mergeResponses_eq_none_iff {responses : List ExecuteResponse} :
    mergeResponses fold responses = none ↔ ∃ r ∈ responses, r.ok = true ∧
      MiniSqlResultParser.parse r.output.toList = none := by
  simp only [mergeResponses, Option.map_eq_none_iff, mapM_eq_none_iff, List.mem_filter, and_assoc]

/-- `List.sort` throws at the merged rows of the answers. -/
def QueryPostProcessor.SortThrows (sql : Text) (responses : List ExecuteResponse) : Prop :=
  isAggregate sql = false ∧
    ∃ table, mergeResponses fold responses = some table ∧
      applyOrderBy fold doubles lists sql table = none

/-- A table without columns is not sorted. -/
theorem applyOrderBy_of_isEmpty (sql : Text) {table : QueryTable} (h : table.isEmpty = true) :
    applyOrderBy fold doubles lists sql table = some table := by
  have hcolumns : table.columns = [] := List.isEmpty_iff.mp h
  unfold applyOrderBy
  split
  · rfl
  · rw [hcolumns, QueryPostProcessor.columnIndex, List.findIdx?_nil]

/-- The merge fails if an answer is no table, and if the sort throws. -/
theorem exists_mergeSelect_iff (sql : Text) {responses : List ExecuteResponse} :
    (∃ merged, mergeSelect fold doubles lists sql responses = .ok merged) ↔
      mergeResponses fold responses ≠ none ∧
        ¬ QueryPostProcessor.SortThrows fold doubles lists sql responses := by
  unfold mergeSelect QueryPostProcessor.SortThrows
  cases mergeResponses fold responses with
  | none => simp
  | some table =>
    simp only [Option.some.injEq, exists_eq_left', ne_eq, reduceCtorEq, not_false_eq_true,
      true_and]
    by_cases hempty : table.isEmpty = true
    · rw [if_pos hempty, applyOrderBy_of_isEmpty fold doubles lists sql hempty]
      simp
    · rw [if_neg hempty]
      cases isAggregate sql with
      | true => simp
      | false =>
        simp only [Bool.false_eq_true, if_false, true_and]
        cases applyOrderBy fold doubles lists sql table with
        | none => simp
        | some ordered => simp

/-- A join fails exactly when it is one and an answer of either side does not parse. -/
theorem join_eq_none_iff {sql : Text} {left right : List ExecuteResponse} :
    join fold sql left right = none ↔ isSimpleJoin sql = true ∧
      (mergeResponses fold left = none ∨ mergeResponses fold right = none) := by
  unfold join isSimpleJoin
  cases SIMPLE_JOIN.matchAll sql with
  | none => simp
  | some groups =>
    cases mergeResponses fold left with
    | none => simp
    | some l =>
      cases mergeResponses fold right with
      | none => simp
      | some r => simp

variable (sha256 : Text → Vector (BitVec 8) 32) (shardCount : Int)

open Surroundings (readResponses_error readResponses_spec answered_iff)

/-- So merging fails exactly when an answer is garbled. -/
theorem exists_garbled_iff {w : Surroundings} {sql : Text} {shardKey : Option Text}
    {answers : List Answer} (hmem : ∀ a, a ∈ answers ↔ w.Gets sha256 shardCount sql shardKey a) :
    mergeResponses fold (answers.map (·.response)) = none ↔
      w.Garbled sha256 shardCount sql shardKey := by
  rw [mergeResponses_eq_none_iff]
  constructor
  · rintro ⟨r, hr, hok, hparse⟩
    obtain ⟨a, ha, rfl⟩ := List.mem_map.mp hr
    exact ⟨a, (hmem a).mp ha, hok, hparse⟩
  · rintro ⟨a, ha, hok, hparse⟩
    exact ⟨a.response, List.mem_map_of_mem ((hmem a).mpr ha), hok, hparse⟩

/-- `List.sort` throws at the merged rows of the answers to a read. -/
def Surroundings.SortThrows (w : Surroundings) (originalSql dispatchSql : Text)
    (shardKey : Option Text) : Prop :=
  ∃ answers, w.readResponses sha256 shardCount dispatchSql shardKey = .ok answers ∧
    QueryPostProcessor.SortThrows fold doubles lists originalSql (answers.map (·.response))

/-- A read is reported as a success only if every needed shard has answered it. -/
def NoPartialRead (w : Surroundings) (originalSql dispatchSql : Text) (shardKey : Option Text) :
    Prop :=
  (SqlResponse.ofCall (distributedRead fold doubles lists sha256 shardCount w originalSql
      dispatchSql shardKey)).ok = true →
    ∀ shard ∈ w.neededShards sha256 shardCount shardKey,
      w.Answered sha256 shardCount dispatchSql shardKey shard

/-- A join is reported as a success only if every shard has answered both of its reads. -/
def NoPartialJoin (left right : Surroundings) (sql : Text) : Prop :=
  (SqlResponse.ofCall (distributedJoin fold sha256 shardCount left right sql)).ok = true →
    (∀ shard ∈ left.neededShards sha256 shardCount none,
      left.Answered sha256 shardCount (QueryPostProcessor.leftJoinSql sql) none shard) ∧
    ∀ shard ∈ right.neededShards sha256 shardCount none,
      right.Answered sha256 shardCount (QueryPostProcessor.rightJoinSql sql) none shard

/-- When a read is a success. -/
theorem distributedRead_ok_iff (w : Surroundings) (originalSql dispatchSql : Text)
    (shardKey : Option Text) :
    (SqlResponse.ofCall (distributedRead fold doubles lists sha256 shardCount w originalSql
        dispatchSql shardKey)).ok = true ↔
      ¬ w.Throws sha256 shardCount shardKey ∧ ¬ w.Silent sha256 shardCount shardKey ∧
        ¬ w.Garbled sha256 shardCount dispatchSql shardKey ∧
        ¬ w.SortThrows fold doubles lists sha256 shardCount originalSql dispatchSql shardKey := by
  by_cases hthrows : w.Throws sha256 shardCount shardKey
  · obtain ⟨message, hmessage⟩ := readResponses_error sha256 shardCount dispatchSql hthrows
    have hcall : distributedRead fold doubles lists sha256 shardCount w originalSql dispatchSql
        shardKey = .error message := by
      unfold distributedRead
      rw [hmessage]
      rfl
    rw [hcall]
    exact ⟨fun h => absurd h Bool.false_ne_true, fun h => absurd hthrows h.1⟩
  · obtain ⟨answers, hanswers, hnil, hmem⟩ :=
      readResponses_spec sha256 shardCount dispatchSql hthrows
    have hsort : w.SortThrows fold doubles lists sha256 shardCount originalSql dispatchSql
        shardKey ↔
        QueryPostProcessor.SortThrows fold doubles lists originalSql
          (answers.map (·.response)) := by
      unfold Surroundings.SortThrows
      rw [hanswers]
      simp
    have hmerge : (∃ merged, mergeSelect fold doubles lists originalSql
        (answers.map (·.response)) = .ok merged) ↔ _ :=
      exists_mergeSelect_iff fold doubles lists originalSql
    rw [← hnil, ← exists_garbled_iff fold sha256 shardCount hmem, hsort, ← ne_eq, ← ne_eq,
      ← hmerge]
    unfold distributedRead
    rw [hanswers]
    show (SqlResponse.ofCall (if (answers.map (·.response)).isEmpty then _ else _)).ok = true ↔ _
    cases answers with
    | nil => exact ⟨fun h => absurd h Bool.false_ne_true, fun h => absurd rfl h.2.1⟩
    | cons a rest =>
      simp only [List.map_cons, List.isEmpty_cons, Bool.false_eq_true, if_false]
      cases mergeSelect fold doubles lists originalSql (a.response :: rest.map (·.response)) with
      | error message =>
        refine ⟨fun h => absurd h Bool.false_ne_true, fun h => ?_⟩
        obtain ⟨merged, hmerged⟩ := h.2.2
        cases hmerged
      | ok merged =>
        exact ⟨fun _ => ⟨hthrows, List.cons_ne_nil _ _, merged, rfl⟩, fun _ => rfl⟩

/-- When a join is a success. -/
theorem distributedJoin_ok_iff (left right : Surroundings) (sql : Text) :
    (SqlResponse.ofCall (distributedJoin fold sha256 shardCount left right sql)).ok = true ↔
      ¬ left.Throws sha256 shardCount none ∧ ¬ right.Throws sha256 shardCount none ∧
        ¬ (left.Silent sha256 shardCount none ∧ right.Silent sha256 shardCount none) ∧
        ¬ (isSimpleJoin sql = true ∧
          (left.Garbled sha256 shardCount (QueryPostProcessor.leftJoinSql sql) none ∨
            right.Garbled sha256 shardCount (QueryPostProcessor.rightJoinSql sql) none)) := by
  by_cases hleft : left.Throws sha256 shardCount none
  · obtain ⟨message, hmessage⟩ :=
      readResponses_error sha256 shardCount (QueryPostProcessor.leftJoinSql sql) hleft
    have hcall : distributedJoin fold sha256 shardCount left right sql = .error message := by
      unfold distributedJoin
      rw [hmessage]
      rfl
    rw [hcall]
    exact ⟨fun h => absurd h Bool.false_ne_true, fun h => absurd hleft h.1⟩
  obtain ⟨ls, hls, hlnil, hlmem⟩ :=
    readResponses_spec sha256 shardCount (QueryPostProcessor.leftJoinSql sql) hleft
  by_cases hright : right.Throws sha256 shardCount none
  · obtain ⟨message, hmessage⟩ :=
      readResponses_error sha256 shardCount (QueryPostProcessor.rightJoinSql sql) hright
    have hcall : distributedJoin fold sha256 shardCount left right sql = .error message := by
      unfold distributedJoin
      rw [hls, hmessage]
      rfl
    rw [hcall]
    exact ⟨fun h => absurd h Bool.false_ne_true, fun h => absurd hright h.2.1⟩
  obtain ⟨rs, hrs, hrnil, hrmem⟩ :=
    readResponses_spec sha256 shardCount (QueryPostProcessor.rightJoinSql sql) hright
  have hlgarbled := exists_garbled_iff fold sha256 shardCount hlmem
  have hrgarbled := exists_garbled_iff fold sha256 shardCount hrmem
  rw [← hlnil, ← hrnil, ← hlgarbled, ← hrgarbled, ← join_eq_none_iff]
  have hempty : (ls.map (·.response) ++ rs.map (·.response)).isEmpty = true ↔
      ls = [] ∧ rs = [] := by
    rw [List.isEmpty_iff, List.append_eq_nil_iff, List.map_eq_nil_iff, List.map_eq_nil_iff]
  unfold distributedJoin
  rw [hls, hrs]
  show (SqlResponse.ofCall (if (ls.map (·.response) ++ rs.map (·.response)).isEmpty then _
    else _)).ok = true ↔ _
  by_cases hnone : ls = [] ∧ rs = []
  · rw [if_pos (hempty.mpr hnone)]
    exact ⟨fun h => absurd h Bool.false_ne_true, fun h => absurd hnone h.2.2.1⟩
  · rw [if_neg (fun h => hnone (hempty.mp h))]
    cases join fold sql (ls.map (·.response)) (rs.map (·.response)) with
    | none => exact ⟨fun h => absurd h Bool.false_ne_true, fun h => absurd rfl h.2.2.2⟩
    | some merged =>
      exact ⟨fun _ => ⟨hleft, hright, hnone, Option.some_ne_none _⟩, fun _ => rfl⟩

theorem forall_answered_iff {w : Surroundings} {sql : Text} {shardKey : Option Text}
    (h : ¬ w.Throws sha256 shardCount shardKey) :
    (∀ shard ∈ w.neededShards sha256 shardCount shardKey,
        w.Answered sha256 shardCount sql shardKey shard) ↔
      w.Covers sha256 shardCount sql shardKey := by
  simp only [answered_iff sha256 shardCount h]
  rfl

/-- Exactly when no shard is left out of a successful read, or of a successful join: the call ends
in an error, or each needed shard is one of a node that is asked and answers. -/
theorem no_partial_reads_iff (w left right : Surroundings) (originalSql dispatchSql : Text)
    (shardKey : Option Text) (sql : Text) :
    (NoPartialRead fold doubles lists sha256 shardCount w originalSql dispatchSql shardKey ↔
      w.Throws sha256 shardCount shardKey ∨ w.Silent sha256 shardCount shardKey ∨
        w.Garbled sha256 shardCount dispatchSql shardKey ∨
        w.SortThrows fold doubles lists sha256 shardCount originalSql dispatchSql shardKey ∨
        w.Covers sha256 shardCount dispatchSql shardKey) ∧
      (NoPartialJoin fold sha256 shardCount left right sql ↔
        left.Throws sha256 shardCount none ∨ right.Throws sha256 shardCount none ∨
          (left.Silent sha256 shardCount none ∧ right.Silent sha256 shardCount none) ∨
          (isSimpleJoin sql = true ∧
            (left.Garbled sha256 shardCount (QueryPostProcessor.leftJoinSql sql) none ∨
              right.Garbled sha256 shardCount (QueryPostProcessor.rightJoinSql sql) none)) ∨
          (left.Covers sha256 shardCount (QueryPostProcessor.leftJoinSql sql) none ∧
            right.Covers sha256 shardCount (QueryPostProcessor.rightJoinSql sql) none)) := by
  constructor
  · rw [NoPartialRead, distributedRead_ok_iff]
    by_cases hthrows : w.Throws sha256 shardCount shardKey
    · exact ⟨fun _ => .inl hthrows, fun _ h => absurd hthrows h.1⟩
    · rw [forall_answered_iff sha256 shardCount hthrows]
      tauto
  · rw [NoPartialJoin, distributedJoin_ok_iff]
    by_cases hleft : left.Throws sha256 shardCount none
    · exact ⟨fun _ => .inl hleft, fun _ h => absurd hleft h.1⟩
    by_cases hright : right.Throws sha256 shardCount none
    · exact ⟨fun _ => .inr (.inl hright), fun _ h => absurd hright h.2.1⟩
    rw [forall_answered_iff sha256 shardCount hleft, forall_answered_iff sha256 shardCount hright]
    tauto

end

/-- Two shards on a node each, of which the second is out of reach. -/
def halfReached : Surroundings where
  liveNodes :=
    [{ nodeId := "dn1", shards := [0], replicaState := .SERVING },
      { nodeId := "dn2", shards := [1], replicaState := .SERVING }]
  shards :=
    [{ shardId := 0, replicas := ["dn1"], primary := some "dn1" },
      { shardId := 1, replicas := ["dn2"], primary := some "dn2" }]
  nodesFailure := none
  shardsFailure := none
  counter := fun _ => 0
  randomUUID := fun n => n.repr
  postJson := fun _ node _ =>
    if node.nodeId = "dn1" then .ok (.success "dn1" 3 "| id |\n| 1  |")
    else .error "HTTP request failed: http://dn2/execute"

/-- The client is sent the row of the first shard as the whole table. -/
theorem not_no_partial_reads :
    ¬ ∀ (fold : Char → Char) (doubles : DoubleOps Nat) (sha256 : Text → Vector (BitVec 8) 32)
        (shardCount : Int) (w : Surroundings) (originalSql dispatchSql : Text)
        (shardKey : Option Text),
        NoPartialRead fold doubles .neverThrows sha256 shardCount w originalSql dispatchSql
          shardKey := by
  intro h
  have hread := h id QueryPostProcessor.digits (fun _ => Vector.replicate 32 0) 2 halfReached
    "select * from t;".toList "select * from t;".toList none (by decide +kernel)
  have hneeded : halfReached.shards[1] ∈
      halfReached.neededShards (fun _ => Vector.replicate 32 0) 2 none := by
    decide
  obtain ⟨answers, hanswers, a, ha, hreplica, hok⟩ := hread _ hneeded
  obtain rfl := Except.ok.inj hanswers
  rcases List.mem_cons.mp ha with rfl | ha
  · exact absurd hreplica (by decide)
  · rcases List.mem_cons.mp ha with rfl | ha
    · exact absurd hok (by decide)
    · exact absurd ha List.not_mem_nil

end DisMiniSql.Distributed
