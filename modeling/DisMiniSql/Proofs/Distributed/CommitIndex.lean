import DisMiniSql.Proofs.Distributed.TermFencing

/-!
# What the commit index of a shard stands for

`updateCommitIndex` is called at the end of a routed write that a quorum has acknowledged. It reads
the record of the shard and writes it back, and elections and rebalances do the same, while others
write. So a larger index may be overwritten by a smaller one. But no call makes an index up: it
writes one that it was given or that it has read (`StoreCall.hands`). Hence
`commitIndex_is_acknowledged`: the index that is stored is that of a write which a quorum of the
replicas has appended, no other write of the shard has this index, and the counter of the shard has
handed it out.

`broadcastWrite_on_quorum` is about the writes without an index. A `create` or a `drop` goes to all
live nodes, and ZooKeeper lists each node once, so the answers that are counted come from different
nodes.
-/

set_option autoImplicit false

namespace DisMiniSql.Distributed

open DisMiniSql.Lib (Contract Prog Steps runWhere)

/-! ## What a call writes -/

/-- A call reads indexes that have the property, and writes only such. -/
def indexContract (V : Int → Nat → Prop) : Contract ZkOp ZkOp.Res ZkNote where
  pre := fun _ o =>
    match o with
    | .create _ data => V data.shardId data.commitIndex
    | .setData _ data _ => V data.shardId data.commitIndex
    | _ => True
  may := fun _ o r =>
    match o, r with
    | .getData shardId, some n => n.data.shardId = shardId ∧ V shardId n.data.commitIndex
    | _, _ => True

namespace ZkProg

variable {α : Type} {g : ZkNote} {V : Int → Nat → Prop}

/-- From records whose indexes have the property the program makes only such. -/
abbrev Hands (V : Int → Nat → Prop) (g : ZkNote) (p : ZkProg α) (post : α → Prop) : Prop :=
  Prog.Safe zooKeeper (indexContract V) (fun _ a => post a) g p

/-- A call that reads a shard is handed an index that was written. -/
theorem hands_shard {s : Int} {post : ZkNote → ShardMetadata → Prop}
    (h : ∀ g (m : ShardMetadata), m.shardId = s → V s m.commitIndex → post g m) :
    Prog.Safe zooKeeper (indexContract V) post g (shard s) := by
  refine Prog.Safe.bind (Prog.Safe.op trivial fun r hr => ?_)
  cases r with
  | none => trivial
  | some n => exact h _ n.data hr.1 hr.2

/-- A call that reads several. -/
theorem hands_readAll (children : List Int) :
    Hands V g (readAll children) (fun ms => ∀ m ∈ ms, V m.shardId m.commitIndex) := by
  induction children generalizing g with
  | nil =>
    intro m hm
    cases hm
  | cons s children ih =>
    refine Prog.Safe.bind (hands_shard fun g m hid hm => ?_)
    refine Prog.Safe.bind (Prog.Safe.mono (fun _ ms hms => ?_) ih)
    exact List.forall_mem_cons.mpr ⟨hid ▸ hm, hms⟩

/-- A call that reads all. -/
theorem hands_shards :
    Hands V g shards (fun ms => ∀ m ∈ ms, V m.shardId m.commitIndex) := by
  refine Prog.Safe.bind (Prog.Safe.op trivial fun children _ => ?_)
  refine Prog.Safe.bind (Prog.Safe.mono (fun _ ms hms => ?_) (hands_readAll children))
  exact fun m hm => hms m ((List.mem_insertionSort _).mp hm)

/-- A call that writes a shard, with one of the indexes handed out. -/
theorem hands_updateShard {m : ShardMetadata} (hm : V m.shardId m.commitIndex) :
    Hands V g (updateShard m) fun _ => True := by
  refine Prog.Safe.bind (Prog.Safe.op trivial fun stat _ => ?_)
  cases stat with
  | none =>
    refine Prog.Safe.bind (Prog.Safe.op hm fun created _ => ?_)
    cases created with
    | true => trivial
    | false => trivial
  | some version =>
    refine Prog.Safe.bind (Prog.Safe.op hm fun written _ => ?_)
    cases written with
    | true => trivial
    | false => trivial

/-- A call that writes several. -/
theorem hands_updateAll {ms : List ShardMetadata} (h : ∀ m ∈ ms, V m.shardId m.commitIndex) :
    Hands V g (updateAll ms) fun _ => True := by
  induction ms generalizing g with
  | nil => trivial
  | cons m ms ih =>
    obtain ⟨hm, hms⟩ := List.forall_mem_cons.mp h
    exact Prog.Safe.bind ((hands_updateShard hm).mono fun _ _ _ => ih hms)

/-- An election leaves the commit index as it was read. -/
theorem hands_electPrimary (s : Int) (liveNodes : List NodeInfo) :
    Hands V g (electPrimary s liveNodes) fun _ => True := by
  refine Prog.Safe.bind (hands_shard fun g m hid hm => ?_)
  dsimp only
  split
  · trivial
  split
  · trivial
  refine Prog.Safe.bind (Prog.Safe.bind (hands_shards.mono fun _ _ _ => ?_))
  show Prog.Safe _ _ _ _ (ite _ _ _)
  split
  · trivial
  · refine Prog.Safe.bind (Prog.Safe.mono (fun _ _ _ => trivial) (hands_updateShard ?_))
    exact hid ▸ hm

/-- So does a rebalance, for each of the shards. -/
theorem hands_rebalance (liveNodes : List NodeInfo) (rf : Nat) :
    Hands V g (rebalance liveNodes rf) fun _ => True := by
  unfold rebalance
  dsimp only
  split
  · exact hands_shards.mono fun _ _ _ => trivial
  · refine Prog.Safe.bind (hands_shards.mono fun _ previous hprevious => ?_)
    refine Prog.Safe.bind ((hands_updateAll fun m hm => ?_).mono fun _ _ _ => trivial)
    obtain ⟨old, hold, hmade⟩ := ZkMetadataStore.exists_of_mem_rebalanced hm
    rw [hmade.shardId, hmade.commitIndex]
    exact hprevious old hold

/-- `updateCommitIndex` writes the index that it is given. -/
theorem hands_updateCommitIndex {s : Int} {k : Nat} (hk : V s k) :
    Hands V g (updateCommitIndex s k) fun _ => True := by
  refine Prog.Safe.bind (hands_shard fun g m hid _ => ?_)
  split
  · exact hands_updateShard (hid ▸ hk)
  · trivial

end ZkProg

/-- The index that a call is given has the property. -/
def StoreCall.Given (V : Int → Nat → Prop) : StoreCall → Prop
  | .updateCommitIndex shardId commitIndex => V shardId commitIndex
  | _ => True

/-- Each call of the store asks for and writes such indexes only, whatever the other calls do
between its operations. -/
theorem StoreCall.hands {V : Int → Nat → Prop} {x : StoreCall} (h : x.Given V) (g : ZkNote) :
    ZkProg.Hands V g x.program fun _ => True := by
  cases x with
  | electPrimary s liveNodes =>
    exact Prog.Safe.bind ((ZkProg.hands_electPrimary s liveNodes).mono fun _ _ _ => trivial)
  | rebalance liveNodes rf => exact ZkProg.hands_rebalance liveNodes rf
  | updateCommitIndex s k =>
    exact Prog.Safe.bind ((ZkProg.hands_updateCommitIndex h).mono fun _ _ _ => trivial)

namespace ZooKeeper

variable {zk : ZooKeeper} {V : Int → Nat → Prop} {o : ZkOp}

/-- The answer of an operation is as a call may assume it. -/
theorem may_sem (hkeyed : zk.Keyed) (hV : ∀ s n, zk.shards s = some n → V s n.data.commitIndex)
    (g : ZkNote) (o : ZkOp) : (indexContract V).may g o (zk.sem o).1 := by
  cases o with
  | getData s =>
    show (indexContract V).may g (.getData s) (zk.shards s)
    cases hs : zk.shards s with
    | none => trivial
    | some n => exact ⟨hkeyed.shardId s n hs, hV s n hs⟩
  | _ => trivial

/-- After an operation of a call the stored indexes have the property as well. -/
theorem stored_sem (hV : ∀ s n, zk.shards s = some n → V s n.data.commitIndex)
    (ho : OwnRecord o) {g : ZkNote} (hpre : (indexContract V).pre g o) {s : Int} {n : Znode}
    (hn : (zk.sem o).2.shards s = some n) : V s n.data.commitIndex := by
  -- a record that is written under its own id
  have hwrite : ∀ {t : Int} {d : ShardMetadata} {v : Nat}, d.shardId = t →
      V d.shardId d.commitIndex → (zk.write t { data := d, version := v }).shards s = some n →
      V s n.data.commitIndex := by
    intro t d v hid hd hn
    by_cases hst : s = t
    · subst hst
      simp only [ZooKeeper.write, Function.update_self, Option.some.injEq] at hn
      rw [← hn]
      exact hid ▸ hd
    · exact hV s n (by simpa [ZooKeeper.write, Function.update_of_ne hst] using hn)
  cases o with
  | getChildren => exact hV s n hn
  | getData t => exact hV s n hn
  | existsNode t => exact hV s n hn
  | create t d =>
    obtain ⟨-, hsem⟩ | hsem := zk.sem_create t d
    · rw [hsem] at hn
      exact hwrite ho hpre hn
    · rw [hsem] at hn
      exact hV s n hn
  | setData t d v =>
    obtain ⟨_, _, _, hsem⟩ | hsem := zk.sem_setData t d v
    · rw [hsem] at hn
      exact hwrite ho hpre hn
    · rw [hsem] at hn
      exact hV s n hn

end ZooKeeper

/-! ## Writes that a quorum has acknowledged -/

namespace Cluster

variable {c c' : Cluster} {a : Action} {d : Dispatch} {call : Nat}

/-- At least a majority of the members of the write have appended an entry with its request id. -/
def OnQuorum (c : Cluster) (d : Dispatch) : Prop :=
  ∃ ids : List String, ids.Nodup ∧ (∀ i ∈ ids, i ∈ d.members) ∧
    d.members.length / 2 + 1 ≤ ids.length ∧ ∀ i ∈ ids, c.Appended i d.requestId

/-- The nodes that have acknowledged a write are a quorum if they are different. -/
theorem DispatchOk.onQuorum (h : c.DispatchOk d []) (hquorum : d.hasQuorum = true)
    (hdistinct : (d.responses.map (·.nodeId)).Nodup)
    (hmembers : ∀ i ∈ d.responses.map (·.nodeId), i ∈ d.members) : c.OnQuorum d := by
  refine ⟨(d.responses.filter (·.ok)).map (·.nodeId),
    hdistinct.sublist (List.filter_sublist.map _), ?_, ?_, ?_⟩
  · intro i hi
    exact hmembers i ((List.filter_sublist.map _).subset hi)
  · have hcount : quorumSize d.members.length ≤ d.successCount := by
      simpa [Dispatch.hasQuorum] using hquorum
    rw [List.length_map, ← List.countP_eq_length_filter]
    exact hcount
  · intro i hi
    obtain ⟨r, hr, rfl⟩ := List.mem_map.mp hi
    exact h.acks r (List.mem_filter.mp hr).1 (List.mem_filter.mp hr).2

/-- A quorum has acknowledged the routed write of a call: the client has been told, or
`updateCommitIndex` comes before. -/
def Decided (c : Cluster) (call : Nat) (d : Dispatch) : Prop :=
  0 ≤ d.shardId ∧
    (c.calls call = some (.sending d) ∧ d.todo = [] ∧ d.hasQuorum = true ∨
      c.calls call = some (.replied d true))

/-- The nodes that are counted are members, and they have appended the write. -/
theorem Decided.onQuorum (h : c.Decided call d) (hcommit : c.CommitInv) : c.OnQuorum d := by
  obtain ⟨hnonneg, h⟩ := h
  have hok : c.DispatchOk d [] ∧ d.hasQuorum = true := by
    obtain ⟨hcall, -, hquorum⟩ | hcall := h
    · exact ⟨hcommit.calls call _ hcall, hquorum⟩
    · obtain ⟨hok, hquorum⟩ := hcommit.calls call _ hcall
      exact ⟨hok, hquorum rfl⟩
  have hdistinct := (List.nodup_append.mp (hok.1.distinct hnonneg)).1
  exact hok.1.onQuorum hok.2 hdistinct
    fun i hi => hok.1.members hnonneg i (List.mem_append_left _ hi)

/-- A decided call has its key. -/
theorem Decided.callKey (h : c.Decided call d) : c.callKey call = some d.key := by
  unfold Cluster.callKey
  obtain ⟨hcall, -⟩ | hcall := h.2
  · rw [hcall]
    rfl
  · rw [hcall]
    rfl

/-- Only the end of the call changes it, and that calls `updateCommitIndex`. -/
theorem Decided.act (h : c.Decided call d) (hstep : c.step a = some c')
    (ha : ZkCluster.callsStore c a = false) : c'.Decided call d := by
  have hcalls : c'.calls call = c.calls call := by
    by_cases hcall : a.call = some call
    · exfalso
      have hsome : c.calls call = some (.sending d) ∨ c.calls call = some (.replied d true) :=
        h.2.imp_left And.left
      cases stepCases_of_step hstep with
      | write hother _ =>
        cases hcall
        simp [hother] at hsome
      | elect hother _ =>
        cases hcall
        simp [hother] at hsome
      | allocate hother _ =>
        cases hcall
        simp [hother] at hsome
      | broadcastWrite hother _ _ =>
        cases hcall
        simp [hother] at hsome
      | send hother htodo =>
        cases hcall
        obtain ⟨hsending, hnil, _⟩ | hreplied := h.2
        · rw [hother] at hsending
          cases hsending
          rw [hnil] at htodo
          cases htodo
        · rw [hother] at hreplied
          cases hreplied
      | receive hother _ =>
        cases hcall
        simp [hother] at hsome
      | giveUp hother =>
        cases hcall
        simp [hother] at hsome
      | commit hother _ hquorum hs =>
        cases hcall
        simp [ZkCluster.callsStore, hother, hquorum, hs] at ha
      | finish hother _ _ _ =>
        cases hcall
        obtain ⟨hsending, -, hquorum⟩ | hreplied := h.2
        · simp [ZkCluster.callsStore, hsending, hquorum, h.1] at ha
        · rw [hother] at hreplied
          cases hreplied
      | _ => cases hcall
    · exact step_calls hstep hcall
  unfold Decided
  rw [hcalls]
  exact h

/-- The new cluster. -/
theorem IndexInv.new (nodeIds : List String) (shardCount replicationFactor : Nat) :
    (new nodeIds shardCount replicationFactor).IndexInv where
  bound := fun k w (hw : none = some w) => by cases hw
  unique := fun j k v w (hv : none = some v) => by cases hv

/-- Steps of the store alone change no call. -/
theorem IndexInv.onStore (h : c.IndexInv) (hsame : c.OnStore c') : c'.IndexInv where
  bound := by
    rw [hsame.callKey, hsame.shardLogIndexes]
    exact h.bound
  unique := by
    rw [hsame.callKey]
    exact h.unique

end Cluster

/-! ## The invariant -/

namespace ZkCluster

variable {c c' : ZkCluster} {a : ZkAction} {call : Nat} {d : Dispatch}

/-- What a call has decided it keeps: only a step of its own moves it, and those of a decided call
report or end it. -/
theorem decided_step (h : c.cluster.Decided call d) (hstep : c.step a = some c') :
    c'.cluster.Decided call d := by
  cases stepCases_of_step hstep with
  | act hcluster hb => exact h.act hb hcluster
  | @elected k _ _ _ _ hother =>
    have hne : call ≠ k := by
      rintro rfl
      obtain ⟨hcall, -⟩ | hcall := h.2
      · rw [hother] at hcall
        cases hcall
      · rw [hother] at hcall
        cases hcall
    refine ⟨h.1, ?_⟩
    show (Function.update c.cluster.calls k _ call = _ ∧ _) ∨
      Function.update c.cluster.calls k _ call = _
    rw [Function.update_of_ne hne]
    exact h.2
  | @committed k d' hother _ =>
    by_cases hk : call = k
    · -- the client is told
      subst hk
      refine ⟨h.1, Or.inr ?_⟩
      obtain ⟨hcall, -⟩ | hcall := h.2
      · obtain rfl : d = d' := by
          rw [hother] at hcall
          cases hcall
          rfl
        exact Function.update_self _ _ _
      · rw [hother] at hcall
        cases hcall
    · refine ⟨h.1, ?_⟩
      show (Function.update c.cluster.calls k _ call = _ ∧ _) ∨
        Function.update c.cluster.calls k _ call = _
      rw [Function.update_of_ne hk]
      exact h.2
  | _ => exact h

/-- The index of a write of the shard that a quorum has acknowledged, or 0. -/
def Acknowledged (c : ZkCluster) (s : Int) (k : Nat) : Prop :=
  k = 0 ∨ ∃ call d, c.cluster.Decided call d ∧ d.shardId = s ∧ d.shardLogIndex = k

/-- An acknowledged write stays acknowledged. -/
theorem acknowledged_step (hstep : c.step a = some c') {s : Int} {k : Nat}
    (h : c.Acknowledged s k) : c'.Acknowledged s k := by
  obtain hzero | ⟨call, d, hd, hs, hk⟩ := h
  · exact Or.inl hzero
  · exact Or.inr ⟨call, d, decided_step hd hstep, hs, hk⟩

/-- The stored indexes are those of acknowledged writes, and the calls under way will write no
others, whatever is acknowledged meanwhile. -/
structure CommitIndexInv (c : ZkCluster) : Prop where
  inv : c.Inv
  stored : ∀ s n, c.pool.shared.shards s = some n → c.Acknowledged s n.data.commitIndex
  calls : ∀ x ∈ c.pool.calls, ∀ V : Int → Nat → Prop, (∀ s k, c.Acknowledged s k → V s k) →
    ZkProg.Hands V x.ghost x.prog fun _ => True

/-- One case for each action of the cluster with its store. A call of the store starts with an index
that was acknowledged; an operation of a running call keeps the contract by its own safety. -/
theorem CommitIndexInv.step (h : c.CommitIndexInv) (hstep : c.step a = some c') :
    c'.CommitIndexInv := by
  have hmono := fun s k => acknowledged_step (s := s) (k := k) hstep
  -- a step that starts at most one call, with an index that is acknowledged
  have hstart : ∀ {x : StoreCall}, c'.pool = c.pool.step (.start x) →
      x.Given c'.Acknowledged → c'.CommitIndexInv := by
    intro x hpool hgiven
    refine ⟨h.inv.step hstep, ?_, ?_⟩
    · rw [hpool]
      exact fun s n hn => hmono s _ (h.stored s n hn)
    · rw [hpool]
      intro y hy V hV
      obtain hy | hy := List.mem_append.mp hy
      · exact h.calls y hy V fun s k hk => hV s k (hmono s k hk)
      · rw [List.mem_singleton.mp hy]
        refine StoreCall.hands ?_ _
        cases x with
        | updateCommitIndex s k => exact hV s k hgiven
        | _ => trivial
  -- the actions that leave the running calls alone
  have hsame : c'.pool = c.pool → c'.CommitIndexInv := by
    intro hpool
    refine ⟨h.inv.step hstep, ?_, ?_⟩
    · rw [hpool]
      exact fun s n hn => hmono s _ (h.stored s n hn)
    · rw [hpool]
      exact fun y hy V hV => h.calls y hy V fun s k hk => hV s k (hmono s k hk)
  cases stepCases_of_step hstep with
  | act _ _ => exact hsame rfl
  | elect => exact hstart rfl trivial
  | elected _ => exact hsame rfl
  | @commit call d hcall htodo hquorum hs =>
    exact hstart rfl (Or.inr ⟨call, d, ⟨hs, Or.inl ⟨hcall, htodo, hquorum⟩⟩, rfl, rfl⟩)
  | committed _ _ => exact hsame rfl
  | rebalance => exact hstart rfl trivial
  | @op k =>
    obtain heq | ⟨g, o, next, hk, heq⟩ := op_cases c.pool k
    · exact hsame heq
    have hmem := List.mem_of_getElem? hk
    obtain ⟨ho, -⟩ := h.inv.synced.ops _ hmem
    have hkeyed := h.inv.synced.keyed
    refine ⟨h.inv.step hstep, ?_, ?_⟩
    · have hpre := (h.calls _ hmem c.Acknowledged fun _ _ hk => hk).1
      have hshared : (c.runOp k).pool.shared = (c.pool.shared.sem o).2 :=
        congrArg Lib.Pool.shared heq
      rw [hshared]
      exact fun s n hn => hmono s _ (ZooKeeper.stored_sem h.stored ho hpre hn)
    · have hcalls : (c.runOp k).pool.calls = c.pool.calls.set k
          ⟨zooKeeper.note g o (c.pool.shared.sem o).1, next (c.pool.shared.sem o).1⟩ :=
        congrArg Lib.Pool.calls heq
      rw [hcalls]
      intro y hy V hV
      have hV' : ∀ s k, c.Acknowledged s k → V s k := fun s k hk => hV s k (hmono s k hk)
      obtain hy | rfl := List.mem_or_eq_of_mem_set hy
      · exact h.calls y hy V hV'
      · have hmay := ZooKeeper.may_sem hkeyed (fun s n hn => hV' s _ (h.stored s n hn)) g o
        exact (h.calls _ hmem V hV').2 _ hmay

/-- The new cluster. -/
theorem CommitIndexInv.new (nodeIds : List String) (shardCount replicationFactor : Nat) :
    (new nodeIds shardCount replicationFactor).CommitIndexInv where
  inv := Inv.new nodeIds shardCount replicationFactor
  stored := by
    intro s n hn
    obtain ⟨m, hm, rfl⟩ := Option.map_eq_some_iff.mp hn
    obtain ⟨shardId, -, rfl⟩ := List.mem_map.mp (List.mem_of_find?_eq_some hm)
    exact Or.inl rfl
  calls := fun x hx => by cases hx

/-- The invariant in every reachable state. -/
theorem Reachable.commitIndexInv (h : c.Reachable) : c.CommitIndexInv := by
  obtain ⟨nodeIds, shardCount, replicationFactor, actions, hrun⟩ := h
  exact hrun.invariant (fun c a c' hc hstep => hc.step hstep)
    (CommitIndexInv.new nodeIds shardCount replicationFactor)

/-- The invariant of the keys too. -/
theorem Reachable.indexInv (h : c.Reachable) : c.cluster.IndexInv :=
  h.cluster_invariant Cluster.IndexInv.new
    (fun _ _ _ hc hstep => hc.step (Cluster.keyStep_of_step hstep))
    fun _ _ hc hsame => hc.onStore hsame

/-- In every reachable cluster the commit index of a shard is 0 or the index of a write of the shard
that a quorum has acknowledged, however the operations on ZooKeeper interleave. Such a write is on a
quorum of its replicas, the counter of the shard has handed its index out, and no other one has the
same. -/
theorem commitIndex_is_acknowledged (hc : c.Reachable) {s : Int} {m : ShardMetadata}
    (hm : c.cluster.zk.shard s = some m) :
    (m.commitIndex = 0 ∨ ∃ call d, c.cluster.Decided call d ∧ d.shardId = s ∧
      d.shardLogIndex = m.commitIndex) ∧
    m.commitIndex ≤ c.cluster.zk.shardLogIndexes s ∧
    ∀ call d, c.cluster.Decided call d → d.shardId = s →
      c.cluster.OnQuorum d ∧ d.shardLogIndex ≤ c.cluster.zk.shardLogIndexes s ∧
      ∀ call' d', c.cluster.Decided call' d' → d'.shardId = s →
        d'.shardLogIndex = d.shardLogIndex → call' = call := by
  have hinv := hc.commitIndexInv
  have hindexes := hc.indexInv
  have hbound : ∀ call d, c.cluster.Decided call d → d.shardId = s →
      d.shardLogIndex ≤ c.cluster.zk.shardLogIndexes s := by
    rintro call d hd rfl
    exact hindexes.bound call d.key hd.callKey hd.1
  have hstored : c.Acknowledged s m.commitIndex := by
    rw [hinv.inv.synced.shard s] at hm
    obtain ⟨n, hn, rfl⟩ := Option.map_eq_some_iff.mp hm
    exact hinv.stored s n hn
  refine ⟨hstored, ?_, fun call d hd hs => ⟨hd.onQuorum hinv.inv.commits, hbound call d hd hs,
    fun call' d' hd' hs' hindex => ?_⟩⟩
  · obtain hzero | ⟨call, d, hd, hs, hk⟩ := hstored
    · rw [hzero]
      exact Nat.zero_le _
    · rw [← hk]
      exact hbound call d hd hs
  · exact hindexes.unique call' call d'.key d.key hd'.callKey hd.callKey hd'.1 (hs'.trans hs.symm)
      hindex

open DisMiniSql.Distributed.Action (startUp sendAndReceive sendAndLose) in
/-- A rebalance reads the records of the shards. Then a write is acknowledged by two of three nodes,
and `updateCommitIndex` runs to its end. -/
def oneCommitted : List ZkAction :=
  (startUp 0 "n1" 4 ++ startUp 1 "n2" 10 ++ startUp 2 "n3" 16).map .act ++
    [.rebalance 3, .op 0, .op 0] ++
    .act (.write 0 0 "insert into t values(1)") :: electNow 0 1 1 ++ [.act (.allocate 0 "a")] ++
    (sendAndReceive 0 ++ sendAndLose 0 ++ sendAndReceive 0).map .act ++
    [.commit 0, .op 2, .op 2, .op 2, .committed 0]

/-- The state after a run that passes a test. -/
theorem exists_reachable_of_run {nodeIds : List String} {shardCount rf : Nat}
    {actions : List ZkAction} {P : ZkCluster → Bool}
    (h : (runWhere step (fun _ _ => true) (new nodeIds shardCount rf) actions).any P = true) :
    ∃ c : ZkCluster, c.Reachable ∧ P c = true := by
  obtain ⟨c, hc, hP⟩ := (Option.any_eq_true _ _).mp h
  have hsteps := Steps.of_runWhere (I := fun _ => True) (P := fun _ _ => True)
    (fun _ _ _ _ => trivial) (fun _ _ _ _ _ _ => trivial) trivial hc
  exact ⟨c, ⟨nodeIds, shardCount, rf, actions, hsteps.mono fun _ _ _ hstep => hstep.2⟩, hP⟩

/-- The write makes 1 the commit index. -/
theorem commitIndex_is_acknowledged_one :
    ∃ (c : ZkCluster) (m : ShardMetadata), c.Reachable ∧ c.cluster.zk.shard 0 = some m ∧
      m.commitIndex = 1 ∧ ∃ call d, c.cluster.Decided call d ∧ d.shardId = 0 ∧
        d.shardLogIndex = 1 ∧ c.cluster.OnQuorum d := by
  have hrun : (runWhere step (fun _ _ => true) (new ["n1", "n2", "n3"] 1 3) oneCommitted).any
      (fun c => (c.cluster.zk.shard 0).any fun m => m.commitIndex == 1) = true := by
    decide +kernel
  obtain ⟨c, hc, hP⟩ := exists_reachable_of_run hrun
  obtain ⟨m, hm, hone⟩ := (Option.any_eq_true _ _).mp hP
  have hone : m.commitIndex = 1 := by simpa using hone
  obtain ⟨hlast, -, hquorum⟩ := commitIndex_is_acknowledged hc hm
  obtain ⟨call, d, hd, hs, hindex⟩ := hlast.resolve_left (by simp [hone])
  exact ⟨c, m, hc, hm, hone, call, d, hd, hs, hindex.trans hone, (hquorum call d hd hs).1⟩

end ZkCluster

namespace Cluster

variable {c c' : Cluster} {a : Action} {d : Dispatch}

/-! ## Broadcasts -/

/-- What an action does to the node records of ZooKeeper: a node registers, or its session ends. -/
theorem step_nodes (h : c.step a = some c') :
    c'.zk.nodes = c.zk.nodes ∨ (∃ info, c'.zk.nodes = (c.zk.registerNode info).nodes) ∨
      ∃ nodeId, c'.zk.nodes = (c.zk.expire nodeId).nodes := by
  have hexecute : ∀ nodeId request fault output,
      (c.executeOn nodeId request fault output).1.zk.nodes = c.zk.nodes ∨
        ∃ info, (c.executeOn nodeId request fault output).1.zk.nodes =
          (c.zk.registerNode info).nodes := by
    intro nodeId request fault output
    unfold executeOn
    dsimp only
    split
    · exact .inr ⟨_, rfl⟩
    · exact .inl rfl
  cases stepCases_of_step h with
  | @elect _ _ _ _ zk _ _ helect =>
    show zk.nodes = c.zk.nodes ∨ _
    obtain ⟨rfl, -⟩ | ⟨_, _, _, _, _, rfl⟩ := ZkMetadataStore.electPrimary_cases helect
    · exact .inl rfl
    · exact .inl (ZkMetadataStore.nodes_updateShard _ _)
  | @allocate _ _ _ shard _ _ _ =>
    refine .inl ?_
    show (c.zk.nextShardLogIndex shard.shardId).1.nodes = c.zk.nodes
    unfold ZkMetadataStore.nextShardLogIndex
    split <;> rfl
  | @deliver _ fault output e _ _ =>
    exact (hexecute e.target.nodeId e.request fault output).imp_right .inl
  | @commit _ d _ _ _ _ =>
    refine .inl ?_
    show (c.zk.updateCommitIndex d.shardId d.shardLogIndex).nodes = c.zk.nodes
    obtain heq | ⟨_, _, _, heq⟩ := c.zk.updateCommitIndex_cases d.shardId d.shardLogIndex
    · rw [heq]
    · rw [heq, ZkMetadataStore.nodes_updateShard]
  | @query nodeId sql output fault _ _ _ heq =>
    rw [heq]
    exact (hexecute nodeId (readRequest sql) fault output).imp_right .inl
  | @rebalance replicationFactor =>
    exact .inl (ZkMetadataStore.nodes_rebalance c.zk c.zk.liveNodes replicationFactor)
  | @expire nodeId => exact .inr (.inr ⟨nodeId, rfl⟩)
  | publish _ _ => exact .inr (.inl ⟨_, rfl⟩)
  | register _ _ => exact .inr (.inl ⟨_, rfl⟩)
  | _ => exact .inl rfl

end Cluster

namespace ZkMetadataStore

variable {z z' : ZkMetadataStore}

/-- A node has one record at most. -/
def Named (z : ZkMetadataStore) : Prop := (z.nodes.map (·.nodeId)).Nodup

/-- Nodes that leave keep the names different. -/
theorem Named.filter (h : z.Named) (p : NodeInfo → Bool) :
    ((z.nodes.filter p).map (·.nodeId)).Nodup :=
  h.sublist (List.filter_sublist.map _)

/-- A node that registers replaces the one of its name. -/
theorem Named.registerNode (h : z.Named) (info : NodeInfo) : (z.registerNode info).Named := by
  show (info.nodeId :: (z.nodes.filter _).map (·.nodeId)).Nodup
  refine List.nodup_cons.mpr ⟨fun hmem => ?_, h.filter _⟩
  obtain ⟨m, hm, hid⟩ := List.mem_map.mp hmem
  simpa [hid] using (List.mem_filter.mp hm).2

/-- The live nodes have different names. -/
theorem Named.liveNodes (h : z.Named) : (z.liveNodes.map (·.nodeId)).Nodup := by
  have hperm : (z.liveNodes.map (·.nodeId)).Perm (z.nodes.map (·.nodeId)) :=
    (List.perm_insertionSort _ _).map _
  exact hperm.nodup_iff.mpr h

/-- Shard ids are not negative: -1 stands for all shards. -/
def ShardIdsNonneg (z : ZkMetadataStore) : Prop := ∀ m ∈ z.shardNodes, 0 ≤ m.shardId

/-- Shards are numbered from zero: an update. -/
theorem ShardIdsNonneg.updateShard (h : z.ShardIdsNonneg) {m : ShardMetadata} (hm : 0 ≤ m.shardId) :
    (z.updateShard m).ShardIdsNonneg := by
  intro x hx
  obtain rfl | ⟨hx, -⟩ := of_mem_updateShard hx
  · exact hm
  · exact h x hx

/-- Every step of the store. -/
theorem ShardIdsNonneg.zkStep (h : z.ShardIdsNonneg) (hstep : Cluster.ZkStep z z') :
    z'.ShardIdsNonneg := by
  cases hstep with
  | same heq =>
    intro m hm
    exact h m (heq ▸ hm)
  | elect helect =>
    obtain ⟨rfl, -⟩ | ⟨old, primary, hold, -, rfl, rfl⟩ := electPrimary_cases helect
    · exact h
    · exact h.updateShard (h old (List.mem_of_find?_eq_some hold))
  | commit shardId k =>
    obtain heq | ⟨old, hold, -, heq⟩ := z.updateCommitIndex_cases shardId k
    · rwa [heq]
    · rw [heq]
      exact h.updateShard (h old (List.mem_of_find?_eq_some hold))
  | rebalance liveNodes rf =>
    refine rebalance_induction z liveNodes rf h fun y old m hy hold hm => hy.updateShard ?_
    rw [hm.shardId]
    exact h old ((List.mem_insertionSort _).mp hold)

end ZkMetadataStore

/-- The nodes whose acknowledgement is counted. -/
def Dispatch.ackedBy (d : Dispatch) : List String := (d.responses.filter (·.ok)).map (·.nodeId)

/-- The counter of a dispatch is the number of its acknowledgements. -/
theorem Dispatch.length_ackedBy (d : Dispatch) : d.ackedBy.length = d.successCount := by
  rw [ackedBy, List.length_map, ← List.countP_eq_length_filter]
  rfl

/-- A broadcast goes to each of its members once, and nowhere else; `pending` is the node it waits
for. -/
def Dispatch.Addressed (d : Dispatch) (pending : List Target) : Prop :=
  d.shardId < 0 → d.members.Nodup ∧
    d.responses.map (·.nodeId) ++ (pending ++ d.todo).map (·.nodeId) = d.members

/-- The same of a call. A routed write has a shard. -/
def Call.Addressed : Call → Prop
  | .electing _ _ _ => True
  | .allocating shard _ _ => 0 ≤ shard.shardId
  | .sending d => d.Addressed []
  | .waiting d target => d.Addressed [target]
  | .replied d _ => d.Addressed []
  | .rejected _ => True

/-- The answer of the pending node is recorded. -/
theorem Dispatch.Addressed.record {d : Dispatch} {t : Target} (h : d.Addressed [t])
    {r : ExecuteResponse} (hr : r.nodeId = t.nodeId) : (d.record r).Addressed [] := by
  intro hs
  obtain ⟨hnodup, hmembers⟩ := h hs
  refine ⟨hnodup, ?_⟩
  show (d.responses ++ [r]).map (·.nodeId) ++ d.todo.map (·.nodeId) = d.members
  simpa [hr] using hmembers

namespace Cluster

variable {c c' : Cluster} {a : Action} {d : Dispatch}

/-- Every call is addressed, and ZooKeeper lists each node once. -/
structure AddressInv (c : Cluster) : Prop where
  shards : c.zk.ShardIdsNonneg
  nodes : c.zk.Named
  calls : ∀ k x, c.calls k = some x → x.Addressed

/-- A step keeps every call addressed to its shard: the steps of other calls leave it alone, its own
are looked at one by one. -/
theorem AddressInv.calls_step (h : c.AddressInv) (hcommit : c.CommitInv)
    (hstep : c.step a = some c') {k : Nat} {x : Call} (hx : c'.calls k = some x) :
    x.Addressed := by
  -- the call whose step it is, or another
  by_cases ha : a.call = some k
  · -- the call that acts
    have hset : ∀ {b : Cluster} {y : Call}, y.Addressed → (b.setCall k y).calls k = some x →
        x.Addressed := by
      intro b y hy heq
      have hself : (b.setCall k y).calls k = some y := Function.update_self _ _ _
      rw [hself] at heq
      cases heq
      exact hy
    cases stepCases_of_step hstep with
    | write _ _ =>
      cases ha
      refine hset ?_ hx
      trivial
    | @elect _ _ _ _ _ shard _ helect =>
      cases ha
      refine hset ?_ hx
      have hshard : 0 ≤ shard.shardId := by
        obtain ⟨-, hfound⟩ | ⟨old, primary, hfound, -, rfl, -⟩ :=
          ZkMetadataStore.electPrimary_cases helect
        · exact h.shards shard (List.mem_of_find?_eq_some hfound)
        · exact h.shards old (List.mem_of_find?_eq_some hfound)
      unfold Call.chooseReplicas
      dsimp only
      split
      · trivial
      · exact hshard
    | @allocate _ _ _ shard _ hcall _ =>
      cases ha
      refine hset ?_ hx
      have hold : 0 ≤ shard.shardId := h.calls _ _ hcall
      unfold Call.dispatch
      split
      · intro hs
        exact absurd hold (not_le_of_gt hs)
      · trivial
    | broadcastWrite _ _ _ =>
      cases ha
      refine hset ?_ hx
      unfold Call.broadcast
      split
      · trivial
      · intro _
        refine ⟨h.nodes.liveNodes, ?_⟩
        simp [Function.comp_def]
    | @send _ d target todo hcall htodo =>
      cases ha
      refine hset ?_ hx
      have hold : d.Addressed [] := h.calls _ _ hcall
      intro hs
      obtain ⟨hnodup, hmembers⟩ := hold hs
      refine ⟨hnodup, ?_⟩
      rw [htodo] at hmembers
      exact hmembers
    | @receive d r hcall hr =>
      cases ha
      refine hset ?_ hx
      have hold : d.Addressed [r.target] := h.calls _ _ hcall
      refine hold.record ?_
      split
      · next hok => exact (hcommit.replies r hr hok).1
      · rfl
    | @giveUp _ _ d target hcall =>
      cases ha
      refine hset ?_ hx
      have hold : d.Addressed [target] := h.calls _ _ hcall
      exact hold.record rfl
    | @commit _ d hcall _ _ _ =>
      cases ha
      have hd : d.Addressed [] := h.calls _ _ hcall
      have hold : (Call.replied d true).Addressed := hd
      exact hset hold hx
    | @finish _ d ok hcall _ _ _ =>
      cases ha
      have hd : d.Addressed [] := h.calls _ _ hcall
      have hold : (Call.replied d ok).Addressed := hd
      exact hset hold hx
    | _ => cases ha
  · rw [step_calls hstep ha] at hx
    exact h.calls k x hx

/-- So a step keeps the invariant. -/
theorem AddressInv.step (h : c.AddressInv) (hcommit : c.CommitInv) (hstep : c.step a = some c') :
    c'.AddressInv where
  shards := h.shards.zkStep (zkStep_of_step hstep)
  nodes := by
    unfold ZkMetadataStore.Named
    obtain heq | ⟨info, heq⟩ | ⟨nodeId, heq⟩ := step_nodes hstep
    · rw [heq]
      exact h.nodes
    · rw [heq]
      exact h.nodes.registerNode info
    · rw [heq]
      exact h.nodes.filter _
  calls := fun _ _ hx => h.calls_step hcommit hstep hx

/-- The new cluster. -/
theorem AddressInv.new (nodeIds : List String) (shardCount replicationFactor : Nat) :
    (new nodeIds shardCount replicationFactor).AddressInv where
  shards := by
    intro m hm
    obtain ⟨shardId, -, rfl⟩ := List.mem_map.mp hm
    exact Int.natCast_nonneg shardId
  nodes := List.nodup_nil
  calls := fun k x hx => nomatch hx

/-- The invariant in every reachable state. -/
theorem Reachable.addressInv (h : c.Reachable) : c.AddressInv := by
  have hboth := h.invariant (I := fun c => c.CommitInv ∧ c.AddressInv)
    (fun _ _ _ => ⟨CommitInv.new _ _ _, AddressInv.new _ _ _⟩)
    (fun c a c' hc hstep => ⟨hc.1.step hstep, hc.2.step hc.1 hstep⟩)
  exact hboth.2

/-- The state after a run from a reachable one. -/
theorem Reachable.steps {actions : List Action} (h : c.Reachable)
    (hrun : Steps (fun c a c' => c.step a = some c') c actions c') : c'.Reachable := by
  obtain ⟨nodeIds, shardCount, replicationFactor, before, hbefore⟩ := h
  exact ⟨nodeIds, shardCount, replicationFactor, before ++ actions, hbefore.append hrun⟩

/-- A schema change that succeeds is on a quorum of the live nodes. From the moment when a client
sends a `create` or a `drop`, over any run: if success is reported, the nodes whose acknowledgement
is counted are different nodes that were live at that moment, they are at least a majority of these,
and each of them has appended the statement. -/
theorem broadcastWrite_on_quorum {c₀ c₁ : Cluster} (hc : c₀.Reachable) {call : Nat}
    {rawSql requestId : String}
    (hbegin : c₀.step (.broadcastWrite call rawSql requestId) = some c₁) {actions : List Action}
    (hrun : Steps (fun c a c' => c.step a = some c') c₁ actions c)
    (hcall : c.calls call = some (.replied d true)) :
    d.ackedBy.Nodup ∧ (∀ i ∈ d.ackedBy, i ∈ c₀.zk.liveNodes.map (·.nodeId)) ∧
      c₀.zk.liveNodes.length / 2 + 1 ≤ d.ackedBy.length ∧
      ∀ i ∈ d.ackedBy, ∃ e ∈ (c.node i).walLog.history,
        e.requestId = some requestId ∧ e.sql = SqlUtils.normalize rawSql := by
  have hreach : c.Reachable := (hc.steps (.cons hbegin (.nil c₁))).steps hrun
  obtain ⟨hnone, _, hnew, _, rfl⟩ := broadcastWrite_eq hbegin
  have hcounts : ∀ {x : Call} {members : List String},
      Call.broadcast (SqlUtils.normalize rawSql) c₀.zk.liveNodes requestId = x →
      (x.members? = some members ∨ ∃ error, x = .rejected error) → d.members = members :=
    fun hx hmembers => CountsOver.members_eq
      ⟨_, Function.update_self .., hx.symm ▸ hmembers⟩ hrun hcall
  -- the write of the call and its members are fixed from the start
  have hlive : ¬ c₀.zk.liveNodes.isEmpty = true := by
    intro hlive
    have hrejected : Call.broadcast (SqlUtils.normalize rawSql) c₀.zk.liveNodes requestId =
        .rejected "No live nodes" := by rw [Call.broadcast, if_pos hlive]
    -- a rejected call has no members, so it would have all
    have hnil : d.members = [] := hcounts hrejected (Or.inr ⟨_, rfl⟩)
    have hcons : d.members = [""] := hcounts hrejected (Or.inr ⟨_, rfl⟩)
    rw [hnil] at hcons
    cases hcons
  have hmembers : d.members = c₀.zk.liveNodes.map (·.nodeId) := by
    refine hcounts (x := Call.broadcast (SqlUtils.normalize rawSql) c₀.zk.liveNodes requestId) rfl
      (Or.inl ?_)
    rw [Call.broadcast, if_neg hlive]
    rfl
  have hend : c.issuedBy call = some d.issued := by
    rw [issuedBy, hcall]
    rfl
  have hissued : d.issued = ⟨requestId, -1, 0, SqlUtils.normalize rawSql⟩ := by
    have hfirst : c.issuedBy call = some ⟨requestId, -1, 0, SqlUtils.normalize rawSql⟩ := by
      refine hrun.invariant (I := fun c => c.issuedBy call = some _)
        (fun _ _ _ h hstep => issuedBy_step hstep h) ?_
      rw [issuedBy_setCall, if_pos rfl, Call.broadcast, if_neg hlive]
      rfl
    exact Option.some.inj (hend.symm.trans hfirst)
  have hs : d.shardId < 0 := by
    rw [show d.shardId = -1 from congrArg Issued.shardId hissued]
    decide
  obtain ⟨hok, hquorum⟩ := hreach.commitInv.calls call _ hcall
  have haddressed : d.Addressed [] := hreach.addressInv.calls call _ hcall
  obtain ⟨hnodup, hnodes⟩ := haddressed hs
  have hresponses : (d.responses.map (·.nodeId)).Sublist d.members := by
    rw [← hnodes]
    exact List.sublist_append_left _ _
  have hacked : d.ackedBy.Sublist d.members :=
    (List.filter_sublist.map _).trans hresponses
  refine ⟨hnodup.sublist hacked, fun i hi => hmembers ▸ hacked.subset hi, ?_, ?_⟩
  · have hcount : quorumSize d.members.length ≤ d.successCount := by
      simpa [Dispatch.hasQuorum] using hquorum rfl
    rw [hmembers, List.length_map] at hcount
    rw [Dispatch.length_ackedBy]
    exact hcount
  · intro i hi
    obtain ⟨r, hr, rfl⟩ := List.mem_map.mp hi
    obtain ⟨hr, hrok⟩ := List.mem_filter.mp hr
    obtain ⟨e, he, hid⟩ := hok.acks r hr hrok
    -- the entry is the write of this call
    obtain ⟨w, ⟨k, hk⟩, hwid, _, _, hsql⟩ := hreach.logged r.nodeId e he
    have heq : w.requestId = d.issued.requestId := Option.some.inj (hwid.symm.trans hid)
    obtain rfl := hreach.sources.unique k call w d.issued hk hend heq
    rw [hend] at hk
    cases hk
    refine ⟨e, he, ?_, ?_⟩
    · rw [hwid, hissued]
    · rw [hsql, hissued, SqlUtils.normalize_normalize]

open DisMiniSql.Distributed.Action (startUp sendAndReceive sendAndLose) in
/-- A `create` that two of three nodes acknowledge. -/
theorem broadcastWrite_on_quorum_two_of_three :
    ∃ (c₀ c : Cluster) (d : Dispatch), c₀.Reachable ∧ c.calls 0 = some (.replied d true) ∧
      d.ackedBy.Nodup ∧ 3 / 2 + 1 ≤ d.ackedBy.length ∧
      ∀ i ∈ d.ackedBy, ∃ e ∈ (c.node i).walLog.history,
        e.requestId = some "a" ∧ e.sql = "create table t(a int);" := by
  have hrun : ((Cluster.new ["n1", "n2", "n3"] 1 3).run (startUp 0 "n1" 4 ++ startUp 1 "n2" 10 ++
      startUp 2 "n3" 16)).any (fun c₀ => decide (c₀.zk.liveNodes.length = 3) &&
        (c₀.step (.broadcastWrite 0 "create table t(a int)" "a")).any (fun c₁ =>
          (c₁.run (sendAndReceive 0 ++ sendAndLose 0 ++ sendAndReceive 0 ++ [.finish 0])).any
            (fun c => ((c.calls 0).bind Call.succeeded).isSome))) = true := by
    decide +kernel
  obtain ⟨c₀, hc, hP⟩ := exists_reachable_of_run hrun
  obtain ⟨hlive, hP⟩ := Bool.and_eq_true_iff.mp hP
  obtain ⟨c₁, hbegin, hP⟩ := (Option.any_eq_true _ _).mp hP
  obtain ⟨c, hc', hP⟩ := (Option.any_eq_true _ _).mp hP
  obtain ⟨d, hd⟩ := Option.isSome_iff_exists.mp hP
  obtain ⟨x, hx, hd⟩ := Option.bind_eq_some_iff.mp hd
  have hcall : c.calls 0 = some (.replied d true) := Call.eq_replied_of_succeeded hd ▸ hx
  obtain ⟨hnodup, _, hmajority, hlogged⟩ :=
    broadcastWrite_on_quorum hc hbegin (steps_of_run hc') hcall
  rw [of_decide_eq_true hlive] at hmajority
  have hsql : SqlUtils.normalize "create table t(a int)" = "create table t(a int);" := by
    decide +kernel
  exact ⟨c₀, c, d, hc, hcall, hnodup, hmajority, hsql ▸ hlogged⟩

end Cluster

end DisMiniSql.Distributed
