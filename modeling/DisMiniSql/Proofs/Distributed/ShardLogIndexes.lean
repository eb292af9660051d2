import DisMiniSql.Distributed.Zk.MetadataCalls

/-!
# `DisMiniSql.Proofs.Distributed.ShardLogIndexes`: the shard log indexes have no gaps

Any number of calls of `nextShardLogIndex` run at the same time, with the other methods that
write to ZooKeeper. A call reads the counter with its version and writes the next value with
that version, so a write that succeeds replaces the value that was read. The counter is the
number of these writes, and each call returns right after its own.

`shard_log_indexes_gapless` puts the calls in the order of their successful `setData`: they
return 1, 2, 3 and so on, and no other call has returned.
-/

set_option autoImplicit false

namespace DisMiniSql.Distributed

open DisMiniSql.Lib (Prog Contract Pool PoolAction)

/-- A counter begins with 0, and is set to the value after the one that was read, with its
version. -/
def counterContract : Contract MetadataOp (Lib.SumRes ZkOp.Res CounterOp.Res) CounterNote where
  pre := fun g o =>
    match o with
    | .inr (.create _ value) => value = 0
    | .inr (.setData shardId value version) =>
      ∃ n, g.read shardId = some n ∧ value = n.value + 1 ∧ version = n.version
    | _ => True
  may := fun _ _ _ => True

/-- A call has the right to its answer: it has written the index that it returns. -/
def MetadataAnswer.Earned (g : CounterNote) : MetadataAnswer → Prop
  | .index shardId next => 0 ≤ shardId → g.wrote shardId = some next
  | _ => True

namespace MetadataProg

variable {α : Type} {g : CounterNote}

/-- The program uses the counters as the contract says. -/
abbrev Counts (g : CounterNote) (p : MetadataProg α) (post : CounterNote → α → Prop) : Prop :=
  Prog.Safe metadataTree counterContract post g p

theorem counts_inl (p : ZkProg α) : Counts g p.inl (fun _ _ => True) :=
  Prog.Safe.of_only (P := fun o => o.isLeft = true) (fun _ o ho => by
    cases o with
    | inl o => trivial
    | inr o => cases ho) (Prog.only_inl (fun _ => rfl) p)

theorem counts_upsertPersistentIfAbsent (s : Int) :
    Counts g (CounterProg.upsertPersistentIfAbsent s 0).inr (fun _ _ => True) := by
  refine ⟨trivial, fun stat _ => ?_⟩
  cases stat with
  | none => exact ⟨rfl, fun _ _ => trivial⟩
  | some version => trivial

/-- A round of the loop ends with a write of the next value, or leads to another round. -/
theorem counts_allocate (s : Int) (attempts : Nat) :
    Counts g (CounterProg.allocate s attempts).inr (fun g' next => g'.wrote s = some next) := by
  induction attempts generalizing g with
  | zero => trivial
  | succ attempts ih =>
    -- after the counter was found missing
    have hcreate : ∀ g', Counts g' (CounterProg.upsertPersistentIfAbsent s 0 >>=
        fun _ => CounterProg.allocate s attempts).inr (fun g' next => g'.wrote s = some next) := by
      intro g'
      rw [Prog.inr_bind]
      exact Prog.Safe.bind ((counts_upsertPersistentIfAbsent s).mono fun _ _ _ => ih)
    refine ⟨trivial, fun current _ => ?_⟩
    cases current with
    | none => exact hcreate _
    | some stat =>
      refine ⟨⟨stat, Function.update_self _ _ _, rfl, rfl⟩, fun written _ => ?_⟩
      cases written with
      | ok => exact Function.update_self _ _ _
      | badVersion => exact ih
      | noNode => exact hcreate _

/-- Neither does the initialisation. -/
theorem counts_initializeEach (nodeIds : List String) (rf : Nat) (shardIds : List Nat) :
    Counts g (initializeEach nodeIds rf shardIds) (fun _ _ => True) := by
  induction shardIds generalizing g with
  | nil => trivial
  | cons shardId shardIds ih =>
    unfold initializeEach
    dsimp only
    split
    · trivial
    refine Prog.Safe.bind ((counts_inl _).mono fun _ _ _ => ?_)
    exact Prog.Safe.bind ((counts_upsertPersistentIfAbsent _).mono fun _ _ _ => ih)

end MetadataProg

/-- Every call uses the counters as the contract says, and has earned what it returns. -/
theorem MetadataCall.counts (call : MetadataCall) :
    MetadataProg.Counts {} call.program MetadataAnswer.Earned := by
  cases call with
  | initializeShards nodeIds shardCount rf =>
    refine Prog.Safe.bind ?_
    unfold MetadataProg.initializeShards
    dsimp only
    split
    · trivial
    · exact (MetadataProg.counts_initializeEach _ rf _).mono fun _ _ _ => trivial
  | nextShardLogIndex shardId attempts =>
    refine Prog.Safe.bind ?_
    unfold CounterProg.nextShardLogIndex
    split
    · rename_i hneg
      exact fun h => absurd h (Int.not_le.mpr hneg)
    · exact (MetadataProg.counts_allocate shardId attempts).mono fun _ _ hwrote _ => hwrote
  | store call => exact Prog.Safe.bind ((MetadataProg.counts_inl _).mono fun _ _ _ => trivial)

/-- What a call does after a successful `setData`: it returns the value that it has set. -/
def PromptAt : (o : MetadataOp) →
    (Lib.SumRes ZkOp.Res CounterOp.Res o → MetadataProg MetadataAnswer) → Prop
  | .inr (.setData shardId value _), next => next .ok = .pure (.index shardId value)
  | _, _ => True

/-- Every successful `setData` of the program is its last operation. -/
def MetadataProg.Prompt : MetadataProg MetadataAnswer → Prop
  | .pure _ => True
  | .throw => True
  | .call o next => PromptAt o next ∧ ∀ r, Prompt (next r)

namespace MetadataProg

/-- The operation does not set a counter. -/
def NotSet (o : MetadataOp) : Prop := ∀ s value version, o ≠ .inr (.setData s value version)

/-- An operation that sets no counter may be followed by anything. -/
theorem promptAt_of_notSet {o : MetadataOp} (ho : NotSet o)
    (next : Lib.SumRes ZkOp.Res CounterOp.Res o → MetadataProg MetadataAnswer) :
    PromptAt o next := by
  cases o with
  | inl o => trivial
  | inr o =>
    cases o with
    | getData s => trivial
    | existsNode s => trivial
    | create s value => trivial
    | setData s value version => exact absurd rfl (ho s value version)

/-- A program that sets no counter may come before. -/
theorem Prompt.bind {α : Type} {p : MetadataProg α} (h : p.Only NotSet)
    {f : α → MetadataProg MetadataAnswer} (hf : ∀ a, (f a).Prompt) : (p >>= f).Prompt := by
  show Prompt (p.bind f)
  induction p with
  | pure a => exact hf a
  | throw => trivial
  | call o k ih => exact ⟨promptAt_of_notSet h.1 _, fun r => ih r (h.2 r)⟩

theorem notSet_inl {α : Type} (p : ZkProg α) :
    (p.inl : MetadataProg α).Only NotSet :=
  Prog.only_inl (fun _ _ _ _ => Sum.inl_ne_inr) p

theorem notSet_upsertPersistentIfAbsent (s : Int) :
    ((CounterProg.upsertPersistentIfAbsent s 0).inr : MetadataProg Unit).Only NotSet := by
  refine ⟨fun _ _ _ h => (by cases h), fun stat => ?_⟩
  cases stat with
  | none => exact ⟨fun _ _ _ h => (by cases h), fun _ => trivial⟩
  | some version => trivial

/-- Neither does the initialisation. -/
theorem notSet_initializeEach (nodeIds : List String) (rf : Nat) (shardIds : List Nat) :
    (initializeEach nodeIds rf shardIds).Only NotSet := by
  induction shardIds with
  | nil => trivial
  | cons shardId shardIds ih =>
    unfold initializeEach
    dsimp only
    split
    · trivial
    refine (notSet_inl _).bind fun _ => ?_
    exact (notSet_upsertPersistentIfAbsent _).bind fun _ => ih

/-- After its successful `setData` an allocation answers at once; by induction on the attempts left.
-/
theorem prompt_allocate (s : Int) (attempts : Nat) :
    Prompt ((CounterProg.allocate s attempts).inr >>= fun next => .pure (.index s next)) := by
  induction attempts with
  | zero => trivial
  | succ attempts ih =>
    -- after the counter was found missing
    have hcreate : Prompt ((CounterProg.upsertPersistentIfAbsent s 0 >>=
        fun _ => CounterProg.allocate s attempts).inr >>=
          fun next => .pure (.index s next)) := by
      refine ⟨trivial, fun stat => ?_⟩
      cases stat with
      | none => exact ⟨trivial, fun _ => ih⟩
      | some version => exact ih
    refine ⟨trivial, fun current => ?_⟩
    cases current with
    | none => exact hcreate
    | some stat =>
      refine ⟨rfl, fun written => ?_⟩
      cases written with
      | ok => trivial
      | badVersion => exact ih
      | noNode => exact hcreate

end MetadataProg

/-- Every call is of this kind. -/
theorem MetadataCall.prompt (call : MetadataCall) : call.program.Prompt := by
  cases call with
  | initializeShards nodeIds shardCount rf =>
    refine MetadataProg.Prompt.bind ?_ fun _ => trivial
    unfold MetadataProg.initializeShards
    dsimp only
    split
    · trivial
    · exact MetadataProg.notSet_initializeEach _ rf _
  | nextShardLogIndex shardId attempts =>
    show MetadataProg.Prompt ((CounterProg.nextShardLogIndex shardId attempts).inr >>=
      fun next => .pure (.index shardId next))
    unfold CounterProg.nextShardLogIndex
    split
    · trivial
    · exact MetadataProg.prompt_allocate shardId attempts
  | store call => exact MetadataProg.Prompt.bind (MetadataProg.notSet_inl _) fun _ => trivial

/-- A counter that was read is the current one, as long as its version is. -/
def MetadataTree.Noted (tree : MetadataTree) (g : CounterNote) : Prop :=
  ∀ s n, g.read s = some n → ∃ cur, tree.counters s = some cur ∧ n.version ≤ cur.version ∧
    (cur.version = n.version → cur = n)

/-- An operation leaves a counter as it is, creates it, or sets it with its version. -/
theorem MetadataTree.counters_sem (tree : MetadataTree) (o : MetadataOp) (s : Int) :
    (metadataTree.sem tree o).2.counters s = tree.counters s ∨
      (∃ value, o = .inr (.create s value) ∧ tree.counters s = none ∧
        (metadataTree.sem tree o).2.counters s = some { value := value }) ∨
      ∃ value cur, o = .inr (.setData s value cur.version) ∧ tree.counters s = some cur ∧
        (metadataTree.sem tree o).2.counters s =
          some { value := value, version := cur.version + 1 } := by
  cases o with
  | inl o => exact Or.inl rfl
  | inr o =>
    show (tree.counters.sem o).2 s = _ ∨ (∃ value, _ ∧ _ ∧ (tree.counters.sem o).2 s = _) ∨
      ∃ value cur, _ ∧ _ ∧ (tree.counters.sem o).2 s = _
    cases o with
    | getData t => exact Or.inl rfl
    | existsNode t => exact Or.inl rfl
    | create t value =>
      cases ht : tree.counters t with
      | some n => exact Or.inl (by simp [Counters.sem, ht])
      | none =>
        by_cases hst : s = t
        · subst hst
          exact Or.inr (Or.inl ⟨value, rfl, ht, by simp [Counters.sem, ht]⟩)
        · exact Or.inl (by simp [Counters.sem, ht, Function.update_of_ne hst])
    | setData t value version =>
      cases ht : tree.counters t with
      | none => exact Or.inl (by simp [Counters.sem, ht])
      | some n =>
        by_cases hv : n.version = version
        · by_cases hst : s = t
          · subst hst
            subst hv
            exact Or.inr (Or.inr ⟨value, n, rfl, ht, by simp [Counters.sem, ht]⟩)
          · exact Or.inl (by simp [Counters.sem, ht, hv, Function.update_of_ne hst])
        · exact Or.inl (by simp [Counters.sem, ht, hv])

/-- Notes stay true: a version never comes again. -/
theorem MetadataTree.Noted.sem {tree : MetadataTree} {g : CounterNote} (h : tree.Noted g)
    (o : MetadataOp) : (metadataTree.sem tree o).2.Noted g := by
  intro s n hn
  obtain ⟨cur, hcur, hle, hsame⟩ := h s n hn
  obtain heq | ⟨value, _, hnone, _⟩ | ⟨value, cur', _, hcur', hset⟩ := tree.counters_sem o s
  · exact ⟨cur, heq.trans hcur, hle, hsame⟩
  · rw [hnone] at hcur
    cases hcur
  · have hcc : cur' = cur := Option.some.inj (hcur'.symm.trans hcur)
    subst hcc
    refine ⟨_, hset, Nat.le_succ_of_le hle, fun hv => ?_⟩
    exact absurd hv (Nat.ne_of_gt (Nat.lt_succ_of_le hle))

/-- A counter changes only by a `setData` with the version that was read, so each note about it
stays right. -/
theorem MetadataTree.sound_counters :
    Pool.Sound metadataTree counterContract (fun _ _ _ => True) (fun _ => True)
      MetadataTree.Noted where
  step := by
    intro tree g o _ hg _ _
    refine ⟨trivial, ?_, trivial⟩
    have hg' := hg.sem o
    cases o with
    | inl o => exact hg'
    | inr o =>
      cases o with
      | existsNode t => exact hg'
      | create t value => exact hg'
      | setData t value version =>
        -- the note of a write leaves what was read
        cases hr : (metadataTree.sem tree (.inr (.setData t value version))).1 with
        | ok => exact hg'
        | badVersion => exact hg'
        | noNode => exact hg'
      | getData t =>
        intro s n hn
        have hn : Function.update g.read t (tree.counters t) s = some n := hn
        -- the counter that is set, or another
        by_cases hst : s = t
        · subst hst
          rw [Function.update_self] at hn
          exact ⟨n, hn, Nat.le_refl _, fun _ => rfl⟩
        · rw [Function.update_of_ne hst] at hn
          exact hg s n hn
  stable := fun _ _ _ _ hg' => hg'.sem _

namespace MetadataPool

variable {s : Int} {c : MetadataPool}

/-- What a call has returned. -/
def answer (c : MetadataPool) (k : Nat) : Option MetadataAnswer :=
  c.calls[k]?.bind (fun x => x.prog.result)

/-- The call that sets the counter of the shard in this step. -/
def setter (s : Int) (c : MetadataPool) : PoolAction MetadataCall → Option Nat
  | .start _ => none
  | .op k =>
    match c.calls[k]? with
    | some ⟨_, .call (.inr (.setData shardId value version)) _⟩ =>
      if shardId = s ∧ (c.shared.counters.sem (.setData shardId value version)).1 = .ok then some k
      else none
    | _ => none

/-- The calls that set the counter of the shard in a run, in this order. -/
def setters (s : Int) : MetadataPool → List (PoolAction MetadataCall) → List Nat
  | _, [] => []
  | c, a :: actions => (c.setter s a).toList ++ setters s (c.step a) actions

/-- The calls `order` have set the counter: they have returned 1, 2, 3 and so on, no other call
has returned an index of the shard, and no two calls have returned the same one. -/
structure Gapless (s : Int) (c : MetadataPool) (order : List Nat) : Prop where
  returned : order.map c.answer =
    (List.range order.length).map (fun i => some (.index s (i + 1)))
  complete : ∀ k v, c.answer k = some (.index s v) → k ∈ order
  distinct : ∀ j k v, c.answer j = some (.index s v) → c.answer k = some (.index s v) → j = k

/-- The same with the reason: the counter has gone up once for each of them. -/
structure Counted (s : Int) (c : MetadataPool) (order : List Nat) : Prop where
  counter : ((c.shared.counters s).map (·.value)).getD 0 = order.length
  returned : order.map c.answer =
    (List.range order.length).map (fun i => some (.index s (i + 1)))
  wrote : ∀ (k : Nat) x, c.calls[k]? = some x → x.ghost.wrote s ≠ none → k ∈ order

/-- A call that is in the list has returned. -/
theorem Counted.answer_ne_none {order : List Nat} (h : Counted s c order) {k : Nat}
    (hk : k ∈ order) : c.answer k ≠ none := by
  have hmem := List.mem_map_of_mem (f := c.answer) hk
  rw [h.returned] at hmem
  obtain ⟨i, _, hi⟩ := List.mem_map.mp hmem
  rw [← hi]
  exact Option.some_ne_none _

/-- A step that leaves the counter and the answers of these calls. -/
theorem Counted.of_same {order : List Nat} (h : Counted s c order) {c' : MetadataPool}
    (hcounter : ((c'.shared.counters s).map (·.value)).getD 0 =
      ((c.shared.counters s).map (·.value)).getD 0)
    (hanswer : ∀ k, c.answer k ≠ none → c'.answer k = c.answer k)
    (hwrote : ∀ (k : Nat) x, c'.calls[k]? = some x → x.ghost.wrote s ≠ none →
      ∃ y, c.calls[k]? = some y ∧ y.ghost.wrote s ≠ none) : Counted s c' order where
  counter := hcounter.trans h.counter
  returned := by
    rw [← h.returned]
    exact List.map_congr_left fun k hk => hanswer k (h.answer_ne_none hk)
  wrote := by
    intro k x hx hne
    obtain ⟨y, hy, hyne⟩ := hwrote k x hx hne
    exact h.wrote k y hy hyne

/-- A new call has been counted nowhere. -/
theorem Counted.start {order : List Nat} (h : Counted s c order) (call : MetadataCall) :
    Counted s (c.step (.start call)) order := by
  refine h.of_same rfl (fun k hk => ?_) fun k x hx hne => ?_
  · have hlt : k < c.calls.length := by
      by_contra hge
      refine hk ?_
      unfold answer
      rw [List.getElem?_eq_none (Nat.le_of_not_lt hge)]
      rfl
    show ((c.calls ++ [_])[k]?.bind _) = _
    rw [List.getElem?_append_left hlt]
    rfl
  · have hx : (c.calls ++ [⟨{}, call.program⟩])[k]? = some x := hx
    by_cases hlt : k < c.calls.length
    · rw [List.getElem?_append_left hlt] at hx
      exact ⟨x, hx, hne⟩
    · rw [List.getElem?_append_right (Nat.le_of_not_lt hlt)] at hx
      have hmem := List.mem_of_getElem? hx
      rw [List.mem_singleton.mp hmem] at hne
      exact absurd rfl hne

/-- The operation sets the counter of the shard. -/
def Sets (s : Int) (tree : MetadataTree) (o : MetadataOp) : Prop :=
  ∃ value cur, o = .inr (.setData s value cur.version) ∧ tree.counters s = some cur

/-- `setData` succeeds exactly with the current version. -/
theorem setData_eq_ok {counters : Counters} {t : Int} {value version : Nat} :
    (counters.sem (.setData t value version)).1 = .ok ↔
      ∃ cur, counters t = some cur ∧ version = cur.version := by
  cases ht : counters t with
  | none => simp [Counters.sem, ht]
  | some n =>
    by_cases hv : n.version = version
    · simp [Counters.sem, ht, hv]
    · simp [Counters.sem, ht, hv, Ne.symm hv]

section Op

variable {k : Nat} {g : CounterNote} {o : MetadataOp}
  {next : Lib.SumRes ZkOp.Res CounterOp.Res o → MetadataProg MetadataAnswer}

theorem step_op (hk : c.calls[k]? = some ⟨g, .call o next⟩) :
    c.step (.op k) =
      { shared := (metadataTree.sem c.shared o).2
        calls := c.calls.set k ⟨metadataTree.note g o (metadataTree.sem c.shared o).1,
          next (metadataTree.sem c.shared o).1⟩ } := by
  unfold MetadataPool.step Pool.step
  dsimp only
  rw [hk]

theorem setter_of_sets (hk : c.calls[k]? = some ⟨g, .call o next⟩) (hset : Sets s c.shared o) :
    c.setter s (.op k) = some k := by
  obtain ⟨value, cur, rfl, hcur⟩ := hset
  unfold setter
  dsimp only
  rw [hk]
  exact if_pos ⟨rfl, setData_eq_ok.mpr ⟨cur, hcur, rfl⟩⟩

/-- Another operation names none. -/
theorem setter_of_not_sets (hk : c.calls[k]? = some ⟨g, .call o next⟩)
    (hset : ¬ Sets s c.shared o) : c.setter s (.op k) = none := by
  unfold setter
  dsimp only
  rw [hk]
  split
  · rename_i heq
    cases heq
    refine if_neg fun hok => hset ?_
    obtain ⟨rfl, hok⟩ := hok
    obtain ⟨cur, hcur, rfl⟩ := setData_eq_ok.mp hok
    exact ⟨_, cur, rfl, hcur⟩
  · rfl

/-- Only a call that sets the counter notes it. -/
theorem wrote_note_of_not_sets (hset : ¬ Sets s c.shared o) :
    (metadataTree.note g o (metadataTree.sem c.shared o).1).wrote s = g.wrote s := by
  cases o with
  | inl o => rfl
  | inr o =>
    cases o with
    | getData t => rfl
    | existsNode t => rfl
    | create t value => rfl
    | setData t value version =>
      show (metadataTree.note g (.inr (.setData t value version))
        (c.shared.counters.sem (.setData t value version)).1).wrote s = g.wrote s
      cases hr : (c.shared.counters.sem (.setData t value version)).1 with
      | badVersion => rfl
      | noNode => rfl
      | ok =>
        obtain ⟨cur, hcur, rfl⟩ := setData_eq_ok.mp hr
        refine Function.update_of_ne ?_ _ _
        rintro rfl
        exact hset ⟨value, cur, rfl, hcur⟩

theorem answer_eq_none (hk : c.calls[k]? = some ⟨g, .call o next⟩) : c.answer k = none := by
  unfold answer
  rw [hk]
  rfl

/-- The answers of the other calls do not change. -/
theorem answer_step_op (hk : c.calls[k]? = some ⟨g, .call o next⟩) {j : Nat} (hjk : j ≠ k) :
    (c.step (.op k)).answer j = c.answer j := by
  unfold answer
  rw [step_op hk, List.getElem?_set_ne (Ne.symm hjk)]

/-- Another operation than the `setData` that succeeds. -/
theorem Counted.op_of_not_sets {order : List Nat} (h : Counted s c order)
    (hpre : counterContract.pre g o) (hk : c.calls[k]? = some ⟨g, .call o next⟩)
    (hset : ¬ Sets s c.shared o) : Counted s (c.step (.op k)) order := by
  refine h.of_same ?_ (fun j hj => ?_) fun j x hx hne => ?_
  · rw [step_op hk]
    obtain heq | ⟨value, rfl, hnone, hnew⟩ | ⟨value, cur, ho, hcur, _⟩ :=
      c.shared.counters_sem o s
    · rw [heq]
    · -- a counter is created as 0
      have hvalue : value = 0 := hpre
      rw [hnew, hnone, hvalue]
      rfl
    · exact absurd ⟨value, cur, ho, hcur⟩ hset
  · refine answer_step_op hk ?_
    rintro rfl
    exact hj (answer_eq_none hk)
  · rw [step_op hk] at hx
    by_cases hjk : j = k
    · subst hjk
      rw [List.getElem?_set_self (List.getElem?_eq_some_iff.mp hk).1] at hx
      cases hx
      rw [wrote_note_of_not_sets hset] at hne
      exact ⟨_, hk, hne⟩
    · rw [List.getElem?_set_ne (Ne.symm hjk)] at hx
      exact ⟨x, hx, hne⟩

/-- The `setData` that succeeds: the call has read the current counter, and returns the next
value. -/
theorem Counted.op_of_sets {order : List Nat} (h : Counted s c order)
    (hpre : counterContract.pre g o) (hnoted : c.shared.Noted g) (hprompt : PromptAt o next)
    (hk : c.calls[k]? = some ⟨g, .call o next⟩) (hset : Sets s c.shared o) :
    Counted s (c.step (.op k)) (order ++ [k]) := by
  obtain ⟨value, cur, rfl, hcur⟩ := hset
  have hsem : c.shared.counters.sem (.setData s value cur.version) =
      (.ok, Function.update c.shared.counters s
        (some { value := value, version := cur.version + 1 })) := by
    simp [Counters.sem, hcur]
  have hvalue : value = order.length + 1 := by
    obtain ⟨n, hn, rfl, hversion⟩ := hpre
    obtain ⟨cur', hcur', _, hsame⟩ := hnoted s n hn
    have hcc : cur' = cur := Option.some.inj (hcur'.symm.trans hcur)
    subst hcc
    have hcount := h.counter
    rw [hcur, hsame hversion] at hcount
    exact congrArg (· + 1) hcount
  have hnext : next (metadataTree.sem c.shared (.inr (.setData s value cur.version))).1 =
      .pure (.index s value) := by
    show next (c.shared.counters.sem (.setData s value cur.version)).1 = _
    rw [hsem]
    exact hprompt
  have hanswer : (c.step (.op k)).answer k = some (.index s value) := by
    unfold answer
    rw [step_op hk, List.getElem?_set_self (List.getElem?_eq_some_iff.mp hk).1, hnext]
    rfl
  refine ⟨?_, ?_, fun j x hx hne => ?_⟩
  · rw [step_op hk]
    show (((c.shared.counters.sem (.setData s value cur.version)).2 s).map (·.value)).getD 0 = _
    rw [hsem]
    dsimp only
    rw [Function.update_self, List.length_append, hvalue]
    rfl
  · rw [List.length_append, List.length_singleton, List.range_succ, List.map_append,
      List.map_append, ← h.returned]
    refine congrArg₂ (· ++ ·) (List.map_congr_left fun j hj => answer_step_op hk ?_) ?_
    · rintro rfl
      exact h.answer_ne_none hj (answer_eq_none hk)
    · rw [List.map_singleton, List.map_singleton, hanswer, hvalue]
  · by_cases hjk : j = k
    · subst hjk
      exact List.mem_append_right _ (List.mem_singleton.mpr rfl)
    · rw [step_op hk, List.getElem?_set_ne (Ne.symm hjk)] at hx
      exact List.mem_append_left _ (h.wrote j x hx hne)

end Op

/-- The calls use the counters as the contract says, and return right after their write. -/
structure Orderly (c : MetadataPool) : Prop where
  ok : c.Ok metadataTree counterContract (fun _ => True) MetadataTree.Noted MetadataAnswer.Earned
  prompt : ∀ x ∈ c.calls, MetadataProg.Prompt x.prog

/-- Each action keeps the pool orderly. -/
theorem Orderly.step (h : c.Orderly) (a : PoolAction MetadataCall) : (c.step a).Orderly where
  ok := by
    refine h.ok.step MetadataTree.sound_counters ?_ (fun call _ => call.counts) ?_
    · exact fun _ _ _ _ hread => by cases hread
    · cases a with
      | start call => trivial
      | op k => exact fun _ _ _ _ => trivial
  prompt := by
    cases a with
    | start call =>
      intro x hx
      obtain hx | hx := List.mem_append.mp hx
      · exact h.prompt x hx
      · rw [List.mem_singleton.mp hx]
        exact call.prompt
    | op k =>
      unfold MetadataPool.step Pool.step
      dsimp only
      split
      · rename_i g o next hk
        intro x hx
        obtain hx | rfl := List.mem_or_eq_of_mem_set hx
        · exact h.prompt x hx
        · exact (h.prompt _ (List.mem_of_getElem? hk)).2 _
      · exact h.prompt

/-- Each action keeps the count: a successful `setData` is the next number, and its call answers
with it. -/
theorem Counted.step {order : List Nat} (h : Counted s c order) (hc : c.Orderly)
    (a : PoolAction MetadataCall) : Counted s (c.step a) (order ++ (c.setter s a).toList) := by
  cases a with
  | start call =>
    rw [show c.setter s (.start call) = none from rfl, Option.toList_none, List.append_nil]
    exact h.start call
  | op k =>
    by_cases hcall : ∃ g o next, c.calls[k]? = some ⟨g, .call o next⟩
    · obtain ⟨g, o, next, hk⟩ := hcall
      have hmem := List.mem_of_getElem? hk
      have hpre : counterContract.pre g o := (hc.ok.safe _ hmem).1
      -- only this operation moves the counter
      by_cases hset : Sets s c.shared o
      · rw [setter_of_sets hk hset]
        exact h.op_of_sets hpre (hc.ok.noted _ hmem) (hc.prompt _ hmem).1 hk hset
      · rw [setter_of_not_sets hk hset, Option.toList_none, List.append_nil]
        exact h.op_of_not_sets hpre hk hset
    · -- the call has ended, or was never started
      have hstep : c.step (.op k) = c := by
        unfold MetadataPool.step Pool.step
        dsimp only
        split
        · rename_i g o next hk
          exact absurd ⟨g, o, next, hk⟩ hcall
        · rfl
      have hsetter : c.setter s (.op k) = none := by
        unfold setter
        dsimp only
        split
        · rename_i hk
          exact absurd ⟨_, _, _, hk⟩ hcall
        · rfl
      rw [hstep, hsetter, Option.toList_none, List.append_nil]
      exact h

/-- So does every list of actions. -/
theorem Counted.run {order : List Nat} (h : Counted s c order) (hc : c.Orderly)
    (actions : List (PoolAction MetadataCall)) :
    Counted s (actions.foldl MetadataPool.step c) (order ++ setters s c actions) ∧
      (actions.foldl MetadataPool.step c).Orderly := by
  induction actions generalizing c order with
  | nil =>
    rw [setters, List.append_nil]
    exact ⟨h, hc⟩
  | cons a actions ih =>
    rw [setters, ← List.append_assoc]
    exact ih (h.step hc a) (hc.step a)

/-- What the call at a place of the list has returned. -/
theorem Counted.answer_getElem {order : List Nat} (h : Counted s c order) {i : Nat}
    (hi : i < order.length) : c.answer order[i] = some (.index s (i + 1)) := by
  have hget : (order.map c.answer)[i]? =
      ((List.range order.length).map (fun i => some (MetadataAnswer.index s (i + 1))))[i]? := by
    rw [h.returned]
  rw [List.getElem?_map, List.getElem?_map, List.getElem?_eq_getElem hi,
    List.getElem?_range hi] at hget
  exact Option.some.inj hget

/-- For every order of the operations of any number of calls, from a missing or a zero counter:
the calls that have set the counter of a shard, in the order of their successful `setData`, have
returned 1, 2, 3 and so on, and no other call has returned an index of the shard. -/
theorem shard_log_indexes_gapless (tree : MetadataTree) (shardId : Nat)
    (hzero : ∀ n, tree.counters shardId = some n → n.value = 0)
    (actions : List (PoolAction MetadataCall)) :
    Gapless shardId (actions.foldl step { shared := tree })
      (setters shardId { shared := tree } actions) := by
  have hinit : Counted shardId { shared := tree } [] := by
    refine ⟨?_, rfl, fun k x hx => ?_⟩
    · show ((tree.counters shardId).map (·.value)).getD 0 = 0
      cases hs : tree.counters shardId with
      | none => rfl
      | some n => exact hzero n hs
    · cases hx
  have horderly : Orderly { shared := tree } := by
    refine ⟨⟨trivial, fun x hx => ?_, fun x hx => ?_⟩, fun x hx => ?_⟩
    · cases hx
    · cases hx
    · cases hx
  obtain ⟨hcounted, hend⟩ := hinit.run horderly actions
  rw [List.nil_append] at hcounted
  generalize setters shardId { shared := tree } actions = order at hcounted
  generalize actions.foldl MetadataPool.step { shared := tree } = c at hcounted hend
  -- an index that was returned was written
  have hcomplete : ∀ k v, c.answer k = some (.index shardId v) → k ∈ order := by
    intro k v hk
    obtain ⟨x, hx, hresult⟩ := Option.bind_eq_some_iff.mp hk
    have hsafe := hend.ok.safe x (List.mem_of_getElem? hx)
    rw [Prog.result_eq_some hresult] at hsafe
    have hwrote : x.ghost.wrote shardId = some v := hsafe (Int.natCast_nonneg shardId)
    refine hcounted.wrote k x hx ?_
    rw [hwrote]
    exact Option.some_ne_none v
  refine ⟨hcounted.returned, hcomplete, fun j k v hj hk => ?_⟩
  obtain ⟨a, ha, rfl⟩ := List.getElem_of_mem (hcomplete j v hj)
  obtain ⟨b, hb, rfl⟩ := List.getElem_of_mem (hcomplete k v hk)
  have hab := (hcounted.answer_getElem ha).symm.trans (hj.trans (hk.symm.trans
    (hcounted.answer_getElem hb)))
  simp only [Option.some.injEq, MetadataAnswer.index.injEq, Nat.add_right_cancel_iff,
    true_and] at hab
  subst hab
  rfl

/-- Two calls and an initialisation at the same time, with the counter missing. The first call
creates it, and the second one is the first to set it. -/
def twoAllocations : List (PoolAction MetadataCall) :=
  [.start (.nextShardLogIndex 0 3), .start (.nextShardLogIndex 0 3),
    .start (.initializeShards ["n1"] 1 1), .op 0, .op 1, .op 2, .op 2, .op 2, .op 0, .op 0, .op 2,
    .op 1, .op 0, .op 1, .op 1, .op 0, .op 0, .op 0]

theorem shard_log_indexes_gapless_two_allocations :
    setters 0 { shared := {} } twoAllocations = [1, 0] ∧
      Gapless 0 (twoAllocations.foldl step { shared := {} })
        (setters 0 { shared := {} } twoAllocations) :=
  ⟨by decide +kernel, shard_log_indexes_gapless {} 0 (fun _ h => by cases h) twoAllocations⟩

end MetadataPool

end DisMiniSql.Distributed
