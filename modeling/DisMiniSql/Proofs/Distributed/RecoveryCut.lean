import Mathlib.Data.List.Infix
import DisMiniSql.Distributed.DataNode.Handlers
import DisMiniSql.Proofs.Distributed.SnapshotList

/-!
# `DisMiniSql.Proofs.Distributed.RecoveryCut`: what `/recovery-state` returns

`recoveryState` reads the manifest, the snapshot file and the log without the lock of
`execute`. `recoveryState_cut` shows that the list a fresh node rebuilds from the three is the
replay list of the node at some moment of the call, if no snapshot both writes `snapshot.sql`
and truncates the log between the last two reads. With such a snapshot the statements that it
moves are in neither answer (`recoveryState_misses_statements`).

Between the write of `snapshot.sql` and the assignment of the manifest the list of the node
itself has the moved statements twice. The theorem also says when the moment is not one of
these.
-/

set_option autoImplicit false

namespace DisMiniSql.Distributed

namespace Serving

open SnapshotManager (readBack)

variable {s s' : Serving} {a : ServeAction}

/-- The phases in which the snapshot file, the manifest and the log fit together. -/
def quiet : ExecutePhase → Bool
  | .idle | .logged _ | .snapshotting _ => true
  | .sqlWritten _ | .manifestAssigned _ => false

/-- What a step does. -/
inductive StepCases (s : Serving) : ServeAction → Serving → Prop
  | log {shardTerm : Int → Option Nat} {request : ExecuteRequest} {n : DataNode}
      {phase : ExecutePhase} : s.phase = .idle →
      (n = s.node ∨ ∃ e, s.node.walLog.Appends e ∧ n = s.node.logs e) →
      (phase = .idle ∨ ∃ written, phase = .logged written) →
      StepCases s (.log shardTerm request) ⟨n, phase⟩
  | applied {written : Option WalEntry} {phase : ExecutePhase} : s.phase = .logged written →
      (phase = .idle ∨ phase = .snapshotting s.node.walLog.lastSequence) →
      StepCases s .applied ⟨s.node.markApplied written, phase⟩
  | fail {written : Option WalEntry} : s.phase = .logged written →
      StepCases s .fail ⟨s.node, .idle⟩
  | writeSql {k : Nat} : s.phase = .snapshotting k →
      StepCases s .writeSql
        ⟨s.node.snapshotUpTo (s.node.appliedSql .auto) .snapshotSql, .sqlWritten k⟩
  | assign {k : Nat} : s.phase = .sqlWritten k →
      StepCases s .assign
        ⟨{ s.node with snapshotManager :=
            { s.node.snapshotManager with manifestFile :=
                { lastWalSequence := k, lastCompactedWalSequence := k } } }, .manifestAssigned k⟩
  | compact {k : Nat} : s.phase = .manifestAssigned k →
      StepCases s .compact ⟨{ s.node with walLog := s.node.walLog.compactThrough k }, .idle⟩

/-- What a step of a serving node can do, said once for the invariants below. -/
theorem stepCases_of_step (h : s.step a = some s') : StepCases s a s' := by
  unfold step at h
  cases a with
  | log shardTerm request =>
    dsimp only at h
    split at h
    · rename_i hidle
      -- logging does nothing, or appends one entry
      have hcases : (s.node.logRequest shardTerm request).1 = s.node ∨
          ∃ e, s.node.walLog.Appends e ∧
            (s.node.logRequest shardTerm request).1 = s.node.logs e := by
        obtain heq | ⟨e, he, heq⟩ := s.node.logRequest_cases shardTerm request
        · exact Or.inl heq
        · exact Or.inr ⟨e, he.1, heq⟩
      split at h
      · cases h
        exact .log hidle hcases (Or.inr ⟨_, rfl⟩)
      · cases h
        exact .log hidle hcases (Or.inl hidle)
    · cases h
  | applied =>
    dsimp only at h
    split at h
    · rename_i written hphase
      cases h
      refine .applied hphase ?_
      split
      · right
        cases written with
        | none => rfl
        | some e => rfl
      · exact Or.inl rfl
    · cases h
  | fail =>
    dsimp only at h
    split at h
    · rename_i written hphase
      cases h
      exact .fail hphase
    · cases h
  | writeSql =>
    dsimp only at h
    split at h
    · rename_i k hphase
      cases h
      exact .writeSql hphase
    · cases h
  | assign =>
    dsimp only at h
    split at h
    · rename_i k hphase
      cases h
      exact .assign hphase
    · cases h
  | compact =>
    dsimp only at h
    split at h
    · rename_i k hphase
      cases h
      exact .compact hphase
    · cases h

/-- The steps of `maybeSnapshot`. -/
theorem exists_run_maybeSnapshot (n : DataNode) :
    ∃ as, run ⟨n, if n.snapshots .auto then .snapshotting n.walLog.lastSequence else .idle⟩ as =
      some ⟨n.maybeSnapshot, .idle⟩ := by
  rw [DataNode.maybeSnapshot_eq]
  split
  · exact ⟨[.writeSql, .assign, .compact], rfl⟩
  · exact ⟨[], rfl⟩

/-- `execute` is a run of these steps. -/
theorem exists_run_execute (n : DataNode) (shardTerm : Int → Option Nat)
    (request : ExecuteRequest) (fault : Option ExecuteFault) (output : String) :
    ∃ as, run ⟨n, .idle⟩ as = some ⟨(n.execute shardTerm request fault output).node, .idle⟩ := by
  unfold DataNode.execute
  dsimp only
  cases houtcome : (n.logRequest shardTerm request).2 with
  | rejected error =>
    exact ⟨[.log shardTerm request], by simp [run, step, houtcome]⟩
  | duplicate => exact ⟨[.log shardTerm request], by simp [run, step, houtcome]⟩
  | accepted written =>
    have hlog : (⟨n, .idle⟩ : Serving).step (.log shardTerm request) =
        some ⟨(n.logRequest shardTerm request).1, .logged written⟩ := by
      simp only [step, houtcome]
    dsimp only
    generalize (n.logRequest shardTerm request).1 = n' at hlog ⊢
    obtain heq | heq := DataNode.finishRequest_node_cases n' request written fault output
    · refine ⟨[.log shardTerm request, .fail], ?_⟩
      rw [heq, run, hlog]
      rfl
    · obtain ⟨as, has⟩ := exists_run_maybeSnapshot (n'.markApplied written)
      refine ⟨.log shardTerm request :: .applied :: as, ?_⟩
      rw [heq, run, hlog, Option.bind_some, run]
      exact has

/-- The entries of the log are in the order of their numbers, and no number is beyond the last
one. The log may still have entries that an installed snapshot of a peer hides. -/
structure Stacked (n : DataNode) : Prop where
  sorted : n.walLog.walFile.Pairwise (fun a b => a.sequence < b.sequence)
  last : ∀ e ∈ n.walLog.walFile, e.sequence ≤ n.walLog.lastSequence
  compacted : n.compactedWal ≤ n.walLog.lastSequence

/-- A node on an empty data directory, with any shards. -/
theorem Stacked.new (nodeId : String) (shards : List Int) :
    Stacked { nodeId := nodeId, shards := shards } where
  sorted := List.Pairwise.nil
  last := by simp
  compacted := Nat.le_refl 0

/-- A new entry has a number after all others. -/
theorem Stacked.logs {n : DataNode} {e : WalEntry} (h : Stacked n)
    (he : n.walLog.lastSequence < e.sequence) : Stacked (n.logs e) where
  sorted := by
    refine List.pairwise_append.mpr ⟨h.sorted, List.pairwise_singleton _ _, ?_⟩
    intro a ha b hb
    rw [List.mem_singleton.mp hb]
    exact lt_of_le_of_lt (h.last a ha) he
  last := by
    intro a ha
    show a.sequence ≤ e.sequence
    obtain ha | ha := List.mem_append.mp ha
    · exact le_trans (h.last a ha) (Nat.le_of_lt he)
    · rw [List.mem_singleton.mp ha]
  compacted := le_trans h.compacted (Nat.le_of_lt he)

theorem Stacked.congr {n n' : DataNode} (h : Stacked n) (hlog : n'.walLog = n.walLog)
    (hcompacted : n'.compactedWal = n.compactedWal) : Stacked n' :=
  ⟨hlog ▸ h.sorted, hlog ▸ h.last, hlog ▸ hcompacted ▸ h.compacted⟩

theorem Stacked.markApplied {n : DataNode} (h : Stacked n) (written : Option WalEntry) :
    Stacked (n.markApplied written) := by
  cases written with
  | none => exact h
  | some e => exact h.congr rfl rfl

/-- How the files fit together in each phase. -/
structure Orderly (s : Serving) : Prop where
  stacked : (∀ k, s.phase ≠ .manifestAssigned k) → Stacked s.node
  number : ∀ k, s.phase = .snapshotting k ∨ s.phase = .sqlWritten k →
    k = s.node.walLog.lastSequence
  assigned : ∀ k, s.phase = .manifestAssigned k →
    s.node.walLog.walFile.Pairwise (fun a b => a.sequence < b.sequence) ∧
      s.node.compactedWal = k ∧ s.node.walLog.lastSequence = k ∧
      ∀ e ∈ s.node.walLog.walFile, e.sequence ≤ k

/-- A node between two requests. -/
theorem Orderly.new {n : DataNode} (hn : Stacked n) : Orderly { node := n } where
  stacked := fun _ => hn
  number := by simp
  assigned := by simp

/-- Where a compacted number hides less of the log than that of the node, the difference is not
in the log. `m` is the number that the call has read. -/
def Above (m : Nat) (s : Serving) : Prop :=
  (∀ k, s.phase ≠ .manifestAssigned k) →
    ∀ e ∈ s.node.walLog.walFile, m < e.sequence → s.node.compactedWal < e.sequence

/-- Each step keeps the threads orderly: one that holds the lock goes on alone, and the others wait
for it. -/
theorem Orderly.step (h : s.Orderly) (hstep : s.step a = some s') : s'.Orderly := by
  cases stepCases_of_step hstep with
  | log hidle hnode hphase =>
    have hstacked := h.stacked (fun k hk => by rw [hidle] at hk; cases hk)
    refine ⟨fun _ => ?_, ?_, ?_⟩
    · obtain rfl | ⟨e, he, rfl⟩ := hnode
      · exact hstacked
      · exact hstacked.logs he.after
    · intro k hk
      obtain rfl | ⟨_, rfl⟩ := hphase
      · simp at hk
      · simp at hk
    · intro k hk
      obtain rfl | ⟨_, rfl⟩ := hphase
      · cases hk
      · cases hk
  | applied hlogged hphase =>
    rename_i written phase
    have hstacked := h.stacked (fun k hk => by rw [hlogged] at hk; cases hk)
    refine ⟨fun _ => hstacked.markApplied _, ?_, ?_⟩
    · intro k hk
      have hlast : (s.node.markApplied written).walLog.lastSequence =
          s.node.walLog.lastSequence := by
        cases written with
        | none => rfl
        | some e => rfl
      obtain rfl | rfl := hphase
      · simp at hk
      · obtain hk | hk := hk
        · cases hk
          exact hlast.symm
        · cases hk
    · intro k hk
      obtain rfl | rfl := hphase
      · cases hk
      · cases hk
  | fail hlogged =>
    exact ⟨fun _ => h.stacked (fun k hk => by rw [hlogged] at hk; cases hk), by simp, by simp⟩
  | writeSql hphase =>
    rename_i k
    have hstacked := h.stacked (fun k hk => by rw [hphase] at hk; cases hk)
    have hk := h.number k (Or.inl hphase)
    refine ⟨fun _ => hstacked.congr rfl rfl, ?_, by simp⟩
    intro j hj
    obtain hj | hj := hj
    · cases hj
    · cases hj
      exact hk
  | assign hphase =>
    rename_i k
    have hstacked := h.stacked (fun k hk => by rw [hphase] at hk; cases hk)
    have hk := h.number k (Or.inr hphase)
    refine ⟨fun hne => absurd rfl (hne k), by simp, ?_⟩
    intro j hj
    cases hj
    exact ⟨hstacked.sorted, rfl, hk.symm, fun e he => hk ▸ hstacked.last e he⟩
  | compact hphase =>
    rename_i k
    obtain ⟨_, hcompacted, hlast, hle⟩ := h.assigned k hphase
    have hfile : (s.node.walLog.compactThrough k).walFile = [] := by
      refine List.eq_nil_iff_forall_not_mem.mpr fun e he => ?_
      obtain ⟨hmem, hlt⟩ := WalLog.mem_compactThrough.mp he
      exact absurd (hle e hmem) (Nat.not_le_of_lt hlt)
    refine ⟨fun _ => ⟨?_, ?_, ?_⟩, by simp, by simp⟩
    · show (s.node.walLog.compactThrough k).walFile.Pairwise _
      rw [hfile]
      exact List.Pairwise.nil
    · show ∀ e ∈ (s.node.walLog.compactThrough k).walFile, _
      rw [hfile]
      simp
    · exact (hcompacted.trans hlast.symm).le

variable {as : List ServeAction}

theorem Orderly.run (h : s.Orderly) (hrun : s.run as = some s') :
    s'.Orderly := by
  induction as generalizing s with
  | nil => exact Option.some.inj hrun ▸ h
  | cons a as ih =>
    obtain ⟨t, hstep, hrest⟩ := Option.bind_eq_some_iff.mp hrun
    exact ih (h.step hstep) hrest

/-- The compacted number never goes down. -/
theorem Orderly.compactedWal_le_step (h : s.Orderly) (hstep : s.step a = some s') :
    s.node.compactedWal ≤ s'.node.compactedWal := by
  cases stepCases_of_step hstep with
  | log _ hnode _ =>
    obtain rfl | ⟨e, _, rfl⟩ := hnode
    · exact Nat.le_refl _
    · exact Nat.le_refl _
  | applied hlogged hphase =>
    rename_i written phase
    cases written with
    | none => exact Nat.le_refl _
    | some e => exact Nat.le_refl _
  | fail _ => exact Nat.le_refl _
  | writeSql _ => exact Nat.le_refl _
  | assign hphase =>
    rename_i k
    have hstacked := h.stacked (fun k hk => by rw [hphase] at hk; cases hk)
    exact hstacked.compacted.trans_eq (h.number k (Or.inr hphase)).symm
  | compact _ => exact Nat.le_refl _

theorem Orderly.compactedWal_le (h : s.Orderly) (hrun : s.run as = some s') :
    s.node.compactedWal ≤ s'.node.compactedWal := by
  induction as generalizing s with
  | nil => exact Option.some.inj hrun ▸ Nat.le_refl _
  | cons a as ih =>
    obtain ⟨t, hstep, hrest⟩ := Option.bind_eq_some_iff.mp hrun
    exact le_trans (h.compactedWal_le_step hstep) (ih (h.step hstep) hrest)

/-- The list that a fresh node rebuilds from this snapshot, this compacted number and the log
of the state. -/
def rebuilt (sql : List Stmt) (m : Nat) (s : Serving) : List Stmt :=
  sql ++ (s.node.walLog.readAll.filter (fun e => decide (m < e.sequence))).map WalEntry.stmt

theorem readAll_of_stacked (h : Stacked s.node) : s.node.walLog.readAll = s.node.walLog.walFile :=
  DataNode.readAll_of_sorted h.sorted

/-- A compacted number that hides as much as that of the node gives the part of the log that the
node replays. -/
theorem rebuilt_of_above {sql : List Stmt} {m : Nat} (habove : s.Above m)
    (hphase : ∀ k, s.phase ≠ .manifestAssigned k) (hstacked : Stacked s.node)
    (hm : m ≤ s.node.compactedWal) : rebuilt sql m s = sql ++ s.node.pendingSql := by
  unfold rebuilt DataNode.pendingSql
  rw [readAll_of_stacked hstacked]
  have hfilter : s.node.walLog.walFile.filter (fun e => decide (m < e.sequence)) =
      s.node.walLog.walFile.filter (fun e => decide (s.node.compactedWal < e.sequence)) := by
    refine List.filter_congr fun e he => decide_eq_decide.mpr ⟨habove hphase e he, ?_⟩
    exact fun hlt => lt_of_le_of_lt hm hlt
  rw [hfilter]

/-- `Above` holds along a run: new entries come after the compacted number, and a snapshot leaves
an empty log. -/
theorem Above.step {m : Nat} (habove : s.Above m) (h : s.Orderly) (hstep : s.step a = some s') :
    s'.Above m := by
  cases stepCases_of_step hstep with
  | log hidle hnode _ =>
    intro _ e he hlt
    have hnot : ∀ k, s.phase ≠ .manifestAssigned k := fun k hk => by rw [hidle] at hk; cases hk
    obtain rfl | ⟨d, hd, rfl⟩ := hnode
    · exact habove hnot e he hlt
    · obtain he | he := List.mem_append.mp he
      · exact habove hnot e he hlt
      · rw [List.mem_singleton.mp he]
        exact lt_of_le_of_lt (h.stacked hnot).compacted hd.after
  | applied hlogged _ =>
    rename_i written _ _
    have hnot : ∀ k, s.phase ≠ .manifestAssigned k := fun k hk => by rw [hlogged] at hk; cases hk
    intro _ e he hlt
    cases written with
    | none => exact habove hnot e he hlt
    | some d => exact habove hnot e he hlt
  | fail hlogged =>
    exact fun _ => habove fun k hk => by rw [hlogged] at hk; cases hk
  | writeSql hphase =>
    exact fun _ => habove fun k hk => by rw [hphase] at hk; cases hk
  | assign hphase =>
    rename_i k
    exact fun hnot => absurd rfl (hnot k)
  | compact hphase =>
    rename_i k
    -- every entry has at most the number up to which the log is truncated
    obtain ⟨_, _, _, hle⟩ := h.assigned k hphase
    intro _ e he _
    obtain ⟨hmem, hlt⟩ := WalLog.mem_compactThrough.mp he
    exact absurd (hle e hmem) (Nat.not_le_of_lt hlt)

theorem Above.run {m : Nat} (habove : s.Above m) (h : s.Orderly) (hrun : s.run as = some s') :
    s'.Above m := by
  induction as generalizing s with
  | nil => exact Option.some.inj hrun ▸ habove
  | cons a as ih =>
    obtain ⟨t, hstep, hrest⟩ := Option.bind_eq_some_iff.mp hrun
    exact ih (habove.step h hstep) (h.step hstep) hrest

/-- The manifest that was read goes with the snapshot file and the log. -/
def Fits (m : Nat) (s : Serving) : Prop :=
  quiet s.phase = true ∨
    ((∃ k, s.phase = .manifestAssigned k) ∧ m = s.node.compactedWal)

/-- Where they fit together, the list is the one of the node. -/
theorem Orderly.rebuilt_eq (h : s.Orderly) {m : Nat} (habove : s.Above m)
    (hm : m ≤ s.node.compactedWal) (hfits : Fits m s) :
    rebuilt s.node.snapshotManager.snapshotSql m s = s.node.replaySql := by
  obtain hquiet | ⟨_, rfl⟩ := hfits
  · have hnot : ∀ k, s.phase ≠ .manifestAssigned k := fun k hk => by rw [hk] at hquiet; cases hquiet
    rw [rebuilt_of_above habove hnot (h.stacked hnot) hm, DataNode.replaySql_eq]
  · rw [DataNode.replaySql_eq]
    rfl

/-- Between the write of `snapshot.sql` and the truncation no entry is appended. -/
theorem frozen (hphase : quiet s.phase = false) (hcompact : ServeAction.compact ∉ as)
    (hrun : s.run as = some s') :
    s'.node.walLog = s.node.walLog ∧
      s'.node.snapshotManager.snapshotSql = s.node.snapshotManager.snapshotSql ∧
      quiet s'.phase = false := by
  induction as generalizing s with
  | nil =>
    obtain rfl := Option.some.inj hrun
    exact ⟨rfl, rfl, hphase⟩
  | cons a as ih =>
    obtain ⟨t, hstep, hrest⟩ := Option.bind_eq_some_iff.mp hrun
    have hnext : t.node.walLog = s.node.walLog ∧
        t.node.snapshotManager.snapshotSql = s.node.snapshotManager.snapshotSql ∧
        quiet t.phase = false := by
      cases stepCases_of_step hstep with
      | log hidle _ _ =>
        rw [hidle] at hphase
        cases hphase
      | applied hlogged _ =>
        rw [hlogged] at hphase
        cases hphase
      | fail hlogged =>
        rw [hlogged] at hphase
        cases hphase
      | writeSql hsnapshotting =>
        rw [hsnapshotting] at hphase
        cases hphase
      | assign _ => exact ⟨rfl, rfl, rfl⟩
      | compact _ => exact absurd List.mem_cons_self hcompact
    obtain ⟨hwal, hsql, hend⟩ := ih hnext.2.2 (fun hmem => hcompact (List.mem_cons_of_mem _ hmem))
      hrest
    exact ⟨hwal.trans hnext.1, hsql.trans hnext.2.1, hend⟩

theorem rebuilt_congr {sql : List Stmt} {m : Nat} (h : s'.node.walLog = s.node.walLog) :
    rebuilt sql m s' = rebuilt sql m s := by
  unfold rebuilt
  rw [h]

/-- From a state in which the answers fit together, to the read of the log: the list is that of
the node just before the next snapshot writes its file, or now. -/
theorem Orderly.exists_moment_of_fits (h : s.Orderly) {m : Nat} (habove : s.Above m)
    (hm : m ≤ s.node.compactedWal) (hfits : Fits m s) (hrun : s.run as = some s')
    (has : ¬ List.Sublist [ServeAction.writeSql, .compact] as) :
    ∃ before t, before <+: as ∧ s.run before = some t ∧
      t.node.replaySql = rebuilt s.node.snapshotManager.snapshotSql m s' ∧
      ∀ k, t.phase ≠ .sqlWritten k := by
  have hnow : ∀ k, s.phase ≠ .sqlWritten k := by
    intro k hk
    obtain hquiet | ⟨⟨j, hj⟩, _⟩ := hfits
    · rw [hk] at hquiet
      cases hquiet
    · rw [hk] at hj
      cases hj
  induction as generalizing s with
  | nil =>
    obtain rfl := Option.some.inj hrun
    exact ⟨[], s, List.prefix_refl _, rfl, (h.rebuilt_eq habove hm hfits).symm, hnow⟩
  | cons a as ih =>
    obtain ⟨u, hstep, hrest⟩ := Option.bind_eq_some_iff.mp hrun
    -- a step that leaves the snapshot file alone and after which the answers fit again
    have hgo : Fits m u →
        u.node.snapshotManager.snapshotSql = s.node.snapshotManager.snapshotSql →
        (∀ k, u.phase ≠ .sqlWritten k) →
        ∃ before t, before <+: a :: as ∧ s.run before = some t ∧
          t.node.replaySql = rebuilt s.node.snapshotManager.snapshotSql m s' ∧
          ∀ k, t.phase ≠ .sqlWritten k := by
      intro hu hsql hnotWritten
      obtain ⟨before, t, hprefix, ht, heq, hphase⟩ := ih (h.step hstep) (habove.step h hstep)
        (le_trans hm (h.compactedWal_le_step hstep)) hu hrest
        (fun hsub => has (hsub.trans (List.sublist_cons_self a as))) hnotWritten
      refine ⟨a :: before, t, List.cons_prefix_cons.mpr ⟨rfl, hprefix⟩, ?_, hsql ▸ heq, hphase⟩
      exact Option.bind_eq_some_iff.mpr ⟨u, hstep, ht⟩
    cases stepCases_of_step hstep with
    | log hidle hnode hphase =>
      refine hgo (Or.inl ?_) ?_ ?_
      · obtain rfl | ⟨_, rfl⟩ := hphase
        · rfl
        · rfl
      · obtain rfl | ⟨e, _, rfl⟩ := hnode
        · rfl
        · rfl
      · intro k hk
        obtain rfl | ⟨_, rfl⟩ := hphase
        · cases hk
        · cases hk
    | applied hlogged hphase =>
      rename_i written phase
      refine hgo (Or.inl ?_) ?_ ?_
      · obtain rfl | rfl := hphase
        · rfl
        · rfl
      · cases written with
        | none => rfl
        | some e => rfl
      · intro k hk
        obtain rfl | rfl := hphase
        · cases hk
        · cases hk
    | fail _ => exact hgo (Or.inl rfl) rfl (by simp)
    | writeSql hphase =>
      -- the log is not truncated any more before it is read
      have hcompact : ServeAction.compact ∉ as := fun hmem =>
        has (List.cons_sublist_cons.mpr (List.singleton_sublist.mpr hmem))
      obtain ⟨hwal, _, _⟩ := frozen (s := ⟨_, .sqlWritten _⟩) rfl hcompact hrest
      refine ⟨[], s, List.nil_prefix, rfl, ?_, hnow⟩
      rw [← h.rebuilt_eq habove hm hfits]
      exact (rebuilt_congr (s := s) hwal).symm
    | assign hphase => exact absurd hphase (hnow _)
    | compact _ => exact hgo (Or.inl rfl) rfl (by simp)

/-- From the read of the manifest to that of the snapshot file: if the manifest of that file is
assigned by then, the old manifest was read just then, or at some moment between the list of
the node had the moved statements twice. -/
theorem Orderly.exists_moment_of_assigned (h : s.Orderly) {m k : Nat} (habove : s.Above m)
    (hm : m ≤ s.node.compactedWal) (hrun : s.run as = some s')
    (hphase : s'.phase = .manifestAssigned k) :
    as = [] ∨ ∃ before t, before <+: as ∧ s.run before = some t ∧
      t.node.replaySql = rebuilt s'.node.snapshotManager.snapshotSql m s' := by
  induction as generalizing s with
  | nil => exact Or.inl rfl
  | cons a as ih =>
    right
    obtain ⟨u, hstep, hrest⟩ := Option.bind_eq_some_iff.mp hrun
    obtain rfl | ⟨before, t, hprefix, ht, heq⟩ := ih (h.step hstep) (habove.step h hstep)
      (le_trans hm (h.compactedWal_le_step hstep)) hrest
    · obtain rfl := Option.some.inj hrest
      refine ⟨[], s, List.nil_prefix, rfl, ?_⟩
      -- the last step is the assignment
      cases stepCases_of_step hstep with
      | log _ _ hlog =>
        obtain rfl | ⟨_, rfl⟩ := hlog
        · cases hphase
        · cases hphase
      | applied _ happlied =>
        obtain rfl | rfl := happlied
        · cases hphase
        · cases hphase
      | fail _ => cases hphase
      | writeSql _ => cases hphase
      | assign hwritten =>
        have hnot : ∀ k, s.phase ≠ .manifestAssigned k :=
          fun k hk => by rw [hwritten] at hk; cases hk
        show _ = rebuilt s.node.snapshotManager.snapshotSql m s
        rw [DataNode.replaySql_eq, rebuilt_of_above habove hnot (h.stacked hnot) hm]
      | compact _ => cases hphase
    · exact ⟨a :: before, t, List.cons_prefix_cons.mpr ⟨rfl, hprefix⟩,
        Option.bind_eq_some_iff.mpr ⟨u, hstep, ht⟩, heq⟩

theorem run_append {bs : List ServeAction} {t : Serving} (h : s.run as = some t)
    (h' : t.run bs = some s') : s.run (as ++ bs) = some s' := by
  induction as generalizing s with
  | nil =>
    obtain rfl := Option.some.inj h
    exact h'
  | cons a as ih =>
    obtain ⟨u, hstep, hrest⟩ := Option.bind_eq_some_iff.mp h
    exact Option.bind_eq_some_iff.mpr ⟨u, hstep, ih hrest⟩

/-- A moment of the second part of a run is a moment of the whole. -/
theorem exists_moment_append {bs : List ServeAction} {t : Serving} {P : Serving → Prop}
    (h : s.run as = some t) (hmoment : ∃ before u, before <+: bs ∧ t.run before = some u ∧ P u) :
    ∃ before u, before <+: as ++ bs ∧ s.run before = some u ∧ P u := by
  obtain ⟨before, u, hprefix, hu, hP⟩ := hmoment
  exact ⟨as ++ before, u, (List.prefix_append_right_inj as).mpr hprefix, run_append h hu, hP⟩

/-- From a state after the write of `snapshot.sql`, if the log is truncated before it is read. -/
theorem Orderly.exists_moment_of_compact {as : List ServeAction} (h : s.Orderly) {m : Nat}
    (habove : s.Above m) (hm : m ≤ s.node.compactedWal) (hphase : quiet s.phase = false)
    (hrun : s.run as = some s') (hcompact : ServeAction.compact ∈ as)
    (has : ¬ List.Sublist [ServeAction.writeSql, .compact] as) :
    ∃ before t, before <+: as ∧ s.run before = some t ∧
      t.node.replaySql = rebuilt s.node.snapshotManager.snapshotSql m s' ∧
      ∀ k, t.phase ≠ .sqlWritten k := by
  induction as generalizing s with
  | nil => cases hcompact
  | cons a as ih =>
    obtain ⟨u, hstep, hrest⟩ := Option.bind_eq_some_iff.mp hrun
    have hm' := le_trans hm (h.compactedWal_le_step hstep)
    have habove' := habove.step h hstep
    have has' : ¬ List.Sublist [ServeAction.writeSql, .compact] as :=
      fun hsub => has (hsub.trans (List.sublist_cons_self a as))
    have hfirst : s.run [a] = some u := Option.bind_eq_some_iff.mpr ⟨u, hstep, rfl⟩
    cases stepCases_of_step hstep with
    | log hidle _ _ =>
      rw [hidle] at hphase
      cases hphase
    | applied hlogged _ =>
      rw [hlogged] at hphase
      cases hphase
    | fail hlogged =>
      rw [hlogged] at hphase
      cases hphase
    | writeSql hsnapshotting =>
      rw [hsnapshotting] at hphase
      cases hphase
    | assign _ =>
      have hmem : ServeAction.compact ∈ as := by
        obtain hfalse | hmem := List.mem_cons.mp hcompact
        · cases hfalse
        · exact hmem
      exact exists_moment_append hfirst (ih (h.step hstep) habove' hm' rfl hrest hmem has')
    | compact _ =>
      exact exists_moment_append hfirst
        ((h.step hstep).exists_moment_of_fits habove' hm' (Or.inl rfl) hrest has')

/-- A consistent cut. The node may start with any shards, snapshot and log. In every run, if no
snapshot both writes `snapshot.sql` and truncates the log between the reads of these two files,
the list that a fresh node rebuilds from the answer is
the replay list of the node at some moment of the call. That moment is not one between the write
of `snapshot.sql` and the assignment of its manifest, unless `snapshot.sql` is read after the
write and the log before the truncation of a snapshot whose manifest was not yet assigned when
the manifest was read. -/
theorem recoveryState_cut {n : DataNode} (hn : Stacked n) {before toSql toWal : List ServeAction}
    {s₁ s₂ s₃ : Serving} (h₁ : run { node := n } before = some s₁)
    (h₂ : s₁.run toSql = some s₂) (h₃ : s₂.run toWal = some s₃)
    (hsnapshot : ¬ List.Sublist [ServeAction.writeSql, .compact] toWal) :
    ∃ moment t, moment <+: toSql ++ toWal ∧ s₁.run moment = some t ∧
      t.node.replaySql = (recoveryState s₁ s₂ s₃).replaySql ∧
      ((quiet s₂.phase = true ∨ ServeAction.compact ∈ toWal ∨
          ((∃ k, s₂.phase = .manifestAssigned k) ∧
            s₁.node.compactedWal = s₂.node.compactedWal)) →
        ∀ k, t.phase ≠ .sqlWritten k) := by
  have horder₁ := (Orderly.new hn).run h₁
  have horder₂ := horder₁.run h₂
  have hm := horder₁.compactedWal_le h₂
  have habove₁ : s₁.Above s₁.node.compactedWal := fun _ _ _ hlt => hlt
  have habove₂ := habove₁.run horder₁ h₂
  show ∃ moment t, moment <+: toSql ++ toWal ∧ s₁.run moment = some t ∧
    t.node.replaySql = rebuilt s₂.node.snapshotManager.snapshotSql s₁.node.compactedWal s₃ ∧ _
  by_cases hfits : Fits s₁.node.compactedWal s₂
  · refine exists_moment_append h₂ ?_
    obtain ⟨moment, t, hprefix, ht, heq, hphase⟩ :=
      horder₂.exists_moment_of_fits habove₂ hm hfits h₃ hsnapshot
    exact ⟨moment, t, hprefix, ht, heq, fun _ => hphase⟩
  have hquiet : quiet s₂.phase = false := by
    by_contra hquiet
    exact hfits (Or.inl (by simpa using hquiet))
  by_cases hcompact : ServeAction.compact ∈ toWal
  · refine exists_moment_append h₂ ?_
    obtain ⟨moment, t, hprefix, ht, heq, hphase⟩ :=
      horder₂.exists_moment_of_compact habove₂ hm hquiet h₃ hcompact hsnapshot
    exact ⟨moment, t, hprefix, ht, heq, fun _ => hphase⟩
  -- the log is that of the second read, and the moment is one with the statements twice
  have hexcluded : ¬ (quiet s₂.phase = true ∨ ServeAction.compact ∈ toWal ∨
      ((∃ k, s₂.phase = .manifestAssigned k) ∧
        s₁.node.compactedWal = s₂.node.compactedWal)) := by
    rintro (h | h | h)
    · exact hfits (Or.inl h)
    · exact hcompact h
    · exact hfits (Or.inr h)
  obtain ⟨hwal, _, _⟩ := frozen hquiet hcompact h₃
  rw [rebuilt_congr hwal]
  cases hphase : s₂.phase with
  | idle | logged _ | snapshotting _ =>
    rw [hphase] at hquiet
    cases hquiet
  | sqlWritten k =>
    have hnot : ∀ k, s₂.phase ≠ .manifestAssigned k := fun k hk => by rw [hphase] at hk; cases hk
    refine ⟨toSql, s₂, List.prefix_append _ _, h₂, ?_, fun h => absurd h (hphase ▸ hexcluded)⟩
    rw [rebuilt_of_above habove₂ hnot (horder₂.stacked hnot) hm, DataNode.replaySql_eq]
  | manifestAssigned k =>
    obtain rfl | ⟨moment, t, hprefix, ht, heq⟩ :=
      horder₁.exists_moment_of_assigned habove₁ (Nat.le_refl _) h₂ hphase
    · obtain rfl := Option.some.inj h₂
      exact absurd (Or.inr ⟨⟨k, hphase⟩, rfl⟩) hfits
    · exact ⟨moment, t, hprefix.trans (List.prefix_append _ _), ht, heq,
        fun h => absurd h (hphase ▸ hexcluded)⟩

/-- A primary of shard 0. -/
def servingNode : DataNode where
  nodeId := "n1"
  shards := [0]

/-- The primary logs and executes a write; the request ids are `a`, `aa` and so on. -/
def serveWrite (k : Nat) : List ServeAction :=
  [.log (fun _ => some 1)
    { requestId := some (String.ofList (List.replicate (k + 1) 'a')), shardId := 0,
      shardLogIndex := 1, raftTerm := 1, sql := "insert into t values(1)", replay := false },
    .applied]

/-- A write between the reads of the snapshot file and the log. -/
theorem recoveryState_cut_one_write :
    ∃ s₁ s₃ : Serving, s₁.run (serveWrite 1) = some s₃ ∧
      s₃.node.replaySql.length = 2 ∧
      ∃ moment t, moment <+: serveWrite 1 ∧ s₁.run moment = some t ∧
        t.node.replaySql = (recoveryState s₁ s₁ s₃).replaySql := by
  have hrun : (run { node := servingNode } (serveWrite 0)).any (fun s₁ =>
      (s₁.run (serveWrite 1)).any (fun s₃ => s₃.node.replaySql.length == 2)) = true := by
    decide +kernel
  obtain ⟨s₁, h₁, hrun⟩ := (Option.any_eq_true _ _).mp hrun
  obtain ⟨s₃, h₃, hlength⟩ := (Option.any_eq_true _ _).mp hrun
  have hsnapshot : ¬ List.Sublist [ServeAction.writeSql, .compact] (serveWrite 1) := by
    intro hsub
    have hmem := hsub.subset List.mem_cons_self
    simp [serveWrite] at hmem
  obtain ⟨moment, t, hprefix, ht, heq, _⟩ := recoveryState_cut (Stacked.new "n1" [0]) h₁
    (show s₁.run [] = some s₁ from rfl) h₃ hsnapshot
  exact ⟨s₁, s₃, h₃, by simpa using hlength, moment, t, hprefix, ht, heq⟩

/-- A write that takes an automatic snapshot. -/
def writeAndSnapshot (k : Nat) : List ServeAction := serveWrite k ++ [.writeSql, .assign, .compact]

/-- Nineteen writes. Then the manifest and the snapshot file are read, the twentieth write takes
a snapshot, and the log is read. The answer has no statement at all, and the list of the node
is never empty during the call. -/
theorem recoveryState_misses_statements :
    ∃ (before : List ServeAction) (s₁ s₃ : Serving),
      run { node := servingNode } before = some s₁ ∧
      s₁.run (writeAndSnapshot 19) = some s₃ ∧
      (recoveryState s₁ s₁ s₃).replaySql = [] ∧
      ∀ moment t, moment <+: writeAndSnapshot 19 → s₁.run moment = some t →
        t.node.replaySql ≠ [] := by
  have hrun : (run { node := servingNode }
      ((List.range 19).flatMap serveWrite)).any (fun s₁ =>
        (s₁.run (writeAndSnapshot 19)).any (fun s₃ =>
          decide ((recoveryState s₁ s₁ s₃).replaySql = []) &&
            (writeAndSnapshot 19).inits.all (fun moment =>
              (s₁.run moment).all (fun t => !t.node.replaySql.isEmpty)))) = true := by
    decide +kernel
  obtain ⟨s₁, h₁, hrun⟩ := (Option.any_eq_true _ _).mp hrun
  obtain ⟨s₃, h₃, hrun⟩ := (Option.any_eq_true _ _).mp hrun
  obtain ⟨hempty, hall⟩ := Bool.and_eq_true_iff.mp hrun
  refine ⟨_, s₁, s₃, h₁, h₃, of_decide_eq_true hempty, fun moment t hprefix ht hnil => ?_⟩
  have hmoment := List.all_eq_true.mp hall moment ((List.mem_inits _ _).mpr hprefix)
  rw [ht, Option.all_some, hnil] at hmoment
  cases hmoment

end Serving

end DisMiniSql.Distributed
