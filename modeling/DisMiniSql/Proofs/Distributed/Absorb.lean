import Mathlib.Algebra.GroupWithZero.Nat
import DisMiniSql.Proofs.Distributed.DataNode

/-!
# `DisMiniSql.Proofs.Distributed.Absorb`: what a node makes of the states of its peers

`absorb` is one round of `recoverFromPeers`: install the snapshot of the peer if its compacted
number is larger than the node's own, then append the entries of its log that are owned and
unknown. This file says what the whole call leaves, in terms of what it starts from: the files of
the node and the answers of the peers.

* The compacted number is the largest one of all (`topCompacted`), and the snapshot is the one
  that belongs to it (`topSnapshot`).
* An entry is taken over from the first peer that offers its request (`offers`).
* It is stored under the next free number, or under its own number if that is larger. The
  numbers are pushed up by installed snapshots and by the numbers of the peers. `Passes` says
  when they have passed a bound, as a condition on the list of these marks.

`reached_recoverFromPeers` puts the three together. The compacted numbers count the appends of
different nodes. So an installed snapshot hides entries up to a number that means nothing in the
log of the node.
-/

set_option autoImplicit false

namespace DisMiniSql.Distributed

/-! ### The numbers of a log -/

/-- What pushes the numbers of a log up: an installed snapshot with its compacted number, or an
entry that is taken over, with the number that it has at the peer. -/
inductive Mark
  | installed (compacted : Nat)
  | taken (entry : WalEntry)

namespace Mark

/-- The number that the log reaches at least. -/
def bound : Mark → Nat
  | installed compacted => compacted
  | taken entry => entry.sequence

/-- Only an entry uses up a number. -/
def count : Mark → Nat
  | installed _ => 0
  | taken _ => 1

/-- The last number of the log after the mark. -/
def next (last : Nat) (k : Mark) : Nat := max (last + k.count) k.bound

/-- How many entries are taken over. -/
def entries (ks : List Mark) : Nat := (ks.map count).sum

/-- The numbers have passed a bound: counted from the last number at the beginning, from an
installed snapshot or from the peer's number of an entry, the entries since then reach beyond. -/
def Passes (last : Nat) (ks : List Mark) (limit : Nat) : Prop :=
  limit < last + entries ks ∨
    ∃ before k after, ks = before ++ k :: after ∧ limit < k.bound + entries after

/-- The entry is taken over, and when it is stored the numbers have passed the bound. -/
def Visible (last : Nat) (ks : List Mark) (limit : Nat) (e : WalEntry) : Prop :=
  ∃ before after, ks = before ++ taken e :: after ∧ Passes last (before ++ [taken e]) limit

variable {ks : List Mark}

/-- `Passes` is a statement about the last number. By induction on the marks: the first one
either gives the bound itself or moves the number from which the others count. -/
theorem passes_iff {last limit : Nat} :
    Passes last ks limit ↔ limit < ks.foldl next last := by
  induction ks generalizing last with
  | nil => simp [Passes, entries]
  | cons k ks ih =>
    rw [List.foldl_cons, ← ih]
    unfold Passes
    have hcount : entries (k :: ks) = k.count + entries ks := by simp [entries]
    constructor
    · rintro (hlast | ⟨before, j, after, hsplit, hlimit⟩)
      · left
        simp only [next]
        omega
      · cases before with
        | nil =>
          cases hsplit
          left
          simp only [next]
          omega
        | cons _ before =>
          cases hsplit
          exact Or.inr ⟨before, j, after, rfl, hlimit⟩
    · rintro (hlast | ⟨before, j, after, rfl, hlimit⟩)
      · by_cases hle : k.bound ≤ last + k.count
        · left
          simp only [next] at hlast
          omega
        · refine Or.inr ⟨[], k, ks, rfl, ?_⟩
          simp only [next] at hlast
          omega
      · exact Or.inr ⟨k :: before, j, after, rfl, hlimit⟩

/-- The entries, under the numbers they get. -/
def stored : Nat → List Mark → List WalEntry
  | _, [] => []
  | last, installed compacted :: ks => stored ((installed compacted).next last) ks
  | last, taken e :: ks =>
    { e with sequence := (taken e).next last } :: stored ((taken e).next last) ks

/-- What two lists of marks store: the second starts with the last sequence the first leaves. -/
theorem stored_append (last : Nat) (ks js : List Mark) :
    stored last (ks ++ js) = stored last ks ++ stored (ks.foldl next last) js := by
  induction ks generalizing last with
  | nil => rfl
  | cons k ks ih =>
    cases k with
    | installed compacted => exact ih _
    | taken e => simp only [List.cons_append, stored, ih, List.foldl_cons]

/-- A stored entry is one of the marks, under the number that is in use after it. -/
theorem mem_stored {last : Nat} {d : WalEntry} :
    d ∈ stored last ks ↔ ∃ before e after, ks = before ++ taken e :: after ∧
      d = { e with sequence := (before ++ [taken e]).foldl next last } := by
  induction ks generalizing last with
  | nil => simp [stored]
  | cons k ks ih =>
    constructor
    · intro hd
      cases k with
      | installed compacted =>
        obtain ⟨before, e, after, rfl, rfl⟩ := ih.mp hd
        exact ⟨installed compacted :: before, e, after, rfl, rfl⟩
      | taken e =>
        obtain rfl | hd := List.mem_cons.mp hd
        · exact ⟨[], e, ks, rfl, rfl⟩
        · obtain ⟨before, e', after, rfl, rfl⟩ := ih.mp hd
          exact ⟨taken e :: before, e', after, rfl, rfl⟩
    · rintro ⟨before, e, after, hsplit, rfl⟩
      cases before with
      | nil =>
        cases hsplit
        exact List.mem_cons_self
      | cons _ before =>
        cases hsplit
        have hrest := ih.mpr ⟨before, e, after, rfl, rfl⟩
        cases k with
        | installed compacted => exact hrest
        | taken e' => exact List.mem_cons_of_mem _ hrest

/-- Storing changes the sequences only: what does not look at them holds of the stored entries as of
the marks. -/
theorem exists_mem_stored_iff {β : Type} (f : WalEntry → β)
    (hf : ∀ e sequence, f { e with sequence := sequence } = f e) {last : Nat} {x : β} :
    (∃ d ∈ stored last ks, f d = x) ↔ ∃ e, taken e ∈ ks ∧ f e = x := by
  constructor
  · rintro ⟨d, hd, rfl⟩
    obtain ⟨before, e, after, rfl, rfl⟩ := mem_stored.mp hd
    exact ⟨e, by simp, (hf e _).symm⟩
  · rintro ⟨e, he, rfl⟩
    obtain ⟨before, after, rfl⟩ := List.append_of_mem he
    exact ⟨_, mem_stored.mpr ⟨before, e, after, rfl, rfl⟩, hf e _⟩

/-- What is stored after the bound comes from the visible entries. `f` is anything of an entry but
its number. -/
theorem exists_stored_iff {β : Type} (f : WalEntry → β)
    (hf : ∀ e sequence, f { e with sequence := sequence } = f e) {last limit : Nat} {x : β} :
    (∃ d ∈ stored last ks, limit < d.sequence ∧ f d = x) ↔
      ∃ e, Visible last ks limit e ∧ f e = x := by
  constructor
  · rintro ⟨d, hd, hlimit, rfl⟩
    obtain ⟨before, e, after, rfl, rfl⟩ := mem_stored.mp hd
    exact ⟨e, ⟨before, after, rfl, passes_iff.mpr hlimit⟩, (hf e _).symm⟩
  · rintro ⟨e, ⟨before, after, rfl, hpasses⟩, rfl⟩
    exact ⟨_, mem_stored.mpr ⟨before, e, after, rfl, rfl⟩, passes_iff.mp hpasses, hf e _⟩

/-- Where the numbers start after the bound already, everything that is taken over is visible. -/
theorem visible_iff_mem {last limit : Nat} {e : WalEntry} (h : limit ≤ last) :
    Visible last ks limit e ↔ taken e ∈ ks := by
  constructor
  · rintro ⟨before, after, rfl, -⟩
    simp
  · intro he
    obtain ⟨before, after, rfl⟩ := List.append_of_mem he
    refine ⟨before, after, rfl, Or.inl ?_⟩
    have hcount : 1 ≤ entries (before ++ [taken e]) := by simp [entries, count]
    omega

end Mark

namespace DataNode

variable {n m : DataNode} {rs : RecoveryState} {x : Stmt}

/-- The entries a node takes from an answer are those of its shards that it has not logged. -/
theorem mem_recovered {e : WalEntry} :
    e ∈ n.recovered rs ↔ e ∈ rs.walEntries ∧ n.ownsShard e.shardId = true ∧
      n.walLog.containsRequestId e.requestId = false := by
  simp only [recovered, List.mem_filter, List.mem_insertionSort, Bool.not_eq_true', and_assoc]

/-- The appended entries have distinct request ids, as in the log of the peer. -/
theorem distinct_recovered (hrs : rs.Wf) :
    (n.recovered rs).Pairwise
      (fun a b => blankId a.requestId = false → a.requestId ≠ b.requestId) := by
  have hsorted : (rs.walEntries.insertionSort (fun a b => a.sequence ≤ b.sequence)).Pairwise
      (fun a b => blankId a.requestId = false → a.requestId ≠ b.requestId) := by
    refine ((List.perm_insertionSort _ _).pairwise_iff ?_).mpr hrs.distinct
    intro a b hab hblank hba
    exact hab (hba ▸ hblank) hba.symm
  exact (hsorted.sublist List.filter_sublist).sublist List.filter_sublist

/-- What a sequence of appends leaves alone. -/
structure SameSnapshot (n n' : DataNode) : Prop where
  nodeId : n'.nodeId = n.nodeId
  shards : n'.shards = n.shards
  snapshotManager : n'.snapshotManager = n.snapshotManager

/-- Unknown entries of distinct requests are all appended. By induction on the entries: an entry
of another request stays unknown after the append of the first one. -/
theorem foldl_appendRecovered {es : List WalEntry}
    (hfresh : ∀ e ∈ es, n.walLog.findByRequestId e.requestId = none)
    (hdistinct : es.Pairwise
      (fun a b => blankId a.requestId = false → a.requestId ≠ b.requestId))
    (hnorm : ∀ e ∈ es, SqlUtils.normalize e.sql = e.sql) :
    n.SameSnapshot (es.foldl appendRecovered n) ∧
      (es.foldl appendRecovered n).walLog.walFile =
        n.walLog.walFile ++ Mark.stored n.walLog.lastSequence (es.map .taken) ∧
      (es.foldl appendRecovered n).walLog.lastSequence =
        (es.map Mark.taken).foldl Mark.next n.walLog.lastSequence ∧
      ∀ r, r ∈ (es.foldl appendRecovered n).walLog.requestIds ↔
        r ∈ n.walLog.requestIds ∨ ∃ e ∈ es, e.requestId = r := by
  induction es generalizing n with
  | nil => exact ⟨⟨rfl, rfl, rfl⟩, by simp [Mark.stored], rfl, by simp⟩
  | cons e es ih =>
    have hlocal : n.walLog.localEntry e =
        { e with sequence := (Mark.taken e).next n.walLog.lastSequence } := by
      simp [WalLog.localEntry, hnorm e List.mem_cons_self, Mark.next, Mark.count, Mark.bound]
    have happ : n.appendRecovered e = n.logs (n.walLog.localEntry e) := by
      simp only [appendRecovered, WalLog.appendRecovered, hfresh e List.mem_cons_self, logs]
    -- the rest is still unknown after the first entry
    have hfresh' : ∀ d ∈ es,
        (n.appendRecovered e).walLog.findByRequestId d.requestId = none := by
      intro d hd
      have hd' := hfresh d (List.mem_cons_of_mem _ hd)
      rw [WalLog.findByRequestId_eq_none_iff] at hd' ⊢
      by_cases hblank : blankId d.requestId = true
      · exact Or.inl hblank
      refine Or.inr fun a ha hid => ?_
      rw [happ] at ha
      obtain ha | ha := List.mem_append.mp ha
      · exact hd'.resolve_left hblank a ha hid
      · rw [List.mem_singleton.mp ha] at hid
        have hid : e.requestId = d.requestId := hid
        exact (List.pairwise_cons.mp hdistinct).1 d hd (by simpa [hid] using hblank) hid
    obtain ⟨hsame, hfile, hlast, hids⟩ := ih hfresh' (List.pairwise_cons.mp hdistinct).2
      (fun d hd => hnorm d (List.mem_cons_of_mem _ hd))
    rw [List.foldl_cons]
    refine ⟨⟨hsame.nodeId, hsame.shards, hsame.snapshotManager⟩, ?_, ?_, fun r => ?_⟩
    · rw [hfile, happ, hlocal]
      simp [logs, WalLog.appendRaw, Mark.stored]
    · rw [hlast, happ, hlocal]
      simp [logs, WalLog.appendRaw]
    · rw [hids, happ, hlocal]
      simp only [logs, WalLog.appendRaw, List.mem_insert_iff, List.exists_mem_cons_iff]
      constructor
      · rintro ((rfl | hr) | hes)
        · exact Or.inr (Or.inl rfl)
        · exact Or.inl hr
        · exact Or.inr (Or.inr hes)
      · rintro (hr | rfl | hes)
        · exact Or.inl (Or.inr hr)
        · exact Or.inl (Or.inl rfl)
        · exact Or.inr hes

/-- Installing a peer's snapshot leaves the log, its ids and the shards alone. -/
theorem sameLog_installPeerSnapshotIfNewer (n : DataNode) (rs : RecoveryState) :
    (n.installPeerSnapshotIfNewer rs).walLog.walFile = n.walLog.walFile ∧
      (n.installPeerSnapshotIfNewer rs).walLog.requestIds = n.walLog.requestIds ∧
      (n.installPeerSnapshotIfNewer rs).shards = n.shards := by
  unfold installPeerSnapshotIfNewer
  split
  · unfold advanceLastSequence WalLog.advanceLastSequence createPeerSnapshot
    split
    · exact ⟨rfl, rfl, rfl⟩
    · exact ⟨rfl, rfl, rfl⟩
  · exact ⟨rfl, rfl, rfl⟩

/-- The choice of the entries does not depend on the snapshot. -/
theorem recovered_installPeerSnapshotIfNewer (n : DataNode) (rs : RecoveryState) :
    (n.installPeerSnapshotIfNewer rs).recovered rs = n.recovered rs := by
  obtain ⟨hfile, hids, hshards⟩ := n.sameLog_installPeerSnapshotIfNewer rs
  simp only [recovered, ownsShard, WalLog.containsRequestId, WalLog.findByRequestId,
    WalLog.readAll, hfile, hids, hshards]

/-- A log knows a request from the index of its ids or from an entry in the file. -/
theorem containsRequestId_iff {w : WalLog} {r : Option String} :
    w.containsRequestId r = true ↔
      r ∈ w.requestIds ∨ (blankId r = false ∧ ∃ e ∈ w.walFile, e.requestId = r) := by
  have hfind : (w.findByRequestId r).isSome = true ↔
      blankId r = false ∧ ∃ e ∈ w.walFile, e.requestId = r := by
    rw [Option.isSome_iff_ne_none, Ne, WalLog.findByRequestId_eq_none_iff]
    push Not
    simp only [Bool.not_eq_true]
  rw [WalLog.containsRequestId, Bool.or_eq_true, hfind, List.contains_iff_mem]

/-- But moves the last sequence to the snapshot's bound, if that is newer and larger. -/
theorem lastSequence_installPeerSnapshotIfNewer (n : DataNode) (rs : RecoveryState) :
    (n.installPeerSnapshotIfNewer rs).walLog.lastSequence =
      if n.compactedWal < rs.snapshotManifest.lastCompactedWalSequence then
        max n.walLog.lastSequence rs.snapshotManifest.lastCompactedWalSequence
      else n.walLog.lastSequence := by
  unfold installPeerSnapshotIfNewer installs
  by_cases h : n.compactedWal < rs.snapshotManifest.lastCompactedWalSequence
  · rw [if_pos (decide_eq_true h), if_pos h]
    show (n.walLog.advanceLastSequence _).lastSequence = _
    unfold WalLog.advanceLastSequence
    by_cases hlast : n.walLog.lastSequence < rs.snapshotManifest.lastCompactedWalSequence
    · rw [if_pos hlast]
      exact (Nat.max_eq_right (Nat.le_of_lt hlast)).symm
    · rw [if_neg hlast]
      exact (Nat.max_eq_left (Nat.le_of_not_lt hlast)).symm
  · rw [if_neg (by simpa using h), if_neg h]

/-- The bound of the snapshot is the larger of the two. -/
theorem compactedWal_installPeerSnapshotIfNewer (n : DataNode) (rs : RecoveryState) :
    (n.installPeerSnapshotIfNewer rs).compactedWal =
      max n.compactedWal rs.snapshotManifest.lastCompactedWalSequence := by
  unfold installPeerSnapshotIfNewer installs
  by_cases h : n.compactedWal < rs.snapshotManifest.lastCompactedWalSequence
  · rw [if_pos (decide_eq_true h)]
    exact (Nat.max_eq_right (Nat.le_of_lt h)).symm
  · rw [if_neg (by simpa using h)]
    exact (Nat.max_eq_left (Nat.le_of_not_lt h)).symm

/-- The statements are those of the newer snapshot. -/
theorem snapshotSql_installPeerSnapshotIfNewer (hrs : rs.Wf) :
    (n.installPeerSnapshotIfNewer rs).snapshotManager.snapshotSql =
      if n.compactedWal < rs.snapshotManifest.lastCompactedWalSequence then rs.snapshotSql
      else n.snapshotManager.snapshotSql := by
  unfold installPeerSnapshotIfNewer installs
  by_cases h : n.compactedWal < rs.snapshotManifest.lastCompactedWalSequence
  · rw [if_pos (decide_eq_true h), if_pos h]
    exact SnapshotManager.snapshotSql_createSnapshot (m := n.snapshotManager) hrs.lines
  · rw [if_neg (by simpa using h), if_neg h]

/-! ### The whole call, from the answers of the peers -/

/-- The largest compacted number of the node and of the peers that were asked. -/
def topCompacted (n : DataNode) (asked : List RecoveryState) : Nat :=
  asked.foldl (fun top rs => max top rs.snapshotManifest.lastCompactedWalSequence) n.compactedWal

/-- The snapshot that belongs to that number: of the first peer that has it, or the own one if no
peer has a larger number than the node. -/
def topSnapshot (n : DataNode) (asked : List RecoveryState) : List Stmt :=
  match asked.find? (fun rs =>
      decide (n.compactedWal < rs.snapshotManifest.lastCompactedWalSequence) &&
        rs.snapshotManifest.lastCompactedWalSequence == n.topCompacted asked) with
  | some rs => rs.snapshotSql
  | none => n.snapshotManager.snapshotSql

/-- The entries that are taken over from a peer: owned and of a request that neither the node knows
nor an owned entry of a peer has that was asked before. -/
def offers (n : DataNode) (asked : List RecoveryState) (rs : RecoveryState) : List WalEntry :=
  (n.recovered rs).filter fun e => !asked.any fun p =>
    p.walEntries.any fun d => n.ownsShard d.shardId && d.requestId == e.requestId

/-- What the round with a peer does to the numbers. -/
def round (n : DataNode) (asked : List RecoveryState) (rs : RecoveryState) : List Mark :=
  (if n.topCompacted asked < rs.snapshotManifest.lastCompactedWalSequence then
    [.installed rs.snapshotManifest.lastCompactedWalSequence] else []) ++
    (n.offers asked rs).map .taken

/-- The rounds with these peers, after those that were asked before. -/
def marksFrom (n : DataNode) : List RecoveryState → List RecoveryState → List Mark
  | _, [] => []
  | before, rs :: rest => n.round before rs ++ n.marksFrom (before ++ [rs]) rest

/-- All rounds of the call. -/
def marks (n : DataNode) (asked : List RecoveryState) : List Mark := n.marksFrom [] asked

/-- The largest bound after one more answer. -/
theorem topCompacted_append (n : DataNode) (asked : List RecoveryState) (rs : RecoveryState) :
    n.topCompacted (asked ++ [rs]) =
      max (n.topCompacted asked) rs.snapshotManifest.lastCompactedWalSequence := by
  simp [topCompacted]

variable {asked : List RecoveryState}

/-- No answer's bound is above it. -/
theorem le_topCompacted (hrs : rs ∈ asked) :
    rs.snapshotManifest.lastCompactedWalSequence ≤ n.topCompacted asked := by
  induction asked using List.reverseRecOn with
  | nil => cases hrs
  | append_singleton asked p ih =>
    rw [topCompacted_append]
    obtain hrs | hrs := List.mem_append.mp hrs
    · exact le_trans (ih hrs) (Nat.le_max_left _ _)
    · rw [List.mem_singleton.mp hrs]
      exact Nat.le_max_right _ _

/-- The largest number is that of the node or of a peer. -/
theorem exists_topCompacted (n : DataNode) (asked : List RecoveryState) :
    n.topCompacted asked = n.compactedWal ∨ ∃ rs ∈ asked,
      n.compactedWal < rs.snapshotManifest.lastCompactedWalSequence ∧
        rs.snapshotManifest.lastCompactedWalSequence = n.topCompacted asked := by
  induction asked using List.reverseRecOn with
  | nil => exact Or.inl rfl
  | append_singleton asked p ih =>
    rw [topCompacted_append]
    by_cases hle : p.snapshotManifest.lastCompactedWalSequence ≤ n.topCompacted asked
    · rw [Nat.max_eq_left hle]
      obtain heq | ⟨rs, hrs, hlt, heq⟩ := ih
      · exact Or.inl heq
      · exact Or.inr ⟨rs, List.mem_append_left _ hrs, hlt, heq⟩
    · have hlt : n.topCompacted asked < p.snapshotManifest.lastCompactedWalSequence :=
        Nat.lt_of_not_le hle
      rw [Nat.max_eq_right (Nat.le_of_lt hlt)]
      refine Or.inr ⟨p, List.mem_append_right _ List.mem_cons_self, ?_, rfl⟩
      obtain heq | ⟨_, _, hown, heq⟩ := ih
      · exact heq ▸ hlt
      · exact lt_trans hown (heq ▸ hlt)

/-- A further peer changes the snapshot exactly if its number is larger than all before. -/
theorem topSnapshot_append (n : DataNode) (asked : List RecoveryState) (rs : RecoveryState) :
    n.topSnapshot (asked ++ [rs]) =
      if n.topCompacted asked < rs.snapshotManifest.lastCompactedWalSequence then rs.snapshotSql
      else n.topSnapshot asked := by
  unfold topSnapshot
  rw [List.find?_append, topCompacted_append]
  by_cases hlt : n.topCompacted asked < rs.snapshotManifest.lastCompactedWalSequence
  · -- no peer before has the new number, and this one has
    have hnone : asked.find? (fun p =>
        decide (n.compactedWal < p.snapshotManifest.lastCompactedWalSequence) &&
          p.snapshotManifest.lastCompactedWalSequence ==
            max (n.topCompacted asked) rs.snapshotManifest.lastCompactedWalSequence) = none := by
      refine List.find?_eq_none.mpr fun p hp htest => ?_
      have hle := le_topCompacted (n := n) hp
      simp only [Bool.and_eq_true, beq_iff_eq] at htest
      have heq := htest.2
      omega
    have hown : n.compactedWal < rs.snapshotManifest.lastCompactedWalSequence := by
      obtain heq | ⟨_, _, hown, heq⟩ := n.exists_topCompacted asked
      · exact heq ▸ hlt
      · exact lt_trans hown (heq ▸ hlt)
    rw [if_pos hlt, hnone, Option.none_or, List.find?_cons_of_pos]
    simp only [Bool.and_eq_true, decide_eq_true_eq, beq_iff_eq]
    exact ⟨hown, (Nat.max_eq_right (Nat.le_of_lt hlt)).symm⟩
  · rw [if_neg hlt, Nat.max_eq_left (Nat.le_of_not_lt hlt)]
    obtain heq | ⟨p, hp, hown, heq⟩ := n.exists_topCompacted asked
    · -- the node has the largest number, and nobody is found
      have hnone : ∀ l : List RecoveryState, l.find? (fun p =>
          decide (n.compactedWal < p.snapshotManifest.lastCompactedWalSequence) &&
            p.snapshotManifest.lastCompactedWalSequence == n.topCompacted asked) = none := by
        intro l
        refine List.find?_eq_none.mpr fun p _ htest => ?_
        simp only [Bool.and_eq_true, decide_eq_true_eq, beq_iff_eq] at htest
        omega
      rw [hnone, hnone]
      rfl
    · have hsome : (asked.find? (fun p =>
          decide (n.compactedWal < p.snapshotManifest.lastCompactedWalSequence) &&
            p.snapshotManifest.lastCompactedWalSequence == n.topCompacted asked)).isSome = true :=
        List.find?_isSome.mpr ⟨p, hp, by simp [← heq, hown]⟩
      obtain ⟨q, hq⟩ := Option.isSome_iff_exists.mp hsome
      rw [hq]
      rfl

/-- No peer has a larger number than the node: nothing is installed. -/
theorem topCompacted_eq_of_le
    (h : ∀ rs ∈ asked, rs.snapshotManifest.lastCompactedWalSequence ≤ n.compactedWal) :
    n.topCompacted asked = n.compactedWal := by
  obtain heq | ⟨rs, hrs, hlt, -⟩ := n.exists_topCompacted asked
  · exact heq
  · exact absurd hlt (Nat.not_lt_of_le (h rs hrs))

/-- Where no answer is newer, the node keeps its own snapshot. -/
theorem topSnapshot_eq_of_le
    (h : ∀ rs ∈ asked, rs.snapshotManifest.lastCompactedWalSequence ≤ n.compactedWal) :
    n.topSnapshot asked = n.snapshotManager.snapshotSql := by
  have hnone : asked.find? (fun rs =>
      decide (n.compactedWal < rs.snapshotManifest.lastCompactedWalSequence) &&
        rs.snapshotManifest.lastCompactedWalSequence == n.topCompacted asked) = none := by
    refine List.find?_eq_none.mpr fun rs hrs htest => ?_
    rw [Bool.and_eq_true, decide_eq_true_eq] at htest
    exact absurd htest.1 (Nat.not_lt_of_le (h rs hrs))
  unfold topSnapshot
  rw [hnone]

/-- What an answer still offers after others were asked: entries of the node's shards whose id none
of them had. -/
theorem mem_offers {e : WalEntry} :
    e ∈ n.offers asked rs ↔ e ∈ rs.walEntries ∧ n.ownsShard e.shardId = true ∧
      n.walLog.containsRequestId e.requestId = false ∧
      ∀ p ∈ asked, ∀ d ∈ p.walEntries, n.ownsShard d.shardId = true →
        d.requestId ≠ e.requestId := by
  unfold offers
  rw [List.mem_filter, mem_recovered]
  simp [and_assoc]

/-- What is taken in a round is what the answer offers. -/
theorem taken_mem_round {e : WalEntry} :
    Mark.taken e ∈ n.round asked rs ↔ e ∈ n.offers asked rs := by
  unfold round
  rw [List.mem_append, List.mem_map_of_injective (fun _ _ h => by cases h; rfl)]
  split
  · simp
  · simp

/-- A request is taken over if some peer has an owned entry of it and the node does not know it:
then the first such peer offers it. By induction on the peers that are still to be asked. -/
theorem exists_taken_iff {before rest : List RecoveryState} {r : Option String} :
    (∃ e, Mark.taken e ∈ n.marksFrom before rest ∧ e.requestId = r) ↔
      n.walLog.containsRequestId r = false ∧
      (∀ p ∈ before, ∀ d ∈ p.walEntries, n.ownsShard d.shardId = true → d.requestId ≠ r) ∧
      ∃ p ∈ rest, ∃ d ∈ p.walEntries, n.ownsShard d.shardId = true ∧ d.requestId = r := by
  induction rest generalizing before with
  | nil => simp [marksFrom]
  | cons rs rest ih =>
    simp only [marksFrom, List.mem_append, taken_mem_round, or_and_right, exists_or, ih]
    constructor
    · rintro (⟨e, he, rfl⟩ | ⟨hunknown, hbefore, p, hp, hd⟩)
      · obtain ⟨hmem, howns, hunknown, hbefore⟩ := mem_offers.mp he
        exact ⟨hunknown, hbefore, rs, List.mem_cons_self, e, hmem, howns, rfl⟩
      · exact ⟨hunknown, fun q hq => hbefore q (Or.inl hq), p, List.mem_cons_of_mem _ hp, hd⟩
    · rintro ⟨hunknown, hbefore, p, hp, d, hd, howns, rfl⟩
      by_cases hfirst : ∃ e ∈ rs.walEntries, n.ownsShard e.shardId = true ∧
          e.requestId = d.requestId
      · obtain ⟨e, he, heowns, hid⟩ := hfirst
        exact Or.inl ⟨e, mem_offers.mpr ⟨he, heowns, hid ▸ hunknown, hid ▸ hbefore⟩, hid⟩
      · refine Or.inr ⟨hunknown, fun q hq e he heowns hid => ?_, p, ?_, d, hd, howns, rfl⟩
        · obtain hq | hq := hq
          · exact hbefore q hq e he heowns hid
          · rw [List.mem_singleton.mp hq] at he
            exact hfirst ⟨e, he, heowns, hid⟩
        · obtain rfl | hp := List.mem_cons.mp hp
          · exact absurd ⟨d, hd, howns, rfl⟩ hfirst
          · exact hp

/-- What is taken over stands in the log of a peer. -/
theorem exists_of_taken {before rest : List RecoveryState} {e : WalEntry}
    (he : Mark.taken e ∈ n.marksFrom before rest) : ∃ p ∈ rest, e ∈ p.walEntries := by
  induction rest generalizing before with
  | nil => cases he
  | cons rs rest ih =>
    obtain he | he := List.mem_append.mp he
    · exact ⟨rs, List.mem_cons_self, (mem_offers.mp (taken_mem_round.mp he)).1⟩
    · obtain ⟨p, hp, hmem⟩ := ih he
      exact ⟨p, List.mem_cons_of_mem _ hp, hmem⟩

/-- The marks of all rounds, the last one separately. -/
theorem marksFrom_append (n : DataNode) (before asked : List RecoveryState) (rs : RecoveryState) :
    n.marksFrom before (asked ++ [rs]) =
      n.marksFrom before asked ++ n.round (before ++ asked) rs := by
  induction asked generalizing before with
  | nil => simp [marksFrom]
  | cons p asked ih => simp [marksFrom, ih]

/-- The state of the node after the rounds with these peers. -/
structure Reached (n : DataNode) (asked : List RecoveryState) (m : DataNode) : Prop where
  nodeId : m.nodeId = n.nodeId
  shards : m.shards = n.shards
  compactedWal : m.compactedWal = n.topCompacted asked
  snapshotSql : m.snapshotManager.snapshotSql = n.topSnapshot asked
  lastSequence : m.walLog.lastSequence = (n.marks asked).foldl Mark.next n.walLog.lastSequence
  walFile : m.walLog.walFile =
    n.walLog.walFile ++ Mark.stored n.walLog.lastSequence (n.marks asked)
  knows : ∀ r, m.walLog.containsRequestId r = true ↔ n.walLog.containsRequestId r = true ∨
    ∃ p ∈ asked, ∃ d ∈ p.walEntries, n.ownsShard d.shardId = true ∧ d.requestId = r

/-- The entries that the code selects are those of `offers`. -/
theorem Reached.recovered (h : n.Reached asked m) (rs : RecoveryState) :
    m.recovered rs = n.offers asked rs := by
  unfold offers DataNode.recovered
  rw [List.filter_filter, List.filter_filter, List.filter_filter]
  refine List.filter_congr fun e _ => ?_
  have howns : m.ownsShard e.shardId = n.ownsShard e.shardId := by
    simp only [ownsShard, h.shards]
  have hknows := h.knows e.requestId
  rw [howns]
  cases hn : n.walLog.containsRequestId e.requestId with
  | true => simp [hknows.mpr (Or.inl hn)]
  | false =>
    have hoffered : m.walLog.containsRequestId e.requestId = asked.any (fun p =>
        p.walEntries.any fun d => n.ownsShard d.shardId && d.requestId == e.requestId) := by
      rw [Bool.eq_iff_iff, hknows, hn]
      simp
    rw [hoffered]
    simp [Bool.and_comm]

/-- One more round. The round does to the numbers what `round` says, whether or not the snapshot of
the peer is installed, and afterwards every request that the peer has offered is known. -/
theorem Reached.absorb (h : n.Reached asked m) (hrs : rs.Wf) :
    n.Reached (asked ++ [rs]) (m.absorb rs) := by
  obtain ⟨hfile, hindex, hshards⟩ := m.sameLog_installPeerSnapshotIfNewer rs
  have hnodeId : (m.installPeerSnapshotIfNewer rs).nodeId = m.nodeId := by
    unfold installPeerSnapshotIfNewer
    split
    · rfl
    · rfl
  have hfresh : ∀ e ∈ m.recovered rs,
      (m.installPeerSnapshotIfNewer rs).walLog.findByRequestId e.requestId = none := by
    intro e he
    rw [← recovered_installPeerSnapshotIfNewer] at he
    exact findByRequestId_of_not_contains (mem_recovered.mp he).2.2
  obtain ⟨hsame, hwal, hlast, hids⟩ := foldl_appendRecovered hfresh (distinct_recovered hrs)
    (fun e he => hrs.normalized e (mem_recovered.mp he).1)
  have habsorb : m.absorb rs =
      (m.recovered rs).foldl appendRecovered (m.installPeerSnapshotIfNewer rs) := by
    rw [DataNode.absorb, recovered_installPeerSnapshotIfNewer]
  rw [← habsorb] at hsame hwal hlast hids
  have hmarks : n.marks (asked ++ [rs]) = n.marks asked ++ n.round asked rs := by
    rw [marks, marksFrom_append, List.nil_append, marks]
  -- the number that the appends start from
  have hstart : (m.installPeerSnapshotIfNewer rs).walLog.lastSequence =
      (if n.topCompacted asked < rs.snapshotManifest.lastCompactedWalSequence then
        [Mark.installed rs.snapshotManifest.lastCompactedWalSequence] else []).foldl Mark.next
          ((n.marks asked).foldl Mark.next n.walLog.lastSequence) := by
    rw [lastSequence_installPeerSnapshotIfNewer, h.compactedWal, h.lastSequence]
    split
    · simp [Mark.next, Mark.count, Mark.bound]
    · rfl
  have hinstalled : Mark.stored ((n.marks asked).foldl Mark.next n.walLog.lastSequence)
      (if n.topCompacted asked < rs.snapshotManifest.lastCompactedWalSequence then
        [Mark.installed rs.snapshotManifest.lastCompactedWalSequence] else []) = [] := by
    split
    · rfl
    · rfl
  refine ⟨hsame.nodeId.trans (hnodeId.trans h.nodeId),
    hsame.shards.trans (hshards.trans h.shards), ?_, ?_, ?_, ?_, fun r => ?_⟩
  · rw [topCompacted_append, ← h.compactedWal, ← compactedWal_installPeerSnapshotIfNewer]
    unfold DataNode.compactedWal
    rw [hsame.snapshotManager]
  · rw [hsame.snapshotManager, snapshotSql_installPeerSnapshotIfNewer hrs, h.compactedWal,
      topSnapshot_append, h.snapshotSql]
  · rw [hlast, hmarks, List.foldl_append, round, List.foldl_append, hstart, h.recovered]
  · rw [hwal, hfile, hmarks, Mark.stored_append, round, Mark.stored_append, hinstalled,
      List.nil_append, hstart, h.recovered, h.walFile, List.append_assoc]
  · rw [containsRequestId_iff, hids, hindex, hwal, hfile]
    have hm := h.knows r
    rw [containsRequestId_iff] at hm
    have hstored : (∃ e ∈ Mark.stored (m.installPeerSnapshotIfNewer rs).walLog.lastSequence
        ((m.recovered rs).map .taken), e.requestId = r) →
      ∃ e ∈ m.recovered rs, e.requestId = r := by
      intro hd
      obtain ⟨e, he, hid⟩ := (Mark.exists_mem_stored_iff (·.requestId) (fun _ _ => rfl)).mp hd
      obtain ⟨e', he', heq⟩ := List.mem_map.mp he
      cases heq
      exact ⟨e, he', hid⟩
    constructor
    · rintro ((hr | ⟨e, he, rfl⟩) | ⟨hblank, e, he, rfl⟩)
      · obtain hknown | ⟨p, hp, hd⟩ := hm.mp (Or.inl hr)
        · exact Or.inl hknown
        · exact Or.inr ⟨p, List.mem_append_left _ hp, hd⟩
      · obtain ⟨hmem, howns, _⟩ := mem_recovered.mp he
        exact Or.inr ⟨rs, by simp, e, hmem, by simpa only [ownsShard, h.shards] using howns, rfl⟩
      · obtain he | he := List.mem_append.mp he
        · obtain hknown | ⟨p, hp, hd⟩ := hm.mp (Or.inr ⟨hblank, e, he, rfl⟩)
          · exact Or.inl hknown
          · exact Or.inr ⟨p, List.mem_append_left _ hp, hd⟩
        · obtain ⟨e', he', heq⟩ := hstored ⟨e, he, rfl⟩
          obtain ⟨hmem, howns, _⟩ := mem_recovered.mp he'
          exact Or.inr ⟨rs, by simp, e', hmem, by simpa only [ownsShard, h.shards] using howns, heq⟩
    · intro hr
      have hkept : n.walLog.containsRequestId r = true ∨ (∃ p ∈ asked, ∃ d ∈ p.walEntries,
          n.ownsShard d.shardId = true ∧ d.requestId = r) →
          (r ∈ m.walLog.requestIds ∨ ∃ e ∈ m.recovered rs, e.requestId = r) ∨
            blankId r = false ∧ ∃ e ∈ m.walLog.walFile ++ Mark.stored
              (m.installPeerSnapshotIfNewer rs).walLog.lastSequence
              ((m.recovered rs).map .taken), e.requestId = r := by
        intro hknown
        obtain hr | ⟨hblank, e, he, hid⟩ := hm.mpr hknown
        · exact Or.inl (Or.inl hr)
        · exact Or.inr ⟨hblank, e, List.mem_append_left _ he, hid⟩
      obtain hknown | ⟨p, hp, d, hd, howns, rfl⟩ := hr
      · exact hkept (Or.inl hknown)
      · obtain hp | hp := List.mem_append.mp hp
        · exact hkept (Or.inr ⟨p, hp, d, hd, howns, rfl⟩)
        · -- an owned entry of this peer is known already or is taken over now
          rw [List.mem_singleton.mp hp] at hd
          by_cases hcontains : m.walLog.containsRequestId d.requestId = true
          · exact hkept ((h.knows _).mp hcontains)
          · refine Or.inl (Or.inr ⟨d, mem_recovered.mpr ⟨hd, ?_, by simpa using hcontains⟩, rfl⟩)
            simpa only [ownsShard, h.shards] using howns

/-- Before the first answer nothing has changed. -/
theorem Reached.refl (n : DataNode) : n.Reached [] n where
  nodeId := rfl
  shards := rfl
  compactedWal := rfl
  snapshotSql := rfl
  lastSequence := rfl
  walFile := (List.append_nil _).symm
  knows := by simp

/-- A statement is on the list after the call: it is in the snapshot that is left, in an own entry
after the compacted number that is left, or in an entry that is taken over and stored after it. -/
def Ends (n : DataNode) (asked : List RecoveryState) (x : Stmt) : Prop :=
  x ∈ n.topSnapshot asked ∨
    (∃ e ∈ n.walLog.walFile, n.topCompacted asked < e.sequence ∧ e.stmt = x) ∨
    ∃ e, Mark.Visible n.walLog.lastSequence (n.marks asked) (n.topCompacted asked) e ∧ e.stmt = x

/-- What the replay holds after the answers, said of the node before them and of the answers alone.
-/
theorem Reached.mem_replaySql (h : n.Reached asked m) :
    x ∈ m.replaySql ↔ n.Ends asked x := by
  rw [DataNode.mem_replaySql, h.snapshotSql, h.compactedWal, h.walFile, Ends,
    ← Mark.exists_stored_iff WalEntry.stmt (fun _ _ => rfl)]
  simp only [List.mem_append, or_and_right, exists_or]

end DataNode

end DisMiniSql.Distributed
