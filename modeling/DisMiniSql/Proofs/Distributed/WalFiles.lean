import DisMiniSql.Distributed.DataNode.WalFiles
import DisMiniSql.Proofs.Distributed.SnapshotList

/-!
# `DisMiniSql.Proofs.Distributed.WalFiles`: the log and its index after any crash

`Logged` is about `wal.jsonl` alone: the entries are in the order of their numbers and no two
have the same request. `Indexed` is about the number and the ids in memory: they cover every
entry that was ever appended, also those that a compaction has removed.

A crash may leave a log that is one entry ahead of its index. The missing number and id are
then still in the file, and the constructor takes them from there. A compaction removes
entries only after their numbers and ids are in the index on the disk. So `WalFiles.Sound` holds
after every run (`wal_invariant`).
-/

set_option autoImplicit false

namespace DisMiniSql.Distributed

open DisMiniSql.Lib (Steps)

namespace WalLog

variable {w w' : WalLog} {e : WalEntry}

/-- The file and the entries that were ever appended. -/
structure Logged (w : WalLog) : Prop where
  /-- The numbers grow with every append. -/
  sorted : w.history.Pairwise (fun a b => a.sequence < b.sequence)
  /-- The file has some of the entries, in the order of the appends. -/
  kept : w.walFile.Sublist w.history
  distinct : w.walFile.Pairwise
    (fun a b => blankId a.requestId = false → a.requestId ≠ b.requestId)

/-- The number and the ids in memory cover all entries. -/
structure Indexed (w : WalLog) : Prop where
  last : ∀ e ∈ w.history, e.sequence ≤ w.lastSequence
  ids : ∀ e ∈ w.history, blankId e.requestId = false → e.requestId ∈ w.requestIds

theorem Logged.walFile_sorted (h : w.Logged) :
    w.walFile.Pairwise (fun a b => a.sequence < b.sequence) :=
  h.sorted.sublist h.kept

theorem Logged.congr (h : w.Logged) (hfile : w'.walFile = w.walFile)
    (hhistory : w'.history = w.history) : w'.Logged :=
  ⟨hhistory ▸ h.sorted, hfile ▸ hhistory ▸ h.kept, hfile ▸ h.distinct⟩

/-- Appending keeps it: the new entry has the next number. -/
theorem Logged.appendRaw (h : w.Logged) (hlast : w.Indexed) (he : w.Appends e) :
    (w.appendRaw e).Logged where
  sorted := by
    refine List.pairwise_append.mpr ⟨h.sorted, List.pairwise_singleton _ _, ?_⟩
    intro a ha b hb
    rw [List.mem_singleton.mp hb]
    exact lt_of_le_of_lt (hlast.last a ha) he.after
  kept := h.kept.append (List.Sublist.refl [e])
  distinct := by
    refine List.pairwise_append.mpr ⟨h.distinct, List.pairwise_singleton _ _, ?_⟩
    intro a ha b hb hblank hab
    rw [List.mem_singleton.mp hb] at hab
    obtain hb | hb := findByRequestId_eq_none_iff.mp he.fresh
    · rw [hab, hb] at hblank
      exact absurd hblank (by simp)
    · exact hb a ha hab

/-- And keeps the index in step. -/
theorem Indexed.appendRaw (h : w.Indexed) (he : w.Appends e) : (w.appendRaw e).Indexed where
  last := by
    intro a ha
    show a.sequence ≤ e.sequence
    obtain ha | ha := List.mem_append.mp ha
    · exact (h.last a ha).trans (Nat.le_of_lt he.after)
    · rw [List.mem_singleton.mp ha]
  ids := by
    intro a ha hblank
    obtain ha | ha := List.mem_append.mp ha
    · exact List.mem_insert_of_mem (h.ids a ha hblank)
    · rw [List.mem_singleton.mp ha]
      exact List.mem_insert_self

/-- A compaction of a sorted file drops the entries up to a number. -/
theorem Logged.walFile_compactThrough (h : w.Logged) (s : Nat) :
    (w.compactThrough s).walFile = w.walFile.filter (fun e => s < e.sequence) := by
  have hsorted := h.walFile_sorted
  show ((w.readAll.filter _).insertionSort _) = _
  rw [DataNode.readAll_of_sorted hsorted]
  refine List.Pairwise.insertionSort_eq ?_
  exact (hsorted.filter _).imp fun hab => Nat.le_of_lt hab

theorem Logged.compactThrough (h : w.Logged) (s : Nat) : (w.compactThrough s).Logged where
  sorted := h.sorted
  kept := by
    rw [h.walFile_compactThrough]
    exact List.filter_sublist.trans h.kept
  distinct := by
    rw [h.walFile_compactThrough]
    exact h.distinct.filter _

/-- What a method does to the log: nothing to the entries, one more entry, or a compaction. -/
theorem apply_cases (w : WalLog) (o : WalOp) :
    (∃ s, o.apply w = w.advanceLastSequence s) ∨ (∃ e, w.Appends e ∧ o.apply w = w.appendRaw e) ∨
      ∃ s, o.apply w = w.compactThrough s := by
  have hsame : w = w.advanceLastSequence 0 := rfl
  cases o with
  | append r s i q =>
    obtain ⟨heq, _⟩ | ⟨happ, heq⟩ := w.append_cases r s i q
    · exact .inl ⟨0, heq.trans hsame⟩
    · exact .inr (.inl ⟨_, happ, heq⟩)
  | appendRecovered p =>
    obtain ⟨heq, _⟩ | ⟨happ, heq⟩ := w.appendRecovered_cases p
    · exact .inl ⟨0, heq.trans hsame⟩
    · exact .inr (.inl ⟨_, happ, heq⟩)
  | advanceLastSequence s => exact .inl ⟨s, rfl⟩
  | compactThrough s => exact .inr (.inr ⟨s, rfl⟩)

/-- Moving the last number touches no file. -/
theorem advanceLastSequence_files (w : WalLog) (s : Nat) :
    (w.advanceLastSequence s).walFile = w.walFile ∧
      (w.advanceLastSequence s).history = w.history ∧
      (w.advanceLastSequence s).requestIds = w.requestIds ∧
      w.lastSequence ≤ (w.advanceLastSequence s).lastSequence := by
  unfold advanceLastSequence
  split
  · rename_i hlt
    exact ⟨rfl, rfl, rfl, Nat.le_of_lt hlt⟩
  · exact ⟨rfl, rfl, rfl, Nat.le_refl _⟩

theorem Logged.apply (h : w.Logged) (hindexed : w.Indexed) (o : WalOp) : (o.apply w).Logged := by
  obtain ⟨s, heq⟩ | ⟨e, he, heq⟩ | ⟨s, heq⟩ := apply_cases w o
  · rw [heq]
    exact h.congr (w.advanceLastSequence_files s).1 (w.advanceLastSequence_files s).2.1
  · rw [heq]
    exact h.appendRaw hindexed he
  · rw [heq]
    exact h.compactThrough s

/-- And the index in step. -/
theorem Indexed.apply (h : w.Indexed) (o : WalOp) : (o.apply w).Indexed := by
  obtain ⟨s, heq⟩ | ⟨e, he, heq⟩ | ⟨s, heq⟩ := apply_cases w o
  · obtain ⟨_, hhistory, hids, hlast⟩ := w.advanceLastSequence_files s
    rw [heq]
    refine ⟨fun e he => ?_, fun e he hblank => ?_⟩
    · exact (h.last e (hhistory ▸ he)).trans hlast
    · exact hids ▸ h.ids e (hhistory ▸ he) hblank
  · rw [heq]
    exact h.appendRaw he
  · rw [heq]
    exact ⟨h.last, h.ids⟩

theorem le_lastSequence_apply (w : WalLog) (o : WalOp) :
    w.lastSequence ≤ (o.apply w).lastSequence := by
  obtain ⟨s, heq⟩ | ⟨e, he, heq⟩ | ⟨s, heq⟩ := apply_cases w o
  · rw [heq]
    exact (w.advanceLastSequence_files s).2.2.2
  · rw [heq]
    exact Nat.le_of_lt he.after
  · rw [heq]
    exact Nat.le_refl _

/-- An entry that is new in the log of a method is in its file. -/
theorem mem_history_apply {o : WalOp} (he : e ∈ (o.apply w).history) :
    e ∈ w.history ∨ e ∈ (o.apply w).walFile := by
  obtain ⟨s, heq⟩ | ⟨d, hd, heq⟩ | ⟨s, heq⟩ := apply_cases w o
  · rw [heq, (w.advanceLastSequence_files s).2.1] at he
    exact .inl he
  · rw [heq] at he ⊢
    obtain he | he := List.mem_append.mp he
    · exact .inl he
    · exact .inr (List.mem_append_right _ he)
  · rw [heq] at he
    exact .inl he

section LoadIndex

/-- The largest number of a list, and of what came before. -/
theorem le_foldl_max (l : List WalEntry) (k : Nat) :
    k ≤ l.foldl (fun last e => max last e.sequence) k ∧
      ∀ e ∈ l, e.sequence ≤ l.foldl (fun last e => max last e.sequence) k := by
  induction l generalizing k with
  | nil => simp
  | cons d l ih =>
    rw [List.foldl_cons]
    obtain ⟨hk, hl⟩ := ih (max k d.sequence)
    refine ⟨(Nat.le_max_left _ _).trans hk, fun e he => ?_⟩
    obtain rfl | he := List.mem_cons.mp he
    · exact (Nat.le_max_right _ _).trans hk
    · exact hl e he

theorem mem_foldl_insert {r : Option String} (rs ids : List (Option String)) :
    r ∈ rs.foldl (fun ids r => ids.insert r) ids ↔ r ∈ ids ∨ r ∈ rs := by
  induction rs generalizing ids with
  | nil => simp
  | cons q rs ih =>
    rw [List.foldl_cons, ih, List.mem_insert_iff, List.mem_cons]
    tauto

/-- The constructor covers what the index covers, and the entries of the file. -/
theorem indexed_loadIndex (hlast : ∀ e ∈ w.history, e.sequence ≤ w.lastSequence ∨ e ∈ w.walFile)
    (hids : ∀ e ∈ w.history, blankId e.requestId = false →
      e.requestId ∈ w.requestIds ∨ e ∈ w.walFile) : w.loadIndex.Indexed where
  last := by
    intro e he
    obtain ⟨hindex, hfile⟩ := le_foldl_max w.readAll w.lastSequence
    obtain hle | hmem := hlast e he
    · exact hle.trans hindex
    · exact hfile e (mem_readAll.mpr hmem)
  ids := by
    intro e he hblank
    refine (mem_foldl_insert _ _).mpr ?_
    obtain hmem | hmem := hids e he hblank
    · exact .inl hmem
    · refine .inr (List.mem_filter.mpr ⟨List.mem_map_of_mem (mem_readAll.mpr hmem), ?_⟩)
      rw [hblank]
      rfl

end LoadIndex

end WalLog

namespace WalFiles

variable {f : WalFiles}

/-- What holds between two methods. -/
structure Sound (f : WalFiles) : Prop where
  logged : f.walLog.Logged
  indexed : f.walLog.Indexed
  /-- The index on the disk is the one in memory. -/
  index : f.indexFile = some ⟨f.walLog.lastSequence, f.walLog.requestIds⟩

/-- The constructor on a log whose index has everything that the file does not have. -/
theorem Sound.load {w w' : WalLog} (hw : w.Indexed) (hw' : w'.Logged)
    (hhistory : ∀ e ∈ w'.history, e ∈ w.history ∨ e ∈ w'.walFile) :
    (load w' (some ⟨w.lastSequence, w.requestIds⟩)).Sound where
  logged := hw'.congr rfl rfl
  indexed := by
    refine WalLog.indexed_loadIndex (fun e he => ?_) (fun e he hblank => ?_)
    · obtain he | he := hhistory e he
      · exact .inl (hw.last e he)
      · exact .inr he
    · obtain he | he := hhistory e he
      · exact .inl (hw.ids e he hblank)
      · exact .inr he
  index := rfl

theorem Sound.new : new.Sound where
  logged := ⟨List.Pairwise.nil, List.Sublist.refl [], List.Pairwise.nil⟩
  indexed := WalLog.indexed_loadIndex (fun _ he => absurd he List.not_mem_nil)
    (fun _ he => absurd he List.not_mem_nil)
  index := rfl

/-- An operation, or a crash between its two writes. -/
theorem Sound.step (h : f.Sound) (a : WalAction) : (f.step a).Sound := by
  cases a with
  | op o =>
    show WalFiles.Sound (if _ then _ else _)
    split
    · exact ⟨h.logged.apply h.indexed o, h.indexed.apply o, rfl⟩
    · exact h
  | reload =>
    show (WalFiles.load f.walLog f.indexFile).Sound
    rw [h.index]
    exact .load h.indexed h.logged fun e he => .inl he
  | crash o written =>
    show (WalFiles.load _ f.indexFile).Sound
    rw [h.index]
    cases written with
    | false => exact .load h.indexed h.logged fun e he => .inl he
    | true =>
      -- the entry that the index misses is in the file
      exact .load h.indexed (h.logged.apply h.indexed o) fun e he => WalLog.mem_history_apply he

theorem Sound.run (actions : List WalAction) : (actions.foldl WalFiles.step WalFiles.new).Sound :=
  (Steps.foldl WalFiles.step WalFiles.new actions).invariant
    (fun _ a _ h heq => heq ▸ h.step a) Sound.new

/-- The number never goes back. -/
theorem Sound.le_lastSequence_step (h : f.Sound) (a : WalAction) :
    f.walLog.lastSequence ≤ (f.step a).walLog.lastSequence := by
  have hload : ∀ w : WalLog,
      f.walLog.lastSequence ≤ (WalFiles.load w f.indexFile).walLog.lastSequence := by
    intro w
    rw [h.index]
    exact (WalLog.le_foldl_max _ _).1
  cases a with
  | op o =>
    show f.walLog.lastSequence ≤ WalLog.lastSequence (WalFiles.walLog (if _ then _ else _))
    split
    · exact f.walLog.le_lastSequence_apply o
    · exact Nat.le_refl _
  | reload => exact hload f.walLog
  | crash o written => exact hload _

/-- The log and its index after any sequence of methods, reloads and crashes between the two
files. The numbers of the log grow in the order of the appends, and those in the file are among
them; `lastSequence` is not smaller than any number that was ever assigned, and no step makes it
smaller; no two entries of the file have the same id; and the ids have every id that was ever
appended. -/
theorem wal_invariant (actions : List WalAction) (a : WalAction) :
    let f := actions.foldl step new
    f.walLog.walFile.Pairwise (fun a b => a.sequence < b.sequence) ∧
      f.walLog.walFile.Sublist f.walLog.history ∧
      f.walLog.history.Pairwise (fun a b => a.sequence < b.sequence) ∧
      (∀ e ∈ f.walLog.history, e.sequence ≤ f.walLog.lastSequence) ∧
      f.walLog.lastSequence ≤ (f.step a).walLog.lastSequence ∧
      f.walLog.walFile.Pairwise (fun a b => blankId a.requestId = false →
        a.requestId ≠ b.requestId) ∧
      ∀ e ∈ f.walLog.history, blankId e.requestId = false →
        e.requestId ∈ f.walLog.requestIds := by
  have h := Sound.run actions
  exact ⟨h.logged.walFile_sorted, h.logged.kept, h.logged.sorted, h.indexed.last,
    h.le_lastSequence_step a, h.logged.distinct, h.indexed.ids⟩

end WalFiles

end DisMiniSql.Distributed
