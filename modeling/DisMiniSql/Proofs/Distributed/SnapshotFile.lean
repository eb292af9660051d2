import DisMiniSql.Proofs.Distributed.JavaText

/-!
# `DisMiniSql.Proofs.Distributed.SnapshotFile`: the round trip through `snapshot.sql`

A list of statements is written as lines and read back as lines, blank ones left out. What comes
back of a list is what comes back of its statements, one after the other
(`snapshotSql_createSnapshot`): a statement becomes its lines that are not blank. So the normalized
statements that come back as they are have one line, and are not empty (`snapshot_round_trip_iff`).

`texts_snapshotSql` compares this file with the lines that `SnapshotManager` keeps.
-/

set_option autoImplicit false

namespace DisMiniSql.Distributed

namespace Text

/-- The lines of a text that are not blank. -/
def solidLines (s : Text) : List Text :=
  (s.splitOnP isLineTerminator).filter fun line => !line.isBlank

theorem isBlank_nil : isBlank [] = true := rfl

/-- Taking a pair `"\r\n"` for one break changes blank lines only. By induction on the text; the
first line is the same on both sides, so that a character can be put in front of it. -/
theorem splitOnP_joinCrLf (s : Text) :
    ∃ first more less, s.splitOnP isLineTerminator = first :: more ∧
      (joinCrLf s).splitOnP isLineTerminator = first :: less ∧
      more.filter (fun line => !isBlank line) = less.filter fun line => !isBlank line := by
  -- the step for a character that is kept
  have hstep (c : Char) (s t : Text)
      (h : ∃ first more less, s.splitOnP isLineTerminator = first :: more ∧
        t.splitOnP isLineTerminator = first :: less ∧
        more.filter (fun line => !isBlank line) = less.filter fun line => !isBlank line) :
      ∃ first more less, (c :: s).splitOnP isLineTerminator = first :: more ∧
        (c :: t).splitOnP isLineTerminator = first :: less ∧
        more.filter (fun line => !isBlank line) = less.filter fun line => !isBlank line := by
    obtain ⟨first, more, less, hs, ht, hrest⟩ := h
    simp only [List.splitOnP_cons_eq_if_modifyHead, hs, ht]
    cases hc : isLineTerminator c
    · exact ⟨c :: first, more, less, by simp, by simp, hrest⟩
    · exact ⟨[], first :: more, first :: less, by simp, by simp, by simp [List.filter_cons, hrest]⟩
  fun_induction joinCrLf s with
  | case1 => exact ⟨[], [], [], by simp, by simp, rfl⟩
  | case2 c => exact hstep c [] [] ⟨[], [], [], by simp, by simp, rfl⟩
  | case3 c d s h ih =>
    obtain ⟨first, more, less, hs, ht, hrest⟩ := ih
    obtain ⟨rfl, rfl⟩ := h
    -- two breaks on the left: the line between them is blank
    refine ⟨[], [] :: first :: more, first :: less, ?_, ?_, ?_⟩
    · simp [List.splitOnP_cons_eq_if_modifyHead, isLineTerminator, hs]
    · simp [List.splitOnP_cons_eq_if_modifyHead, isLineTerminator, ht]
    · simp [List.filter_cons, isBlank_nil, hrest]
  | case4 c d s h ih => exact hstep c (d :: s) (joinCrLf (d :: s)) ih

/-- Reading a file and leaving out blank lines. -/
theorem filter_readAllLines (file : Text) :
    (readAllLines file).filter (fun line => !isBlank line) = solidLines file := by
  obtain ⟨first, more, less, hsplit, hjoin, hrest⟩ := splitOnP_joinCrLf file
  have hall : ((joinCrLf file).splitOnP isLineTerminator).filter (fun line => !isBlank line)
      = solidLines file := by
    simp [solidLines, hsplit, hjoin, List.filter_cons, hrest]
  unfold readAllLines
  dsimp only
  split
  · next hlast =>
    -- the piece that is dropped is empty
    rw [← hall]
    obtain ⟨init, hinit⟩ := List.getLast?_eq_some_iff.mp hlast
    simp [hinit, isBlank_nil]
  · exact hall

/-- The lines of a file that was written come from the statements. -/
theorem solidLines_writeLines (sqls : List Text) :
    solidLines (writeLines sqls) = sqls.flatMap solidLines := by
  induction sqls with
  | nil => simp [solidLines, writeLines, isBlank_nil]
  | cons sql sqls ih =>
    have hcons : writeLines (sql :: sqls) = sql ++ '\n' :: writeLines sqls := by simp [writeLines]
    rw [hcons, List.flatMap_cons, ← ih]
    simp [solidLines, List.splitOnP_append_cons, isLineTerminator]

/-- A line of a statement has no line terminator and is not blank. -/
theorem of_mem_solidLines {s line : Text} (h : line ∈ solidLines s) :
    line ≠ [] ∧ '\n' ∉ line ∧ '\r' ∉ line := by
  obtain ⟨hpiece, hblank⟩ := List.mem_filter.mp h
  refine ⟨?_, ?_, ?_⟩
  · intro hnil
    simp [hnil, isBlank_nil] at hblank
  · intro hc
    exact absurd (mem_splitOnP_spec hpiece _ hc).2 (by decide)
  · intro hc
    exact absurd (mem_splitOnP_spec hpiece _ hc).2 (by decide)

/-- A text of one line that is not blank. -/
theorem solidLines_of_not_mem {s : Text} (hn : '\n' ∉ s) (hr : '\r' ∉ s)
    (hblank : isBlank s = false) : solidLines s = [s] := by
  have hall : ∀ c ∈ s, isLineTerminator c = false := by
    intro c hc
    have h₁ : c ≠ '\n' := fun h => hn (h ▸ hc)
    have h₂ : c ≠ '\r' := fun h => hr (h ▸ hc)
    simp [isLineTerminator, h₁, h₂]
  simp [solidLines, List.splitOnP_eq_singleton hall, hblank]

end Text

/-- A normalized statement that is not empty ends with a semicolon, so it is not blank. -/
theorem isBlank_normalizeChars {raw : Text} (h : SqlUtils.normalizeChars raw ≠ []) :
    Text.isBlank (SqlUtils.normalizeChars raw) = false := by
  rcases SqlUtils.normalizeChars_cases raw with hnil | ⟨_, _, hlast⟩
  · exact absurd hnil h
  · have hmem := List.mem_of_getLast? hlast
    cases hblank : Text.isBlank (SqlUtils.normalizeChars raw) with
    | false => rfl
    | true => exact absurd (List.all_eq_true.mp hblank _ hmem) (by decide)

namespace SnapshotFile

/-- What comes back of a list of statements. -/
theorem snapshotSql_createSnapshot (m : SnapshotFile) (appliedSql : List Text) :
    (m.createSnapshot appliedSql).snapshotSql = appliedSql.flatMap Text.solidLines := by
  show (Text.readAllLines (Text.writeLines appliedSql)).filter (fun line => !Text.isBlank line) = _
  rw [Text.filter_readAllLines, Text.solidLines_writeLines]

/-- A list of normalized statements comes back from `snapshot.sql` as it was exactly if every
statement has a single line and is not empty. -/
theorem snapshot_round_trip_iff (m : SnapshotFile) (raw : List Text) :
    (m.createSnapshot (raw.map SqlUtils.normalizeChars)).snapshotSql
        = raw.map SqlUtils.normalizeChars ↔
      ∀ sql ∈ raw.map SqlUtils.normalizeChars, sql ≠ [] ∧ '\n' ∉ sql ∧ '\r' ∉ sql := by
  rw [snapshotSql_createSnapshot]
  constructor
  · intro heq sql hsql
    rw [← heq] at hsql
    obtain ⟨s, _, hline⟩ := List.mem_flatMap.mp hsql
    exact Text.of_mem_solidLines hline
  · intro hall
    induction raw with
    | nil => rfl
    | cons sql raw ih =>
      rw [List.map_cons, List.forall_mem_cons] at hall
      obtain ⟨⟨hne, hn, hr⟩, hrest⟩ := hall
      rw [List.map_cons, List.flatMap_cons, ih hrest,
        Text.solidLines_of_not_mem hn hr (isBlank_normalizeChars hne)]
      rfl

/-- A statement of two lines comes back as two statements. -/
theorem snapshot_splits_statement :
    ¬ ∀ (m : SnapshotFile) (raw : List Text),
      (m.createSnapshot (raw.map SqlUtils.normalizeChars)).snapshotSql
        = raw.map SqlUtils.normalizeChars := by
  intro h
  have hline := (snapshot_round_trip_iff {} ["insert into t\nvalues(1)".toList]).mp (h _ _)
  have hmem := (hline _ (List.mem_map_of_mem List.mem_cons_self)).2.1
  exact hmem (by decide)

end SnapshotFile

/-! ### The lines of `SnapshotManager` -/

theorem lines_eq_splitOnP (s : Text) : lines s = s.splitOnP isLineTerminator := by
  induction s with
  | nil => rfl
  | cons c s ih => rw [lines, List.splitOnP_cons_eq_if_modifyHead, ih]

/-- The texts of the lines of a statement. -/
theorem texts_number (x : Stmt) (k : Nat) (ls : List Text) :
    (Stmt.number x k ls).map (fun y => y.sql.toList) = ls := by
  induction ls generalizing k with
  | nil => rfl
  | cons l ls ih => simp [Stmt.number, ih]

/-- The model of the lines has the texts of the file. -/
theorem texts_snapshotSql (m : SnapshotManager) (f : SnapshotFile) (lastWalSequence : Nat)
    (appliedSql : List Stmt) :
    (m.createSnapshot lastWalSequence appliedSql).snapshotSql.map (fun x => x.sql.toList)
      = (f.createSnapshot (appliedSql.map fun x => x.sql.toList)).snapshotSql := by
  rw [SnapshotFile.snapshotSql_createSnapshot]
  show ((appliedSql.flatMap Stmt.toLines).filter fun line => !isBlank line.sql).map _ = _
  have hfilter (l : List Stmt) : (l.filter fun x => !isBlank x.sql).map (fun x => x.sql.toList)
      = (l.map fun x => x.sql.toList).filter fun line => !Text.isBlank line := by
    rw [List.filter_map]
    rfl
  rw [hfilter, List.map_flatMap, List.filter_flatMap, List.flatMap_map]
  refine List.flatMap_congr fun x _ => ?_
  rw [Stmt.toLines, texts_number, lines_eq_splitOnP]
  rfl

end DisMiniSql.Distributed
