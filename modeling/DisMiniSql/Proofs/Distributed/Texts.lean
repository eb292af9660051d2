import Mathlib.Data.List.TakeWhile
import DisMiniSql.Distributed.DataNode.SnapshotManager

/-!
# `DisMiniSql.Proofs.Distributed.Texts`: statements and the lines of `snapshot.sql`

`normalize` is applied by the coordinator, by `execute` and by the log. `normalize_normalize`
shows that the later applications change nothing.

A statement without a line terminator is one line of `snapshot.sql` (`toLines_of_singleLine`),
and every line read back is a statement of one line (`singleLine_of_mem_toLines`). So a list
that was read from a snapshot file is stored as it is by `createSnapshot`
(`snapshotSql_createSnapshot`).
-/

set_option autoImplicit false

namespace DisMiniSql.Distributed

namespace SqlUtils

/-- A text that neither starts nor ends with a trimmed character is its own trim. -/
theorem trim_of_ends {l : List Char} (hhead : ∀ c ∈ l.head?, isTrimmed c = false)
    (hlast : ∀ c ∈ l.getLast?, isTrimmed c = false) : trim l = l := by
  have hdrop : l.dropWhile isTrimmed = l := by
    cases l with
    | nil => rfl
    | cons c cs => simp [hhead c (by simp)]
  rw [trim, hdrop, List.rdropWhile_eq_self_iff]
  intro hl
  simp [hlast (l.getLast hl) (List.getLast?_eq_some_getLast hl)]

/-- A trim does not start with a trimmed character. -/
theorem head?_trim {l : List Char} : ∀ c ∈ (trim l).head?, isTrimmed c = false := by
  intro c hc
  have hprefix : trim l <+: l.dropWhile isTrimmed := List.rdropWhile_prefix _ _
  obtain ⟨rest, hrest⟩ := hprefix
  have hne : l.dropWhile isTrimmed ≠ [] := by
    intro hnil
    rw [hnil] at hrest
    rw [(List.append_eq_nil_iff.mp hrest).1] at hc
    simp at hc
  have hhead : (l.dropWhile isTrimmed).head? = some c := by
    rw [← hrest, List.head?_append]
    rw [Option.mem_def] at hc
    simp [hc]
  have := List.head_dropWhile_not isTrimmed hne
  rw [List.head?_eq_some_head hne, Option.some.injEq] at hhead
  rwa [hhead] at this

/-- A trim does not end with a trimmed character. -/
theorem getLast?_trim {l : List Char} : ∀ c ∈ (trim l).getLast?, isTrimmed c = false := by
  intro c hc
  have hne : trim l ≠ [] := by
    rintro hnil
    rw [hnil] at hc
    simp at hc
  have hlast := List.rdropWhile_last_not isTrimmed (l.dropWhile isTrimmed) hne
  rw [List.getLast?_eq_some_getLast hne, Option.mem_def, Option.some.injEq] at hc
  rw [← hc]
  exact Bool.eq_false_iff.mpr hlast

/-- A normalized text is empty, or it is its own trim and ends with a semicolon. -/
theorem normalizeChars_cases (l : List Char) :
    normalizeChars l = [] ∨
      (trim (normalizeChars l) = normalizeChars l ∧ normalizeChars l ≠ [] ∧
        (normalizeChars l).getLast? = some ';') := by
  unfold normalizeChars
  by_cases hnil : trim l = []
  · exact Or.inl (by simp [hnil])
  by_cases hsemi : (trim l).getLast? = some ';'
  · right
    simp only [hnil, hsemi, if_false, if_true]
    exact ⟨trim_of_ends head?_trim getLast?_trim, hnil, trivial⟩
  · right
    simp only [hnil, hsemi, if_false]
    refine ⟨trim_of_ends ?_ ?_, by simp, by simp⟩
    · intro c hc
      rw [List.head?_append_of_ne_nil _ hnil] at hc
      exact head?_trim c hc
    · intro c hc
      rw [List.getLast?_concat, Option.mem_def, Option.some.injEq] at hc
      rw [← hc]
      rfl

theorem normalizeChars_normalizeChars (l : List Char) :
    normalizeChars (normalizeChars l) = normalizeChars l := by
  obtain hnil | ⟨htrim, hne, hlast⟩ := normalizeChars_cases l
  · rw [hnil]
    rfl
  · rw [normalizeChars, htrim]
    simp [hne, hlast]

/-- `normalize` changes a normalized statement no more. -/
@[simp] theorem normalize_normalize (sql : String) : normalize (normalize sql) = normalize sql := by
  simp [normalize, normalizeChars_normalizeChars]

end SqlUtils

/-- No line of a text holds a line terminator. -/
theorem not_isLineTerminator_of_mem_lines {cs l : List Char} (hl : l ∈ lines cs) :
    ∀ c ∈ l, isLineTerminator c = false := by
  induction cs generalizing l with
  | nil =>
    rw [lines, List.mem_singleton] at hl
    simp [hl]
  | cons c cs ih =>
    rw [lines] at hl
    split at hl
    · obtain rfl | hl := List.mem_cons.mp hl
      · simp
      · exact ih hl
    · rename_i hc
      cases hls : lines cs with
      | nil => simp [hls] at hl
      | cons first others =>
        rw [hls, List.modifyHead_cons] at hl
        obtain rfl | hl := List.mem_cons.mp hl
        · intro d hd
          obtain rfl | hd := List.mem_cons.mp hd
          · simpa using hc
          · exact ih (by rw [hls]; exact List.mem_cons_self) d hd
        · exact ih (by rw [hls]; exact List.mem_cons_of_mem _ hl)

/-- A text without line terminators is one line. -/
theorem lines_of_not_isLineTerminator {cs : List Char}
    (h : ∀ c ∈ cs, isLineTerminator c = false) : lines cs = [cs] := by
  induction cs with
  | nil => rfl
  | cons c cs ih =>
    rw [lines, ih (fun d hd => h d (List.mem_cons_of_mem _ hd))]
    simp [h c List.mem_cons_self]

/-- The characters of a line are characters of the text. -/
theorem mem_of_mem_lines {cs l : List Char} (hl : l ∈ lines cs) : ∀ c ∈ l, c ∈ cs := by
  induction cs generalizing l with
  | nil =>
    rw [lines, List.mem_singleton] at hl
    simp [hl]
  | cons d cs ih =>
    rw [lines] at hl
    split at hl
    · obtain rfl | hl := List.mem_cons.mp hl
      · simp
      · exact fun c hc => List.mem_cons_of_mem _ (ih hl c hc)
    · cases hls : lines cs with
      | nil => simp [hls] at hl
      | cons first others =>
        rw [hls, List.modifyHead_cons] at hl
        obtain rfl | hl := List.mem_cons.mp hl
        · intro c hc
          obtain rfl | hc := List.mem_cons.mp hc
          · exact List.mem_cons_self
          · exact List.mem_cons_of_mem _ (ih (by rw [hls]; exact List.mem_cons_self) c hc)
        · exact fun c hc =>
            List.mem_cons_of_mem _ (ih (by rw [hls]; exact List.mem_cons_of_mem _ hl) c hc)

/-- A text has at least one line. -/
theorem lines_ne_nil (cs : List Char) : lines cs ≠ [] := by
  induction cs with
  | nil => simp [lines]
  | cons c cs ih =>
    rw [lines]
    split
    · simp
    · cases hls : lines cs with
      | nil => exact absurd hls ih
      | cons first others => simp

/-- Every character that ends no line is in a line. -/
theorem exists_mem_lines {cs : List Char} {c : Char} (hc : c ∈ cs)
    (hend : isLineTerminator c = false) : ∃ l ∈ lines cs, c ∈ l := by
  induction cs with
  | nil => cases hc
  | cons d cs ih =>
    rw [lines]
    split
    · rename_i hd
      obtain rfl | hc := List.mem_cons.mp hc
      · rw [hend] at hd
        cases hd
      · obtain ⟨l, hl, hcl⟩ := ih hc
        exact ⟨l, List.mem_cons_of_mem _ hl, hcl⟩
    · cases hls : lines cs with
      | nil => exact absurd hls (lines_ne_nil cs)
      | cons first others =>
        rw [List.modifyHead_cons]
        obtain rfl | hc := List.mem_cons.mp hc
        · exact ⟨_, List.mem_cons_self, List.mem_cons_self⟩
        · obtain ⟨l, hl, hcl⟩ := ih hc
          rw [hls] at hl
          obtain rfl | hl := List.mem_cons.mp hl
          · exact ⟨_, List.mem_cons_self, List.mem_cons_of_mem _ hcl⟩
          · exact ⟨l, List.mem_cons_of_mem _ hl, hcl⟩

namespace Stmt

/-- The statement has no line terminator. -/
def SingleLine (x : Stmt) : Prop := ∀ c ∈ x.sql.toList, isLineTerminator c = false

instance (x : Stmt) : Decidable x.SingleLine :=
  List.decidableBAll (fun c => isLineTerminator c = false) x.sql.toList

/-- What `snapshot.sql` gives back as it is: a single line that is not blank. -/
def IsLine (x : Stmt) : Prop := x.SingleLine ∧ isBlank x.sql = false

instance (x : Stmt) : Decidable x.IsLine :=
  inferInstanceAs (Decidable (x.SingleLine ∧ isBlank x.sql = false))

theorem toLines_of_singleLine {x : Stmt} (h : x.SingleLine) : x.toLines = [x] := by
  rw [toLines, lines_of_not_isLineTerminator h]
  simp [number]

/-- The numbered lines are the lines. -/
theorem sql_of_mem_number {x y : Stmt} {k : Nat} {ls : List (List Char)}
    (hy : y ∈ number x k ls) : ∃ l ∈ ls, y.sql = String.ofList l := by
  induction ls generalizing k with
  | nil => simp [number] at hy
  | cons l ls ih =>
    rw [number] at hy
    obtain rfl | hy := List.mem_cons.mp hy
    · exact ⟨l, List.mem_cons_self, rfl⟩
    · obtain ⟨l', hl', hsql⟩ := ih hy
      exact ⟨l', List.mem_cons_of_mem _ hl', hsql⟩

/-- And every line gets a number. -/
theorem exists_mem_number (x : Stmt) (k : Nat) {ls : List (List Char)} {l : List Char}
    (hl : l ∈ ls) : ∃ y ∈ number x k ls, y.sql = String.ofList l := by
  induction ls generalizing k with
  | nil => cases hl
  | cons l' ls ih =>
    rw [number]
    obtain rfl | hl := List.mem_cons.mp hl
    · exact ⟨_, List.mem_cons_self, rfl⟩
    · obtain ⟨y, hy, hsql⟩ := ih _ hl
      exact ⟨y, List.mem_cons_of_mem _ hy, hsql⟩

theorem singleLine_of_mem_toLines {x y : Stmt} (hy : y ∈ x.toLines) : y.SingleLine := by
  obtain ⟨l, hl, hsql⟩ := sql_of_mem_number hy
  intro c hc
  rw [hsql, String.toList_ofList] at hc
  exact not_isLineTerminator_of_mem_lines hl c hc

end Stmt

namespace SnapshotManager

/-- The statements of a snapshot file are single lines that are not blank. -/
theorem isLine_of_mem_snapshotSql {m : SnapshotManager}
    (hm : ∀ x ∈ m.snapshotSqlFile, x.SingleLine) {x : Stmt} (hx : x ∈ m.snapshotSql) :
    x.IsLine := by
  obtain ⟨hmem, hblank⟩ := List.mem_filter.mp hx
  exact ⟨hm x hmem, by simpa using hblank⟩

/-- `createSnapshot` leaves single lines in the file, whatever it is given. -/
theorem singleLine_createSnapshot (m : SnapshotManager) (lastWalSequence : Nat)
    (appliedSql : List Stmt) :
    ∀ x ∈ (m.createSnapshot lastWalSequence appliedSql).snapshotSqlFile, x.SingleLine := by
  intro x hx
  obtain ⟨y, _, hy⟩ := List.mem_flatMap.mp hx
  exact Stmt.singleLine_of_mem_toLines hy

/-- A single line that is not blank is read back from the snapshot. -/
theorem mem_snapshotSql_createSnapshot {m : SnapshotManager} {lastWalSequence : Nat}
    {appliedSql : List Stmt} {x : Stmt} (hx : x ∈ appliedSql) (hline : x.IsLine) :
    x ∈ (m.createSnapshot lastWalSequence appliedSql).snapshotSql := by
  refine List.mem_filter.mpr ⟨List.mem_flatMap.mpr ⟨x, hx, ?_⟩, by simp [hline.2]⟩
  rw [Stmt.toLines_of_singleLine hline.1]
  exact List.mem_singleton_self x

/-- A list of single lines that are not blank survives the snapshot file. -/
theorem snapshotSql_createSnapshot {m : SnapshotManager} {lastWalSequence : Nat}
    {appliedSql : List Stmt} (h : ∀ x ∈ appliedSql, x.IsLine) :
    (m.createSnapshot lastWalSequence appliedSql).snapshotSql = appliedSql := by
  have hlines : appliedSql.flatMap Stmt.toLines = appliedSql := by
    induction appliedSql with
    | nil => rfl
    | cons x xs ih =>
      rw [List.flatMap_cons, ih (fun y hy => h y (List.mem_cons_of_mem _ hy)),
        Stmt.toLines_of_singleLine (h x List.mem_cons_self).1]
      rfl
  show (appliedSql.flatMap Stmt.toLines).filter _ = appliedSql
  rw [hlines, List.filter_eq_self]
  intro x hx
  simp [(h x hx).2]

/-- What `snapshot.sql` gives back of a list that was written to it. -/
def readBack (appliedSql : List Stmt) : List Stmt :=
  (appliedSql.flatMap Stmt.toLines).filter (fun line => !isBlank line.sql)

theorem readBack_append (l l' : List Stmt) : readBack (l ++ l') = readBack l ++ readBack l' := by
  simp [readBack]

theorem isLine_of_mem_readBack {l : List Stmt} {x : Stmt} (hx : x ∈ readBack l) : x.IsLine := by
  obtain ⟨hmem, hblank⟩ := List.mem_filter.mp hx
  obtain ⟨y, _, hy⟩ := List.mem_flatMap.mp hmem
  exact ⟨Stmt.singleLine_of_mem_toLines hy, by simpa using hblank⟩

/-- The file is an exact store of a list exactly if it has only single lines that are not
blank. -/
theorem readBack_eq_self_iff {l : List Stmt} : readBack l = l ↔ ∀ x ∈ l, x.IsLine :=
  ⟨fun h _ hx => isLine_of_mem_readBack (h.symm ▸ hx),
    fun h => @snapshotSql_createSnapshot {} 0 l h⟩

/-- A single line that is not blank is read back, and a blank statement is dropped. -/
theorem readBack_singleton_of_isLine {x : Stmt} (h : x.IsLine) : readBack [x] = [x] :=
  readBack_eq_self_iff.mpr fun _ hy => List.mem_singleton.mp hy ▸ h

/-- Nothing is read back exactly of a blank statement. -/
theorem readBack_singleton_eq_nil_iff {x : Stmt} : readBack [x] = [] ↔ isBlank x.sql = true := by
  have hlines : readBack [x] = [] ↔ ∀ y ∈ x.toLines, isBlank y.sql = true := by
    simp [readBack]
  rw [hlines]
  constructor
  · intro h
    unfold isBlank
    rw [List.all_eq_true]
    intro c hc
    by_contra hspace
    -- the character is in a line, and that line is not blank
    have hend : isLineTerminator c = false := by
      by_contra hend
      have hend : isLineTerminator c = true := by simpa using hend
      unfold isLineTerminator at hend
      obtain hc | hc := Bool.or_eq_true_iff.mp hend
      · rw [beq_iff_eq.mp hc] at hspace
        exact hspace (by decide)
      · rw [beq_iff_eq.mp hc] at hspace
        exact hspace (by decide)
    obtain ⟨l, hl, hcl⟩ := exists_mem_lines hc hend
    obtain ⟨y, hy, hsql⟩ := Stmt.exists_mem_number x x.part hl
    have hblank := h y hy
    rw [hsql, isBlank, String.toList_ofList, List.all_eq_true] at hblank
    exact hspace (hblank c hcl)
  · intro h y hy
    obtain ⟨l, hl, hsql⟩ := Stmt.sql_of_mem_number hy
    rw [hsql, isBlank, String.toList_ofList, List.all_eq_true]
    intro c hc
    exact List.all_eq_true.mp h c (mem_of_mem_lines hl c hc)

end SnapshotManager

end DisMiniSql.Distributed
