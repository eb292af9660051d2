import DisMiniSql.Distributed.MiniSql.ReplFraming
import DisMiniSql.Proofs.Distributed.JavaText

/-!
# `DisMiniSql.Proofs.Distributed.ReplText`: lines on the pipes

A text that is printed comes back as the lines up to the first end marker, and a text that is
written comes in as its lines. `returned_eq_iff` says which outputs come back as they were printed,
`rounds_inputLines` which texts make one round of the loop.
-/

set_option autoImplicit false

namespace DisMiniSql.Distributed

open DisMiniSql.MiniSql (ExecuteEngine)

/-! ### Lines of an output -/

theorem intercalate_cons_eq (l : Text) (ls : List Text) :
    ['\n'].intercalate (l :: ls) = l ++ ls.flatMap fun l => '\n' :: l := by
  induction ls generalizing l with
  | nil => rw [List.intercalate_singleton, List.flatMap_nil, List.append_nil]
  | cons k ls ih =>
    rw [List.intercalate_cons_cons, ih, List.flatMap_cons, List.append_assoc]
    rfl

/-- A character of the joined text is a break or one of a line. -/
theorem mem_intercalate {ls : List Text} {c : Char} (h : c ∈ ['\n'].intercalate ls) :
    c = '\n' ∨ ∃ l ∈ ls, c ∈ l := by
  cases ls with
  | nil => exact absurd h List.not_mem_nil
  | cons l ls =>
    rw [intercalate_cons_eq, List.mem_append, List.mem_flatMap] at h
    rcases h with h | ⟨k, hk, h⟩
    · exact .inr ⟨l, List.mem_cons_self, h⟩
    · rcases List.mem_cons.mp h with h | h
      · exact .inl h
      · exact .inr ⟨k, List.mem_cons_of_mem _ hk, h⟩

/-- What the reader builds from further lines. -/
theorem foldl_appendLine_of_ne_nil {output : Text} (h : output ≠ []) (ls : List Text) :
    ls.foldl appendLine output = output ++ ls.flatMap fun l => '\n' :: l := by
  induction ls generalizing output with
  | nil => rw [List.foldl_nil, List.flatMap_nil, List.append_nil]
  | cons l ls ih =>
    have hne : appendLine output l ≠ [] := by
      rw [appendLine, if_neg h]
      exact List.append_ne_nil_of_left_ne_nil (List.append_ne_nil_of_left_ne_nil h _) _
    rw [List.foldl_cons, ih hne, appendLine, if_neg h, List.flatMap_cons, List.append_assoc,
      List.append_assoc]
    rfl

/-- Empty lines in front are lost. -/
theorem foldl_appendLine (ls : List Text) :
    ls.foldl appendLine [] = ['\n'].intercalate (ls.dropWhile List.isEmpty) := by
  induction ls with
  | nil => rfl
  | cons l ls ih =>
    cases l with
    | nil => exact ih
    | cons c l =>
      rw [List.dropWhile_cons_of_neg Bool.false_ne_true, intercalate_cons_eq, List.foldl_cons]
      exact foldl_appendLine_of_ne_nil (List.cons_ne_nil c l) ls

/-- A pair `"\r\n"` is one break, and a break ends the text before it. -/
theorem joinCrLf_break (s : Text) :
    ∃ y, Text.joinCrLf (s ++ ['\n']) = y ++ ['\n'] ∧
      ∀ t, Text.joinCrLf (s ++ '\n' :: t) = y ++ '\n' :: Text.joinCrLf t := by
  have hbreak (t : Text) : Text.joinCrLf ('\n' :: t) = '\n' :: Text.joinCrLf t := by
    cases t with
    | nil => rfl
    | cons d t => rw [Text.joinCrLf, if_neg (fun h => absurd h.1 (by decide))]
  fun_induction Text.joinCrLf s with
  | case1 => exact ⟨[], rfl, hbreak⟩
  | case2 c =>
    by_cases hc : c = '\r'
    · refine ⟨[], ?_, fun t => ?_⟩
      · show Text.joinCrLf [c, '\n'] = _
        rw [Text.joinCrLf, if_pos ⟨hc, rfl⟩]
        rfl
      · show Text.joinCrLf (c :: '\n' :: t) = _
        rw [Text.joinCrLf, if_pos ⟨hc, rfl⟩]
        rfl
    · refine ⟨[c], ?_, fun t => ?_⟩
      · show Text.joinCrLf [c, '\n'] = _
        rw [Text.joinCrLf, if_neg fun h => hc h.1]
        rfl
      · show Text.joinCrLf (c :: '\n' :: t) = _
        rw [Text.joinCrLf, if_neg (fun h => hc h.1), hbreak]
        rfl
  | case3 c d s h ih =>
    obtain ⟨y, hy, hall⟩ := ih
    refine ⟨'\n' :: y, ?_, fun t => ?_⟩
    · show Text.joinCrLf (c :: d :: (s ++ ['\n'])) = _
      rw [Text.joinCrLf, if_pos h, hy]
      rfl
    · show Text.joinCrLf (c :: d :: (s ++ '\n' :: t)) = _
      rw [Text.joinCrLf, if_pos h, hall]
      rfl
  | case4 c d s h ih =>
    obtain ⟨y, hy, hall⟩ := ih
    refine ⟨c :: y, ?_, fun t => ?_⟩
    · show Text.joinCrLf (c :: d :: (s ++ ['\n'])) = _
      rw [Text.joinCrLf, if_neg h]
      exact congrArg (c :: ·) hy
    · show Text.joinCrLf (c :: d :: (s ++ '\n' :: t)) = _
      rw [Text.joinCrLf, if_neg h]
      exact congrArg (c :: ·) (hall t)

/-- The lines of a round: those of the output, and the marker. -/
theorem outputLines_printed (r : ReplRound) :
    ∃ y, outputLines r.printed = y.splitOnP isLineTerminator ++ [END_MARKER] ∧
      ('\r' ∉ r.output → y = r.output) := by
  obtain ⟨y, hy, hall⟩ := joinCrLf_break r.output
  refine ⟨y, ?_, fun hcr => ?_⟩
  · have hmarker : (END_MARKER ++ ['\n']).splitOnP isLineTerminator = [END_MARKER, []] := by
      decide +kernel
    have hjoin : Text.joinCrLf (END_MARKER ++ ['\n']) = END_MARKER ++ ['\n'] := by decide +kernel
    rw [outputLines, ReplRound.printed, hall, hjoin, List.splitOnP_append_cons _ _ (by decide),
      hmarker, List.dropLast_append_of_ne_nil (List.cons_ne_nil _ _)]
    rfl
  · have hno : '\r' ∉ r.output ++ ['\n'] := by
      rw [List.mem_append, not_or]
      exact ⟨hcr, by decide⟩
    rw [Text.joinCrLf_of_not_mem hno] at hy
    exact (List.append_cancel_right hy).symm

/-- Without carriage returns both ways of cutting into lines agree. -/
theorem splitOnP_eq_splitOn {s : Text} (h : '\r' ∉ s) :
    s.splitOnP isLineTerminator = s.splitOn '\n' := by
  induction s with
  | nil => rfl
  | cons c s ih =>
    rw [List.mem_cons, not_or] at h
    have hc : isLineTerminator c = (c == '\n') := by
      rw [isLineTerminator, beq_eq_false_iff_ne.mpr (Ne.symm h.1), Bool.or_false]
    have htail := ih h.2
    unfold List.splitOn at htail ⊢
    rw [List.splitOnP_cons_eq_if_modifyHead, List.splitOnP_cons_eq_if_modifyHead, htail, hc]

/-- An output that comes back as it was printed: no line of it is an end marker, it has no carriage
return, and it does not start with a line break. -/
structure Clean (output : Text) : Prop where
  marker : END_MARKER ∉ output.splitOn '\n'
  carriageReturn : '\r' ∉ output
  lineBreak : output.head? ≠ some '\n'

/-- The text that a call returns for a round. -/
def ReplRound.text (r : ReplRound) : Text :=
  ((outputLines r.printed).takeWhile fun line => line != END_MARKER).foldl appendLine []

/-- The lines up to the first end marker are lines of the output. -/
theorem takeWhile_marker (lines rest : List Text) :
    (lines ++ END_MARKER :: rest).takeWhile (fun line => line != END_MARKER) =
      lines.takeWhile fun line => line != END_MARKER := by
  induction lines with
  | nil => rw [List.nil_append, List.takeWhile_cons_of_neg (by decide), List.takeWhile_nil]
  | cons l lines ih =>
    rw [List.cons_append, List.takeWhile_cons, List.takeWhile_cons, ih]

theorem not_mem_of_mem_splitOnP {y l : Text} (h : l ∈ y.splitOnP isLineTerminator) :
    '\n' ∉ l ∧ '\r' ∉ l :=
  ⟨fun hc => absurd (Text.mem_splitOnP_spec h _ hc).2 (by decide),
    fun hc => absurd (Text.mem_splitOnP_spec h _ hc).2 (by decide)⟩

/-- What comes back has no carriage return and no line break in front. -/
theorem head?_intercalate {ls : List Text} (h : ∀ l ∈ ls, '\n' ∉ l) :
    (['\n'].intercalate (ls.dropWhile List.isEmpty)).head? ≠ some '\n' := by
  induction ls with
  | nil => exact Option.some_ne_none _ ∘ Eq.symm
  | cons l ls ih =>
    rw [List.forall_mem_cons] at h
    cases l with
    | nil => exact ih h.2
    | cons c l =>
      rw [List.dropWhile_cons_of_neg Bool.false_ne_true, intercalate_cons_eq]
      intro hc
      obtain rfl := Option.some.inj hc
      exact h.1 List.mem_cons_self

/-- A clean output is read back as it was written. -/
theorem text_eq_output_of_clean {r : ReplRound} (h : Clean r.output) : r.text = r.output := by
  obtain ⟨y, hlines, hy⟩ := outputLines_printed r
  obtain rfl := hy h.carriageReturn
  have hall : ∀ line ∈ r.output.splitOn '\n', (line != END_MARKER) = true := by
    intro line hline
    rw [bne_iff_ne]
    rintro rfl
    exact h.marker hline
  rw [ReplRound.text, hlines, takeWhile_marker, splitOnP_eq_splitOn h.carriageReturn,
    List.takeWhile_eq_self_iff.mpr hall, foldl_appendLine]
  -- an empty output is read as such; another one has no blank line at its start
  cases houtput : r.output with
  | nil => rfl
  | cons c cs =>
    have hc : c ≠ '\n' := by
      rintro rfl
      exact h.lineBreak (by rw [houtput]; rfl)
    -- the first line is not empty
    have hfirst : ((c :: cs).splitOn '\n').dropWhile List.isEmpty = (c :: cs).splitOn '\n' := by
      obtain ⟨l, ls, hsplit⟩ := List.exists_cons_of_ne_nil (List.splitOnP_ne_nil (· == '\n') cs)
      unfold List.splitOn
      rw [List.splitOnP_cons_eq_if_modifyHead, if_neg (by simpa using hc), hsplit,
        List.modifyHead_cons, List.dropWhile_cons_of_neg Bool.false_ne_true]
    rw [hfirst, List.intercalate_splitOn]

/-- And only a clean one is: what the reader returns has no marker, no carriage return and no blank
line at the start. -/
theorem clean_of_text_eq_output {r : ReplRound} (h : r.text = r.output) : Clean r.output := by
  obtain ⟨y, hlines, hy⟩ := outputLines_printed r
  rw [ReplRound.text, hlines, takeWhile_marker, foldl_appendLine] at h
  have hsub : (y.splitOnP isLineTerminator).takeWhile (fun line => line != END_MARKER) ⊆
      y.splitOnP isLineTerminator := (List.takeWhile_sublist _).subset
  have hcr : '\r' ∉ r.output := by
    intro hmem
    rw [← h] at hmem
    rcases mem_intercalate hmem with hbreak | ⟨l, hl, hc⟩
    · exact absurd hbreak (by decide)
    · exact (not_mem_of_mem_splitOnP (hsub ((List.dropWhile_sublist _).subset hl))).2 hc
  have hlineBreak : r.output.head? ≠ some '\n' := by
    rw [← h]
    exact head?_intercalate fun l hl => (not_mem_of_mem_splitOnP (hsub hl)).1
  refine ⟨fun hmarker => ?_, hcr, hlineBreak⟩
  obtain rfl := hy hcr
  rw [splitOnP_eq_splitOn hcr] at h hsub
  generalize hls : ((r.output.splitOn '\n').takeWhile fun line => line != END_MARKER).dropWhile
    List.isEmpty = ls at h
  have hmem : ls ⊆ (r.output.splitOn '\n').takeWhile fun line => line != END_MARKER := by
    rw [← hls]
    exact (List.dropWhile_sublist _).subset
  -- nothing read before the marker
  by_cases hnil : ls = []
  · rw [hnil] at h
    rw [← h] at hmarker
    exact absurd hmarker (by decide)
  · -- the lines that come back are all lines of the output
    have hsplit : r.output.splitOn '\n' = ls := by
      rw [← h]
      refine List.splitOn_intercalate '\n' (fun l hl => ?_) hnil
      have hpiece := hsub (hmem hl)
      rw [← splitOnP_eq_splitOn hcr] at hpiece
      exact (not_mem_of_mem_splitOnP hpiece).1
    rw [hsplit] at hmarker
    have hne := List.mem_takeWhile_imp (hmem hmarker)
    exact absurd hne (by decide)

/-- The first marker ends the answer of the first round. -/
theorem readUntilMarker_printed (r : ReplRound) (more : List Text) :
    ∃ rest, readUntilMarker (outputLines r.printed ++ more) = some (r.text, rest) ∧
      (Clean r.output → rest = more) := by
  obtain ⟨y, hlines, hy⟩ := outputLines_printed r
  have hmem : END_MARKER ∈ outputLines r.printed ++ more := by
    rw [hlines]
    exact List.mem_append_left _ (List.mem_append_right _ (List.mem_singleton_self _))
  refine ⟨((outputLines r.printed ++ more).dropWhile fun line => line != END_MARKER).tail, ?_,
    fun hclean => ?_⟩
  · rw [readUntilMarker, if_pos (List.contains_iff_mem.mpr hmem), ReplRound.text, hlines,
      List.append_assoc, List.singleton_append, takeWhile_marker, takeWhile_marker]
  · obtain rfl := hy hclean.carriageReturn
    have hall : ∀ line ∈ r.output.splitOn '\n', (line != END_MARKER) = true := by
      intro line hline
      rw [bne_iff_ne]
      rintro rfl
      exact hclean.marker hline
    rw [hlines, splitOnP_eq_splitOn hclean.carriageReturn, List.append_assoc,
      List.singleton_append, List.dropWhile_append_of_pos hall,
      List.dropWhile_cons_of_neg (by decide), List.tail_cons]

/-! ### Lines of the input -/

/-- The line that is executed first. -/
def firstLine (text : Text) : Text := text.takeWhile fun c => c != '\n'

theorem firstLine_of_not_mem {text : Text} (h : '\n' ∉ text) : firstLine text = text := by
  refine List.takeWhile_eq_self_iff.mpr fun c hc => ?_
  rw [bne_iff_ne]
  rintro rfl
  exact h hc

theorem firstLine_break {a : Text} (ha : '\n' ∉ a) (b : Text) : firstLine (a ++ '\n' :: b) = a := by
  have hself := firstLine_of_not_mem ha
  unfold firstLine at hself ⊢
  rw [List.takeWhile_append, hself, if_pos rfl, List.takeWhile_cons_of_neg (by decide),
    List.append_nil]

theorem inputLines_of_not_mem {text : Text} (h : '\n' ∉ text) : inputLines text = [text] := by
  refine List.splitOnP_eq_singleton fun c hc => ?_
  rw [beq_eq_false_iff_ne]
  rintro rfl
  exact h hc

/-- Otherwise its first line and the lines of the rest. -/
theorem inputLines_of_mem {text : Text} (h : '\n' ∈ text) :
    ∃ rest, text = firstLine text ++ '\n' :: rest ∧
      inputLines text = firstLine text :: inputLines rest := by
  obtain ⟨a, b, rfl, ha⟩ := List.eq_append_cons_of_mem h
  have hfirst := firstLine_break ha b
  refine ⟨b, by rw [hfirst], ?_⟩
  rw [hfirst]
  refine List.splitOnP_append_cons_of_forall_mem (fun c hc => ?_) '\n' (by decide) b
  rw [beq_eq_false_iff_ne]
  rintro rfl
  exact ha hc

theorem exists_line_of_mem {text : Text} {c : Char} (h : c ∈ text) (hc : c ≠ '\n') :
    ∃ line ∈ inputLines text, c ∈ line := by
  have hjoin : ['\n'].intercalate (inputLines text) = text := List.intercalate_splitOn '\n'
  rw [← hjoin] at h
  exact (mem_intercalate h).resolve_left hc

variable {τ : Type} {m : Repl τ} {s : ExecuteEngine τ}

/-- MiniSQL ends after the line, and prints its marker. -/
def Quits (m : Repl τ) (s : ExecuteEngine τ) (line : Text) : Prop :=
  ExecuteEngine.command m.parse (String.ofList line) = some .quit ∧ s.dropped = false

/-- The round of a line. -/
def roundOf (m : Repl τ) (s : ExecuteEngine τ) (line : Text) : ReplRound :=
  { line := line, output := (m.print s (String.ofList line)).toList }

theorem ofList_ne_empty {line : Text} (h : line ≠ []) : String.ofList line ≠ "" := by
  intro heq
  have hnil := congrArg String.toList heq
  rw [String.toList_ofList] at hnil
  exact h hnil

variable {last : Option (ExecuteEngine τ)} {rounds : List ReplRound}

theorem rounds_eq_some {lines : List Text} :
    m.rounds s lines = some (last, rounds) ↔ m.loop s lines = (rounds, .ok last) := by
  unfold Repl.rounds
  generalize m.loop s lines = result
  obtain ⟨rounds', message | last'⟩ := result
  · simp
  · simp [and_comm]

/-- The rounds of a line and of the lines after it. -/
theorem rounds_cons {line : Text} {lines : List Text} (hline : line ≠ [])
    (h : m.rounds s (line :: lines) = some (last, rounds)) :
    (Quits m s line ∧ rounds = [roundOf m s line]) ∨
      ¬ Quits m s line ∧ ∃ next more, m.rounds next lines = some (last, more) ∧
        rounds = roundOf m s line :: more := by
  rw [rounds_eq_some] at h
  unfold Repl.loop Repl.answer at h
  rw [if_neg (ofList_ne_empty hline)] at h
  by_cases hquit : ExecuteEngine.command m.parse (String.ofList line) = some .quit ∧
      s.dropped = false
  · rw [if_pos hquit] at h
    exact .inl ⟨hquit, (Prod.mk.inj h).1.symm⟩
  · rw [if_neg hquit] at h
    cases hexec : s.executeCommand m.parse m.db (String.ofList line) with
    | none =>
      rw [hexec] at h
      cases (Prod.mk.inj h).2
    | some next =>
      rw [hexec] at h
      obtain ⟨hrounds, hlast⟩ := Prod.mk.inj h
      exact .inr ⟨hquit, next, (m.loop next lines).1, rounds_eq_some.mpr (Prod.ext rfl hlast),
        hrounds.symm⟩

/-- A line that is not empty has a round. -/
theorem rounds_ne_nil {lines : List Text} (hlines : ∃ line ∈ lines, line ≠ [])
    (h : m.rounds s lines = some (last, rounds)) : rounds ≠ [] := by
  induction lines generalizing s with
  | nil =>
    obtain ⟨line, hmem, -⟩ := hlines
    exact absurd hmem List.not_mem_nil
  | cons line lines ih =>
    by_cases hline : line = []
    · obtain ⟨other, hmem, hne⟩ := hlines
      have hother : other ∈ lines := by
        rcases List.mem_cons.mp hmem with rfl | hmem
        · exact absurd hline hne
        · exact hmem
      rw [hline] at h
      exact ih ⟨other, hother, hne⟩ h
    · rcases rounds_cons hline h with ⟨-, rfl⟩ | ⟨-, next, more, -, rfl⟩
      · exact List.cons_ne_nil _ _
      · exact List.cons_ne_nil _ _

/-- A text that begins with no line break and ends with a semicolon: the rounds are that of its
first line, and more unless it is the only line or MiniSQL quits on it. -/
theorem rounds_inputLines {text : Text} (hne : firstLine text ≠ [])
    (hlast : text.getLast? = some ';') (h : m.rounds s (inputLines text) = some (last, rounds)) :
    ∃ more, rounds = roundOf m s (firstLine text) :: more ∧
      (more = [] ↔ '\n' ∉ text ∨ Quits m s (firstLine text)) := by
  by_cases hbreak : '\n' ∈ text
  · obtain ⟨rest, htext, hlines⟩ := inputLines_of_mem hbreak
    rw [hlines] at h
    rcases rounds_cons hne h with ⟨hquit, rfl⟩ | ⟨hquit, next, more, hmore, rfl⟩
    · exact ⟨[], rfl, fun _ => .inr hquit, fun _ => rfl⟩
    · refine ⟨more, rfl, fun hnil => ?_, fun hor => absurd hor ?_⟩
      swap
      · exact not_or.mpr ⟨not_not.mpr hbreak, hquit⟩
      -- the semicolon at the end is in a line of its own
      have hsemicolon : ';' ∈ rest := by
        rw [htext, List.getLast?_append, List.getLast?_cons] at hlast
        cases hr : rest.getLast? with
        | none =>
          rw [hr] at hlast
          have hchar : '\n' = ';' := Option.some.inj hlast
          exact absurd hchar (by decide)
        | some c =>
          rw [hr] at hlast
          obtain rfl := Option.some.inj hlast
          exact List.mem_of_getLast? hr
      obtain ⟨line, hline, hmem⟩ := exists_line_of_mem hsemicolon (by decide)
      exact absurd hnil (rounds_ne_nil ⟨line, hline, List.ne_nil_of_mem hmem⟩ hmore)
  · rw [inputLines_of_not_mem hbreak] at h
    rw [firstLine_of_not_mem hbreak] at hne ⊢
    rcases rounds_cons hne h with ⟨hquit, rfl⟩ | ⟨hquit, next, more, hmore, rfl⟩
    · exact ⟨[], rfl, fun _ => .inr hquit, fun _ => rfl⟩
    · obtain ⟨-, rfl⟩ := Prod.mk.inj (Option.some.inj hmore)
      exact ⟨[], rfl, fun _ => .inl hbreak, fun _ => rfl⟩

end DisMiniSql.Distributed
