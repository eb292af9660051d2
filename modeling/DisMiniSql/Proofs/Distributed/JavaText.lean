import DisMiniSql.Proofs.Distributed.Texts

/-!
# `DisMiniSql.Proofs.Distributed.JavaText`: trimming and splitting

What `trim` and `split` leave of a text. A piece of a split has no separator in it
(`eq_false_of_mem_splitOnP`), and lines without a line break that are written one after the other
are the lines that are read (`splitOnP_lines`). `trim_between`: blanks around a text that is its own
trim are taken away again. The parts of a pattern have an equation each.
-/

set_option autoImplicit false

namespace DisMiniSql.Distributed

open Lib (Regex)

namespace SqlUtils

theorem mem_of_mem_trim {s : Text} {c : Char} (h : c ∈ trim s) : c ∈ s :=
  (List.dropWhile_sublist _).subset ((List.rdropWhile_prefix _ _).subset h)

theorem trim_trim (s : Text) : trim (trim s) = trim s := trim_of_ends head?_trim getLast?_trim

/-- What `trim` drops, before and after a text that is its own trim. -/
theorem trim_between {l s r : Text} (hl : ∀ c ∈ l, isTrimmed c = true)
    (hr : ∀ c ∈ r, isTrimmed c = true) (h : trim s = s) : trim (l ++ (s ++ r)) = s := by
  rw [trim, List.dropWhile_append_of_pos hl]
  cases s with
  | nil =>
    rw [List.nil_append, List.rdropWhile_eq_nil_iff]
    exact fun c hc => hr c ((List.dropWhile_sublist _).subset hc)
  | cons c cs =>
    have hc : ¬ isTrimmed c = true := by
      rw [Bool.not_eq_true]
      refine head?_trim (l := c :: cs) c ?_
      rw [h]
      rfl
    rw [List.cons_append, List.dropWhile_cons_of_neg hc, ← List.cons_append]
    have hafter : (c :: cs ++ r).rdropWhile isTrimmed = (c :: cs).rdropWhile isTrimmed := by
      rw [List.rdropWhile, List.reverse_append,
        List.dropWhile_append_of_pos fun d hd => hr d (List.mem_reverse.mp hd), List.rdropWhile]
    rw [hafter]
    rw [trim, List.dropWhile_cons_of_neg hc] at h
    exact h

/-- Blanks before and after. -/
theorem trim_padded {s : Text} (h : trim s = s) (n : Nat) :
    trim (' ' :: (s ++ List.replicate n ' ')) = s := by
  refine trim_between (l := [' ']) (fun c hc => ?_) (fun c hc => ?_) h
  · rw [List.mem_singleton.mp hc]
    rfl
  · rw [List.eq_of_mem_replicate hc]
    rfl

end SqlUtils

namespace Text

variable {p : Char → Bool} {s piece : Text}

/-- By induction on the text: a character opens a piece or goes to the front of the first one. -/
theorem mem_splitOnP_spec (h : piece ∈ s.splitOnP p) :
    ∀ c ∈ piece, c ∈ s ∧ p c = false := by
  induction s generalizing piece with
  | nil =>
    rw [List.splitOnP_nil, List.mem_singleton] at h
    rw [h]
    exact fun c hc => absurd hc List.not_mem_nil
  | cons x xs ih =>
    rw [List.splitOnP_cons_eq_if_modifyHead] at h
    cases hx : p x with
    | true =>
      rw [if_pos hx, List.mem_cons] at h
      rcases h with rfl | h
      · exact fun c hc => absurd hc List.not_mem_nil
      · exact fun c hc => ⟨List.mem_cons_of_mem _ (ih h c hc).1, (ih h c hc).2⟩
    | false =>
      rw [if_neg (by rw [hx]; exact Bool.false_ne_true)] at h
      obtain ⟨head, tail, hsplit⟩ := List.exists_cons_of_ne_nil (List.splitOnP_ne_nil p xs)
      rw [hsplit, List.modifyHead_cons, List.mem_cons] at h
      intro c hc
      have hlift {piece' : Text} (hpiece : piece' ∈ xs.splitOnP p) (hc : c ∈ piece') :
          c ∈ x :: xs ∧ p c = false :=
        ⟨List.mem_cons_of_mem _ (ih hpiece c hc).1, (ih hpiece c hc).2⟩
      rcases h with rfl | h
      · rcases List.mem_cons.mp hc with rfl | hc
        · exact ⟨List.mem_cons_self, hx⟩
        · exact hlift (by rw [hsplit]; exact List.mem_cons_self) hc
      · exact hlift (by rw [hsplit]; exact List.mem_cons_of_mem _ h) hc

/-- `split` drops pieces of the plain split, and no other piece than an empty one. -/
theorem split_append (p : Char → Bool) (s : Text) :
    ∃ dropped : List Text, s.splitOnP p = split p s ++ dropped ∧ ∀ piece ∈ dropped, piece = [] := by
  unfold split
  split
  · next piece hpiece => exact ⟨[], by rw [hpiece, List.append_nil], by simp⟩
  · next hmany =>
    refine ⟨(s.splitOnP p).rtakeWhile List.isEmpty, ?_, fun piece hpiece => ?_⟩
    · exact List.rdropWhile_append_rtakeWhile.symm
    · exact List.isEmpty_iff.mp (List.mem_rtakeWhile_imp hpiece)

theorem mem_split_spec (h : piece ∈ split p s) : ∀ c ∈ piece, c ∈ s ∧ p c = false := by
  obtain ⟨dropped, hall, -⟩ := split_append p s
  exact mem_splitOnP_spec (hall ▸ List.mem_append_left _ h)

/-- Nothing is dropped after a last piece that is not empty. -/
theorem split_of_getLast? {last : Text} (h : (s.splitOnP p).getLast? = some last)
    (hne : last ≠ []) : split p s = s.splitOnP p := by
  unfold split
  split
  · next hone => exact hone.symm
  · rw [List.rdropWhile_eq_self_iff]
    intro hnil hempty
    rw [List.getLast?_eq_some_getLast hnil, Option.some.injEq] at h
    rw [h] at hempty
    exact hne (List.isEmpty_iff.mp hempty)

/-- The lines that were written. -/
theorem splitOnP_lines (hp : p '\n' = true) {lines : List Text} {last : Text}
    (hlines : ∀ line ∈ lines, ∀ c ∈ line, p c = false) (hlast : ∀ c ∈ last, p c = false) :
    (lines.flatMap (fun line => line ++ ['\n']) ++ last).splitOnP p = lines ++ [last] := by
  induction lines with
  | nil => exact List.splitOnP_eq_singleton hlast
  | cons line lines ih =>
    rw [List.forall_mem_cons] at hlines
    rw [List.flatMap_cons, List.append_assoc, List.append_assoc, List.singleton_append,
      List.splitOnP_append_cons_of_forall_mem hlines.1 '\n' hp, ih hlines.2, List.cons_append]

theorem joinCrLf_of_not_mem (h : '\r' ∉ s) : joinCrLf s = s := by
  induction s with
  | nil => rfl
  | cons c s ih =>
    have htail := ih fun hmem => h (List.mem_cons_of_mem _ hmem)
    cases s with
    | nil => rfl
    | cons d s =>
      rw [joinCrLf, if_neg ?_, htail]
      rintro ⟨rfl, -⟩
      exact h List.mem_cons_self

/-! ### Characters -/

theorem toLower_cases (c : Char) :
    (65 ≤ c.toNat ∧ c.toNat ≤ 90 ∧ c.toLower.toNat = c.toNat + 32) ∨ c.toLower = c := by
  unfold Char.toLower
  split
  · next h =>
    have h₁ : 65 ≤ c.toNat := h.1
    have h₂ : c.toNat ≤ 90 := h.2
    refine .inl ⟨h₁, h₂, ?_⟩
    show (c.val + 32).toNat = c.val.toNat + 32
    rw [UInt32.toNat_add]
    have : c.val.toNat ≤ 90 := h₂
    have h32 : (32 : UInt32).toNat = 32 := rfl
    omega
  · exact .inr rfl

theorem isAlphanum_iff {c : Char} : c.isAlphanum = true ↔
    (65 ≤ c.toNat ∧ c.toNat ≤ 90) ∨ (97 ≤ c.toNat ∧ c.toNat ≤ 122) ∨
      (48 ≤ c.toNat ∧ c.toNat ≤ 57) := by
  unfold Char.isAlphanum Char.isAlpha Char.isUpper Char.isLower Char.isDigit
  simp only [Bool.or_eq_true, Bool.and_eq_true, decide_eq_true_eq, or_assoc]
  rfl

/-! ### Patterns -/

variable {g : Regex.Groups Char}

theorem matches_word_iff {w : String} {s : Text} :
    Regex.Matches (word w) s g ↔ s.map Char.toLower = w.toList ∧ g = [] := by
  have hall (cs : List Char) (s : Text) (g : Regex.Groups Char) :
      Regex.Matches (.all (cs.map fun c => .one (·.toLower == c))) s g ↔
        s.map Char.toLower = cs ∧ g = [] := by
    induction cs generalizing s g with
    | nil =>
      rw [List.map_nil, Regex.matches_all_nil_iff, List.map_eq_nil_iff]
    | cons c cs ih =>
      rw [List.map_cons, Regex.matches_all_cons_iff]
      constructor
      · rintro ⟨s₁, s₂, g₁, g₂, rfl, rfl, h, h'⟩
        obtain ⟨d, hd, rfl, rfl⟩ := Regex.matches_one_iff.mp h
        obtain ⟨hs, rfl⟩ := (ih s₂ g₂).mp h'
        exact ⟨by rw [List.singleton_append, List.map_cons, beq_iff_eq.mp hd, hs], rfl⟩
      · rintro ⟨hs, rfl⟩
        obtain ⟨d, s, rfl, hd, hs⟩ := List.map_eq_cons_iff.mp hs
        exact ⟨[d], s, [], [], rfl, rfl, .one (beq_iff_eq.mpr hd), (ih s []).mpr ⟨hs, rfl⟩⟩
  exact hall w.toList s g

theorem matches_spaces_iff {s : Text} :
    Regex.Matches spaces s g ↔ (∀ c ∈ s, isSpace c = true) ∧ g = [] := Regex.matches_many_iff

theorem matches_spaces1_iff {s : Text} :
    Regex.Matches spaces1 s g ↔ s ≠ [] ∧ (∀ c ∈ s, isSpace c = true) ∧ g = [] :=
  Regex.matches_plus_iff

theorem matches_char_iff {c : Char} {s : Text} :
    Regex.Matches (char c) s g ↔ s = [c] ∧ g = [] := by
  rw [char, Regex.matches_one_iff]
  constructor
  · rintro ⟨d, hd, rfl, rfl⟩
    exact ⟨by rw [beq_iff_eq.mp hd], rfl⟩
  · rintro ⟨rfl, rfl⟩
    exact ⟨c, beq_iff_eq.mpr rfl, rfl, rfl⟩

end Text

end DisMiniSql.Distributed
