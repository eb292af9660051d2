import Mathlib.Data.Set.Insert

/-!
# `DisMiniSql.Lib.Tiling`: intervals that tile a range

The intervals from `off i` on, each `len i` long, for the indices `i` of a set. They tile `[lo, hi)`
if they are disjoint and cover it. `Tiles.push` adds an interval below the others, and
`Tiles.resize` gives one a new length and slides everything below it.
-/

set_option autoImplicit false

namespace DisMiniSql.Lib

variable {ι : Type}

/-- The intervals of the indices in `s` are not empty, are disjoint, and cover `[lo, hi)` and
nothing else. -/
structure Tiles (s : Set ι) (off len : ι → Nat) (lo hi : Nat) : Prop where
  inside : ∀ i ∈ s, 0 < len i ∧ lo ≤ off i ∧ off i + len i ≤ hi
  disjoint : ∀ i ∈ s, ∀ j ∈ s, i ≠ j → off i + len i ≤ off j ∨ off j + len j ≤ off i
  cover : ∀ a, lo ≤ a → a < hi → ∃ i ∈ s, off i ≤ a ∧ a < off i + len i

namespace Tiles

variable {s t : Set ι} {off off' len len' : ι → Nat} {lo lo' hi : Nat}

/-- Nothing tiles the empty interval. -/
theorem empty (off len : ι → Nat) (lo : Nat) : Tiles ∅ off len lo lo where
  inside := fun _ h => h.elim
  disjoint := fun _ h => h.elim
  cover := fun _ hlo hhi => absurd hhi (Nat.not_lt_of_le hlo)

/-- Only the intervals of the indices in the set matter. -/
theorem congr (h : Tiles s off len lo hi) (hs : t = s)
    (hsame : ∀ i ∈ s, off' i = off i ∧ len' i = len i) : Tiles t off' len' lo hi := by
  subst hs
  refine ⟨fun i hi => ?_, fun i hi j hj hij => ?_, fun a hlo hhi => ?_⟩
  · rw [(hsame i hi).1, (hsame i hi).2]
    exact h.inside i hi
  · rw [(hsame i hi).1, (hsame i hi).2, (hsame j hj).1, (hsame j hj).2]
    exact h.disjoint i hi j hj hij
  · obtain ⟨i, hi, ha⟩ := h.cover a hlo hhi
    refine ⟨i, hi, ?_⟩
    rw [(hsame i hi).1, (hsame i hi).2]
    exact ha

/-- A new interval ends where the others begin. -/
theorem push (h : Tiles s off len lo hi) (off' len' : ι → Nat) {k : ι} (hk : k ∉ s)
    (hpos : 0 < len' k) (hend : off' k + len' k = lo) (hlo : lo ≤ hi)
    (hsame : ∀ i ∈ s, off' i = off i ∧ len' i = len i) :
    Tiles (insert k s) off' len' (off' k) hi where
  inside := by
    rintro i (rfl | hi)
    · exact ⟨hpos, Nat.le_refl _, hend.trans_le hlo⟩
    · have hold := h.inside i hi
      rw [(hsame i hi).1, (hsame i hi).2]
      omega
  disjoint := by
    rintro i (rfl | hi) j (rfl | hj) hij
    · exact absurd rfl hij
    · have hold := h.inside j hj
      rw [(hsame j hj).1]
      omega
    · have hold := h.inside i hi
      rw [(hsame i hi).1]
      omega
    · rw [(hsame i hi).1, (hsame i hi).2, (hsame j hj).1, (hsame j hj).2]
      exact h.disjoint i hi j hj hij
  cover := by
    intro a hlow hhigh
    by_cases ha : a < lo
    · exact ⟨k, Set.mem_insert k s, hlow, hend ▸ ha⟩
    · obtain ⟨i, hi, hin⟩ := h.cover a (Nat.le_of_not_lt ha) hhigh
      refine ⟨i, Set.mem_insert_of_mem k hi, ?_⟩
      rw [(hsame i hi).1, (hsame i hi).2]
      exact hin

/-- The interval of `k` becomes `len' k` long, and is gone for the length zero. Its end stays, and
the intervals below it slide with its beginning. -/
theorem resize (h : Tiles s off len lo hi) (off' len' : ι → Nat) {k : ι} (hk : k ∈ s)
    (hroom : len' k ≤ lo + len k) (ht : ∀ i, i ∈ t ↔ i ∈ s ∧ (i = k → 0 < len' k))
    (hlen : ∀ i ∈ s, i ≠ k → len' i = len i)
    (hoff : ∀ i ∈ t, off' i = if off i < off k + len k then off i + len k - len' k else off i) :
    Tiles t off' len' (lo + len k - len' k) hi := by
  have hkin := h.inside k hk
  -- an index in `t` is `k`, or an interval that lies below it or above it
  have hcases : ∀ i ∈ t, (i = k ∧ 0 < len' k ∧ off' i = off k + len k - len' k) ∨
      (i ≠ k ∧ i ∈ s ∧ len' i = len i ∧ off i + len i ≤ off k ∧
        off' i = off i + len k - len' k) ∨
      (i ≠ k ∧ i ∈ s ∧ len' i = len i ∧ off k + len k ≤ off i ∧ off' i = off i) := by
    intro i hi
    obtain ⟨his, hpos⟩ := (ht i).mp hi
    have hi' := hoff i hi
    by_cases hik : i = k
    · subst hik
      rw [if_pos (by omega)] at hi'
      exact .inl ⟨rfl, hpos rfl, hi'⟩
    · have hin := h.inside i his
      rcases h.disjoint i his k hk hik with hbelow | habove
      · rw [if_pos (by omega)] at hi'
        exact .inr (.inl ⟨hik, his, hlen i his hik, hbelow, hi'⟩)
      · rw [if_neg (by omega)] at hi'
        exact .inr (.inr ⟨hik, his, hlen i his hik, habove, hi'⟩)
  refine ⟨fun i hi => ?_, fun i hi j hj hij => ?_, fun a hlow hhigh => ?_⟩
  · rcases hcases i hi with ⟨rfl, hpos, ho⟩ | ⟨_, his, hl, hbelow, ho⟩ | ⟨_, his, hl, habove, ho⟩
    · omega
    · have hin := h.inside i his
      omega
    · have hin := h.inside i his
      omega
  · rcases hcases i hi with ⟨hi', _, hoi⟩ | ⟨_, his, hli, hbi, hoi⟩ | ⟨_, his, hli, hai, hoi⟩
    · rcases hcases j hj with ⟨hj', _, _⟩ | ⟨_, hjs, hlj, hbj, hoj⟩ | ⟨_, hjs, hlj, haj, hoj⟩
      · exact absurd (hi'.trans hj'.symm) hij
      · have hin := h.inside j hjs
        omega
      · subst hi'
        omega
    · rcases hcases j hj with ⟨hj', _, hoj⟩ | ⟨_, hjs, hlj, hbj, hoj⟩ | ⟨_, hjs, hlj, haj, hoj⟩
      · have hin := h.inside i his
        omega
      · have hin := h.inside i his
        have hjn := h.inside j hjs
        have hdis := h.disjoint i his j hjs hij
        omega
      · have hin := h.inside i his
        omega
    · rcases hcases j hj with ⟨hj', _, hoj⟩ | ⟨_, hjs, hlj, hbj, hoj⟩ | ⟨_, hjs, hlj, haj, hoj⟩
      · subst hj'
        omega
      · have hjn := h.inside j hjs
        omega
      · have hdis := h.disjoint i his j hjs hij
        omega
  · by_cases habove : off k + len k ≤ a
    · -- the part above stays
      obtain ⟨i, hi, hin⟩ := h.cover a (by omega) hhigh
      have hik : i ≠ k := by
        rintro rfl
        omega
      have hit : i ∈ t := (ht i).mpr ⟨hi, fun h => absurd h hik⟩
      refine ⟨i, hit, ?_⟩
      have hdis := h.disjoint i hi k hk hik
      have hi' := hoff i hit
      rw [if_neg (by omega)] at hi'
      rw [hi', hlen i hi hik]
      exact hin
    · by_cases hown : off k + len k - len' k ≤ a
      · -- the interval itself
        have hkt : k ∈ t := (ht k).mpr ⟨hk, fun _ => by omega⟩
        refine ⟨k, hkt, ?_⟩
        have hk' := hoff k hkt
        rw [if_pos (by omega)] at hk'
        omega
      · -- what is below it has moved as one block
        obtain ⟨i, hi, hin⟩ := h.cover (a + len' k - len k) (by omega) (by omega)
        have hik : i ≠ k := by
          rintro rfl
          omega
        have hit : i ∈ t := (ht i).mpr ⟨hi, fun h => absurd h hik⟩
        refine ⟨i, hit, ?_⟩
        have hdis := h.disjoint i hi k hk hik
        have hi' := hoff i hit
        have hinside := h.inside i hi
        rw [if_pos (by omega)] at hi'
        rw [hi', hlen i hi hik]
        omega

end Tiles

end DisMiniSql.Lib
