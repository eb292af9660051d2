import DisMiniSql.Lib.TreeCells
import DisMiniSql.MiniSql.Page.BPlusTreeLeafPage
import DisMiniSql.MiniSql.Page.BPlusTreeInternalPage

/-!
# `DisMiniSql.Proofs.Page.Heap`: the page store as a heap of cells

`Shows p page cell` says that the page with the id `p` is the cell `cell`: its header fields are
those the cell and the size limits `lm` and `im` name, and its slots in use are the cell's list.
`Heap s cells` says that the store has these cells, under different ids.

Each operation of the store has a rule for `Heap`: `Heap.set` for a write, `Heap.new` for a new
page, `Heap.delete`, `Heap.setParent` and `Heap.adopt`. `Heap.perm` brings the cell that a rule
is about to the front.
-/

set_option autoImplicit false

namespace DisMiniSql.MiniSql

open DisMiniSql.Lib

variable {κ ν : Type}

/-- The page is the cell. -/
def Shows (lm im : Nat) (p : PageId) : BPlusTreePage κ ν → Cell PageId κ ν → Prop
  | .leaf l, .leaf parent next first entries =>
    l.pageId = p ∧ l.maxSize = lm ∧ l.parentPageId = parent ∧ l.nextPageId = next ∧
      l.keyAt 0 = first ∧ l.pairs = entries
  | .internal n, .node parent children =>
    n.pageId = p ∧ n.maxSize = im ∧ n.parentPageId = parent ∧ n.pairs = children
  | _, _ => False

/-- The store has the cells, under different ids. -/
structure Heap (lm im : Nat) (s : PageStore κ ν) (Γ : List (PageId × Cell PageId κ ν)) :
    Prop where
  holds : ∀ e ∈ Γ, ∃ page, s.fetchPage e.1 = some page ∧ Shows lm im e.1 page e.2
  nodup : (Γ.map Prod.fst).Nodup
  nonneg : ∀ e ∈ Γ, 0 ≤ e.1

namespace PageStore

/-- A page that can be fetched is live. -/
theorem mem_live_of_fetchPage {s : PageStore κ ν} {p : PageId} {page : BPlusTreePage κ ν}
    (h : s.fetchPage p = some page) : p ∈ s.live := by
  by_contra hn
  rw [fetchPage, if_neg hn] at h
  cases h

/-- A written page reads back what was written. -/
theorem fetchPage_setPage_self {s : PageStore κ ν} {p : PageId} (hp : p ∈ s.live)
    (page : BPlusTreePage κ ν) : (s.setPage p page).fetchPage p = some page := by
  simp [fetchPage, setPage, hp]

/-- Writing one page leaves the others alone. -/
theorem fetchPage_setPage_of_ne {s : PageStore κ ν} {p q : PageId} (h : q ≠ p)
    (page : BPlusTreePage κ ν) : (s.setPage p page).fetchPage q = s.fetchPage q := by
  simp [fetchPage, setPage, h]

/-- Writes to different pages may be exchanged. -/
theorem setPage_comm (s : PageStore κ ν) {p q : PageId} (h : p ≠ q)
    (page page' : BPlusTreePage κ ν) :
    (s.setPage p page).setPage q page' = (s.setPage q page').setPage p page := by
  simp only [setPage, PageStore.mk.injEq, true_and]
  funext r
  by_cases hq : r = q
  · simp [hq, Ne.symm h]
  · simp [hq]

/-- A new page leaves the others alone. -/
theorem fetchPage_newPage_of_ne {s : PageStore κ ν} {q : PageId} (h : q ≠ s.newPage.1) :
    s.newPage.2.fetchPage q = s.fetchPage q := by
  have h' : q ≠ s.allocator.pick s.live := h
  simp [fetchPage, newPage, h']

/-- Deleting a page leaves the others alone. -/
theorem fetchPage_deletePage_of_ne {s : PageStore κ ν} {p q : PageId} (h : q ≠ p) :
    (s.deletePage p).fetchPage q = s.fetchPage q := by
  simp [fetchPage, deletePage, h]

/-- The id of a new page was not in use. -/
theorem newPage_fst_not_mem (s : PageStore κ ν) : s.newPage.1 ∉ s.live :=
  s.allocator.pick_fresh s.live

/-- And is in use afterwards. -/
theorem newPage_fst_mem (s : PageStore κ ν) : s.newPage.1 ∈ s.newPage.2.live :=
  List.mem_cons_self

/-- The id of a new page is never `INVALID_PAGE_ID`. -/
theorem newPage_fst_nonneg (s : PageStore κ ν) : 0 ≤ s.newPage.1 :=
  s.allocator.pick_nonneg s.live

/-- A write changes no page's existence. -/
@[simp] theorem live_setPage (s : PageStore κ ν) (p : PageId) (page : BPlusTreePage κ ν) :
    (s.setPage p page).live = s.live := rfl

@[simp] theorem live_newPage (s : PageStore κ ν) : s.newPage.2.live = s.newPage.1 :: s.live := rfl

/-- Neither does a change of the parent pointer. -/
@[simp] theorem live_setParent (s : PageStore κ ν) (parent child : PageId) :
    (s.setParent parent child).live = s.live := by
  unfold setParent
  split <;> rfl

/-- Nor the change of several. -/
@[simp] theorem live_adopt (s : PageStore κ ν) (parent : PageId) (children : List PageId) :
    (s.adopt parent children).live = s.live := by
  induction children generalizing s with
  | nil => rfl
  | cons child children ih => exact (ih _).trans (live_setParent s parent child)

end PageStore

namespace Heap

variable {lm im : Nat} {s : PageStore κ ν} {Γ Δ : List (PageId × Cell PageId κ ν)}

/-- The order in which the cells of a heap are listed does not matter. -/
theorem perm (h : Heap lm im s Γ) (hp : Γ.Perm Δ) : Heap lm im s Δ where
  holds := fun e he => h.holds e (hp.mem_iff.mpr he)
  nodup := (hp.map Prod.fst).nodup_iff.mp h.nodup
  nonneg := fun e he => h.nonneg e (hp.mem_iff.mpr he)

variable {p : PageId}

/-- The ids of the cells are live. -/
theorem live (h : Heap lm im s Γ) (hp : p ∈ Γ.map Prod.fst) :
    p ∈ s.live := by
  obtain ⟨e, he, rfl⟩ := List.mem_map.mp hp
  obtain ⟨page, hpage, -⟩ := h.holds e he
  exact PageStore.mem_live_of_fetchPage hpage

/-- There are no more cells than live pages. -/
theorem length_le (h : Heap lm im s Γ) : Γ.length ≤ s.live.length := by
  rw [← List.length_map (f := Prod.fst)]
  exact (List.subperm_of_subset h.nodup (fun p hp => h.live hp)).length_le

/-- A page of the heap has a valid id. -/
theorem ne_invalid (h : Heap lm im s Γ) (hp : p ∈ Γ.map Prod.fst) :
    p ≠ INVALID_PAGE_ID := by
  obtain ⟨e, he, rfl⟩ := List.mem_map.mp hp
  have := h.nonneg e he
  unfold INVALID_PAGE_ID
  exact fun heq => absurd (heq ▸ this) (by decide)

/-- The first two cells have different ids. -/
theorem ne_of_cons_cons {e e' : PageId × Cell PageId κ ν}
    (h : Heap lm im s (e :: e' :: Γ)) : e.1 ≠ e'.1 := by
  have hn := h.nodup
  rw [List.map_cons, List.nodup_cons] at hn
  exact fun heq => hn.1 (by simp [heq])

variable {q : PageId}

/-- The leaf page that is a leaf cell. -/
theorem fetch_leaf (h : Heap lm im s Γ) {n : PageId} {k : κ} {e : List (κ × ν)}
    (hmem : (p, .leaf q n k e) ∈ Γ) :
    ∃ l, s.fetchPage p = some (.leaf l) ∧ l.pageId = p ∧ l.maxSize = lm ∧
      l.parentPageId = q ∧ l.nextPageId = n ∧ l.keyAt 0 = k ∧ l.pairs = e := by
  obtain ⟨page, hpage, hshow⟩ := h.holds _ hmem
  cases page with
  | leaf l => exact ⟨l, hpage, hshow⟩
  | internal n => exact hshow.elim

/-- The internal page that is a node cell. -/
theorem fetch_node (h : Heap lm im s Γ) {C : List (κ × PageId)} (hmem : (p, .node q C) ∈ Γ) :
    ∃ n, s.fetchPage p = some (.internal n) ∧ n.pageId = p ∧ n.maxSize = im ∧
      n.parentPageId = q ∧ n.pairs = C := by
  obtain ⟨page, hpage, hshow⟩ := h.holds _ hmem
  cases page with
  | leaf l => exact hshow.elim
  | internal n => exact ⟨n, hpage, hshow⟩

/-- A node of the heap is fetched as the inner page with its id, its parent and its pairs. -/
theorem fetchInternal_node (h : Heap lm im s Γ) {p q : PageId}
    {C : List (κ × PageId)} (hmem : (p, .node q C) ∈ Γ) :
    ∃ n, s.fetchInternal p = some n ∧ n.pageId = p ∧ n.maxSize = im ∧
      n.parentPageId = q ∧ n.pairs = C := by
  obtain ⟨n, hfetch, hn⟩ := h.fetch_node hmem
  exact ⟨n, by rw [PageStore.fetchInternal, hfetch], hn⟩

variable {c : Cell PageId κ ν}

/-- A write to the page of the first cell. -/
theorem set {d : Cell PageId κ ν} {g : BPlusTreePage κ ν} (h : Heap lm im s ((p, c) :: Γ))
    (hshow : Shows lm im p g d) :
    Heap lm im (s.setPage p g) ((p, d) :: Γ) where
  holds := by
    intro e he
    have hlive : p ∈ s.live := h.live (by simp)
    have hn := h.nodup
    rw [List.map_cons, List.nodup_cons] at hn
    rcases List.mem_cons.mp he with rfl | he
    · exact ⟨g, PageStore.fetchPage_setPage_self hlive g, hshow⟩
    · have hne : e.1 ≠ p := fun heq => hn.1 (List.mem_map.mpr ⟨e, he, heq⟩)
      rw [PageStore.fetchPage_setPage_of_ne hne]
      exact h.holds e (List.mem_cons_of_mem _ he)
  nodup := h.nodup
  nonneg := by
    intro e he
    rcases List.mem_cons.mp he with rfl | he
    · exact h.nonneg (p, c) (by simp)
    · exact h.nonneg e (List.mem_cons_of_mem _ he)

/-- The id of a new page is that of no cell. -/
theorem newPage_not_mem (h : Heap lm im s Γ) : s.newPage.1 ∉ Γ.map Prod.fst :=
  fun hmem => s.newPage_fst_not_mem (h.live hmem)

/-- A new page leaves the cells alone. -/
theorem newPage (h : Heap lm im s Γ) : Heap lm im s.newPage.2 Γ where
  holds := by
    intro e he
    have hne : e.1 ≠ s.newPage.1 := fun heq =>
      h.newPage_not_mem (List.mem_map.mpr ⟨e, he, heq⟩)
    rw [PageStore.fetchPage_newPage_of_ne hne]
    exact h.holds e he
  nodup := h.nodup
  nonneg := h.nonneg

/-- The first write to a page that is live and has no cell yet. -/
theorem add {g : BPlusTreePage κ ν} (h : Heap lm im s Γ) (hlive : p ∈ s.live)
    (hnew : p ∉ Γ.map Prod.fst) (hp : 0 ≤ p) (hshow : Shows lm im p g c) :
    Heap lm im (s.setPage p g) ((p, c) :: Γ) where
  holds := by
    intro e he
    rcases List.mem_cons.mp he with rfl | he
    · exact ⟨g, PageStore.fetchPage_setPage_self hlive g, hshow⟩
    · have hne : e.1 ≠ p := fun heq => hnew (List.mem_map.mpr ⟨e, he, heq⟩)
      rw [PageStore.fetchPage_setPage_of_ne hne]
      exact h.holds e he
  nodup := by
    rw [List.map_cons, List.nodup_cons]
    exact ⟨hnew, h.nodup⟩
  nonneg := by
    intro e he
    rcases List.mem_cons.mp he with rfl | he
    · exact hp
    · exact h.nonneg e he

/-- Deleting the page of the first cell. -/
theorem delete (h : Heap lm im s ((p, c) :: Γ)) (hq : q = p) : Heap lm im (s.deletePage q) Γ where
  holds := by
    intro e he
    subst hq
    have hn := h.nodup
    rw [List.map_cons, List.nodup_cons] at hn
    have hne : e.1 ≠ q := fun heq => hn.1 (List.mem_map.mpr ⟨e, he, heq⟩)
    rw [PageStore.fetchPage_deletePage_of_ne hne]
    exact h.holds e (List.mem_cons_of_mem _ he)
  nodup := by
    have hn := h.nodup
    rw [List.map_cons, List.nodup_cons] at hn
    exact hn.2
  nonneg := fun e he => h.nonneg e (List.mem_cons_of_mem _ he)

variable {page : BPlusTreePage κ ν}

/-- The page of a tree's topmost cell knows its id and its parent. -/
theorem shows_topCell {h : Nat} {t : STree PageId κ ν h} {parent : PageId}
    (hshow : Shows lm im p page (t.topCell parent)) :
    page.pageId = p ∧ page.parentPageId = parent := by
  cases h with
  | zero =>
    cases page with
    | leaf l => exact ⟨hshow.1, hshow.2.2.1⟩
    | internal n => exact hshow.elim
  | succ h =>
    cases page with
    | leaf l => exact hshow.elim
    | internal n => exact ⟨hshow.1, hshow.2.2.1⟩

/-- The page of a tree's topmost cell. -/
theorem fetch_top {h : Nat} {t : STree PageId κ ν h} {parent : PageId}
    (hh : Heap lm im s (t.flat parent ++ Γ)) :
    ∃ page, s.fetchPage t.rootId = some page ∧ Shows lm im t.rootId page (t.topCell parent) :=
  hh.holds (t.rootId, t.topCell parent) (by simp [STree.flat])

/-- The page of a tree's topmost cell, after `SetParentPageId`. -/
theorem shows_setParentPageId {h : Nat} {t : STree PageId κ ν h} {parent parent' : PageId}
    (hshow : Shows lm im p page (t.topCell parent)) :
    Shows lm im p (page.setParentPageId parent') (t.topCell parent') := by
  cases h with
  | zero =>
    cases page with
    | leaf l => exact ⟨hshow.1, hshow.2.1, rfl, hshow.2.2.2⟩
    | internal n => exact hshow.elim
  | succ h =>
    cases page with
    | leaf l => exact hshow.elim
    | internal n => exact ⟨hshow.1, hshow.2.1, rfl, hshow.2.2.2⟩

/-- `SetParentPageId` through a pointer to the topmost page of a tree. -/
theorem setTop {h : Nat} {t : STree PageId κ ν h} {r : PageId} (hh : Heap lm im s (t.flat q ++ Γ))
    (hshow : Shows lm im t.rootId page (t.topCell q)) :
    Heap lm im (s.setPage t.rootId (page.setParentPageId r)) (t.flat r ++ Γ) :=
  Heap.set (Γ := t.below ++ Γ) hh (shows_setParentPageId hshow)

/-- A tree gets a new parent. -/
theorem setParent {h : Nat} {t : STree PageId κ ν h} {r : PageId}
    (hh : Heap lm im s (t.flat q ++ Γ)) :
    Heap lm im (s.setParent r t.rootId) (t.flat r ++ Γ) := by
  obtain ⟨page, hpage, hshow⟩ := hh.holds (t.rootId, t.topCell q) (by simp [STree.flat])
  rw [PageStore.setParent, hpage]
  exact hh.setTop hshow

/-- The children of a list get a new parent. -/
theorem adopt {h : Nat} {C : List (κ × STree PageId κ ν h)} {r : PageId}
    (hh : Heap lm im s (forest q C ++ Γ)) :
    Heap lm im (s.adopt r ((names C).map Prod.snd)) (forest r C ++ Γ) := by
  induction C generalizing s Γ with
  | nil => exact hh
  | cons e C ih =>
    obtain ⟨k, t⟩ := e
    rw [forest_cons, List.append_assoc] at hh
    have hfirst := hh.setParent (r := r)
    have hrest := ih (s := s.setParent r t.rootId) (Γ := t.flat r ++ Γ)
      (hfirst.perm (by rw [← List.append_assoc, ← List.append_assoc]
                       exact List.perm_append_comm.append_right _))
    refine Heap.perm hrest ?_
    rw [forest_cons, ← List.append_assoc]
    exact List.perm_append_comm.append_right _

/-- The name of a tree is not among those of other trees in the heap. -/
theorem rootId_not_mem_names {h : Nat} {t : STree PageId κ ν h} {C : List (κ × STree PageId κ ν h)}
    {r : PageId} (hh : Heap lm im s (t.flat q ++ (forest r C ++ Γ))) :
    t.rootId ∉ (names C).map Prod.snd := by
  intro hmem
  have hn := hh.nodup
  rw [STree.flat, List.cons_append, List.map_cons, List.nodup_cons] at hn
  apply hn.1
  obtain ⟨e, he, heq⟩ : ∃ e ∈ C, e.2.rootId = t.rootId := by
    simpa [names] using hmem
  rw [List.mem_map]
  refine ⟨(e.2.rootId, e.2.topCell r), ?_, heq⟩
  refine List.mem_append_right _ (List.mem_append_left _ ?_)
  exact List.mem_flatMap.mpr ⟨e, he, by simp [STree.flat]⟩

end Heap

end DisMiniSql.MiniSql
