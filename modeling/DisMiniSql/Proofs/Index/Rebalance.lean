import DisMiniSql.Proofs.Index.Search

/-!
# `DisMiniSql.Proofs.Index.Rebalance`: merging and refilling neighbouring pages

What `Coalesce` and `Redistribute` do to the cells of two neighbouring children of a page, for
leaves and for internal pages. The children are `L` and `R`, between `A` and `B`.

* `coalesce_leaf`, `coalesce_internal`: `R` is merged into `L`.
* `redistribute_leaf_left`, `redistribute_internal_left`: `L` gets the first entry of `R`.
* `redistribute_leaf_right`, `redistribute_internal_right`: `R` gets the last entry of `L`.

In `coalesce_internal` and `redistribute_internal_right` the first child of `R` keeps the key
of its slot 0, and this key becomes a separator.
-/

set_option autoImplicit false

namespace DisMiniSql.MiniSql

open DisMiniSql.Lib

variable {κ ν : Type} {lm im : Nat} {t : BPlusTree κ ν} {pid pp : PageId}
  {Γ : List (PageId × Cell PageId κ ν)} {kL kR : κ}

/-- The limits, the root and the other fields of the index are as before. -/
def SameIndex (t t' : BPlusTree κ ν) : Prop :=
  t'.leafMaxSize = t.leafMaxSize ∧ t'.internalMaxSize = t.internalMaxSize ∧
    t'.rootPageId = t.rootPageId

/-- A page without entries. -/
theorem shows_emptied_leaf {p : PageId} {page : LeafPage κ ν} {parent next : PageId} {first : κ}
    {entries : List (κ × ν)} (h : Shows lm im p (.leaf page) (.leaf parent next first entries)) :
    Shows lm im p (.leaf { page with size := 0 }) (.leaf parent next first []) :=
  ⟨h.1, h.2.1, h.2.2.1, h.2.2.2.1, h.2.2.2.2.1, rfl⟩

/-- A page whose size is set to zero shows a node without children. -/
theorem shows_emptied_node {p : PageId} {page : InternalPage κ} {parent : PageId}
    {children : List (κ × PageId)}
    (h : Shows lm im p (.internal page : BPlusTreePage κ ν) (.node parent children)) :
    Shows lm im p (.internal { page with size := 0 } : BPlusTreePage κ ν) (.node parent []) :=
  ⟨h.1, h.2.1, h.2.2.1, rfl⟩

/-- The slot behind `A` goes from the parent. -/
theorem shows_remove {h : Nat} {A B : List (κ × STree PageId κ ν h)} {L R M : STree PageId κ ν h}
    {n : InternalPage κ} (hM : M.rootId = L.rootId)
    (hn : Shows lm im pid (.internal n : BPlusTreePage κ ν)
      (.node pp (names (A ++ (kL, L) :: (kR, R) :: B)))) :
    Shows lm im pid (.internal (n.remove A.length) : BPlusTreePage κ ν)
      (.node pp (names (A ++ (kL, M) :: B))) := by
  obtain ⟨hid, hmax, hpar, hpairs⟩ := hn
  refine ⟨hid, hmax, hpar, ?_⟩
  have hpairs' : n.pairs = (names A ++ [(kL, L.rootId)]) ++ (kR, R.rootId) :: names B := by
    rw [hpairs]
    simp
  rw [InternalPage.remove_pairs hpairs' (by simp)]
  simp [hM]

/-- `SetKeyAt` of the separator between two children. -/
theorem shows_setKeyAt {h : Nat} {A B : List (κ × STree PageId κ ν h)}
    {L R M N : STree PageId κ ν h}
    {n : InternalPage κ} (hL : M.rootId = L.rootId) (hR : N.rootId = R.rootId)
    (hn : Shows lm im pid (.internal n : BPlusTreePage κ ν)
      (.node pp (names (A ++ (kL, L) :: (kR, R) :: B)))) (k : κ) :
    Shows lm im pid (.internal (n.setKeyAt (A.length + 1) k) : BPlusTreePage κ ν)
      (.node pp (names (A ++ (kL, M) :: (k, N) :: B))) := by
  obtain ⟨hid, hmax, hpar, hpairs⟩ := hn
  refine ⟨hid, hmax, hpar, ?_⟩
  have hpairs' : n.pairs = (names A ++ [(kL, L.rootId)]) ++ (kR, R.rootId) :: names B := by
    rw [hpairs]
    simp
  have hset := InternalPage.setKeyAt_pairs hpairs' k
  rw [show (names A ++ [(kL, L.rootId)]).length = A.length + 1 by simp] at hset
  rw [hset]
  simp [hL, hR]

section Leaf
variable {A B : List (κ × STree PageId κ ν 0)} {l r : Leaf PageId κ ν} {pl pr : LeafPage κ ν}
  {n : InternalPage κ}

/-- `Coalesce` of two leaves. -/
theorem coalesce_leaf
    (hheap : Heap lm im t.bpm
      ((STree.node pid (A ++ (kL, .leaf l) :: (kR, .leaf r) :: B)).flat pp ++ Γ))
    (hl : Shows lm im l.id (.leaf pl) ((STree.leaf l).topCell pid))
    (hr : Shows lm im r.id (.leaf pr) ((STree.leaf r).topCell pid))
    (hn : Shows lm im pid (.internal n : BPlusTreePage κ ν)
      (.node pp (names (A ++ (kL, .leaf l) :: (kR, .leaf r) :: B)))) :
    ∃ t' m, t.coalesce l.id (.leaf pl) r.id (.leaf pr) pid n A.length
        = some (n.remove A.length, t') ∧ SameIndex t t' ∧
      m.id = l.id ∧ m.next = r.next ∧ m.entries = l.entries ++ r.entries ∧
      Heap lm im t'.bpm ((STree.node pid (A ++ (kL, .leaf m) :: B)).flat pp ++ Γ) := by
  obtain ⟨m, hm⟩ : ∃ m : Leaf PageId κ ν, m = ⟨l.id, r.next, (pr.moveAllTo pl).2.keyAt 0,
      l.entries ++ r.entries⟩ := ⟨_, rfl⟩
  have hmshow : Shows lm im l.id (.leaf (pr.moveAllTo pl).2) ((STree.leaf m).topCell pid) := by
    rw [hm]
    refine ⟨hl.1, hl.2.1, hl.2.2.1, hr.2.2.2.1, rfl, ?_⟩
    rw [LeafPage.moveAllTo_pairs, show pl.pairs = l.entries from hl.2.2.2.2.2,
      show pr.pairs = r.entries from hr.2.2.2.2.2]
    rfl
  have h₁ := Heap.set (p := l.id) (c := (STree.leaf l).topCell pid) (Γ :=
      (r.id, (STree.leaf r).topCell pid) ::
        (pid, .node pp (names (A ++ (kL, .leaf l) :: (kR, .leaf r) :: B))) ::
        (forest pid A ++ (forest pid B ++ Γ)))
    (hheap.perm (perm_of_countP fun P => by
      simp only [STree.flat_node, forest_append, forest_cons, STree.flat_leaf, STree.topCell_leaf,
        List.cons_append, List.nil_append, List.countP_append, List.countP_cons]
      omega)) hmshow
  have h₂ := Heap.set (h₁.perm (List.Perm.swap _ _ _)) (shows_emptied_leaf hr)
  have h₃ := h₂.delete (q := pr.pageId) hr.1
  have h₄ := Heap.set (h₃.perm (List.Perm.swap _ _ _))
    (shows_remove (M := .leaf m) (by rw [hm]; rfl) hn)
  have hmid : m.id = l.id := by rw [hm]
  refine ⟨_, m, rfl, ⟨rfl, rfl, rfl⟩, hmid, by rw [hm], by rw [hm], ?_⟩
  refine Heap.perm h₄ (perm_of_countP fun P => ?_)
  simp only [STree.flat_node, forest_append, forest_cons, STree.flat_leaf, STree.topCell_leaf,
    List.cons_append, List.nil_append, List.countP_append, List.countP_cons, hmid]
  omega

/-- The two leaves and their parent, with new records and a new separator. -/
theorem redistribute_leaf_heap {a b : Leaf PageId κ ν} {x y : LeafPage κ ν} {k : κ}
    (hheap : Heap lm im t.bpm
      ((STree.node pid (A ++ (kL, .leaf l) :: (kR, .leaf r) :: B)).flat pp ++ Γ))
    (hn : Shows lm im pid (.internal n : BPlusTreePage κ ν)
      (.node pp (names (A ++ (kL, .leaf l) :: (kR, .leaf r) :: B))))
    (hlid : a.id = l.id) (hrid : b.id = r.id)
    (hl' : Shows lm im l.id (.leaf x) ((STree.leaf a).topCell pid))
    (hr' : Shows lm im r.id (.leaf y) ((STree.leaf b).topCell pid)) :
    r.id ≠ l.id ∧ Heap lm im (((t.bpm.setPage l.id (.leaf x)).setPage r.id (.leaf y)).setPage
        pid (.internal (n.setKeyAt (A.length + 1) k)))
      ((STree.node pid (A ++ (kL, .leaf a) :: (k, .leaf b) :: B)).flat pp ++ Γ) := by
  have h₁ := Heap.set (p := l.id) (c := (STree.leaf l).topCell pid) (Γ :=
      (r.id, (STree.leaf r).topCell pid) ::
        (pid, .node pp (names (A ++ (kL, .leaf l) :: (kR, .leaf r) :: B))) ::
        (forest pid A ++ (forest pid B ++ Γ)))
    (hheap.perm (perm_of_countP fun P => by
      simp only [STree.flat_node, forest_append, forest_cons, STree.flat_leaf, STree.topCell_leaf,
        List.cons_append, List.nil_append, List.countP_append, List.countP_cons]
      omega)) hl'
  have h₂ := Heap.set (h₁.perm (List.Perm.swap _ _ _)) hr'
  have hne : r.id ≠ l.id := h₂.ne_of_cons_cons
  have h₃ := Heap.set (p := pid) (c := .node pp (names (A ++ (kL, .leaf l) :: (kR, .leaf r) :: B)))
    (Γ := (l.id, (STree.leaf a).topCell pid) :: (r.id, (STree.leaf b).topCell pid) ::
      (forest pid A ++ (forest pid B ++ Γ)))
    (h₂.perm (perm_of_countP fun P => by
      simp only [List.countP_append, List.countP_cons]
      omega)) (shows_setKeyAt (M := .leaf a) (N := .leaf b) hlid hrid hn k)
  refine ⟨hne, Heap.perm h₃ (perm_of_countP fun P => ?_)⟩
  simp only [STree.flat_node, forest_append, forest_cons, STree.flat_leaf, STree.topCell_leaf,
    List.cons_append, List.nil_append, List.countP_append, List.countP_cons, hlid, hrid]
  omega

/-- `Redistribute` of two leaves, to the left one, which is the first child. -/
theorem redistribute_leaf_left {e e' : κ × ν} {rest : List (κ × ν)}
    (hheap : Heap lm im t.bpm
      ((STree.node pid ((kL, .leaf l) :: (kR, .leaf r) :: B)).flat pp ++ Γ))
    (hl : Shows lm im l.id (.leaf pl) ((STree.leaf l).topCell pid))
    (hr : Shows lm im r.id (.leaf pr) ((STree.leaf r).topCell pid))
    (hfetch : t.bpm.fetchInternal pid = some n)
    (hn : Shows lm im pid (.internal n : BPlusTreePage κ ν)
      (.node pp (names ((kL, .leaf l) :: (kR, .leaf r) :: B))))
    (hentries : r.entries = e :: e' :: rest) :
    ∃ t' l' r', t.redistributeLeaf r.id pr l.id pl 0 = some t' ∧ SameIndex t t' ∧
      (l'.id = l.id ∧ l'.next = l.next ∧ l'.entries = l.entries ++ [e]) ∧
      (r'.id = r.id ∧ r'.next = r.next ∧ r'.entries = e' :: rest) ∧
      Heap lm im t'.bpm
        ((STree.node pid ((kL, .leaf l') :: (e'.1, .leaf r') :: B)).flat pp ++ Γ) := by
  have hrp : pr.pairs = e :: e' :: rest := hr.2.2.2.2.2.trans hentries
  obtain ⟨hright, hleft⟩ := LeafPage.moveFirstToEndOf_pairs (r := pl) hrp
  rw [show pl.pairs = l.entries from hl.2.2.2.2.2] at hleft
  have hparent : pl.parentPageId = pid := hl.2.2.1
  obtain ⟨hne, hheap'⟩ := redistribute_leaf_heap (A := []) (k := e'.1)
    (a := ⟨l.id, l.next, (pr.moveFirstToEndOf pl).2.keyAt 0, l.entries ++ [e]⟩)
    (b := ⟨r.id, r.next, (pr.moveFirstToEndOf pl).1.keyAt 0, e' :: rest⟩)
    (x := (pr.moveFirstToEndOf pl).2) (y := (pr.moveFirstToEndOf pl).1) hheap hn rfl rfl
    ⟨hl.1, hl.2.1, hl.2.2.1, hl.2.2.2.1, rfl, hleft⟩
    ⟨hr.1, hr.2.1, hr.2.2.1, hr.2.2.2.1, rfl, hright⟩
  rw [PageStore.setPage_comm _ hne.symm] at hheap'
  refine ⟨((t.setPage r.id (.leaf (pr.moveFirstToEndOf pl).1)).setPage l.id
      (.leaf (pr.moveFirstToEndOf pl).2)).setPage pid (.internal (n.setKeyAt 1 e'.1)),
    ⟨l.id, l.next, (pr.moveFirstToEndOf pl).2.keyAt 0, l.entries ++ [e]⟩,
    ⟨r.id, r.next, (pr.moveFirstToEndOf pl).1.keyAt 0, e' :: rest⟩, ?_,
    ⟨rfl, rfl, rfl⟩, ⟨rfl, rfl, rfl⟩, ⟨rfl, rfl, rfl⟩, hheap'⟩
  simp only [BPlusTree.redistributeLeaf, hparent, hfetch, Option.bind_eq_bind, Option.bind_some,
    if_true, LeafPage.keyAt_zero hright]
  rfl

/-- `Redistribute` of two leaves, to the right one. -/
theorem redistribute_leaf_right {e : κ × ν} {rest : List (κ × ν)}
    (hheap : Heap lm im t.bpm
      ((STree.node pid (A ++ (kL, .leaf l) :: (kR, .leaf r) :: B)).flat pp ++ Γ))
    (hl : Shows lm im l.id (.leaf pl) ((STree.leaf l).topCell pid))
    (hr : Shows lm im r.id (.leaf pr) ((STree.leaf r).topCell pid))
    (hfetch : t.bpm.fetchInternal pid = some n)
    (hn : Shows lm im pid (.internal n : BPlusTreePage κ ν)
      (.node pp (names (A ++ (kL, .leaf l) :: (kR, .leaf r) :: B))))
    (hentries : l.entries = rest ++ [e]) :
    ∃ t' l' r', t.redistributeLeaf l.id pl r.id pr (A.length + 1) = some t' ∧ SameIndex t t' ∧
      (l'.id = l.id ∧ l'.next = l.next ∧ l'.entries = rest) ∧
      (r'.id = r.id ∧ r'.next = r.next ∧ r'.entries = e :: r.entries) ∧
      Heap lm im t'.bpm
        ((STree.node pid (A ++ (kL, .leaf l') :: (e.1, .leaf r') :: B)).flat pp ++ Γ) := by
  have hlp : pl.pairs = rest ++ [e] := hl.2.2.2.2.2.trans hentries
  obtain ⟨hleft, hright⟩ := LeafPage.moveLastToFrontOf_pairs (r := pr) hlp
  rw [show pr.pairs = r.entries from hr.2.2.2.2.2] at hright
  have hparent : pr.parentPageId = pid := hr.2.2.1
  obtain ⟨-, hheap'⟩ := redistribute_leaf_heap (k := e.1)
    (a := ⟨l.id, l.next, (pl.moveLastToFrontOf pr).1.keyAt 0, rest⟩)
    (b := ⟨r.id, r.next, (pl.moveLastToFrontOf pr).2.keyAt 0, e :: r.entries⟩)
    (x := (pl.moveLastToFrontOf pr).1) (y := (pl.moveLastToFrontOf pr).2) hheap hn rfl rfl
    ⟨hl.1, hl.2.1, hl.2.2.1, hl.2.2.2.1, rfl, hleft⟩
    ⟨hr.1, hr.2.1, hr.2.2.1, hr.2.2.2.1, rfl, hright⟩
  refine ⟨((t.setPage l.id (.leaf (pl.moveLastToFrontOf pr).1)).setPage r.id
      (.leaf (pl.moveLastToFrontOf pr).2)).setPage pid
        (.internal (n.setKeyAt (A.length + 1) e.1)),
    ⟨l.id, l.next, (pl.moveLastToFrontOf pr).1.keyAt 0, rest⟩,
    ⟨r.id, r.next, (pl.moveLastToFrontOf pr).2.keyAt 0, e :: r.entries⟩, ?_,
    ⟨rfl, rfl, rfl⟩, ⟨rfl, rfl, rfl⟩, ⟨rfl, rfl, rfl⟩, hheap'⟩
  simp only [BPlusTree.redistributeLeaf, hparent, hfetch, Option.bind_eq_bind, Option.bind_some,
    Nat.add_eq_zero_iff, Nat.one_ne_zero, and_false, if_false, LeafPage.keyAt_zero hright]
  rfl

end Leaf

section Internal
variable {h : Nat} {A B : List (κ × STree PageId κ ν (h + 1))} {lid rid : PageId}
  {lcs rcs : List (κ × STree PageId κ ν h)} {pl pr n : InternalPage κ}

/-- `Coalesce` of two internal pages. The key in slot 0 of the right one separates them now. -/
theorem coalesce_internal
    (hheap : Heap lm im t.bpm
      ((STree.node pid (A ++ (kL, .node lid lcs) :: (kR, .node rid rcs) :: B)).flat pp ++ Γ))
    (hl : Shows lm im lid (.internal pl : BPlusTreePage κ ν) (.node pid (names lcs)))
    (hr : Shows lm im rid (.internal pr : BPlusTreePage κ ν) (.node pid (names rcs)))
    (hn : Shows lm im pid (.internal n : BPlusTreePage κ ν)
      (.node pp (names (A ++ (kL, .node lid lcs) :: (kR, .node rid rcs) :: B)))) :
    ∃ t', t.coalesce lid (.internal pl) rid (.internal pr) pid n A.length
        = some (n.remove A.length, t') ∧ SameIndex t t' ∧
      Heap lm im t'.bpm
        ((STree.node pid (A ++ (kL, .node lid (lcs ++ rcs)) :: B)).flat pp ++ Γ) := by
  obtain ⟨hmerged, hadopt⟩ := pr.moveAllTo_pairs pl (n.keyAt (A.length + 1)) t.bpm
  have hlid : pl.pageId = lid := hl.1
  have hrp : pr.pairs = names rcs := hr.2.2.2
  rw [show pl.pairs = names lcs from hl.2.2.2, hrp, ← names_append] at hmerged
  rw [hlid, hrp] at hadopt
  have h₁ := Heap.adopt (C := rcs) (q := rid) (r := lid)
    (Γ := (lid, .node pid (names lcs)) :: (rid, .node pid (names rcs)) ::
      (pid, .node pp (names (A ++ (kL, .node lid lcs) :: (kR, .node rid rcs) :: B))) ::
        (forest lid lcs ++ (forest pid A ++ (forest pid B ++ Γ))))
    (hheap.perm (perm_of_countP fun P => by
      simp only [STree.flat_node, forest_append, forest_cons, List.cons_append,
        List.countP_append, List.countP_cons]
      omega))
  rw [← hadopt] at h₁
  have h₂ := Heap.set (p := lid) (c := .node pid (names lcs)) (d := .node pid (names (lcs ++ rcs)))
    (g := .internal (pr.moveAllTo pl (n.keyAt (A.length + 1)) t.bpm).2.1)
    (h₁.perm List.perm_middle) ⟨hl.1, hl.2.1, hl.2.2.1, hmerged⟩
  have h₃ := Heap.set (p := rid) (c := .node pid (names rcs))
    (Γ := (pid, .node pp (names (A ++ (kL, .node lid lcs) :: (kR, .node rid rcs) :: B))) ::
      (lid, .node pid (names (lcs ++ rcs))) ::
        (forest lid rcs ++ (forest lid lcs ++ (forest pid A ++ (forest pid B ++ Γ)))))
    (h₂.perm (perm_of_countP fun P => by
      simp only [List.countP_append, List.countP_cons]
      omega)) (shows_emptied_node hr)
  have h₄ := h₃.delete (q := pr.pageId) hr.1
  have h₅ := Heap.set h₄ (shows_remove (L := .node lid lcs) (M := .node lid (lcs ++ rcs)) rfl hn)
  refine ⟨_, rfl, ⟨rfl, rfl, rfl⟩, Heap.perm h₅ (perm_of_countP fun P => ?_)⟩
  simp only [STree.flat_node, forest_append, forest_cons, List.cons_append, List.countP_append,
    List.countP_cons]
  omega

/-- The two internal pages and their parent, with a child moved from `rid` to `lid` or back. -/
theorem redistribute_internal_heap {C D : List (κ × STree PageId κ ν h)}
    {x y : InternalPage κ} {k : κ} {s : PageStore κ ν}
    (hheap : Heap lm im s ((lid, .node pid (names lcs)) :: (rid, .node pid (names rcs)) ::
      (pid, .node pp (names (A ++ (kL, .node lid lcs) :: (kR, .node rid rcs) :: B))) ::
        (forest lid C ++ (forest rid D ++ (forest pid A ++ (forest pid B ++ Γ))))))
    (hn : Shows lm im pid (.internal n : BPlusTreePage κ ν)
      (.node pp (names (A ++ (kL, .node lid lcs) :: (kR, .node rid rcs) :: B))))
    (hl' : Shows lm im lid (.internal x : BPlusTreePage κ ν) (.node pid (names C)))
    (hr' : Shows lm im rid (.internal y : BPlusTreePage κ ν) (.node pid (names D))) :
    rid ≠ lid ∧ Heap lm im (((s.setPage lid (.internal x)).setPage rid (.internal y)).setPage
        pid (.internal (n.setKeyAt (A.length + 1) k)))
      ((STree.node pid (A ++ (kL, .node lid C) :: (k, .node rid D) :: B)).flat pp
        ++ Γ) := by
  have h₁ := Heap.set hheap hl'
  have h₂ := Heap.set (h₁.perm (List.Perm.swap _ _ _)) hr'
  have h₃ := Heap.set (p := pid)
    (c := .node pp (names (A ++ (kL, .node lid lcs) :: (kR, .node rid rcs) :: B)))
    (Γ := (lid, .node pid (names C)) :: (rid, .node pid (names D)) ::
      (forest lid C ++ (forest rid D ++ (forest pid A ++ (forest pid B ++ Γ)))))
    (h₂.perm (perm_of_countP fun P => by
      simp only [List.countP_append, List.countP_cons]
      omega)) (shows_setKeyAt (L := .node lid lcs) (R := .node rid rcs) (M := .node lid C)
        (N := .node rid D) rfl rfl hn k)
  refine ⟨h₂.ne_of_cons_cons, Heap.perm h₃ (perm_of_countP fun P => ?_)⟩
  simp only [STree.flat_node, forest_append, forest_cons, List.cons_append, List.countP_append,
    List.countP_cons]
  omega

/-- `Redistribute` of two internal pages, to the left one, which is the first child. -/
theorem redistribute_internal_left {r₀ r₁ : κ} {R₀ R₁ : STree PageId κ ν h}
    (hrcs : rcs = (r₀, R₀) :: (r₁, R₁) :: rcs.tail.tail)
    (hheap : Heap lm im t.bpm
      ((STree.node pid ((kL, .node lid lcs) :: (kR, .node rid rcs) :: B)).flat pp ++ Γ))
    (hl : Shows lm im lid (.internal pl : BPlusTreePage κ ν) (.node pid (names lcs)))
    (hr : Shows lm im rid (.internal pr : BPlusTreePage κ ν) (.node pid (names rcs)))
    (hfetch : t.bpm.fetchInternal pid = some n)
    (hn : Shows lm im pid (.internal n : BPlusTreePage κ ν)
      (.node pp (names ((kL, .node lid lcs) :: (kR, .node rid rcs) :: B)))) :
    ∃ t', t.redistributeInternal rid pr lid pl 0 = some t' ∧ SameIndex t t' ∧
      Heap lm im t'.bpm ((STree.node pid ((kL, .node lid (lcs ++ [(kR, R₀)])) ::
        (r₁, .node rid rcs.tail) :: B)).flat pp ++ Γ) := by
  obtain ⟨rest, rfl⟩ : ∃ rest, rcs = (r₀, R₀) :: (r₁, R₁) :: rest := ⟨_, hrcs⟩
  have hkey : n.keyAt 1 = kR := by
    rw [InternalPage.keyAt, show n.data 1 = (kR, rid) from
      InternalPage.data_mid (l := [(kL, lid)]) hn.2.2.2]
  have hparent : pl.parentPageId = pid := hl.2.2.1
  obtain ⟨hright, hleft, hset⟩ := InternalPage.moveFirstToEndOf_pairs (r := pl)
    (show pr.pairs = (r₀, R₀.rootId) :: names ((r₁, R₁) :: rest) from hr.2.2.2) kR t.bpm
  rw [show pl.pairs = names lcs from hl.2.2.2] at hleft
  rw [show pl.pageId = lid from hl.1] at hset
  have h₁ := Heap.setParent (t := R₀) (q := rid) (r := lid)
    (Γ := (lid, .node pid (names lcs)) :: (rid, .node pid (names ((r₀, R₀) :: (r₁, R₁) :: rest))) ::
      (pid, .node pp (names ((kL, .node lid lcs) :: (kR, .node rid ((r₀, R₀) :: (r₁, R₁) :: rest))
        :: B))) ::
        (forest lid lcs ++ (forest rid ((r₁, R₁) :: rest) ++ (forest pid B ++ Γ))))
    (hheap.perm (perm_of_countP fun P => by
      simp only [STree.flat_node, forest_cons, List.cons_append, List.countP_append,
        List.countP_cons]
      omega))
  obtain ⟨hne, hheap'⟩ := redistribute_internal_heap (A := []) (k := r₁) (Γ := Γ)
    (C := lcs ++ [(kR, R₀)]) (D := (r₁, R₁) :: rest)
    (x := (pr.moveFirstToEndOf pl kR t.bpm).2.1) (y := (pr.moveFirstToEndOf pl kR t.bpm).1)
    (h₁.perm (perm_of_countP fun P => by
      simp only [forest_append, forest_cons, forest_nil, List.nil_append, List.countP_append,
        List.countP_cons, List.countP_nil]
      omega)) hn ⟨hl.1, hl.2.1, hl.2.2.1, by rw [hleft]; simp⟩ ⟨hr.1, hr.2.1, hr.2.2.1, hright⟩
  rw [PageStore.setPage_comm _ hne.symm, ← hset] at hheap'
  refine ⟨(({ t with bpm := (pr.moveFirstToEndOf pl kR t.bpm).2.2 }.setPage rid
      (.internal (pr.moveFirstToEndOf pl kR t.bpm).1)).setPage lid
        (.internal (pr.moveFirstToEndOf pl kR t.bpm).2.1)).setPage pid
          (.internal (n.setKeyAt 1 r₁)), ?_, ⟨rfl, rfl, rfl⟩, hheap'⟩
  simp only [BPlusTree.redistributeInternal, hparent, hfetch, Option.bind_eq_bind,
    Option.bind_some, if_true, hkey, InternalPage.keyAt_zero hright]
  rfl

/-- `Redistribute` of two internal pages, to the right one. The key in its slot 0 becomes a
separator. -/
theorem redistribute_internal_right {kz : κ} {Z : STree PageId κ ν h} (hlcs : lcs ≠ [])
    (hheap : Heap lm im t.bpm
      ((STree.node pid (A ++ (kL, .node lid (lcs ++ [(kz, Z)])) :: (kR, .node rid rcs) :: B)).flat
        pp ++ Γ))
    (hl : Shows lm im lid (.internal pl : BPlusTreePage κ ν)
      (.node pid (names (lcs ++ [(kz, Z)]))))
    (hr : Shows lm im rid (.internal pr : BPlusTreePage κ ν) (.node pid (names rcs)))
    (hfetch : t.bpm.fetchInternal pid = some n)
    (hn : Shows lm im pid (.internal n : BPlusTreePage κ ν)
      (.node pp (names (A ++ (kL, .node lid (lcs ++ [(kz, Z)])) :: (kR, .node rid rcs) :: B)))) :
    ∃ t', t.redistributeInternal lid pl rid pr (A.length + 1) = some t' ∧ SameIndex t t' ∧
      Heap lm im t'.bpm ((STree.node pid (A ++ (kL, .node lid lcs) ::
        (kz, .node rid ((kz, Z) :: rcs)) :: B)).flat pp ++ Γ) := by
  have hparent : pr.parentPageId = pid := hr.2.2.1
  obtain ⟨hleft, hright, hset⟩ := InternalPage.moveLastToFrontOf_pairs (r := pr)
    (show pl.pairs = names lcs ++ [(kz, Z.rootId)] by rw [hl.2.2.2]; simp)
    (by simpa [names] using hlcs) (n.keyAt (A.length + 1)) t.bpm
  rw [show pr.pairs = names rcs from hr.2.2.2] at hright
  rw [show pr.pageId = rid from hr.1] at hset
  have h₁ := Heap.setParent (t := Z) (q := lid) (r := rid)
    (Γ := (lid, .node pid (names (lcs ++ [(kz, Z)]))) :: (rid, .node pid (names rcs)) ::
      (pid, .node pp (names (A ++ (kL, .node lid (lcs ++ [(kz, Z)])) :: (kR, .node rid rcs)
        :: B))) ::
        (forest lid lcs ++ (forest rid rcs ++ (forest pid A ++ (forest pid B ++ Γ)))))
    (hheap.perm (perm_of_countP fun P => by
      simp only [STree.flat_node, forest_append, forest_cons, forest_nil, List.cons_append,
        List.countP_append, List.countP_cons, List.countP_nil]
      omega))
  obtain ⟨-, hheap'⟩ := redistribute_internal_heap (k := kz) (Γ := Γ)
    (C := lcs) (D := (kz, Z) :: rcs)
    (x := (pl.moveLastToFrontOf pr (n.keyAt (A.length + 1)) t.bpm).1)
    (y := (pl.moveLastToFrontOf pr (n.keyAt (A.length + 1)) t.bpm).2.1)
    (h₁.perm (perm_of_countP fun P => by
      simp only [forest_cons, List.countP_append, List.countP_cons]
      omega)) hn ⟨hl.1, hl.2.1, hl.2.2.1, hleft⟩ ⟨hr.1, hr.2.1, hr.2.2.1, hright⟩
  rw [← hset] at hheap'
  refine ⟨(({ t with bpm := (pl.moveLastToFrontOf pr (n.keyAt (A.length + 1)) t.bpm).2.2 }.setPage
      lid (.internal (pl.moveLastToFrontOf pr (n.keyAt (A.length + 1)) t.bpm).1)).setPage rid
        (.internal (pl.moveLastToFrontOf pr (n.keyAt (A.length + 1)) t.bpm).2.1)).setPage pid
          (.internal (n.setKeyAt (A.length + 1) kz)), ?_, ⟨rfl, rfl, rfl⟩, hheap'⟩
  simp only [BPlusTree.redistributeInternal, hparent, hfetch, Option.bind_eq_bind,
    Option.bind_some, Nat.add_eq_zero_iff, Nat.one_ne_zero, and_false, if_false,
    InternalPage.keyAt_zero hright]
  rfl

end Internal

end DisMiniSql.MiniSql
