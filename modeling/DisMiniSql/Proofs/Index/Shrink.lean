import DisMiniSql.Proofs.Index.Rebalance

/-!
# `DisMiniSql.Proofs.Index.Shrink`: `CoalesceOrRedistribute` of internal pages

A page that has lost a child is merged with a sibling or gets a child from it. A merge takes a
child from the parent, so the walk goes on there.

The separator of the two pages is lost in a merge, and when a child moves to the right. The key
in slot 0 of the right page takes its place. `CtxSafe` says that this key separates the pages,
wherever it happens on the way up.

* `coalesceOrRedistribute_first`, `coalesceOrRedistribute_next`: one step of the walk.
* `shrink_spec`: the whole walk. The tree keeps its leaves and its order.
-/

set_option autoImplicit false

namespace DisMiniSql.MiniSql

open DisMiniSql.Lib

variable {κ ν : Type} {lm im : Nat}

/-! ### One step -/

variable {Γ : List (PageId × Cell PageId κ ν)}

/-- The id of a child is not that of a child before it. -/
theorem Heap.child_not_mem {s : PageStore κ ν} {h : Nat} {id pp : PageId}
    {A B : List (κ × STree PageId κ ν h)} {k : κ} {N : STree PageId κ ν h}
    (hh : Heap lm im s ((STree.node id (A ++ (k, N) :: B)).flat pp ++ Γ)) :
    N.rootId ∉ (names A).map Prod.snd := by
  have hchild : Heap lm im s (N.flat id ++ (forest id A ++
      ((id, .node pp (names (A ++ (k, N) :: B))) :: (forest id B ++ Γ)))) := by
    refine hh.perm (perm_of_countP fun P => ?_)
    simp only [STree.flat_node, forest_append, forest_cons, List.cons_append, List.countP_append,
      List.countP_cons]
    omega
  exact hchild.rootId_not_mem_names

/-- The end of `Coalesce`: the parent has lost a child. -/
def afterCoalesce (fuel : Nat) (parentId : PageId) (r : InternalPage κ × BPlusTree κ ν) :
    Option (BPlusTree κ ν) :=
  if r.1.size < r.1.minSize then BPlusTree.coalesceOrRedistribute fuel r.2 parentId
  else some r.2

/-- `CoalesceOrRedistribute` of the first child of a page. -/
theorem coalesceOrRedistribute_first {t : BPlusTree κ ν} {h : Nat} {pid pp : PageId} {kN kR : κ}
    {N R : STree PageId κ ν h} {B : List (κ × STree PageId κ ν h)}
    (hheap : Heap lm im t.bpm ((STree.node pid ((kN, N) :: (kR, R) :: B)).flat pp ++ Γ))
    (fuel : Nat) :
    ∃ pN pR n, Shows lm im N.rootId pN (N.topCell pid) ∧ Shows lm im R.rootId pR (R.topCell pid) ∧
      t.bpm.fetchInternal pid = some n ∧
      Shows lm im pid (.internal n : BPlusTreePage κ ν)
        (.node pp (names ((kN, N) :: (kR, R) :: B))) ∧
      BPlusTree.coalesceOrRedistribute (fuel + 1) t N.rootId =
        if pN.size + pR.size < BPlusTree.maxSizeOf pN then
          (t.coalesce N.rootId pN R.rootId pR pid n 0).bind (afterCoalesce fuel pid)
        else t.redistribute R.rootId pR N.rootId pN 0 := by
  obtain ⟨Γ₁, hN⟩ := Heap.child (A := []) hheap
  obtain ⟨Γ₂, hR⟩ := Heap.child (A := [(kN, N)]) hheap
  obtain ⟨pN, hfN, hsN⟩ := hN.fetch_top
  obtain ⟨pR, hfR, hsR⟩ := hR.fetch_top
  obtain ⟨n, hfn, hsn⟩ := hheap.fetchInternal_node (p := pid) (q := pp)
    (C := names ((kN, N) :: (kR, R) :: B)) (by simp [STree.flat_node])
  refine ⟨pN, pR, n, hsN, hsR, hfn, hsn, ?_⟩
  obtain ⟨hidN, hparN⟩ := Heap.shows_topCell hsN
  have hpairs : n.pairs = [] ++ (kN, N.rootId) :: names ((kR, R) :: B) := hsn.2.2.2
  have hfind : n.findValue N.rootId = some 0 := InternalPage.findValue_spec hpairs (by simp)
  have hsib : n.valueAt 1 = R.rootId := by
    rw [InternalPage.valueAt, show n.data 1 = (kR, R.rootId) from
      InternalPage.data_mid (l := [(kN, N.rootId)]) hpairs]
  have hne : pid ≠ INVALID_PAGE_ID := hheap.ne_invalid (by simp [STree.flat_node])
  simp only [BPlusTree.coalesceOrRedistribute, hfN, BPlusTreePage.isRootPage, hparN, hne, hfn, hidN,
    hfind, hsib, hfR, Option.bind_eq_bind, Option.bind_some, decide_false, Bool.false_eq_true,
    if_false, if_true]
  rfl

/-- `CoalesceOrRedistribute` of another child. -/
theorem coalesceOrRedistribute_next {t : BPlusTree κ ν} {h : Nat} {pid pp : PageId} {kL kN : κ}
    {L N : STree PageId κ ν h} {A B : List (κ × STree PageId κ ν h)}
    (hheap : Heap lm im t.bpm ((STree.node pid (A ++ (kL, L) :: (kN, N) :: B)).flat pp ++ Γ))
    (fuel : Nat) :
    ∃ pL pN n, Shows lm im L.rootId pL (L.topCell pid) ∧ Shows lm im N.rootId pN (N.topCell pid) ∧
      t.bpm.fetchInternal pid = some n ∧
      Shows lm im pid (.internal n : BPlusTreePage κ ν)
        (.node pp (names (A ++ (kL, L) :: (kN, N) :: B))) ∧
      BPlusTree.coalesceOrRedistribute (fuel + 1) t N.rootId =
        if pN.size + pL.size < BPlusTree.maxSizeOf pN then
          (t.coalesce L.rootId pL N.rootId pN pid n A.length).bind (afterCoalesce fuel pid)
        else t.redistribute L.rootId pL N.rootId pN (A.length + 1) := by
  have hsplit : A ++ (kL, L) :: (kN, N) :: B = (A ++ [(kL, L)]) ++ (kN, N) :: B := by simp
  obtain ⟨Γ₁, hL⟩ := Heap.child hheap
  obtain ⟨pL, hfL, hsL⟩ := hL.fetch_top
  obtain ⟨n, hfn, hsn⟩ := hheap.fetchInternal_node (p := pid) (q := pp)
    (C := names (A ++ (kL, L) :: (kN, N) :: B)) (by simp [STree.flat_node])
  have hnot : N.rootId ∉ (names (A ++ [(kL, L)])).map Prod.snd :=
    Heap.child_not_mem (B := B) (k := kN) (by rw [← hsplit]; exact hheap)
  have hpairs : n.pairs = names (A ++ [(kL, L)]) ++ (kN, N.rootId) :: names B := by
    rw [hsn.2.2.2, hsplit, names_append, names_cons]
  have hfind : n.findValue N.rootId = some (A.length + 1) := by
    rw [InternalPage.findValue_spec hpairs hnot]
    simp
  have hsib : n.valueAt A.length = L.rootId := by
    have hmid := InternalPage.data_mid (l := names A) (e := (kL, L.rootId))
      (r := (kN, N.rootId) :: names B) (by rw [hpairs]; simp)
    rw [length_names] at hmid
    rw [InternalPage.valueAt, hmid]
  rw [hsplit] at hheap
  obtain ⟨Γ₂, hN⟩ := Heap.child hheap
  obtain ⟨pN, hfN, hsN⟩ := hN.fetch_top
  obtain ⟨hidN, hparN⟩ := Heap.shows_topCell hsN
  have hne : pid ≠ INVALID_PAGE_ID := hheap.ne_invalid (by simp [STree.flat_node])
  refine ⟨pL, pN, n, hsL, hsN, hfn, hsn, ?_⟩
  simp only [BPlusTree.coalesceOrRedistribute, hfN, BPlusTreePage.isRootPage, hparN, hne, hfn, hidN,
    hfind, hsib, hfL, Option.bind_eq_bind, Option.bind_some, decide_false, Bool.false_eq_true,
    if_false, Nat.add_eq_zero_iff, Nat.one_ne_zero, and_false, Nat.add_sub_cancel]
  rfl

/-! ### A subtree and its surroundings -/

/-- The node above the hole. -/
theorem Heap.hole_up {s : PageStore κ ν} {h : Nat} {id : PageId}
    {left right : List (κ × STree PageId κ ν h)} {k : κ} {c : Ctx PageId κ ν (h + 1)}
    {N : STree PageId κ ν h} (hheap : Heap lm im s
      (N.flat id ++ (Ctx.frame id left k right c).flat INVALID_PAGE_ID N.rootId)) :
    Heap lm im s ((STree.node id (left ++ (k, N) :: right)).flat (c.parentId INVALID_PAGE_ID) ++
      c.flat INVALID_PAGE_ID id) := by
  refine hheap.perm (perm_of_countP fun P => ?_)
  simp only [Ctx.flat, STree.flat_node, names_append, names_cons, forest_append, forest_cons,
    List.cons_append, List.countP_append, List.countP_cons]
  omega

/-- The pages of the index are the tree `N` in the hole of `c`. The sizes of `N` are left open. -/
structure Focus [LinearOrder κ] (lm im : Nat) (t : BPlusTree κ ν) {h : Nat} (c : Ctx PageId κ ν h)
    (N : STree PageId κ ν h) : Prop where
  leafMaxSize : t.leafMaxSize = lm
  internalMaxSize : t.internalMaxSize = im
  heap : Heap lm im t.bpm
    (N.flat (c.parentId INVALID_PAGE_ID) ++ c.flat INVALID_PAGE_ID N.rootId)
  root : t.rootPageId = c.topId N.rootId
  sized : c.Sized (limits lm im)
  ordered : (c.plug N).2.items.Pairwise (· < ·)

/-- The pages of the index are a tree in order, with these leaves. -/
def Settled [LinearOrder κ] (lm im : Nat) (t : BPlusTree κ ν) (leaves : List (Leaf PageId κ ν)) :
    Prop :=
  ∃ T, Stored lm im t T ∧ T.2.items.Pairwise (· < ·) ∧ T.2.leaves = leaves

namespace Focus
variable [LinearOrder κ] {t t' : BPlusTree κ ν} {h : Nat}

/-- A subtree that keeps the limits. -/
theorem settled {c : Ctx PageId κ ν h} {N : STree PageId κ ν h} (hf : Focus lm im t c N)
    (hN : N.SizedFrom (limits lm im) (c.leafMin (limits lm im)) (c.nodeMin (limits lm im))) :
    Settled lm im t (c.leavesPre ++ (N.leaves ++ c.leavesPost)) :=
  ⟨c.plug N, ⟨hf.leafMaxSize, hf.internalMaxSize, hf.heap.close_hole,
    hf.root.trans (c.rootId_plug N).symm, (c.sized_plug N).mpr ⟨hf.sized, hN⟩⟩, hf.ordered,
    c.leaves_plug N⟩

/-- The node above. -/
theorem up {id : PageId} {left right : List (κ × STree PageId κ ν h)} {k : κ}
    {c : Ctx PageId κ ν (h + 1)} {N : STree PageId κ ν h}
    (hf : Focus lm im t (.frame id left k right c) N) :
    Focus lm im t c (.node id (left ++ (k, N) :: right)) where
  leafMaxSize := hf.leafMaxSize
  internalMaxSize := hf.internalMaxSize
  heap := hf.heap.hole_up
  root := hf.root
  sized := hf.sized.1
  ordered := hf.ordered

/-- The children of a node are changed. -/
theorem replace {id : PageId} {cs cs' : List (κ × STree PageId κ ν h)} {c : Ctx PageId κ ν (h + 1)}
    (hf : Focus lm im t c (.node id cs)) (hsame : SameIndex t t')
    (hheap : Heap lm im t'.bpm ((STree.node id cs').flat (c.parentId INVALID_PAGE_ID)
      ++ c.flat INVALID_PAGE_ID id))
    (hord : (c.plug (.node id cs')).2.items.Pairwise (· < ·)) :
    Focus lm im t' c (.node id cs') where
  leafMaxSize := hsame.1.trans hf.leafMaxSize
  internalMaxSize := hsame.2.1.trans hf.internalMaxSize
  heap := hheap
  root := hsame.2.2.trans hf.root
  sized := hf.sized
  ordered := hord

end Focus

/-- The items around two neighbouring children. -/
theorem items_plug_pair {h : Nat} (c : Ctx PageId κ ν (h + 1)) (id : PageId)
    (A B : List (κ × STree PageId κ ν h)) (kL kR : κ) (L R : STree PageId κ ν h) :
    (c.plug (.node id (A ++ (kL, L) :: (kR, R) :: B))).2.items =
      (c.pre ++ (seg A ++ [sep kL]).tail) ++
        (L.items ++ sep kR :: (R.items ++ (seg B ++ c.post))) := by
  rw [Ctx.items_plug, STree.items_node, Ctx.tail_seg_mid]
  simp

/-- The items around a child. -/
theorem items_plug_child {h : Nat} (c : Ctx PageId κ ν (h + 1)) (id : PageId)
    (A B : List (κ × STree PageId κ ν h)) (kL : κ) (L : STree PageId κ ν h) :
    (c.plug (.node id (A ++ (kL, L) :: B))).2.items =
      (c.pre ++ (seg A ++ [sep kL]).tail) ++ (L.items ++ (seg B ++ c.post)) := by
  rw [Ctx.items_plug, STree.items_node, Ctx.tail_seg_mid]
  simp

/-! ### The walk -/

/-- A node in the hole may have `n` children, with `s₀` in its slot 0 and the keys `ks` below it:
where pages are merged on the way up, or a child moves to the right, the key in slot 0 of the
right page separates them, and no node is left with one child. -/
def CtxSafe [LinearOrder κ] (im : Nat) :
    {h : Nat} → Ctx PageId κ ν h → κ → List κ → Nat → Prop
  | _, .root, _, _, n => n < im / 2 ∨ 2 ≤ n
  | h, .frame _ left key right up, s₀, ks, n =>
    if n < im / 2 then
      (∀ (A : List (κ × STree PageId κ ν h)) (kL : κ) (L : STree PageId κ ν h),
        left = A ++ [(kL, L)] → Separates L.keys s₀ ks ∧
          (n + L.width < im →
            CtxSafe im up ((left.head?.map Prod.fst).getD key)
              (left.flatMap (fun e => e.2.keys) ++ (ks ++ right.flatMap (fun e => e.2.keys)))
              (left.length + right.length))) ∧
      ∀ (kR : κ) (R : STree PageId κ ν h) (B : List (κ × STree PageId κ ν h)),
        left = [] → right = (kR, R) :: B → n + R.width < im →
          (∀ r, R.slot0 = some r → Separates ks r R.keys) ∧
          CtxSafe im up key (ks ++ right.flatMap (fun e => e.2.keys)) right.length
    else 2 ≤ n

/-- The size of a page is the number of its entries. -/
theorem shows_size_pos (hlm : 2 ≤ lm) {h : Nat} {T : STree PageId κ ν h} {p parent : PageId}
    {page : BPlusTreePage κ ν} (hshow : Shows lm im p page (T.topCell parent))
    (hT : T.Sized (limits lm im)) : page.size ≠ 0 := by
  cases h with
  | zero =>
    obtain ⟨l, rfl⟩ := T.exists_leaf
    obtain ⟨hmin, -⟩ := STree.sizedFrom_leaf.mp hT
    have hmin' : lm / 2 ≤ l.entries.length := hmin
    cases page with
    | leaf page =>
      have hpairs : page.pairs = l.entries := hshow.2.2.2.2.2
      rw [← hpairs, LeafPage.length_pairs] at hmin'
      show page.size ≠ 0
      omega
    | internal page => exact hshow.elim
  | succ h =>
    obtain ⟨id, cs, rfl⟩ := T.exists_node
    obtain ⟨hmin, -⟩ := STree.sizedFrom_node.mp hT
    have hmin' : max 2 (im / 2) ≤ cs.length := hmin
    cases page with
    | leaf page => exact hshow.elim
    | internal page =>
      have hpairs : page.pairs = names cs := hshow.2.2.2
      rw [← length_names, ← hpairs, InternalPage.length_pairs] at hmin'
      show page.size ≠ 0
      omega

/-- A subtree that keeps the limits keeps them as a whole, too. -/
theorem sizedTop_of_sized {h : Nat} {T : STree PageId κ ν h} (hT : T.Sized (limits lm im)) :
    T.SizedTop (limits lm im) := by
  cases h with
  | zero => exact ⟨le_trans (Nat.min_le_right _ _) hT.1, hT.2⟩
  | succ h => exact ⟨le_trans (le_max_left 2 (im / 2)) hT.1, hT.2⟩

/-- `CoalesceOrRedistribute` of a root page with children. -/
theorem adjustRoot_spec [LinearOrder κ] (hlm : 2 ≤ lm) {t : BPlusTree κ ν} {h : Nat} {id : PageId}
    {k₀ : κ} {T₀ : STree PageId κ ν h} {cs : List (κ × STree PageId κ ν h)}
    (hf : Focus lm im t .root (.node id ((k₀, T₀) :: cs)))
    (hsub : ∀ e ∈ (k₀, T₀) :: cs, e.2.Sized (limits lm im)) (hle : cs.length + 1 ≤ im)
    (fuel : Nat) :
    ∃ t', BPlusTree.coalesceOrRedistribute (fuel + 1) t id = some t' ∧
      Settled lm im t' (STree.node id ((k₀, T₀) :: cs)).leaves := by
  obtain ⟨page, hpage, -, -, hparent, hpairs⟩ := hf.heap.node_page
  have hsize : page.size = cs.length + 1 := by
    rw [← InternalPage.length_pairs, hpairs, length_names, List.length_cons]
  have hstep : BPlusTree.coalesceOrRedistribute (fuel + 1) t id =
      t.adjustRoot id (.internal page) := by
    simp [BPlusTree.coalesceOrRedistribute, hpage, BPlusTreePage.isRootPage,
      BPlusTreePage.parentPageId, hparent, Ctx.parentId]
  rw [hstep, BPlusTree.adjustRoot]
  cases cs with
  | cons e cs =>
    refine ⟨t, if_pos ?_, ?_⟩
    · show page.size > 1
      rw [hsize, List.length_cons]
      omega
    · have hset := hf.settled (STree.sizedFrom_node.mpr ⟨?_, hle, hsub⟩)
      · simpa [Ctx.leavesPre, Ctx.leavesPost] using hset
      · show 2 ≤ cs.length + 1 + 1
        omega
  | nil =>
    -- The only child becomes the root.
    have hval : page.valueAt 0 = T₀.rootId := by
      rw [InternalPage.valueAt, show page.data 0 = _ from InternalPage.data_mid (l := []) hpairs]
    have hT₀ : T₀.Sized (limits lm im) := hsub (k₀, T₀) (by simp)
    have hheap : Heap lm im t.bpm (T₀.flat id ++ [(id, .node INVALID_PAGE_ID [(k₀, T₀.rootId)])]) :=
      hf.heap.perm (perm_of_countP fun P => by
        simp only [Ctx.parentId, Ctx.flat, STree.flat_node, forest_cons, forest_nil, names_cons,
          names_nil, List.append_nil, List.countP_append, List.countP_cons, List.countP_nil]
        omega)
    obtain ⟨child, hchild, hshow⟩ := hheap.fetch_top
    have hpos := shows_size_pos hlm hshow hT₀
    have hdel := Heap.delete (q := id)
      ((hheap.setParent (r := INVALID_PAGE_ID)).perm List.perm_append_comm) rfl
    refine ⟨{ t with
        rootPageId := T₀.rootId
        bpm := (t.bpm.setParent INVALID_PAGE_ID T₀.rootId).deletePage id }, ?_,
      ⟨_, T₀⟩, ⟨hf.leafMaxSize, hf.internalMaxSize, hdel, rfl, sizedTop_of_sized hT₀⟩, ?_, ?_⟩
    · have hone : ¬ (BPlusTreePage.internal page : BPlusTreePage κ ν).size > 1 := by
        show ¬ page.size > 1
        rw [hsize]
        simp
      rw [if_neg hone]
      simp [hval, hchild, hpos]
    · have hord := hf.ordered
      rw [Ctx.items_plug, STree.items_node] at hord
      simpa [Ctx.pre, Ctx.post] using hord
    · simp

/-- The page of a node. -/
theorem exists_internal {p parent : PageId} {page : BPlusTreePage κ ν}
    {children : List (κ × PageId)} (hshow : Shows lm im p page (.node parent children)) :
    ∃ n, page = .internal n ∧ page.size = children.length ∧ BPlusTree.maxSizeOf page = im := by
  cases page with
  | leaf l => exact hshow.elim
  | internal n => exact ⟨n, rfl, by rw [← hshow.2.2.2, InternalPage.length_pairs]; rfl, hshow.2.1⟩

/-- What happens behind `Coalesce` depends on the number of children that are left. -/
theorem afterCoalesce_eq {p parent : PageId} {n : InternalPage κ} {children : List (κ × PageId)}
    (hshow : Shows lm im p (.internal n : BPlusTreePage κ ν) (.node parent children)) (fuel : Nat)
    (t : BPlusTree κ ν) : afterCoalesce fuel p (n, t) =
      if children.length < im / 2 then BPlusTree.coalesceOrRedistribute fuel t p else some t := by
  rw [afterCoalesce, InternalPage.minSize, hshow.2.1, ← hshow.2.2.2, InternalPage.length_pairs]

section Merge
variable [LinearOrder κ] {t : BPlusTree κ ν} {h : Nat} {c : Ctx PageId κ ν (h + 2)}
  {pid lid rid : PageId} {kL kR : κ} {A B : List (κ × STree PageId κ ν (h + 1))}
  {lcs rcs : List (κ × STree PageId κ ν h)} {k₀ : κ} {T₀ : STree PageId κ ν h}

/-- `Coalesce` of two internal pages keeps the order, when the key in slot 0 of the right one
separates them. -/
theorem merge_internal (hlm : 2 ≤ lm) {pl pr n : InternalPage κ} (hlcs : lcs ≠ [])
    (hf : Focus lm im t c
      (.node pid (A ++ (kL, .node lid lcs) :: (kR, .node rid ((k₀, T₀) :: rcs)) :: B)))
    (hl : Shows lm im lid (.internal pl : BPlusTreePage κ ν) (.node pid (names lcs)))
    (hr : Shows lm im rid (.internal pr : BPlusTreePage κ ν) (.node pid (names ((k₀, T₀) :: rcs))))
    (hn : Shows lm im pid (.internal n : BPlusTreePage κ ν)
      (.node (c.parentId INVALID_PAGE_ID)
        (names (A ++ (kL, .node lid lcs) :: (kR, .node rid ((k₀, T₀) :: rcs)) :: B))))
    (hL : (STree.node lid lcs).SizedFrom (limits lm im) 1 1)
    (hR : (STree.node rid ((k₀, T₀) :: rcs)).SizedFrom (limits lm im) 1 1)
    (hsep : Separates (STree.node lid lcs).keys k₀ (STree.node rid ((k₀, T₀) :: rcs)).keys)
    (fuel : Nat) :
    ∃ t', (t.coalesce lid (.internal pl) rid (.internal pr) pid n A.length).bind
        (afterCoalesce fuel pid)
        = (if A.length + (B.length + 1) < im / 2 then BPlusTree.coalesceOrRedistribute fuel t' pid
          else some t') ∧
      Focus lm im t' c (.node pid (A ++ (kL, .node lid (lcs ++ (k₀, T₀) :: rcs)) :: B)) := by
  obtain ⟨t', hco, hsame, hheap⟩ := coalesce_internal hf.heap hl hr hn
  refine ⟨t', ?_, hf.replace hsame hheap ?_⟩
  · rw [hco, Option.bind_some, afterCoalesce_eq (shows_remove (L := .node lid lcs)
      (M := .node lid (lcs ++ (k₀, T₀) :: rcs)) rfl hn), length_names, List.length_append,
      List.length_cons]
  · have hord := hf.ordered
    rw [items_plug_pair] at hord
    have hleaf : 1 ≤ (limits lm im).leafMin := show 1 ≤ lm / 2 by omega
    have hnode : 1 ≤ (limits lm im).nodeMin := le_trans (by decide) (le_max_left 2 (im / 2))
    have hrep := hsep.pairwise hleaf hnode (le_refl 1) (le_refl 1) hL hR hord
    rw [items_plug_child, STree.items_node, ← Ctx.seg_cut hlcs]
    simpa using hrep

/-- `Redistribute` of two internal pages, to the left one, keeps the items. -/
theorem refill_left {pl pr n : InternalPage κ} {r₁ : κ} {R₁ : STree PageId κ ν h} (hlcs : lcs ≠ [])
    (hf : Focus lm im t c
      (.node pid ((kL, .node lid lcs) :: (kR, .node rid ((k₀, T₀) :: (r₁, R₁) :: rcs)) :: B)))
    (hl : Shows lm im lid (.internal pl : BPlusTreePage κ ν) (.node pid (names lcs)))
    (hr : Shows lm im rid (.internal pr : BPlusTreePage κ ν)
      (.node pid (names ((k₀, T₀) :: (r₁, R₁) :: rcs))))
    (hfetch : t.bpm.fetchInternal pid = some n)
    (hn : Shows lm im pid (.internal n : BPlusTreePage κ ν)
      (.node (c.parentId INVALID_PAGE_ID)
        (names ((kL, .node lid lcs) :: (kR, .node rid ((k₀, T₀) :: (r₁, R₁) :: rcs)) :: B)))) :
    ∃ t', t.redistribute rid (.internal pr) lid (.internal pl) 0 = some t' ∧
      Focus lm im t' c (.node pid ((kL, .node lid (lcs ++ [(kR, T₀)])) ::
        (r₁, .node rid ((r₁, R₁) :: rcs)) :: B)) := by
  obtain ⟨t', hre, hsame, hheap⟩ := redistribute_internal_left rfl hf.heap hl hr hfetch hn
  refine ⟨t', hre, hf.replace hsame hheap ?_⟩
  have hord := hf.ordered
  obtain ⟨e, lcs, rfl⟩ := List.exists_cons_of_ne_nil hlcs
  obtain ⟨ke, te⟩ := e
  simpa [Ctx.items_plug] using hord

/-- `Redistribute` of two internal pages, to the right one, keeps the order, when the key in slot
0 of the right one separates them. -/
theorem refill_right (hlm : 2 ≤ lm) {pl pr n : InternalPage κ} {kz : κ} {Z : STree PageId κ ν h}
    (hlcs : lcs ≠ [])
    (hf : Focus lm im t c (.node pid (A ++ (kL, .node lid (lcs ++ [(kz, Z)])) ::
      (kR, .node rid ((k₀, T₀) :: rcs)) :: B)))
    (hl : Shows lm im lid (.internal pl : BPlusTreePage κ ν)
      (.node pid (names (lcs ++ [(kz, Z)]))))
    (hr : Shows lm im rid (.internal pr : BPlusTreePage κ ν) (.node pid (names ((k₀, T₀) :: rcs))))
    (hfetch : t.bpm.fetchInternal pid = some n)
    (hn : Shows lm im pid (.internal n : BPlusTreePage κ ν)
      (.node (c.parentId INVALID_PAGE_ID) (names (A ++ (kL, .node lid (lcs ++ [(kz, Z)])) ::
        (kR, .node rid ((k₀, T₀) :: rcs)) :: B))))
    (hL : (STree.node lid (lcs ++ [(kz, Z)])).SizedFrom (limits lm im) 1 1)
    (hR : (STree.node rid ((k₀, T₀) :: rcs)).SizedFrom (limits lm im) 1 1)
    (hsep : Separates (STree.node lid (lcs ++ [(kz, Z)])).keys k₀
      (STree.node rid ((k₀, T₀) :: rcs)).keys) :
    ∃ t', t.redistribute lid (.internal pl) rid (.internal pr) (A.length + 1) = some t' ∧
      Focus lm im t' c (.node pid (A ++ (kL, .node lid lcs) ::
        (kz, .node rid ((kz, Z) :: (k₀, T₀) :: rcs)) :: B)) := by
  obtain ⟨t', hre, hsame, hheap⟩ := redistribute_internal_right hlcs hf.heap hl hr hfetch hn
  refine ⟨t', hre, hf.replace hsame hheap ?_⟩
  have hord := hf.ordered
  rw [items_plug_pair] at hord
  have hleaf : 1 ≤ (limits lm im).leafMin := show 1 ≤ lm / 2 by omega
  have hnode : 1 ≤ (limits lm im).nodeMin := le_trans (by decide) (le_max_left 2 (im / 2))
  have hrep := hsep.pairwise hleaf hnode (le_refl 1) (le_refl 1) hL hR hord
  rw [STree.items_node, ← Ctx.seg_cut hlcs] at hrep
  rw [items_plug_pair]
  simpa using hrep

end Merge

/-- A node and its right sibling, when the node is the first child. -/
theorem shrink_first [LinearOrder κ] (hlm : 2 ≤ lm) (him : 3 ≤ im) {t : BPlusTree κ ν} {h : Nat}
    {up : Ctx PageId κ ν (h + 2)} {id pid rid : PageId} {key kR : κ}
    {cs rcs : List (κ × STree PageId κ ν h)} {B : List (κ × STree PageId κ ν (h + 1))}
    (hf : Focus lm im t up (.node pid ((key, .node id cs) :: (kR, .node rid rcs) :: B)))
    (hcs : cs ≠ []) (hsub : ∀ e ∈ cs, e.2.Sized (limits lm im))
    (hR : (STree.node rid rcs).Sized (limits lm im)) (hlen : max 2 (im / 2) ≤ cs.length + 1)
    (hsmall : cs.length < im / 2)
    (hsep : cs.length + rcs.length < im → ∀ r, rcs.head?.map Prod.fst = some r →
      Separates (STree.node id cs).keys r (STree.node rid rcs).keys) (fuel : Nat) :
    (cs.length + rcs.length < im ∧ ∃ t', BPlusTree.coalesceOrRedistribute (fuel + 1) t id
        = (if B.length + 1 < im / 2 then BPlusTree.coalesceOrRedistribute fuel t' pid
          else some t') ∧
      Focus lm im t' up (.node pid ((key, .node id (cs ++ rcs)) :: B))) ∨
    ∃ t' kR' cs' rcs', BPlusTree.coalesceOrRedistribute (fuel + 1) t id = some t' ∧
      Focus lm im t' up (.node pid ((key, .node id cs') :: (kR', .node rid rcs') :: B)) ∧
      (STree.node id cs').Sized (limits lm im) ∧ (STree.node rid rcs').Sized (limits lm im) ∧
      cs'.flatMap (fun e => e.2.leaves) ++ rcs'.flatMap (fun e => e.2.leaves)
        = cs.flatMap (fun e => e.2.leaves) ++ rcs.flatMap (fun e => e.2.leaves) := by
  obtain ⟨hRmin, hRmax, hRsub⟩ := STree.sizedFrom_node.mp hR
  have hRmin' : max 2 (im / 2) ≤ rcs.length := hRmin
  have hRmax' : rcs.length ≤ im := hRmax
  have hpos : 1 ≤ cs.length := List.length_pos_iff.mpr hcs
  obtain ⟨⟨r₀, R₀⟩, ⟨r₁, R₁⟩, rest, rfl⟩ := exists_cons_cons_of_two_le (by omega : 2 ≤ rcs.length)
  obtain ⟨pN, pR, n, hsN, hsR, hfn, hsn, hstep⟩ := coalesceOrRedistribute_first hf.heap fuel
  rw [STree.topCell_node] at hsN hsR
  obtain ⟨pN, rfl, hsizeN, hmaxN⟩ := exists_internal hsN
  obtain ⟨pR, rfl, hsizeR, -⟩ := exists_internal hsR
  rw [hsizeN, hsizeR, hmaxN, length_names, length_names] at hstep
  by_cases hmerge : cs.length + ((r₀, R₀) :: (r₁, R₁) :: rest).length < im
  · refine Or.inl ⟨hmerge, ?_⟩
    obtain ⟨t', hco, hf'⟩ := merge_internal (A := []) hlm hcs hf hsN hsR hsn
      (STree.sizedFrom_node.mpr ⟨hpos, (show cs.length ≤ im by omega), hsub⟩)
      (STree.sizedFrom_node.mpr ⟨by simp, hRmax, hRsub⟩) (hsep hmerge r₀ rfl) fuel
    refine ⟨t', ?_, hf'⟩
    rw [STree.rootId_node, STree.rootId_node, if_pos hmerge] at hstep
    rw [hstep]
    simpa using hco
  · right
    obtain ⟨t', hre, hf'⟩ := refill_left hcs hf hsN hsR hfn hsn
    rw [STree.rootId_node, STree.rootId_node, if_neg hmerge] at hstep
    rw [List.length_cons, List.length_cons] at hmerge hRmax'
    have hsub' : ∀ e ∈ cs ++ [(kR, R₀)], e.2.Sized (limits lm im) := by
      simp only [List.forall_mem_append, List.forall_mem_cons]
      exact ⟨hsub, hRsub (r₀, R₀) (by simp), by simp⟩
    refine ⟨t', r₁, _, _, hstep.trans hre, hf', STree.sizedFrom_node.mpr ⟨?_, ?_, hsub'⟩,
      STree.sizedFrom_node.mpr ⟨?_, ?_, fun e he => hRsub e (List.mem_cons_of_mem _ he)⟩, ?_⟩
    · show max 2 (im / 2) ≤ (cs ++ [(kR, R₀)]).length
      simpa using hlen
    · show (cs ++ [(kR, R₀)]).length ≤ im
      simp
      omega
    · show max 2 (im / 2) ≤ rest.length + 1
      omega
    · show rest.length + 1 ≤ im
      omega
    · simp

/-- A node and its left sibling. -/
theorem shrink_next [LinearOrder κ] (hlm : 2 ≤ lm) (him : 3 ≤ im) {t : BPlusTree κ ν} {h : Nat}
    {up : Ctx PageId κ ν (h + 2)} {id pid lid : PageId} {key kL k₀ : κ}
    {cs lcs : List (κ × STree PageId κ ν h)} {A B : List (κ × STree PageId κ ν (h + 1))}
    (hf : Focus lm im t up (.node pid (A ++ (kL, .node lid lcs) :: (key, .node id cs) :: B)))
    (hcs : cs.head?.map Prod.fst = some k₀) (hsub : ∀ e ∈ cs, e.2.Sized (limits lm im))
    (hL : (STree.node lid lcs).Sized (limits lm im)) (hlen : max 2 (im / 2) ≤ cs.length + 1)
    (hsmall : cs.length < im / 2)
    (hsep : Separates (STree.node lid lcs).keys k₀ (STree.node id cs).keys) (fuel : Nat) :
    (cs.length + lcs.length < im ∧ ∃ t', BPlusTree.coalesceOrRedistribute (fuel + 1) t id
        = (if A.length + (B.length + 1) < im / 2 then BPlusTree.coalesceOrRedistribute fuel t' pid
          else some t') ∧
      Focus lm im t' up (.node pid (A ++ (kL, .node lid (lcs ++ cs)) :: B))) ∨
    ∃ t' key' lcs' cs', BPlusTree.coalesceOrRedistribute (fuel + 1) t id = some t' ∧
      Focus lm im t' up (.node pid (A ++ (kL, .node lid lcs') :: (key', .node id cs') :: B)) ∧
      (STree.node lid lcs').Sized (limits lm im) ∧ (STree.node id cs').Sized (limits lm im) ∧
      lcs'.flatMap (fun e => e.2.leaves) ++ cs'.flatMap (fun e => e.2.leaves)
        = lcs.flatMap (fun e => e.2.leaves) ++ cs.flatMap (fun e => e.2.leaves) := by
  obtain ⟨hLmin, hLmax, hLsub⟩ := STree.sizedFrom_node.mp hL
  have hLmin' : max 2 (im / 2) ≤ lcs.length := hLmin
  have hLmax' : lcs.length ≤ im := hLmax
  obtain ⟨T₀, cs, rfl⟩ : ∃ T₀ cs', cs = (k₀, T₀) :: cs' := by
    cases cs with
    | nil => simp at hcs
    | cons e cs => exact ⟨e.2, cs, by rw [← Option.some.inj hcs]⟩
  obtain ⟨pL, pN, n, hsL, hsN, hfn, hsn, hstep⟩ := coalesceOrRedistribute_next hf.heap fuel
  rw [STree.topCell_node] at hsN hsL
  obtain ⟨pN, rfl, hsizeN, hmaxN⟩ := exists_internal hsN
  obtain ⟨pL, rfl, hsizeL, -⟩ := exists_internal hsL
  rw [hsizeN, hsizeL, hmaxN, length_names, length_names, STree.rootId_node, STree.rootId_node]
    at hstep
  have hLsized : (STree.node lid lcs).SizedFrom (limits lm im) 1 1 :=
    STree.sizedFrom_node.mpr ⟨by omega, hLmax, hLsub⟩
  have hNsized : (STree.node id ((k₀, T₀) :: cs)).SizedFrom (limits lm im) 1 1 :=
    STree.sizedFrom_node.mpr ⟨by simp, (show ((k₀, T₀) :: cs).length ≤ im by omega), hsub⟩
  by_cases hmerge : ((k₀, T₀) :: cs).length + lcs.length < im
  · refine Or.inl ⟨hmerge, ?_⟩
    obtain ⟨t', hco, hf'⟩ := merge_internal hlm (List.length_pos_iff.mp (by omega)) hf hsL hsN hsn
      hLsized hNsized hsep fuel
    refine ⟨t', ?_, hf'⟩
    rw [hstep, if_pos hmerge, hco]
  · right
    rw [if_neg hmerge] at hstep
    -- The last child of the left sibling moves.
    obtain ⟨lcs', kz, Z, rfl⟩ : ∃ lcs' kz Z, lcs = lcs' ++ [(kz, Z)] := by
      rcases List.eq_nil_or_concat lcs with rfl | ⟨lcs', e, rfl⟩
      · simp at hLmin'
      · exact ⟨lcs', e.1, e.2, List.concat_eq_append⟩
    simp only [List.length_append, List.length_cons,
      List.length_nil] at hmerge hLmax' hLmin' hlen hsmall
    obtain ⟨t', hre, hf'⟩ := refill_right hlm (List.length_pos_iff.mp (by omega)) hf hsL hsN hfn hsn
      hLsized hNsized hsep
    have hsub' : ∀ e ∈ (kz, Z) :: (k₀, T₀) :: cs, e.2.Sized (limits lm im) := by
      rw [List.forall_mem_cons]
      exact ⟨hLsub (kz, Z) (by simp), hsub⟩
    refine ⟨t', kz, _, _, hstep.trans hre, hf',
      STree.sizedFrom_node.mpr ⟨?_, ?_, fun e he => hLsub e (List.mem_append_left _ he)⟩,
      STree.sizedFrom_node.mpr ⟨?_, ?_, hsub'⟩, ?_⟩
    · show max 2 (im / 2) ≤ lcs'.length
      omega
    · show lcs'.length ≤ im
      omega
    · show max 2 (im / 2) ≤ cs.length + 1 + 1
      omega
    · show cs.length + 1 + 1 ≤ im
      omega
    · simp

/-- `CoalesceOrRedistribute` of an internal page that has lost a child, when it has become too
small: the index is a tree in order again, with the same leaves. The induction is on the fuel,
which counts the levels that are left above. -/
theorem shrink_spec [LinearOrder κ] (hlm : 2 ≤ lm) (him : 3 ≤ im) : ∀ (fuel : Nat) {h : Nat}
    (c : Ctx PageId κ ν (h + 1)) (id : PageId) (k₀ : κ) (cs : List (κ × STree PageId κ ν h))
    (t : BPlusTree κ ν), c.depth < fuel → Focus lm im t c (.node id cs) →
    cs.head?.map Prod.fst = some k₀ → (∀ e ∈ cs, e.2.Sized (limits lm im)) →
    c.nodeMin (limits lm im) ≤ cs.length + 1 → cs.length ≤ im →
    CtxSafe im c k₀ (STree.node id cs).keys cs.length →
    ∃ t', (if cs.length < im / 2 then BPlusTree.coalesceOrRedistribute fuel t id else some t)
        = some t' ∧
      Settled lm im t' (c.leavesPre ++ ((STree.node id cs).leaves ++ c.leavesPost)) := by
  intro fuel
  induction fuel with
  | zero => exact fun c _ _ _ _ hfuel => absurd hfuel (Nat.not_lt_zero _)
  | succ fuel ih =>
    intro h c id k₀ cs t hfuel hf hhead hsub hmin hmax hsafe
    have hcs : cs ≠ [] := by
      rintro rfl
      cases hhead
    cases c with
    | root =>
      rw [CtxSafe] at hsafe
      by_cases hsmall : cs.length < im / 2
      · rw [if_pos hsmall]
        obtain ⟨⟨k, T₀⟩, cs, rfl⟩ := List.exists_cons_of_ne_nil hcs
        obtain ⟨t', heq, hset⟩ := adjustRoot_spec hlm hf hsub hmax fuel
        exact ⟨t', heq, by simpa [Ctx.leavesPre, Ctx.leavesPost] using hset⟩
      · rw [if_neg hsmall]
        exact ⟨t, rfl, hf.settled (STree.sizedFrom_node.mpr
          ⟨hsafe.resolve_left hsmall, hmax, hsub⟩)⟩
    | frame pid left key right up =>
      rw [CtxSafe] at hsafe
      have hmin' : max 2 (im / 2) ≤ cs.length + 1 := hmin
      by_cases hsmall : cs.length < im / 2
      · rw [if_pos hsmall] at hsafe ⊢
        obtain ⟨hup, hpmin, hpmax, hleft, hright⟩ := hf.sized
        obtain ⟨hsafeL, hsafeR⟩ := hsafe
        have hupMin : 2 ≤ up.nodeMin (limits lm im) := two_le_nodeMin up
        rcases List.eq_nil_or_concat left with rfl | ⟨A, ⟨kL, L⟩, rfl⟩
        · -- The first child: its sibling is on the right.
          obtain ⟨⟨kR, R⟩, B, rfl⟩ : ∃ e B, right = e :: B :=
            List.exists_cons_of_ne_nil (by rintro rfl; simp at hpmin; omega)
          obtain ⟨rid, rcs, rfl⟩ := R.exists_node
          have hB : ∀ e ∈ B, e.2.Sized (limits lm im) := fun e he =>
            hright e (List.mem_cons_of_mem _ he)
          simp only [List.length_nil, List.length_cons, Nat.zero_add] at hpmin hpmax
          have hR₀ := hright (kR, .node rid rcs) (by simp)
          rcases shrink_first hlm him hf.up hcs hsub hR₀ hmin' hsmall
            (fun hm => (hsafeR kR _ B rfl rfl hm).1) fuel with
            ⟨hm, t₁, heq, hf'⟩ | ⟨t', kR', cs', rcs', heq, hf', hN, hR, hleaves⟩
          · -- merged: the parent has one child fewer and may be too small now
            obtain ⟨hRmin, -, hRsub⟩ := STree.sizedFrom_node.mp hR₀
            have hRmin' : max 2 (im / 2) ≤ rcs.length := hRmin
            have hmerged : (STree.node id (cs ++ rcs)).Sized (limits lm im) :=
              STree.sizedFrom_node.mpr
                ⟨(show max 2 (im / 2) ≤ (cs ++ rcs).length by rw [List.length_append]; omega),
                (show (cs ++ rcs).length ≤ im by rw [List.length_append]; omega),
                List.forall_mem_append.mpr ⟨hsub, hRsub⟩⟩
            obtain ⟨t', heq', hset⟩ := ih up pid key ((key, .node id (cs ++ rcs)) :: B) t₁
              (Nat.lt_of_succ_lt_succ hfuel) hf' rfl (List.forall_mem_cons.mpr ⟨hmerged, hB⟩)
              hpmin (by rw [List.length_cons]; exact Nat.le_of_succ_le hpmax) (by
                have hs := (hsafeR kR _ B rfl rfl hm).2
                simpa [STree.keys_node] using hs)
            refine ⟨t', by rw [heq, ← heq', List.length_cons], ?_⟩
            simpa [Ctx.leavesPre, Ctx.leavesPost] using hset
          · -- refilled: nothing above changes
            refine ⟨t', heq, ?_⟩
            have hset := hf'.settled (STree.sizedFrom_node.mpr ⟨hpmin, hpmax,
              List.forall_mem_cons.mpr ⟨hN, List.forall_mem_cons.mpr ⟨hR, hB⟩⟩⟩)
            have hl := congrArg (· ++ (B.flatMap (fun e => e.2.leaves) ++ up.leavesPost)) hleaves
            simp only [List.append_assoc] at hl
            simpa [Ctx.leavesPre, Ctx.leavesPost, hl] using hset
        · -- Another child: its sibling is on the left.
          rw [List.concat_eq_append] at *
          obtain ⟨lid, lcs, rfl⟩ := L.exists_node
          have hA : ∀ e ∈ A, e.2.Sized (limits lm im) := fun e he =>
            hleft e (List.mem_append_left _ he)
          have hL₀ := hleft (kL, .node lid lcs) (by simp)
          obtain ⟨hsep, hsafe'⟩ := hsafeL A kL _ rfl
          simp only [List.length_append, List.length_cons, List.length_nil, Nat.zero_add]
            at hpmin hpmax hsafe'
          have hf₀ : Focus lm im t up (.node pid
              (A ++ (kL, .node lid lcs) :: (key, .node id cs) :: right)) := by
            simpa using hf.up
          rcases shrink_next hlm him hf₀ hhead hsub hL₀ hmin' hsmall hsep fuel with
            ⟨hm, t₁, heq, hf'⟩ | ⟨t', key', lcs', cs', heq, hf', hL, hN, hleaves⟩
          · -- merged into the left sibling
            obtain ⟨hLmin, -, hLsub⟩ := STree.sizedFrom_node.mp hL₀
            have hLmin' : max 2 (im / 2) ≤ lcs.length := hLmin
            have hmerged : (STree.node lid (lcs ++ cs)).Sized (limits lm im) :=
              STree.sizedFrom_node.mpr
                ⟨(show max 2 (im / 2) ≤ (lcs ++ cs).length by rw [List.length_append]; omega),
                (show (lcs ++ cs).length ≤ im by rw [List.length_append]; omega),
                List.forall_mem_append.mpr ⟨hLsub, hsub⟩⟩
            obtain ⟨t', heq', hset⟩ := ih up pid ((A.head?.map Prod.fst).getD kL)
              (A ++ (kL, .node lid (lcs ++ cs)) :: right) t₁
              (Nat.lt_of_succ_lt_succ hfuel) hf' (by cases A <;> rfl)
              (List.forall_mem_append.mpr ⟨hA, List.forall_mem_cons.mpr ⟨hmerged, hright⟩⟩)
              (by rw [List.length_append, List.length_cons]; omega)
              (by
                have hpmax' : A.length + 1 + right.length + 1 ≤ im := hpmax
                rw [List.length_append, List.length_cons]
                omega)
              (by
                have hs := hsafe' hm
                rw [show ((A ++ [(kL, STree.node lid lcs)]).head?.map Prod.fst).getD key
                  = (A.head?.map Prod.fst).getD kL by cases A <;> rfl] at hs
                simpa [STree.keys_node, Nat.add_assoc, Nat.add_comm 1] using hs)
            refine ⟨t', by rw [heq, ← heq', List.length_append, List.length_cons], ?_⟩
            simpa [Ctx.leavesPre, Ctx.leavesPost] using hset
          · -- refilled from the left sibling
            refine ⟨t', heq, ?_⟩
            have hset := hf'.settled (STree.sizedFrom_node.mpr ⟨?_, ?_,
              List.forall_mem_append.mpr ⟨hA, List.forall_mem_cons.mpr ⟨hL,
                List.forall_mem_cons.mpr ⟨hN, hright⟩⟩⟩⟩)
            · have hl :=
                congrArg (· ++ (right.flatMap (fun e => e.2.leaves) ++ up.leavesPost)) hleaves
              simp only [List.append_assoc] at hl
              simpa [Ctx.leavesPre, Ctx.leavesPost, hl] using hset
            · rw [List.length_append, List.length_cons, List.length_cons]
              omega
            · rw [List.length_append, List.length_cons, List.length_cons]
              omega
      · rw [if_neg hsmall] at hsafe ⊢
        refine ⟨t, rfl, hf.settled (STree.sizedFrom_node.mpr ⟨?_, hmax, hsub⟩)⟩
        show max 2 (im / 2) ≤ cs.length
        omega

end DisMiniSql.MiniSql
