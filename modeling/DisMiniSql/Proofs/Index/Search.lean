import DisMiniSql.MiniSql.Index.TreeStructure
import DisMiniSql.Proofs.Page.Heap
import DisMiniSql.Proofs.Page.InternalPage
import DisMiniSql.Proofs.Page.LeafPage

/-!
# `DisMiniSql.Proofs.Index.Search`: the tree that the pages of an index are

`Stored lm im t T` says that the pages of the index `t` are the tree `T`: the store has the
cells of `T`, the root page is its topmost node, and the sizes keep the limits. `Represents` says in
addition that the items of `T` increase and its leaves are linked.

* `findLeafLoop_spec`: `FindLeafPage(key)` walks down to the only leaf that may hold the key.
* `Represents.isIndex`: a represented tree is a well-formed index of the records of its leaves.
-/

set_option autoImplicit false

namespace DisMiniSql.MiniSql

open DisMiniSql.Lib

variable {κ ν : Type}

/-- The size limits of an index: at least half of the maximum, and two children for a node. -/
def limits (lm im : Nat) : Limits where
  leafMin := lm / 2
  leafMax := lm
  nodeMin := max 2 (im / 2)
  nodeMax := im

/-- A node has two children at least, wherever it is. -/
theorem two_le_nodeMin {lm im h : Nat} {ι κ ν : Type} (up : Ctx ι κ ν h) :
    2 ≤ up.nodeMin (limits lm im) := by
  cases up with
  | root => exact le_refl 2
  | frame _ _ _ _ _ => exact le_max_left 2 (im / 2)

/-- The pages of the index are the cells of the tree, and the sizes keep the limits. -/
structure Stored (lm im : Nat) (t : BPlusTree κ ν) (T : (h : Nat) × STree PageId κ ν h) :
    Prop where
  leafMaxSize : t.leafMaxSize = lm
  internalMaxSize : t.internalMaxSize = im
  heap : Heap lm im t.bpm (T.2.flat INVALID_PAGE_ID)
  root : t.rootPageId = T.2.rootId
  sized : T.2.SizedTop (limits lm im)

/-- The pages of the index are a search tree. -/
structure Represents [LinearOrder κ] (lm im : Nat) (t : BPlusTree κ ν)
    (T : (h : Nat) × STree PageId κ ν h) : Prop extends Stored lm im t T where
  ordered : T.2.items.Pairwise (· < ·)
  linked : Linked INVALID_PAGE_ID T.2.leaves

/-! ### Going down -/

/-- A node whose names are split is split the same way. -/
theorem names_eq_append_cons {h : Nat} {cs : List (κ × STree PageId κ ν h)}
    {l r : List (κ × PageId)} {e : κ × PageId} (heq : names cs = l ++ e :: r) :
    ∃ cl t cr, cs = cl ++ (e.1, t) :: cr ∧ names cl = l ∧ names cr = r ∧ e.2 = t.rootId := by
  obtain ⟨cl, cr', rfl, hl, hr'⟩ := List.map_eq_append_iff.mp heq
  obtain ⟨c, cr, rfl, hc, hr⟩ := List.map_eq_cons_iff.mp hr'
  exact ⟨cl, c.2, cr, by rw [← hc], hl, hr, by rw [← hc]⟩

variable {s : PageStore κ ν}

/-- The cells of a filled hole, those of the subtree apart. -/
theorem Heap.open_hole {lm im : Nat} {h : Nat} {c : Ctx PageId κ ν h} {t : STree PageId κ ν h}
    (hh : Heap lm im s ((c.plug t).2.flat INVALID_PAGE_ID)) :
    Heap lm im s (t.flat (c.parentId INVALID_PAGE_ID) ++ c.flat INVALID_PAGE_ID t.rootId) :=
  hh.perm ((c.flat_plug INVALID_PAGE_ID t).trans List.perm_append_comm)

/-- The cells of a filled hole, put together again. -/
theorem Heap.close_hole {lm im : Nat} {h : Nat} {c : Ctx PageId κ ν h} {t : STree PageId κ ν h}
    (hh : Heap lm im s (t.flat (c.parentId INVALID_PAGE_ID) ++ c.flat INVALID_PAGE_ID t.rootId)) :
    Heap lm im s ((c.plug t).2.flat INVALID_PAGE_ID) :=
  hh.perm (List.perm_append_comm.trans (c.flat_plug INVALID_PAGE_ID t).symm)

variable {Γ : List (PageId × Cell PageId κ ν)} {parent : PageId}

/-- The nodes above the hole are less than the fuel. -/
theorem Heap.depth_lt_fuel {lm im h : Nat} {t : BPlusTree κ ν} {c : Ctx PageId κ ν h}
    {T : STree PageId κ ν h} {nil hole : PageId}
    (hh : Heap lm im t.bpm (T.flat parent ++ (Γ ++ c.flat nil hole))) : c.depth < t.fuel := by
  have hle := hh.length_le
  have hids := c.depth_le_length_ids
  rw [← Ctx.map_fst_flat nil hole c, List.length_map] at hids
  simp only [STree.flat, List.length_append, List.length_cons] at hle
  unfold BPlusTree.fuel
  omega

variable {l : Leaf PageId κ ν}

/-- A write to the page of a leaf. -/
theorem Heap.setLeaf {lm im : Nat} {c : Ctx PageId κ ν 0} {l' : Leaf PageId κ ν} {g : LeafPage κ ν}
    (hh : Heap lm im s ((c.plug (.leaf l)).2.flat INVALID_PAGE_ID)) (hid : l'.id = l.id)
    (hshow : Shows lm im l.id (.leaf g) ((STree.leaf l').topCell (c.parentId INVALID_PAGE_ID))) :
    Heap lm im (s.setPage l.id (.leaf g))
      ((STree.leaf l').flat (c.parentId INVALID_PAGE_ID) ++ c.flat INVALID_PAGE_ID l'.id) := by
  obtain ⟨id, next, first, entries⟩ := l'
  obtain rfl : id = l.id := hid
  exact Heap.set hh.open_hole hshow

/-- `FindLeafPage(key)` walks down to the leaf that the key belongs to. -/
theorem findLeafLoop_spec [LinearOrder κ] {lm im : Nat} (key : κ) :
    ∀ {h : Nat} (c : Ctx PageId κ ν h) (t : STree PageId κ ν h) (fuel : Nat), h < fuel →
      Heap lm im s ((c.plug t).2.flat INVALID_PAGE_ID) →
      (c.plug t).2.SizedTop (limits lm im) →
      (c.plug t).2.items.Pairwise (· < ·) → c.Admits key →
      ∃ (c' : Ctx PageId κ ν 0) (l : Leaf PageId κ ν) (page : LeafPage κ ν),
        c'.plug (.leaf l) = c.plug t ∧ c'.Admits key ∧ s.fetchPage l.id = some (.leaf page) ∧
        BPlusTree.findLeafLoop s (fun node => node.lookup key) fuel t.rootId
          = some (l.id, page) := by
  intro h
  induction h with
  | zero =>
    intro c t fuel hfuel hheap hsized hord hadm
    obtain ⟨l, rfl⟩ := t.exists_leaf
    obtain ⟨fuel, rfl⟩ : ∃ f, fuel = f + 1 := ⟨fuel - 1, by omega⟩
    obtain ⟨page, hpage, -⟩ := hheap.open_hole.fetch_leaf (p := l.id)
      (q := c.parentId INVALID_PAGE_ID) (n := l.next) (k := l.first)
      (e := l.entries) (by simp [STree.flat_leaf])
    exact ⟨c, l, page, rfl, hadm, hpage, by simp [BPlusTree.findLeafLoop, hpage]⟩
  | succ h ih =>
    intro c t fuel hfuel hheap hsized hord hadm
    obtain ⟨id, cs, rfl⟩ := t.exists_node
    obtain ⟨fuel, rfl⟩ : ∃ f, fuel = f + 1 := ⟨fuel - 1, by omega⟩
    obtain ⟨n, hpage, -, -, -, hpairs⟩ := hheap.open_hole.fetch_node (p := id)
      (q := c.parentId INVALID_PAGE_ID) (C := names cs) (by simp [STree.flat_node])
    have hsize : 2 ≤ n.size := by
      have hlen := (STree.sizedFrom_node.mp ((c.sized_plug _).mp hsized).2).1
      rw [← InternalPage.length_pairs, hpairs, length_names]
      refine le_trans ?_ hlen
      cases c with
      | root => exact le_refl 2
      | frame _ _ _ _ _ => exact le_max_left _ _
    obtain ⟨l, e, r, hsplit, hlookup, hlo, hhi⟩ := n.lookup_spec key hsize
    obtain ⟨cl, child, cr, rfl, hl, hr, he⟩ := names_eq_append_cons (hpairs ▸ hsplit)
    obtain ⟨c', leaf, page, hplug, hadm', hfetch, hloop⟩ :=
      ih (.frame id cl e.1 cr c) child fuel (by omega) hheap hsized hord
        (hadm.frame hord (fun hne => hlo (fun h0 => hne (by simpa [← hl, names] using h0)))
          (fun e' he' => hhi (e'.1, e'.2.rootId) (by
            rw [← hr, names, List.head?_map, Option.mem_def.mp he']
            rfl)))
    refine ⟨c', leaf, page, hplug, hadm', hfetch, ?_⟩
    rw [STree.rootId_node, BPlusTree.findLeafLoop, hpage, ← hloop, ← he, ← hlookup]

/-! ### What the tree says about the pages -/

/-- The page of the topmost node of a leaf. -/
theorem Heap.leaf_page {lm im : Nat} (hh : Heap lm im s ((STree.leaf l).flat parent ++ Γ)) :
    ∃ page, s.fetchPage l.id = some (.leaf page) ∧ page.pageId = l.id ∧ page.maxSize = lm ∧
      page.parentPageId = parent ∧ page.nextPageId = l.next ∧ page.keyAt 0 = l.first ∧
      page.pairs = l.entries :=
  hh.fetch_leaf (by simp [STree.flat_leaf])

/-- The page of the topmost node of a node. -/
theorem Heap.node_page {lm im : Nat} {id : PageId} {h : Nat} {cs : List (κ × STree PageId κ ν h)}
    (hh : Heap lm im s ((STree.node id cs).flat parent ++ Γ)) :
    ∃ page, s.fetchPage id = some (.internal page) ∧ page.pageId = id ∧ page.maxSize = im ∧
      page.parentPageId = parent ∧ page.pairs = names cs :=
  hh.fetch_node (by simp [STree.flat_node])

/-- The cells of one child of a node. -/
theorem Heap.child {lm im : Nat} {id : PageId} {h : Nat} {A B : List (κ × STree PageId κ ν h)}
    {k : κ} {t : STree PageId κ ν h}
    (hh : Heap lm im s ((STree.node id (A ++ (k, t) :: B)).flat parent ++ Γ)) :
    ∃ Γ', Heap lm im s (t.flat id ++ Γ') := by
  rw [STree.flat_node, forest_append, forest_cons] at hh
  refine ⟨(id, .node parent (names (A ++ (k, t) :: B))) :: (forest id A ++ forest id B) ++ Γ,
    hh.perm (perm_of_countP fun P => ?_)⟩
  simp only [List.cons_append, List.countP_append, List.countP_cons]
  omega

/-- The keys below the page of a tree are the keys of the tree. -/
theorem Heap.keysUnder_eq {lm im : Nat} {h : Nat} {t : STree PageId κ ν h}
    (hh : Heap lm im s (t.flat parent ++ Γ)) : s.keysUnder h t.rootId = t.keys := by
  induction h generalizing parent Γ with
  | zero =>
    obtain ⟨l, rfl⟩ := t.exists_leaf
    obtain ⟨page, hpage, -, -, -, -, -, hpairs⟩ := hh.leaf_page
    rw [STree.rootId_leaf, STree.keys_leaf, PageStore.keysUnder, PageStore.fetchLeaf, hpage]
    simp only [hpairs]
  | succ h ih =>
    obtain ⟨id, cs, rfl⟩ := t.exists_node
    obtain ⟨page, hpage, -, -, -, hpairs⟩ := hh.node_page
    rw [STree.rootId_node, STree.keys_node, PageStore.keysUnder, PageStore.fetchInternal, hpage]
    simp only [hpairs, names, List.flatMap_map]
    apply List.flatMap_congr
    intro e he
    obtain ⟨cl, cr, rfl⟩ := List.append_of_mem he
    obtain ⟨Γ', hchild⟩ := Heap.child (k := e.1) (t := e.2) hh
    exact ih hchild

/-- The pages of a searchable tree that keeps the limits are well formed. -/
theorem Heap.wellFormed [LinearOrder κ] {lm im : Nat} {h lo lo' : Nat} {t : STree PageId κ ν h}
    (hh : Heap lm im s (t.flat parent ++ Γ)) (hlo : 2 ≤ lo')
    (hsized : t.SizedFrom (limits lm im) lo lo') (hord : t.items.Pairwise (· < ·)) :
    s.WellFormed h parent t.rootId := by
  induction h generalizing parent Γ lo lo' with
  | zero =>
    obtain ⟨l, rfl⟩ := t.exists_leaf
    obtain ⟨page, hpage, hid, hmax, hpar, -, -, hpairs⟩ := hh.leaf_page
    refine ⟨page, hpage, hid, hpar, ?_⟩
    rw [← LeafPage.length_pairs, hpairs, hmax]
    exact (STree.sizedFrom_leaf.mp hsized).2
  | succ h ih =>
    obtain ⟨id, cs, rfl⟩ := t.exists_node
    obtain ⟨page, hpage, hid, hmax, hpar, hpairs⟩ := hh.node_page
    obtain ⟨hmin, hle, hsub⟩ := STree.sizedFrom_node.mp hsized
    have hsize : page.size = cs.length := by
      rw [← InternalPage.length_pairs, hpairs, length_names]
    refine ⟨page, hpage, hid, hpar, by omega, by rw [hsize, hmax]; exact hle, ?_⟩
    intro i hi
    -- Cut the node open at the child `i`.
    obtain ⟨cl, k, child, cr, rfl, rfl⟩ : ∃ cl k child cr, cs = cl ++ (k, child) :: cr ∧
        cl.length = i :=
      ⟨cs.take i, cs[i].1, cs[i].2, cs.drop (i + 1), by simp, by simp; omega⟩
    rw [names_append, names_cons] at hpairs
    have hdata : page.data cl.length = (k, child.rootId) := by
      have := InternalPage.data_mid hpairs
      rwa [length_names] at this
    rw [STree.items_node, Ctx.tail_seg_mid] at hord
    obtain ⟨Γ', hchild⟩ := hh.child
    have hval : page.valueAt cl.length = child.rootId := by rw [InternalPage.valueAt, hdata]
    rw [hval]
    refine ⟨ih hchild (le_max_left _ _) (hsub (k, child) (by simp)) ?_, ?_⟩
    · exact (List.pairwise_append.mp (List.pairwise_append.mp hord).2.1).1
    intro x hx
    rw [hchild.keysUnder_eq] at hx
    have hitem := STree.keyItem_mem_items hx
    constructor
    · intro hpos
      rw [InternalPage.keyAt, hdata]
      cases cl with
      | nil => exact absurd hpos (by simp)
      | cons e cl =>
        obtain ⟨ke, te⟩ := e
        exact sep_lt_keyItem.mp ((List.pairwise_append.mp hord).2.2 (sep k) (by simp) _
          (List.mem_append_left _ hitem))
    · intro hlt
      cases cr with
      | nil =>
        rw [hsize] at hlt
        simp at hlt
      | cons e cr =>
        obtain ⟨ke, te⟩ := e
        have hnext : page.keyAt (cl.length + 1) = ke := by
          have := InternalPage.data_mid (l := names cl ++ [(k, child.rootId)])
            (e := (ke, te.rootId)) (r := names cr) (by rw [hpairs]; simp)
          rw [InternalPage.keyAt]
          simpa using congrArg Prod.fst this
        rw [hnext]
        exact keyItem_lt_sep.mp ((List.pairwise_append.mp (List.pairwise_append.mp hord).2.1).2.2 _
          hitem (sep ke) (by simp))

/-- The page of any leaf of a tree. -/
theorem Heap.leaves_page {lm im : Nat} {h : Nat} {t : STree PageId κ ν h}
    (hh : Heap lm im s (t.flat parent ++ Γ)) (hl : l ∈ t.leaves) :
    ∃ page, s.fetchPage l.id = some (.leaf page) ∧ page.nextPageId = l.next ∧
      page.pairs = l.entries := by
  induction h generalizing parent Γ with
  | zero =>
    obtain ⟨l', rfl⟩ := t.exists_leaf
    obtain rfl : l = l' := List.mem_singleton.mp hl
    obtain ⟨page, hpage, -, -, -, hnext, -, hpairs⟩ := hh.leaf_page
    exact ⟨page, hpage, hnext, hpairs⟩
  | succ h ih =>
    obtain ⟨id, cs, rfl⟩ := t.exists_node
    obtain ⟨e, he, hle⟩ := List.mem_flatMap.mp hl
    obtain ⟨cl, cr, rfl⟩ := List.append_of_mem he
    obtain ⟨Γ', hchild⟩ := Heap.child (k := e.1) (t := e.2) hh
    exact ih hchild hle

/-- The records of each leaf, put together. -/
theorem PageStore.LeafRecords.leafChain {p : PageId} {leaves : List (List (κ × ν))}
    (h : s.LeafRecords p leaves) : s.LeafChain p leaves.flatten := by
  induction h with
  | nil => exact .nil
  | cons hfetch _ ih => exact .cons hfetch ih

/-- The records of linked leaves. -/
theorem leafRecords_of_linked {s : PageStore κ ν} {leaves : List (Leaf PageId κ ν)}
    (hpage : ∀ l ∈ leaves, ∃ page, s.fetchPage l.id = some (.leaf page) ∧
      page.nextPageId = l.next ∧ page.pairs = l.entries)
    (hlinked : Linked INVALID_PAGE_ID leaves) :
    s.LeafRecords ((leaves.head?.map Leaf.id).getD INVALID_PAGE_ID) (leaves.map Leaf.entries) := by
  induction leaves with
  | nil => exact .nil
  | cons l rest ih =>
    obtain ⟨page, hfetch, hnext, hpairs⟩ := hpage l (by simp)
    rw [Linked, List.map_cons, List.cons_append, List.isChain_cons] at hlinked
    obtain ⟨hhead, hrest⟩ := hlinked
    have hstep : l.next = (rest.head?.map Leaf.id).getD INVALID_PAGE_ID := by
      cases rest with
      | nil => exact hhead _ rfl
      | cons l' rest => exact hhead _ rfl
    rw [List.map_cons, ← hpairs]
    refine .cons hfetch ?_
    rw [hnext, hstep]
    exact ih (fun l hl => hpage l (by simp [hl])) hrest

/-- `FindLeafPage` with `leftMost` walks down to the first leaf. -/
theorem Heap.findLeftMost {lm im : Nat} :
    ∀ {h lo lo' : Nat} {t : STree PageId κ ν h} {parent : PageId}
      {Γ : List (PageId × Cell PageId κ ν)} {f : Nat},
      Heap lm im s (t.flat parent ++ Γ) → 1 ≤ lo' → t.SizedFrom (limits lm im) lo lo' →
      h < f → ∃ l rest page, t.leaves = l :: rest ∧
        BPlusTree.findLeafLoop s (fun node => node.valueAt 0) f t.rootId = some (l.id, page) := by
  intro h
  induction h with
  | zero =>
    intro lo lo' t parent Γ f hh hlo hsized hfuel
    obtain ⟨l, rfl⟩ := t.exists_leaf
    obtain ⟨n, rfl⟩ : ∃ n, f = n + 1 := ⟨f - 1, by omega⟩
    obtain ⟨page, hpage, -⟩ := hh.leaf_page
    exact ⟨l, [], page, rfl, by simp [BPlusTree.findLeafLoop, hpage]⟩
  | succ h ih =>
    intro lo lo' t parent Γ f hh hlo hsized hfuel
    obtain ⟨id, cs, rfl⟩ := t.exists_node
    obtain ⟨n, rfl⟩ : ∃ n, f = n + 1 := ⟨f - 1, by omega⟩
    obtain ⟨hmin, -, hsub⟩ := STree.sizedFrom_node.mp hsized
    cases cs with
    | nil => simp at hmin; omega
    | cons e cs =>
      obtain ⟨k, child⟩ := e
      obtain ⟨page, hpage, -, -, -, hpairs⟩ := hh.node_page
      obtain ⟨Γ', hchild⟩ := Heap.child (A := []) hh
      obtain ⟨l, rest, leaf, hleaves, hloop⟩ := ih (f := n) hchild
        (le_trans (by decide) (le_max_left 2 (im / 2))) (hsub (k, child) (by simp)) (by omega)
      have hval : page.valueAt 0 = child.rootId := by
        rw [InternalPage.valueAt, show page.data 0 = _ from InternalPage.data_mid (l := []) hpairs]
      refine ⟨l, rest ++ cs.flatMap (fun e => e.2.leaves), leaf, by simp [hleaves], ?_⟩
      rw [STree.rootId_node, BPlusTree.findLeafLoop, hpage, ← hloop, ← hval]

/-! ### The index -/

namespace Represents

variable [LinearOrder κ] {lm im : Nat} {t : BPlusTree κ ν}
  {T : (h : Nat) × STree PageId κ ν h}

/-- A represented tree has a root. -/
theorem not_isEmpty (hr : Represents lm im t T) : t.isEmpty = false := by
  have hne : T.2.rootId ≠ INVALID_PAGE_ID := hr.heap.ne_invalid (by simp [STree.flat])
  simp [BPlusTree.isEmpty, hr.root, hne]

/-- The tree is not higher than the fuel. -/
theorem height_lt_fuel (hr : Represents lm im t T) : T.1 < t.fuel := by
  have hlt := STree.height_lt_length_ids (b := limits lm im)
    (le_trans (by decide) (le_max_left 2 _)) (by decide : 1 ≤ 2) hr.sized
  have hle := hr.heap.length_le
  rw [← List.length_map (f := Prod.fst), STree.map_fst_flat] at hle
  exact lt_of_lt_of_le hlt hle

/-- `FindLeafPage(key)` returns the leaf that the key belongs to. -/
theorem findLeafPage (hr : Represents lm im t T) (key : κ) :
    ∃ (c : Ctx PageId κ ν 0) (l : Leaf PageId κ ν) (page : LeafPage κ ν),
      c.plug (.leaf l) = T ∧ c.Admits key ∧
      Shows lm im l.id (.leaf page) ((STree.leaf l).topCell (c.parentId INVALID_PAGE_ID)) ∧
      t.findLeafPage key = some (some (l.id, page)) := by
  obtain ⟨c, l, page, hplug, hadm, hpage, hloop⟩ := findLeafLoop_spec key .root T.2 t.fuel
    hr.height_lt_fuel hr.heap hr.sized hr.ordered ⟨by simp [Ctx.pre], by simp [Ctx.post]⟩
  obtain rfl : c.plug (.leaf l) = T := hplug
  obtain ⟨page', hpage', hshow⟩ := hr.heap.open_hole.fetch_top
  obtain rfl : page' = .leaf page := Option.some.inj (hpage'.symm.trans hpage)
  refine ⟨c, l, page, rfl, hadm, hshow, ?_⟩
  have hloop' : BPlusTree.findLeafLoop t.bpm (fun node => node.lookup key) t.fuel
      (c.plug (.leaf l)).2.rootId = some (l.id, page) := hloop
  simp [BPlusTree.findLeafPage, hr.not_isEmpty, hr.root, hloop']

/-- The keys of a leaf increase. -/
theorem leaf_sorted {c : Ctx PageId κ ν 0} {l : Leaf PageId κ ν}
    (hord : (c.plug (.leaf l)).2.items.Pairwise (· < ·)) {page : LeafPage κ ν}
    (hpairs : page.pairs = l.entries) : page.Sorted := by
  rw [Ctx.items_plug] at hord
  have hl := STree.keys_pairwise (List.pairwise_append.mp (List.pairwise_append.mp hord).2.1).1
  rw [STree.keys_leaf] at hl
  rw [LeafPage.Sorted, hpairs]
  exact hl

/-- `GetValue` finds exactly the records of the tree. -/
theorem getValue (hr : Represents lm im t T) (key : κ) :
    ∃ r, t.getValue key = some r ∧ ∀ v, r = some v ↔ (key, v) ∈ T.2.pairs := by
  obtain ⟨c, l, page, rfl, hadm, ⟨-, -, -, -, -, hpairs⟩, hfind⟩ := hr.findLeafPage key
  refine ⟨page.lookup key, by simp [BPlusTree.getValue, hr.not_isEmpty, hfind], ?_⟩
  intro v
  rw [LeafPage.lookup_eq_some_iff (leaf_sorted hr.ordered hpairs), hpairs, hadm.mem_pairs_iff,
    STree.pairs_leaf]
  rfl

/-- `FindLeafPage` finds the first leaf of the tree, if it is asked for the leftmost one. -/
theorem findLeftMostLeafPage (hr : Represents lm im t T) : ∃ l rest page,
    T.2.leaves = l :: rest ∧ t.findLeftMostLeafPage = some (some (l.id, page)) := by
  have hheap : Heap lm im t.bpm (T.2.flat INVALID_PAGE_ID ++ []) := by
    rw [List.append_nil]
    exact hr.heap
  obtain ⟨l, rest, page, hleaves, hloop⟩ := hheap.findLeftMost (f := t.fuel) (by decide)
    hr.sized hr.height_lt_fuel
  refine ⟨l, rest, page, hleaves, ?_⟩
  simp [BPlusTree.findLeftMostLeafPage, hr.not_isEmpty, hr.root, hloop]

/-- The leaves of a represented tree. -/
theorem hasLeaves (hr : Represents lm im t T) : t.HasLeaves (T.2.leaves.map Leaf.entries) := by
  have hheap : Heap lm im t.bpm (T.2.flat INVALID_PAGE_ID ++ []) := by
    rw [List.append_nil]
    exact hr.heap
  obtain ⟨l, rest, page, hleaves, hfind⟩ := hr.findLeftMostLeafPage
  refine Or.inr ⟨l.id, page, hfind, ?_⟩
  have hrecords := leafRecords_of_linked (fun l hl => hheap.leaves_page hl) hr.linked
  rwa [hleaves, List.head?_cons, Option.map_some, Option.getD_some, ← hleaves] at hrecords

/-- A represented tree is a well-formed index of its records. -/
theorem isIndex (hr : Represents lm im t T) {m : κ → Option ν}
    (hm : ∀ k v, (k, v) ∈ T.2.pairs ↔ m k = some v) : IsIndex t m where
  getValue := by
    intro k
    obtain ⟨r, hget, hr'⟩ := hr.getValue k
    rw [hget, Option.some.injEq]
    ext v
    exact (hr' v).trans (hm k v)
  chain := by
    refine ⟨T.2.pairs, ?_, STree.keys_pairwise hr.ordered, hm⟩
    rw [STree.pairs, List.flatMap_def]
    refine hr.hasLeaves.imp ?_ ?_
    · rintro ⟨hfind, hnil⟩
      exact ⟨hfind, by rw [hnil, List.flatten_nil]⟩
    · rintro ⟨p, l, hfind, hrecords⟩
      exact ⟨p, l, hfind, hrecords.leafChain⟩
  wellFormed := by
    intro _
    refine ⟨T.1, ?_⟩
    rw [hr.root]
    exact Heap.wellFormed (Γ := []) (by rw [List.append_nil]; exact hr.heap) (le_refl 2)
      hr.sized hr.ordered

end Represents

end DisMiniSql.MiniSql
