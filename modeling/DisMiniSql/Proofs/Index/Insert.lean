import DisMiniSql.Proofs.Index.Search

/-!
# `DisMiniSql.Proofs.Index.Insert`: `BPlusTree::Insert`

* `insertIntoParent_spec`: two trees that stand where one should become one tree, with a
  separator between them. The induction is on the context of the hole, from the split page up
  to the root.
* `insert_spec`: `Insert` adds the record to the tree, or returns false and changes nothing.
-/

set_option autoImplicit false

namespace DisMiniSql.MiniSql

open DisMiniSql.Lib

variable {κ ν : Type}

/-! ### Splits of a node -/

variable {old new : BPlusTreePage κ ν} {lm im : Nat} {t : BPlusTree κ ν}

/-- The new root over the two trees. -/
theorem insertIntoNewRoot_heap [Inhabited κ] {h : Nat} (him : t.internalMaxSize = im)
    {t₁ t₂ : STree PageId κ ν h} (k : κ)
    (hheap : Heap lm im t.bpm (t₁.flat INVALID_PAGE_ID ++ t₂.flat INVALID_PAGE_ID))
    (hold : Shows lm im t₁.rootId old (t₁.topCell INVALID_PAGE_ID))
    (hnew : Shows lm im t₂.rootId new (t₂.topCell INVALID_PAGE_ID)) :
    Heap lm im (t.insertIntoNewRoot t₁.rootId old k t₂.rootId new).bpm
      ((STree.node t.bpm.newPage.1 [(old.firstKey, t₁), (k, t₂)]).flat INVALID_PAGE_ID) := by
  have hroot := hheap.newPage.add t.bpm.newPage_fst_mem hheap.newPage_not_mem
    t.bpm.newPage_fst_nonneg
    (c := .node INVALID_PAGE_ID [(old.firstKey, t₁.rootId), (k, t₂.rootId)])
    (g := .internal { (((((InternalPage.init t.bpm.newPage.1 INVALID_PAGE_ID
      t.internalMaxSize).setKeyAt 0 old.firstKey).setValueAt 0 old.pageId).setKeyAt 1
        k).setValueAt 1 new.pageId) with size := 2 })
    ⟨rfl, him, rfl, by
      simp [InternalPage.pairs, slots, List.range_succ, InternalPage.setKeyAt,
        InternalPage.setValueAt, setSlot, (Heap.shows_topCell hold).1,
        (Heap.shows_topCell hnew).1]⟩
  have hfirst := Heap.setTop (t := t₁) (q := INVALID_PAGE_ID) (r := t.bpm.newPage.1)
    (Γ := (t.bpm.newPage.1, .node INVALID_PAGE_ID [(old.firstKey, t₁.rootId), (k, t₂.rootId)])
      :: t₂.flat INVALID_PAGE_ID)
    (hroot.perm (perm_of_countP fun P => by
      simp only [List.countP_append, List.countP_cons]
      omega)) hold
  have hsecond := Heap.setTop (t := t₂) (q := INVALID_PAGE_ID) (r := t.bpm.newPage.1)
    (Γ := (t.bpm.newPage.1, .node INVALID_PAGE_ID [(old.firstKey, t₁.rootId), (k, t₂.rootId)])
      :: t₁.flat t.bpm.newPage.1)
    (hfirst.perm (perm_of_countP fun P => by
      simp only [List.countP_append, List.countP_cons]
      omega)) hnew
  refine Heap.perm hsecond (perm_of_countP fun P => ?_)
  simp only [STree.flat_node, forest_cons, forest_nil, names_cons, names_nil, List.countP_append,
    List.countP_cons, List.countP_nil]
  omega

/-- `Split` of an internal page: the second half of its children goes to a new page. -/
theorem splitInternal_heap [Inhabited κ] {h : Nat} {id parent : PageId}
    {as bs : List (κ × STree PageId κ ν h)} {Γ : List (PageId × Cell PageId κ ν)}
    {n : InternalPage κ} (hheap : Heap lm im t.bpm ((STree.node id (as ++ bs)).flat parent ++ Γ))
    (hn : Shows lm im id (.internal n : BPlusTreePage κ ν) (.node parent (names (as ++ bs))))
    (hlen : as.length = (as ++ bs).length - (as ++ bs).length / 2) :
    (t.splitInternal id n).1.1 = t.bpm.newPage.1 ∧
      (t.splitInternal id n).1.2.pairs = names bs ∧
      Heap lm im (t.splitInternal id n).2.bpm
        ((STree.node id as).flat parent ++
          ((STree.node t.bpm.newPage.1 bs).flat parent ++ Γ)) := by
  obtain ⟨hid, hmax, hpar, hpairs⟩ := hn
  have hsize : n.size = (as ++ bs).length := by
    rw [← InternalPage.length_pairs, hpairs, length_names]
  rw [names_append] at hpairs
  obtain ⟨hleft, hright, hadopt⟩ := InternalPage.moveHalfTo_pairs hpairs
    (by rw [length_names, hsize, hlen])
    (InternalPage.init t.bpm.newPage.1 n.parentPageId n.maxSize) t.bpm.newPage.2
  refine ⟨rfl, hright, ?_⟩
  -- The moved children get their new parent, then both pages are written.
  have hmoved := Heap.adopt (C := bs) (q := id) (r := t.bpm.newPage.1)
    (Γ := (id, .node parent (names (as ++ bs))) :: (forest id as ++ Γ))
    (hheap.newPage.perm (perm_of_countP fun P => by
      simp only [STree.flat_node, forest_append, List.cons_append, List.countP_append,
        List.countP_cons]
      omega))
  have hset := Heap.set (p := id) (c := .node parent (names (as ++ bs)))
    (d := .node parent (names as)) (Γ := forest t.bpm.newPage.1 bs ++ (forest id as ++ Γ))
    (g := .internal (n.moveHalfTo (InternalPage.init t.bpm.newPage.1 n.parentPageId n.maxSize)
      t.bpm.newPage.2).1)
    (hmoved.perm (perm_of_countP fun P => by
      simp only [List.countP_append, List.countP_cons]
      omega)) ⟨hid, hmax, hpar, hleft⟩
  have hfresh : t.bpm.newPage.1 ∉ (((id, .node parent (names as)) ::
      (forest t.bpm.newPage.1 bs ++ (forest id as ++ Γ))).map Prod.fst) := by
    have hnot := hheap.newPage_not_mem
    simp only [STree.flat_node, List.map_append, List.map_cons, map_fst_forest, forest_append,
      List.mem_append, List.mem_cons, not_or] at hnot ⊢
    tauto
  have hadd := hset.add (by simp) hfresh t.bpm.newPage_fst_nonneg (c := .node parent (names bs))
    (g := .internal (n.moveHalfTo (InternalPage.init t.bpm.newPage.1 n.parentPageId n.maxSize)
      t.bpm.newPage.2).2.1) ⟨rfl, hmax, hpar, hright⟩
  rw [← show _ = t.bpm.newPage.2.adopt t.bpm.newPage.1 ((names bs).map Prod.snd) from hadopt]
    at hadd
  refine hadd.perm (perm_of_countP fun P => ?_)
  simp only [STree.flat_node, List.cons_append, List.countP_append, List.countP_cons]
  omega

/-- `InsertNodeAfter` in the parent: the second tree becomes a child behind the first. -/
theorem insertNodeAfter_heap {lm im h : Nat} {s : PageStore κ ν} {id : PageId}
    {left right : List (κ × STree PageId κ ν h)} {k₀ : κ} {up : Ctx PageId κ ν (h + 1)}
    {t₁ t₂ : STree PageId κ ν h} (k : κ)
    (hheap : Heap lm im s (t₁.flat id ++ (t₂.flat id ++
      (Ctx.frame id left k₀ right up).flat INVALID_PAGE_ID t₁.rootId))) :
    ∃ n, s.fetchInternal id = some n ∧
      Shows lm im id (.internal (n.insertNodeAfter t₁.rootId k t₂.rootId) : BPlusTreePage κ ν)
        (.node (up.parentId INVALID_PAGE_ID) (names (left ++ (k₀, t₁) :: (k, t₂) :: right))) ∧
      Heap lm im (s.setPage id (.internal (n.insertNodeAfter t₁.rootId k t₂.rootId)))
        ((STree.node id (left ++ (k₀, t₁) :: (k, t₂) :: right)).flat (up.parentId INVALID_PAGE_ID)
          ++ up.flat INVALID_PAGE_ID id) := by
  obtain ⟨n, hfetch, hid, hmax, hpar, hpairs⟩ := hheap.fetchInternal_node (p := id)
    (q := up.parentId INVALID_PAGE_ID)
    (C := names left ++ (k₀, t₁.rootId) :: names right) (by simp [Ctx.flat])
  have hchild : t₁.rootId ∉ (names left).map Prod.snd :=
    Heap.rootId_not_mem_names (s := s) (q := id) (r := id)
      (Γ := forest id right ++ (t₂.flat id ++ (up.flat INVALID_PAGE_ID id ++
        [(id, .node (up.parentId INVALID_PAGE_ID)
          (names left ++ (k₀, t₁.rootId) :: names right))])))
      (hheap.perm (perm_of_countP fun P => by
        simp only [Ctx.flat, List.countP_append, List.countP_cons, List.countP_nil]
        omega))
  have hins := InternalPage.insertNodeAfter_pairs hpairs hchild k t₂.rootId
  have hshow : Shows lm im id (.internal (n.insertNodeAfter t₁.rootId k t₂.rootId) :
      BPlusTreePage κ ν) (.node (up.parentId INVALID_PAGE_ID)
        (names (left ++ (k₀, t₁) :: (k, t₂) :: right))) :=
    ⟨hid, hmax, hpar, by rw [hins]; simp⟩
  have hset := Heap.set (p := id) (c := .node (up.parentId INVALID_PAGE_ID)
      (names left ++ (k₀, t₁.rootId) :: names right))
    (Γ := forest id left ++ (forest id right ++ (t₁.flat id ++ (t₂.flat id ++
      up.flat INVALID_PAGE_ID id))))
    (hheap.perm (perm_of_countP fun P => by
      simp only [Ctx.flat, List.countP_append, List.countP_cons]
      omega)) hshow
  refine ⟨n, hfetch, hshow, hset.perm (perm_of_countP fun P => ?_)⟩
  simp only [STree.flat_node, forest_append, forest_cons, List.cons_append,
    List.countP_append, List.countP_cons]
  omega

/-! ### Going up -/

/-- `InsertIntoParent` of a root page. -/
theorem insertIntoParent_root [Inhabited κ] {oldId newId : PageId}
    (hold : t.bpm.fetchPage oldId = some old) (hnew : t.bpm.fetchPage newId = some new)
    (hroot : old.parentPageId = INVALID_PAGE_ID) (k : κ) (fuel : Nat) :
    BPlusTree.insertIntoParent (fuel + 1) t oldId k newId
      = some (t.insertIntoNewRoot oldId old k newId new) := by
  simp [BPlusTree.insertIntoParent, hold, hnew, BPlusTreePage.isRootPage, hroot]

/-- `InsertIntoParent` of another page. -/
theorem insertIntoParent_frame [Inhabited κ] {oldId newId id : PageId} {n : InternalPage κ}
    (hold : t.bpm.fetchPage oldId = some old) (hnew : t.bpm.fetchPage newId = some new)
    (holdId : old.pageId = oldId) (hnewId : new.pageId = newId) (hparent : old.parentPageId = id)
    (hid : id ≠ INVALID_PAGE_ID) (hn : t.bpm.fetchInternal id = some n) (k : κ) (fuel : Nat) :
    BPlusTree.insertIntoParent (fuel + 1) t oldId k newId =
      (let parent := n.insertNodeAfter oldId k newId
       let t := t.setPage id (.internal parent)
       if parent.size > parent.maxSize then
         let r := t.splitInternal id parent
         BPlusTree.insertIntoParent fuel r.2 id (r.1.2.keyAt 0) r.1.1
       else some t) := by
  subst holdId hnewId hparent
  simp [BPlusTree.insertIntoParent, hold, hnew, BPlusTreePage.isRootPage, hid, hn]

/-- Two trees that stand where one should become one tree. -/
theorem insertIntoParent_spec [Inhabited κ] (him : 3 ≤ im) {h : Nat} (c : Ctx PageId κ ν h) :
    ∀ (t₁ t₂ : STree PageId κ ν h) (k : κ) (fuel : Nat) (t : BPlusTree κ ν),
      c.depth < fuel → t.leafMaxSize = lm → t.internalMaxSize = im →
      Heap lm im t.bpm (t₁.flat (c.parentId INVALID_PAGE_ID) ++
        (t₂.flat (c.parentId INVALID_PAGE_ID) ++ c.flat INVALID_PAGE_ID t₁.rootId)) →
      c.Sized (limits lm im) → t₁.Sized (limits lm im) → t₂.Sized (limits lm im) →
      t.rootPageId = c.topId t₁.rootId →
      ∃ t' T, BPlusTree.insertIntoParent fuel t t₁.rootId k t₂.rootId = some t' ∧
        Stored lm im t' T ∧
        T.2.items = c.pre ++ (t₁.items ++ sep k :: t₂.items ++ c.post) ∧
        T.2.leaves = c.leavesPre ++ (t₁.leaves ++ t₂.leaves ++ c.leavesPost) := by
  induction c with
  | root =>
    -- a new root gets the two parts as its children
    intro t₁ t₂ k fuel t hfuel hlm him' hheap hc h₁ h₂ hroot
    obtain ⟨fuel, rfl⟩ : ∃ f, fuel = f + 1 := ⟨fuel - 1, by omega⟩
    simp only [Ctx.parentId, Ctx.flat, List.append_nil] at hheap
    obtain ⟨old, hold, hshow₁⟩ := hheap.fetch_top
    obtain ⟨new, hnew, hshow₂⟩ := (hheap.perm List.perm_append_comm).fetch_top
    refine ⟨_, ⟨_, .node t.bpm.newPage.1 [(old.firstKey, t₁), (k, t₂)]⟩,
      insertIntoParent_root hold hnew (Heap.shows_topCell hshow₁).2 k fuel, ?_, ?_, ?_⟩
    · refine ⟨hlm, him', insertIntoNewRoot_heap him' k hheap hshow₁ hshow₂, rfl, ?_⟩
      refine STree.sizedFrom_node.mpr ⟨le_refl 2, (show 2 ≤ im by omega), ?_⟩
      simp only [List.forall_mem_cons]
      exact ⟨h₁, h₂, by simp⟩
    · simp [Ctx.pre, Ctx.post]
    · simp [Ctx.leavesPre, Ctx.leavesPost]
  | frame id left k₀ right up ih =>
    intro t₁ t₂ k fuel t hfuel hlm him' hheap hc h₁ h₂ hroot
    obtain ⟨fuel, rfl⟩ : ∃ f, fuel = f + 1 := ⟨fuel - 1, by omega⟩
    simp only [Ctx.parentId] at hheap
    obtain ⟨old, hold, hshow₁⟩ := hheap.fetch_top
    obtain ⟨new, hnew, hshow₂⟩ := (hheap.perm (List.perm_append_comm_assoc _ _ _)).fetch_top
    have hne : id ≠ INVALID_PAGE_ID := hheap.ne_invalid (by simp [Ctx.flat])
    obtain ⟨n, hfetch, hshow, hparent⟩ := insertNodeAfter_heap k hheap
    obtain ⟨cs, hcs⟩ : ∃ cs, cs = left ++ (k₀, t₁) :: (k, t₂) :: right := ⟨_, rfl⟩
    rw [← hcs] at hshow hparent
    rw [insertIntoParent_frame hold hnew (Heap.shows_topCell hshow₁).1 (Heap.shows_topCell hshow₂).1
      (Heap.shows_topCell hshow₁).2 hne hfetch]
    obtain ⟨hup, hmin, hle, hleft, hright⟩ := hc
    have hsub : ∀ e ∈ cs, e.2.Sized (limits lm im) := by
      rw [hcs]
      simp only [List.forall_mem_append, List.forall_mem_cons]
      exact ⟨hleft, h₁, h₂, hright⟩
    have hlen : cs.length = left.length + right.length + 2 := by
      rw [hcs]
      simp
      omega
    have hitems : up.pre ++ ((seg cs).tail ++ up.post) = (Ctx.frame id left k₀ right up).pre ++
        (t₁.items ++ sep k :: t₂.items ++ (Ctx.frame id left k₀ right up).post) := by
      rw [hcs, Ctx.tail_seg_mid]
      simp [Ctx.pre, Ctx.post]
    have hleaves : up.leavesPre ++ (cs.flatMap (fun e => e.2.leaves) ++ up.leavesPost)
        = (Ctx.frame id left k₀ right up).leavesPre ++
          (t₁.leaves ++ t₂.leaves ++ (Ctx.frame id left k₀ right up).leavesPost) := by
      rw [hcs]
      simp [Ctx.leavesPre, Ctx.leavesPost]
    have hsize : (n.insertNodeAfter t₁.rootId k t₂.rootId).size = cs.length := by
      rw [← InternalPage.length_pairs, hshow.2.2.2, length_names]
    have hmax : (n.insertNodeAfter t₁.rootId k t₂.rootId).maxSize = im := hshow.2.1
    simp only [hsize, hmax]
    by_cases hfull : cs.length > im
    · -- The parent is full and is split.
      rw [if_pos hfull]
      have hle' : left.length + right.length + 1 ≤ im := hle
      obtain ⟨as, kb, tb, bs, rfl, hcut⟩ : ∃ as kb tb bs, cs = as ++ (kb, tb) :: bs ∧
          as.length = cs.length - cs.length / 2 := by
        have hlt : cs.length - cs.length / 2 < cs.length := by omega
        refine ⟨cs.take (cs.length - cs.length / 2), cs[cs.length - cs.length / 2].1,
          cs[cs.length - cs.length / 2].2, cs.drop (cs.length - cs.length / 2 + 1), by simp, ?_⟩
        rw [List.length_take]
        omega
      obtain ⟨hpid, hppairs, hpheap⟩ := splitInternal_heap (t := t.setPage id _) hparent hshow hcut
      have hkey := InternalPage.keyAt_zero hppairs
      rw [List.length_append] at hcut hlen hfull
      rw [List.forall_mem_append] at hsub
      -- the right part and its first key go to the page above
      obtain ⟨t', T, hrec, hstored, hTitems, hTleaves⟩ :=
        ih (.node id as) (.node _ ((kb, tb) :: bs))
        kb fuel _ (Nat.lt_of_succ_lt_succ hfuel) (by exact hlm) (by exact him') hpheap hup
        (STree.sizedFrom_node.mpr ⟨(show max 2 (im / 2) ≤ as.length by omega),
          (show as.length ≤ im by omega), hsub.1⟩)
        (STree.sizedFrom_node.mpr ⟨(show max 2 (im / 2) ≤ ((kb, tb) :: bs).length by omega),
          (show ((kb, tb) :: bs).length ≤ im by omega), hsub.2⟩) hroot
      have has : as ≠ [] := by
        intro hnil
        have hzero : as.length = 0 := by rw [hnil, List.length_nil]
        omega
      refine ⟨t', T, ?_, hstored, ?_, ?_⟩
      · simp only [hpid, hkey]
        exact hrec
      · rw [hTitems, ← hitems, ← Ctx.seg_cut has]
        simp
      · rw [hTleaves, ← hleaves]
        simp
    · -- the parent has room
      rw [if_neg hfull]
      refine ⟨_, up.plug (.node id cs), rfl, ⟨hlm, him', ?_, ?_, ?_⟩, ?_, ?_⟩
      · exact hparent.close_hole
      · rw [Ctx.rootId_plug]
        exact hroot
      · rw [Ctx.sized_plug]
        refine ⟨hup, STree.sizedFrom_node.mpr ⟨?_, Nat.not_lt.mp hfull, hsub⟩⟩
        omega
      · rw [Ctx.items_plug, STree.items_node, hitems]
      · rw [Ctx.leaves_plug, STree.leaves_node, hleaves]

/-! ### The leaf -/

/-- `Split` of a leaf page: the second half of its records goes to a new page behind it. -/
theorem splitLeaf_heap [Inhabited κ] [Inhabited ν] {lm im : Nat} {t : BPlusTree κ ν}
    {l : Leaf PageId κ ν} {parent : PageId} {as bs : List (κ × ν)}
    {Γ : List (PageId × Cell PageId κ ν)} {page : LeafPage κ ν}
    (hheap : Heap lm im t.bpm ((STree.leaf l).flat parent ++ Γ))
    (hpage : Shows lm im l.id (.leaf page) ((STree.leaf l).topCell parent))
    (hentries : l.entries = as ++ bs)
    (hlen : as.length = (as ++ bs).length - (as ++ bs).length / 2) :
    ∃ first, (t.splitLeaf l.id page).1.1 = t.bpm.newPage.1 ∧
      (t.splitLeaf l.id page).1.2.pairs = bs ∧
      Heap lm im (t.splitLeaf l.id page).2.bpm
        ((STree.leaf ⟨l.id, t.bpm.newPage.1, l.first, as⟩).flat parent ++
          ((STree.leaf ⟨t.bpm.newPage.1, l.next, first, bs⟩).flat parent ++ Γ)) := by
  obtain ⟨hid, hmax, hpar, hnext, hfirst, hpairs⟩ := hpage
  have hpairs' : page.pairs = as ++ bs := hpairs.trans hentries
  have hsize : page.size = (as ++ bs).length := by rw [← LeafPage.length_pairs, hpairs']
  obtain ⟨hleft, hright⟩ := page.moveHalfTo_pairs
    (LeafPage.init t.bpm.newPage.1 page.parentPageId page.maxSize)
  rw [hpairs', hsize, ← hlen] at hleft hright
  rw [List.take_left] at hleft
  rw [List.drop_left] at hright
  refine ⟨(t.splitLeaf l.id page).1.2.keyAt 0, rfl, hright, ?_⟩
  have hset := Heap.set (p := l.id) (d := .leaf parent t.bpm.newPage.1 l.first as)
    (g := .leaf { (page.moveHalfTo (LeafPage.init t.bpm.newPage.1 page.parentPageId
      page.maxSize)).1 with nextPageId := t.bpm.newPage.1 })
    (Γ := Γ) hheap.newPage ⟨hid, hmax, hpar, rfl, hfirst, hleft⟩
  have hfresh : t.bpm.newPage.1 ∉ ((l.id, Cell.leaf parent t.bpm.newPage.1 l.first as) ::
      Γ).map Prod.fst := hheap.newPage_not_mem
  have hadd := hset.add (by simp) hfresh t.bpm.newPage_fst_nonneg
    (c := .leaf parent l.next ((t.splitLeaf l.id page).1.2.keyAt 0) bs)
    (g := .leaf (t.splitLeaf l.id page).1.2) ⟨rfl, hmax, hpar, hnext, rfl, hright⟩
  exact hadd.perm (List.Perm.swap _ _ _)

/-- `Insert` of a key that the leaf does not have keeps the items increasing. -/
theorem insert_items_pairwise [LinearOrder κ] {c : Ctx PageId κ ν 0} {l : Leaf PageId κ ν}
    {key : κ} {l₁ l₂ : List (κ × ν)} (hord : (c.plug (.leaf l)).2.items.Pairwise (· < ·))
    (hadm : c.Admits key) (hentries : l.entries = l₁ ++ l₂) (h₁ : ∀ e ∈ l₁, e.1 < key)
    (h₂ : ∀ e ∈ l₂, key < e.1) (v : ν) :
    (c.pre ++ ((l₁ ++ (key, v) :: l₂).map (fun e => keyItem e.1) ++ c.post)).Pairwise (· < ·) := by
  rw [Ctx.items_plug] at hord
  have hrec : (l.entries.map fun e => keyItem e.1).Sublist (STree.leaf l).items := by
    simpa [recordItems] using l.recordItems_sublist
  have hshrink := pairwise_shrink hord hrec
  rw [hentries, List.map_append, List.append_assoc, ← List.append_assoc] at hshrink
  have hins := pairwise_insert (x := keyItem key) hshrink
    (fun x hx => by
      rcases List.mem_append.mp hx with hx | hx
      · exact hadm.1 x hx
      · obtain ⟨e, he, rfl⟩ := List.mem_map.mp hx
        exact keyItem_lt_keyItem.mpr (h₁ e he))
    (fun x hx => by
      rcases List.mem_append.mp hx with hx | hx
      · obtain ⟨e, he, rfl⟩ := List.mem_map.mp hx
        exact keyItem_lt_keyItem.mpr (h₂ e he)
      · exact hadm.2 x hx)
  simpa using hins

variable {page : LeafPage κ ν}

/-- `InsertIntoLeaf`, when `FindLeafPage` has found the leaf. -/
theorem insertIntoLeaf_eq [LinearOrder κ] [Inhabited κ] [Inhabited ν] {key : κ} {id : PageId}
    (hfind : t.findLeafPage key = some (some (id, page))) (v : ν) : t.insertIntoLeaf key v =
      if (page.lookup key).isSome then some (false, t)
      else
        let leaf := page.insert key v
        let t := t.setPage id (.leaf leaf)
        if leaf.size > t.leafMaxSize then
          let r := t.splitLeaf id leaf
          (BPlusTree.insertIntoParent r.2.fuel r.2 id (r.1.2.keyAt 0) r.1.1).map
            (fun t => (true, t))
        else some (true, t) := by
  simp only [BPlusTree.insertIntoLeaf, hfind, Option.bind_eq_bind, Option.bind_some]
  split
  · rfl
  · split
    · rw [Option.map_eq_bind]
      rfl
    · rfl

variable {c : Ctx PageId κ ν 0} {l : Leaf PageId κ ν}

/-- The leaf after `LeafPage::Insert` of a key it does not have. -/
theorem leaf_insert [LinearOrder κ] {parent : PageId} {key : κ}
    (hord : (c.plug (.leaf l)).2.items.Pairwise (· < ·)) (hadm : c.Admits key)
    (hshow : Shows lm im l.id (.leaf page) ((STree.leaf l).topCell parent))
    (hmem : key ∉ l.entries.map Prod.fst) (v : ν) :
    ∃ l' : Leaf PageId κ ν, l'.id = l.id ∧ l'.next = l.next ∧
      l'.entries.length = l.entries.length + 1 ∧
      Shows lm im l.id (.leaf (page.insert key v)) ((STree.leaf l').topCell parent) ∧
      (c.pre ++ (l'.items ++ c.post)).Pairwise (· < ·) ∧
      ∀ e, e ∈ l'.entries ↔ e = (key, v) ∨ e ∈ l.entries := by
  obtain ⟨hid, hmax, hpar, hnext, hfirst, hpairs⟩ := hshow
  have hpairs : page.pairs = l.entries := hpairs
  obtain ⟨l₁, l₂, hsplit, hlo, hhi, hins⟩ :=
    LeafPage.insert_pairs (Represents.leaf_sorted hord hpairs) key v
  rw [hpairs] at hsplit
  have hhi' : ∀ e ∈ l₂, key < e.1 := fun e he => lt_of_le_of_ne (hhi e he) fun heq =>
    hmem (heq ▸ List.mem_map_of_mem (by rw [hsplit]; exact List.mem_append_right _ he))
  refine ⟨⟨l.id, l.next, (page.insert key v).keyAt 0, l₁ ++ (key, v) :: l₂⟩, rfl, rfl, ?_,
    ⟨hid, hmax, hpar, hnext, rfl, hins⟩, ?_, ?_⟩
  · rw [hsplit]
    simp
    omega
  · rw [Leaf.items_of_ne_nil (by simp)]
    exact insert_items_pairwise hord hadm hsplit hlo hhi' v
  · intro e
    rw [hsplit]
    simp only [List.mem_append, List.mem_cons]
    tauto

/-- The records of a tree with a leaf in the hole. -/
theorem mem_pairs_plug_leaf {e : κ × ν} :
    e ∈ (c.plug (.leaf l)).2.pairs ↔ e ∈ c.leavesPre.flatMap Leaf.entries ∨ e ∈ l.entries ∨
      e ∈ c.leavesPost.flatMap Leaf.entries := by
  simp [STree.pairs, Ctx.leaves_plug]

/-- What holds of a tree into which records are only inserted: every separator is the key of a
record, and every leaf has a record. -/
structure Grown (T : (h : Nat) × STree PageId κ ν h) : Prop where
  tight : ∀ k, sep k ∈ T.2.items → k ∈ T.2.keys
  filled : ∀ l ∈ T.2.leaves, l.entries ≠ []

/-- The keys of two trees, one of which has all records of the other. -/
theorem mem_keys_of_pairs {h h' : Nat} {T : STree PageId κ ν h} {T' : STree PageId κ ν h'}
    (hsub : ∀ e ∈ T.pairs, e ∈ T'.pairs) {k : κ} (hk : k ∈ T.keys) : k ∈ T'.keys := by
  obtain ⟨e, he, rfl⟩ := List.mem_map.mp hk
  exact List.mem_map_of_mem (hsub e he)

/-- The separators of a tree with a leaf in the hole. -/
theorem sep_mem_items_plug_leaf {k : κ} :
    sep k ∈ (c.plug (.leaf l)).2.items ↔ sep k ∈ c.pre ∨ sep k ∈ c.post := by
  have hleaf : sep k ∉ (STree.leaf l).items := l.sep_not_mem_items k
  rw [Ctx.items_plug, List.mem_append, List.mem_append]
  tauto

/-- Another leaf in the hole, with more records. -/
theorem Grown.plug_leaf {l' : Leaf PageId κ ν} (h : Grown (c.plug (.leaf l)))
    (hne : l'.entries ≠ []) (hsub : ∀ e ∈ l.entries, e ∈ l'.entries) :
    Grown (c.plug (.leaf l')) where
  tight k hk := by
    refine mem_keys_of_pairs (fun e he => ?_)
      (h.tight k (sep_mem_items_plug_leaf.mpr (sep_mem_items_plug_leaf.mp hk)))
    rw [mem_pairs_plug_leaf] at he ⊢
    exact he.imp_right (Or.imp_left (hsub e))
  filled l₀ hl₀ := by
    have hfilled := h.filled
    simp only [Ctx.leaves_plug, STree.leaves_leaf, List.mem_append,
      List.mem_singleton] at hl₀ hfilled
    rcases hl₀ with hpre | rfl | hpost
    · exact hfilled l₀ (Or.inl hpre)
    · exact hne
    · exact hfilled l₀ (Or.inr (Or.inr hpost))

/-- The leaf has become too large and is split. -/
theorem insert_split [LinearOrder κ] [Inhabited κ] [Inhabited ν] {lm im : Nat} (hlm : 1 ≤ lm)
    (him : 3 ≤ im) {t : BPlusTree κ ν} {c : Ctx PageId κ ν 0} {l : Leaf PageId κ ν}
    {page : LeafPage κ ν} (hlm' : t.leafMaxSize = lm) (him' : t.internalMaxSize = im)
    (hheap : Heap lm im t.bpm
      ((STree.leaf l).flat (c.parentId INVALID_PAGE_ID) ++ c.flat INVALID_PAGE_ID l.id))
    (hshow : Shows lm im l.id (.leaf page)
      ((STree.leaf l).topCell (c.parentId INVALID_PAGE_ID)))
    (hroot : t.rootPageId = c.topId l.id) (hc : c.Sized (limits lm im))
    (hlen : l.entries.length = lm + 1)
    (hord : (c.pre ++ (l.items ++ c.post)).Pairwise (· < ·))
    (hlinked : Linked INVALID_PAGE_ID (c.leavesPre ++ l :: c.leavesPost)) :
    ∃ t' T', (let r := t.splitLeaf l.id page
        BPlusTree.insertIntoParent r.2.fuel r.2 l.id (r.1.2.keyAt 0) r.1.1) = some t' ∧
      Represents lm im t' T' ∧ (∀ e, e ∈ T'.2.pairs ↔ e ∈ (c.plug (.leaf l)).2.pairs) ∧
        (Grown (c.plug (.leaf l)) → Grown T') := by
  obtain ⟨as, ea, eb, bs, hentries, hcut⟩ : ∃ as ea eb bs,
      l.entries = (as ++ [ea]) ++ (eb :: bs) ∧
        (as ++ [ea]).length = l.entries.length - l.entries.length / 2 := by
    obtain ⟨cut, hcut⟩ : ∃ cut, cut = l.entries.length - l.entries.length / 2 := ⟨_, rfl⟩
    have htake : (l.entries.take cut).length = cut := by
      rw [List.length_take]
      omega
    have hdrop : (l.entries.drop cut).length = l.entries.length - cut := List.length_drop
    have hne : l.entries.take cut ≠ [] := List.length_pos_iff.mp (by omega)
    obtain ⟨eb, bs, hbs⟩ := List.exists_cons_of_ne_nil
      (List.length_pos_iff.mp (by omega : 0 < (l.entries.drop cut).length))
    refine ⟨(l.entries.take cut).dropLast, (l.entries.take cut).getLast hne, eb, bs, ?_, ?_⟩
    · rw [List.dropLast_append_getLast, ← hbs, List.take_append_drop]
    · rw [List.dropLast_append_getLast, htake, hcut]
  -- `Split` moves the right half to a new page, the next one in the chain
  obtain ⟨first, hpid, hppairs, hpheap⟩ := splitLeaf_heap hheap hshow hentries (hentries ▸ hcut)
  have hkey := LeafPage.keyAt_zero hppairs
  have hsum : (as ++ [ea]).length + (eb :: bs).length = lm + 1 := by
    rw [← List.length_append, ← hentries, hlen]
  rw [hlen] at hcut
  obtain ⟨t', T, hrec, hstored, hitems, hleaves⟩ := insertIntoParent_spec him c
    (.leaf ⟨l.id, t.bpm.newPage.1, l.first, as ++ [ea]⟩)
    (.leaf ⟨t.bpm.newPage.1, l.next, first, eb :: bs⟩) eb.1 _
    (t.splitLeaf l.id page).2 hpheap.depth_lt_fuel hlm' him' hpheap hc
    (STree.sizedFrom_leaf.mpr ⟨(show lm / 2 ≤ (as ++ [ea]).length by omega),
      (show (as ++ [ea]).length ≤ lm by omega)⟩)
    (STree.sizedFrom_leaf.mpr ⟨(show lm / 2 ≤ (eb :: bs).length by omega),
      (show (eb :: bs).length ≤ lm by omega)⟩) hroot
  have hpairs : ∀ e, e ∈ T.2.pairs ↔ e ∈ (c.plug (.leaf l)).2.pairs := by
    intro e
    rw [mem_pairs_plug_leaf, hentries]
    simp only [STree.pairs, hleaves, STree.leaves_leaf, List.flatMap_append, List.flatMap_cons,
      List.flatMap_nil, List.mem_append, List.append_nil]
  refine ⟨t', T, ?_, { hstored with ordered := ?_, linked := ?_ }, hpairs, fun hgrown => ?_⟩
  · simp only [hpid, hkey]
    exact hrec
  · rw [hitems]
    rw [Leaf.items_of_ne_nil (by rw [hentries]; simp), hentries] at hord
    have hins := pairwise_insert_sep (A := c.pre ++ as.map (fun e => keyItem e.1)) (a := ea.1)
      (b := eb.1) (B := bs.map (fun e => keyItem e.1) ++ c.post) (by simpa using hord)
    simpa [Leaf.items] using hins
  · rw [hleaves]
    exact (hlinked.split (a := ⟨l.id, t.bpm.newPage.1, l.first, as ++ [ea]⟩)
      (b := ⟨t.bpm.newPage.1, l.next, first, eb :: bs⟩) rfl rfl rfl)
  · -- the tree stays grown
    have hkeys : ∀ k ∈ (c.plug (.leaf l)).2.keys, k ∈ T.2.keys :=
      fun k hk => mem_keys_of_pairs (fun e he => (hpairs e).mpr he) hk
    constructor
    · intro k hk
      have hleft := Leaf.sep_not_mem_items
        (⟨l.id, t.bpm.newPage.1, l.first, as ++ [ea]⟩ : Leaf PageId κ ν) k
      have hright := Leaf.sep_not_mem_items
        (⟨t.bpm.newPage.1, l.next, first, eb :: bs⟩ : Leaf PageId κ ν) k
      rw [hitems] at hk
      simp only [List.mem_append, List.mem_cons] at hk
      rcases hk with hpre | (hk | hk | hk) | hpost
      · exact hkeys k (hgrown.tight k (sep_mem_items_plug_leaf.mpr (Or.inl hpre)))
      · exact absurd hk hleft
      · -- the new separator is the first key of the new leaf
        rw [sep_injective hk]
        refine hkeys _ (List.mem_map_of_mem (mem_pairs_plug_leaf.mpr (Or.inr (Or.inl ?_))))
        rw [hentries]
        simp
      · exact absurd hk hright
      · exact hkeys k (hgrown.tight k (sep_mem_items_plug_leaf.mpr (Or.inr hpost)))
    · intro l₀ hl₀
      have hfilled := hgrown.filled
      simp only [Ctx.leaves_plug, STree.leaves_leaf, List.mem_append, List.mem_singleton] at hfilled
      rw [hleaves] at hl₀
      simp only [STree.leaves_leaf, List.mem_append, List.mem_singleton] at hl₀
      rcases hl₀ with hpre | (rfl | rfl) | hpost
      · exact hfilled l₀ (Or.inl hpre)
      · exact List.append_ne_nil_of_right_ne_nil as (List.cons_ne_nil ea [])
      · exact List.cons_ne_nil eb bs
      · exact hfilled l₀ (Or.inr (Or.inr hpost))

/-- `Insert` into a tree: the record is added, or the key is there and nothing changes. -/
theorem Represents.insert [LinearOrder κ] [Inhabited κ] [Inhabited ν] (hlm : 1 ≤ lm) (him : 3 ≤ im)
    {T : (h : Nat) × STree PageId κ ν h} (hr : Represents lm im t T) (key : κ) (v : ν) :
    (key ∈ T.2.keys ∧ t.insert key v = some (false, t)) ∨
      (key ∉ T.2.keys ∧ ∃ t' T', t.insert key v = some (true, t') ∧ Represents lm im t' T' ∧
        (∀ e, e ∈ T'.2.pairs ↔ e = (key, v) ∨ e ∈ T.2.pairs) ∧ (Grown T → Grown T')) := by
  obtain ⟨c, l, page, rfl, hadm, hshow, hfind⟩ := hr.findLeafPage key
  have hkeys : key ∈ (c.plug (.leaf l)).2.keys ↔ key ∈ l.entries.map Prod.fst := by
    simp only [STree.keys, List.mem_map, Prod.exists, exists_and_right, exists_eq_right,
      hadm.mem_pairs_iff, STree.pairs_leaf]
  have hpairs : page.pairs = l.entries := hshow.2.2.2.2.2
  have hlookup := LeafPage.lookup_isSome_iff (leaf_sorted hr.ordered hpairs) key
  have hinsert : t.insert key v = t.insertIntoLeaf key v := by
    simp [BPlusTree.insert, hr.not_isEmpty]
  rw [hpairs] at hlookup
  rw [hinsert, insertIntoLeaf_eq hfind, hkeys]
  by_cases hmem : key ∈ l.entries.map Prod.fst
  · exact Or.inl ⟨hmem, if_pos (hlookup.mpr hmem)⟩
  refine Or.inr ⟨hmem, ?_⟩
  rw [if_neg (fun h => hmem (hlookup.mp h))]
  obtain ⟨l', hid', hnext', hlen, hshow', hord, hpairs'⟩ :=
    leaf_insert hr.ordered hadm hshow hmem v
  have hheap := hr.heap.setLeaf hid' hshow'
  have hroot : t.rootPageId = c.topId l'.id := by
    rw [hr.root, Ctx.rootId_plug, hid']
    rfl
  have hlinked : Linked INVALID_PAGE_ID (c.leavesPre ++ l' :: c.leavesPost) := by
    have hl := hr.linked
    rw [Ctx.leaves_plug, STree.leaves_leaf, List.singleton_append] at hl
    exact hl.congr hid' hnext'
  have hmem_plug : ∀ e, e ∈ (c.plug (.leaf l')).2.pairs ↔
      e = (key, v) ∨ e ∈ (c.plug (.leaf l)).2.pairs := by
    intro e
    rw [mem_pairs_plug_leaf, mem_pairs_plug_leaf, hpairs']
    tauto
  have hgrown : Grown (c.plug (.leaf l)) → Grown (c.plug (.leaf l')) := by
    intro h
    refine h.plug_leaf (fun hnil => ?_) fun e he => (hpairs' e).mpr (Or.inr he)
    rw [hnil, List.length_nil] at hlen
    omega
  have hsize : (page.insert key v).size = l'.entries.length := by
    rw [← LeafPage.length_pairs]
    exact congrArg List.length hshow'.2.2.2.2.2
  obtain ⟨hcsized, hlmin, hlmax⟩ := (c.sized_plug _).mp hr.sized
  have hlmax : l.entries.length ≤ lm := hlmax
  simp only [hsize, show (t.setPage l.id (.leaf (page.insert key v))).leafMaxSize = lm
    from hr.leafMaxSize]
  rw [← hid'] at hshow' hheap ⊢
  by_cases hfull : l'.entries.length > lm
  · -- the leaf is full and is split
    obtain ⟨t', T', hrec, hrep, hpairsT, hgrownT⟩ := insert_split hlm him
      (t := t.setPage l'.id (.leaf (page.insert key v))) hr.leafMaxSize hr.internalMaxSize hheap
      hshow' hroot hcsized (by omega) hord hlinked
    refine ⟨t', T', ?_, hrep, fun e => (hpairsT e).trans (hmem_plug e), fun h => hgrownT (hgrown h)⟩
    rw [if_pos hfull]
    exact congrArg (Option.map fun t => (true, t)) hrec
  · -- the leaf has room
    refine ⟨_, c.plug (.leaf l'), if_neg hfull, ⟨⟨hr.leafMaxSize, hr.internalMaxSize,
      hheap.close_hole, ?_, ?_⟩, ?_, ?_⟩, hmem_plug, hgrown⟩
    · rw [Ctx.rootId_plug]
      exact hroot
    · refine (c.sized_plug _).mpr ⟨hcsized, STree.sizedFrom_leaf.mpr ⟨?_, Nat.not_lt.mp hfull⟩⟩
      have hlmin' : c.leafMin (limits lm im) ≤ l.entries.length := hlmin
      omega
    · rw [Ctx.items_plug]
      exact hord
    · rw [Ctx.leaves_plug]
      exact hlinked

/-! ### Runs -/

/-- The index stores the map `m`: it is empty, or its pages are a search tree with the records
of `m`. -/
def Indexed [LinearOrder κ] (lm im : Nat) (t : BPlusTree κ ν) (m : κ → Option ν) : Prop :=
  (t.leafMaxSize = lm ∧ t.internalMaxSize = im ∧ t.rootPageId = INVALID_PAGE_ID ∧
    ∀ k, m k = none) ∨
  ∃ T, Represents lm im t T ∧ ∀ k v, (k, v) ∈ T.2.pairs ↔ m k = some v

variable {m : κ → Option ν}

/-- A represented tree is an index for its map. -/
theorem Indexed.isIndex [LinearOrder κ] (h : Indexed lm im t m) : IsIndex t m := by
  rcases h with ⟨-, -, hroot, hm⟩ | ⟨T, hr, hm⟩
  · have hempty : t.isEmpty = true := by simp [BPlusTree.isEmpty, hroot]
    refine ⟨?_, ⟨[], Or.inl ⟨?_, rfl⟩, List.Pairwise.nil, ?_⟩, fun h => absurd hroot h⟩
    · intro k
      simp [BPlusTree.getValue, hempty, hm]
    · simp [BPlusTree.findLeftMostLeafPage, hempty]
    · simp [hm]
  · exact hr.isIndex hm

/-- `StartNewTree`: a root leaf with one record. -/
theorem startNewTree_represents [LinearOrder κ] [Inhabited κ] [Inhabited ν] (hlm : 1 ≤ lm)
    (hlm' : t.leafMaxSize = lm) (him' : t.internalMaxSize = im) (key : κ) (v : ν) :
    Represents lm im (t.startNewTree key v)
      ⟨0, .leaf ⟨t.bpm.newPage.1, INVALID_PAGE_ID, key, [(key, v)]⟩⟩ := by
  have hnil : Heap lm im t.bpm [] := ⟨by simp, by simp, by simp⟩
  have hadd := hnil.newPage.add t.bpm.newPage_fst_mem (by simp) t.bpm.newPage_fst_nonneg
    (c := .leaf INVALID_PAGE_ID INVALID_PAGE_ID key [(key, v)])
    (g := .leaf ((LeafPage.init t.bpm.newPage.1 INVALID_PAGE_ID t.leafMaxSize).insert key v))
    ⟨rfl, hlm', rfl, rfl, rfl, rfl⟩
  refine ⟨⟨hlm', him', hadd, rfl, ?_⟩, ?_, ?_⟩
  · exact STree.sizedFrom_leaf.mpr ⟨Nat.min_le_left _ _, hlm⟩
  · exact List.pairwise_singleton _ _
  · simp [Linked]

/-- The map with a pair added, unless its key is there. -/
def mapInsert [DecidableEq κ] (m : κ → Option ν) (key : κ) (v : ν) : κ → Option ν :=
  fun k => (m k).or (if key = k then some v else none)

/-- The inserted key, when it was new. -/
theorem mapInsert_self [DecidableEq κ] {key : κ} (h : m key = none) (v : ν) :
    mapInsert m key v key = some v := by
  simp [mapInsert, h]

/-- The other keys. -/
theorem mapInsert_of_ne [DecidableEq κ] (m : κ → Option ν) {key k : κ} (h : key ≠ k) (v : ν) :
    mapInsert m key v k = m k := by
  simp [mapInsert, h]

/-- A key that is there keeps its value: the index is unique. -/
theorem mapInsert_of_mem [DecidableEq κ] {key : κ} (h : m key ≠ none) (v : ν) :
    mapInsert m key v = m := by
  funext k
  obtain ⟨w, hw⟩ := Option.ne_none_iff_exists'.mp h
  by_cases hk : key = k
  · simp [mapInsert, ← hk, hw]
  · exact mapInsert_of_ne m hk v

/-- The map of some pairs, with one pair added. -/
theorem mem_iff_mapInsert [DecidableEq κ] {as bs : List (κ × ν)} {key : κ} {v : ν}
    (hm : ∀ k w, (k, w) ∈ as ↔ m k = some w) (hnone : m key = none)
    (hadd : ∀ e, e ∈ bs ↔ e = (key, v) ∨ e ∈ as) (k : κ) (w : ν) :
    (k, w) ∈ bs ↔ mapInsert m key v k = some w := by
  rw [hadd, Prod.mk.injEq, hm]
  by_cases hk : key = k
  · rw [← hk, hnone, mapInsert_self hnone]
    simp [eq_comm]
  · rw [mapInsert_of_ne m hk]
    simp [Ne.symm hk]

/-- The keys of a tree with the records of a map. -/
theorem mem_keys_iff {h : Nat} {T : STree PageId κ ν h}
    (hm : ∀ k v, (k, v) ∈ T.pairs ↔ m k = some v) (key : κ) : key ∈ T.keys ↔ m key ≠ none := by
  simp only [STree.keys, List.mem_map, Prod.exists, exists_and_right, exists_eq_right, hm,
    Option.ne_none_iff_exists']

/-- `Insert` into an empty index. -/
theorem insert_of_isEmpty [LinearOrder κ] [Inhabited κ] [Inhabited ν]
    (hroot : t.rootPageId = INVALID_PAGE_ID) (key : κ) (v : ν) :
    t.insert key v = some (true, t.startNewTree key v) := by
  simp [BPlusTree.insert, BPlusTree.isEmpty, hroot]

/-- One `Insert`. -/
theorem Indexed.insert [LinearOrder κ] [Inhabited κ] [Inhabited ν] (hlm : 1 ≤ lm) (him : 3 ≤ im)
    (h : Indexed lm im t m) (key : κ) (v : ν) : ∃ t', t.insert key v = some ((m key).isNone, t') ∧
      Indexed lm im t' (mapInsert m key v) ∧ (m key ≠ none → t' = t) := by
  rcases h with ⟨hlm', him', hroot, hm⟩ | ⟨T, hr, hm⟩
  · refine ⟨t.startNewTree key v, by rw [insert_of_isEmpty hroot, hm key]; rfl,
      Or.inr ⟨_, startNewTree_represents hlm hlm' him' key v, ?_⟩, fun h => absurd (hm key) h⟩
    have hnil : ∀ k w, (k, w) ∈ ([] : List (κ × ν)) ↔ m k = some w := by simp [hm]
    exact mem_iff_mapInsert hnil (hm key) (by simp [STree.pairs_leaf])
  · rcases hr.insert hlm him key v with ⟨hin, heq⟩ | ⟨hin, t', T', heq, hr', hpairs, -⟩
    · have hne := (mem_keys_iff hm key).mp hin
      rw [mapInsert_of_mem hne, Option.isNone_eq_false_iff.mpr (Option.isSome_iff_ne_none.mpr hne)]
      exact ⟨t, heq, Or.inr ⟨T, hr, hm⟩, fun _ => rfl⟩
    · have hnone : m key = none := by
        by_contra hne
        exact hin ((mem_keys_iff hm key).mpr hne)
      exact ⟨t', by rw [heq, hnone]; rfl, Or.inr ⟨T', hr', mem_iff_mapInsert hm hnone hpairs⟩,
        fun h => absurd hnone h⟩

/-- `Insert` of all pairs, one after another. -/
def insertAll [LinearOrder κ] [Inhabited κ] [Inhabited ν] (t : BPlusTree κ ν) :
    List (κ × ν) → Option (BPlusTree κ ν)
  | [] => some t
  | e :: rest => do
    let (_, t) ← t.insert e.1 e.2
    insertAll t rest

/-- The value of the first pair with the key. -/
def firstValue [DecidableEq κ] (pairs : List (κ × ν)) (k : κ) : Option ν :=
  (pairs.find? (fun e => e.1 = k)).map Prod.snd

/-- What every `Insert` keeps, with the pair added to the map, a run of them keeps. -/
theorem insertAll_keeps [LinearOrder κ] [Inhabited κ] [Inhabited ν]
    {P : BPlusTree κ ν → (κ → Option ν) → Prop}
    (hstep : ∀ t m key v, P t m → ∃ ok t', t.insert key v = some (ok, t') ∧
      P t' (mapInsert m key v)) (pairs : List (κ × ν)) {t : BPlusTree κ ν} {m : κ → Option ν}
    (h : P t m) : ∃ t', insertAll t pairs = some t' ∧
      P t' (fun k => (m k).or (firstValue pairs k)) := by
  induction pairs generalizing t m with
  | nil => exact ⟨t, rfl, by simpa [firstValue] using h⟩
  | cons e pairs ih =>
    obtain ⟨ok, t₁, heq, h₁⟩ := hstep t m e.1 e.2 h
    obtain ⟨t', hrun, h'⟩ := ih h₁
    refine ⟨t', by simp [insertAll, heq, hrun], ?_⟩
    have hmap : (fun k => (m k).or (firstValue (e :: pairs) k)) = fun k =>
        (mapInsert m e.1 e.2 k).or (firstValue pairs k) := by
      funext k
      rw [mapInsert, Option.or_assoc]
      by_cases hk : e.1 = k
      · simp [firstValue, hk]
      · simp [firstValue, hk]
    rw [hmap]
    exact h'

/-- By induction over the pairs; the first value of a key stays. -/
theorem Indexed.insertAll [LinearOrder κ] [Inhabited κ] [Inhabited ν] (hlm : 1 ≤ lm) (him : 3 ≤ im)
    (pairs : List (κ × ν)) (h : Indexed lm im t m) : ∃ t', MiniSql.insertAll t pairs = some t' ∧
      Indexed lm im t' (fun k => (m k).or (firstValue pairs k)) :=
  insertAll_keeps (P := Indexed lm im) (fun _ _ key v h =>
    let ⟨t', heq, h', _⟩ := h.insert hlm him key v
    ⟨_, t', heq, h'⟩) pairs h

/-- In every run of `Insert` from an empty index, the index is a well-formed tree that stores the
value of the first insertion of each key. `Insert` returns false exactly for the keys that were
inserted before, and then it changes nothing. -/
theorem insertAll_isIndex [LinearOrder κ] [Inhabited κ] [Inhabited ν] (t₀ : BPlusTree κ ν)
    (hlm : 1 ≤ t₀.leafMaxSize) (him : 3 ≤ t₀.internalMaxSize)
    (hempty : t₀.rootPageId = INVALID_PAGE_ID) (pairs : List (κ × ν)) :
    ∃ t, insertAll t₀ pairs = some t ∧ IsIndex t (firstValue pairs) ∧
      ∀ k v, ∃ ok t', t.insert k v = some (ok, t') ∧ (ok = false ↔ ∃ w, (k, w) ∈ pairs) ∧
        (ok = false → t' = t) := by
  have hstart : Indexed t₀.leafMaxSize t₀.internalMaxSize t₀ (fun _ : κ => (none : Option ν)) :=
    Or.inl ⟨rfl, rfl, hempty, fun _ => rfl⟩
  obtain ⟨t, hrun, h⟩ := hstart.insertAll hlm him pairs
  simp only [Option.none_or] at h
  refine ⟨t, hrun, h.isIndex, ?_⟩
  intro k v
  obtain ⟨t', heq, -, hsame⟩ := h.insert hlm him k v
  refine ⟨_, t', heq, ?_, ?_⟩
  · rw [Option.isNone_eq_false_iff, firstValue, Option.isSome_map, List.find?_isSome]
    simp
  · intro hfalse
    apply hsame
    rw [Option.isNone_eq_false_iff] at hfalse
    exact Option.isSome_iff_ne_none.mp hfalse

/-- Three keys in leaves of one record, so that the root is split, too. -/
theorem insertAll_isIndex_three :
    ∃ t, insertAll (BPlusTree.new 1 3 : BPlusTree Nat Nat) [(2, 20), (1, 10), (2, 30)] = some t ∧
      IsIndex t (firstValue [(2, 20), (1, 10), (2, 30)]) :=
  let ⟨t, hrun, hindex, _⟩ := insertAll_isIndex (BPlusTree.new 1 3 : BPlusTree Nat Nat)
    (by decide) (by decide) rfl [(2, 20), (1, 10), (2, 30)]
  ⟨t, hrun, hindex⟩

end DisMiniSql.MiniSql
