import DisMiniSql.Proofs.Index.SafeRemove

/-!
# `DisMiniSql.Proofs.Index.Remove`: `BPlusTree::Remove`

* `updateParentKeys_spec`: the first key of the leaf goes into its parent and grandparent.
* `leaf_remove`: the leaf after `RemoveAndDeleteRecord`.
-/

set_option autoImplicit false

namespace DisMiniSql.MiniSql

open DisMiniSql.Lib

variable {κ ν : Type} {lm im : Nat}

/-! ### The first key of the leaf -/

/-- The context of a leaf after `Remove` has written its first key `f` into the parent, and into
the grandparent when the leaf is the first child. -/
def refresh (f : κ) : {h : Nat} → Ctx PageId κ ν h → Ctx PageId κ ν h
  | _, .root => .root
  | _, .frame id [] _ right up => .frame id [] f right (up.setKey f)
  | _, .frame id (e :: left) _ right up => .frame id (e :: left) f right up

/-- Refreshing a key changes no shape. -/
theorem refresh_sameShape (f : κ) {h : Nat} (c : Ctx PageId κ ν h) :
    c.SameShape (refresh f c) := by
  cases c with
  | root => exact .rfl
  | frame id left key right up =>
    cases left with
    | nil => exact (up.setKey_sameShape f).frame
    | cons e left => exact Ctx.SameShape.rfl.frame

/-- The key is changed on the way up, as long as the child is the first of its node. -/
theorem refresh_frame (f : κ) {h : Nat} (id : PageId) (left : List (κ × STree PageId κ ν h))
    (key : κ) (right : List (κ × STree PageId κ ν h)) (up : Ctx PageId κ ν (h + 1)) :
    refresh f (.frame id left key right up)
      = .frame id left f right (if left.length = 0 then up.setKey f else up) := by
  cases left with
  | nil => rfl
  | cons e left => rfl

/-- The order stays, since `f` is the first key behind the changed separators. -/
theorem pairwise_refresh [LinearOrder κ] {f : κ} {h : Nat} {c : Ctx PageId κ ν h}
    {rest : List (κ ×ₗ Bool)} (hord : (c.pre ++ keyItem f :: rest).Pairwise (· < ·)) :
    ((refresh f c).pre ++ keyItem f :: rest).Pairwise (· < ·) := by
  cases c with
  | root => exact hord
  | frame id left key right up =>
    cases left with
    | nil =>
      rw [Ctx.pre, seg_nil, List.nil_append, List.tail_cons, List.append_nil] at hord
      rw [refresh, Ctx.pre, seg_nil, List.nil_append, List.tail_cons, List.append_nil]
      exact Ctx.pairwise_setKey hord
    | cons e left => exact Ctx.pairwise_setKey hord

/-- `SetKeyAt` of the slot of a child. -/
theorem setKey_heap {s : PageStore κ ν} {h : Nat} {id : PageId}
    {left right : List (κ × STree PageId κ ν h)} {k : κ} {up : Ctx PageId κ ν (h + 1)}
    {N : STree PageId κ ν h} (f : κ)
    (hheap : Heap lm im s
      (N.flat id ++ (Ctx.frame id left k right up).flat INVALID_PAGE_ID N.rootId)) :
    ∃ n, s.fetchInternal id = some n ∧ n.findValue N.rootId = some left.length ∧
      n.pageId = id ∧ n.parentPageId = up.parentId INVALID_PAGE_ID ∧
      (n.setKeyAt left.length f).keyAt left.length = f ∧
      Heap lm im (s.setPage id (.internal (n.setKeyAt left.length f)))
        (N.flat id ++ (Ctx.frame id left f right up).flat INVALID_PAGE_ID N.rootId) := by
  obtain ⟨n, hfetch, hid, hmax, hpar, hpairs⟩ := hheap.fetchInternal_node (p := id)
    (q := up.parentId INVALID_PAGE_ID)
    (C := names left ++ (k, N.rootId) :: names right) (by simp [Ctx.flat])
  have hnot : N.rootId ∉ (names left).map Prod.snd :=
    Heap.rootId_not_mem_names (s := s) (q := id) (r := id)
      (Γ := forest id right ++ (up.flat INVALID_PAGE_ID id ++
        [(id, .node (up.parentId INVALID_PAGE_ID) (names left ++ (k, N.rootId) :: names right))]))
      (hheap.perm (perm_of_countP fun P => by
        simp only [Ctx.flat, List.countP_append, List.countP_cons, List.countP_nil]
        omega))
  have hfind := InternalPage.findValue_spec hpairs hnot
  have hset := InternalPage.setKeyAt_pairs hpairs f
  have hkey := InternalPage.data_mid hset
  rw [length_names] at hfind hset hkey
  refine ⟨n, hfetch, hfind, hid, hpar, by rw [InternalPage.keyAt, hkey], ?_⟩
  have hheap' := Heap.set (p := id) (g := .internal (n.setKeyAt left.length f))
    (c := .node (up.parentId INVALID_PAGE_ID) (names left ++ (k, N.rootId) :: names right))
    (d := .node (up.parentId INVALID_PAGE_ID) (names left ++ (f, N.rootId) :: names right))
    (Γ := N.flat id ++ (up.flat INVALID_PAGE_ID id ++ (forest id left ++ forest id right)))
    (hheap.perm (perm_of_countP fun P => by
      simp only [Ctx.flat, List.countP_append, List.countP_cons]
      omega)) ⟨hid, hmax, hpar, hset⟩
  refine Heap.perm hheap' (perm_of_countP fun P => ?_)
  simp only [Ctx.flat, List.countP_append, List.countP_cons]
  omega

/-- The part of `Remove` that writes the first key of the leaf into the pages above. -/
theorem updateParentKeys_spec {t : BPlusTree κ ν} {pid : PageId}
    {left right : List (κ × STree PageId κ ν 0)} {k : κ} {up : Ctx PageId κ ν 1}
    {l : Leaf PageId κ ν} {page : LeafPage κ ν}
    (hheap : Heap lm im t.bpm ((STree.leaf l).flat pid ++
      (Ctx.frame pid left k right up).flat INVALID_PAGE_ID l.id))
    (hpar : page.parentPageId = pid) (hkey : page.keyAt 0 = l.first) :
    ∃ t', t.updateParentKeys l.id page = some t' ∧ SameIndex t t' ∧
      Heap lm im t'.bpm ((STree.leaf l).flat pid ++
        (refresh l.first (Ctx.frame pid left k right up)).flat INVALID_PAGE_ID l.id) := by
  obtain ⟨n, hfetch, hfind, hid, hnpar, hnkey, hheap'⟩ := setKey_heap l.first hheap
  rw [STree.rootId_leaf] at hfind
  cases left with
  | cons e left =>
    refine ⟨t.setPage pid (.internal (n.setKeyAt (e :: left).length l.first)), ?_,
      ⟨rfl, rfl, rfl⟩, hheap'⟩
    simp [BPlusTree.updateParentKeys, hpar, hfetch, hfind, hkey]
  | nil =>
    cases up with
    | root =>
      refine ⟨t.setPage pid (.internal (n.setKeyAt 0 l.first)), ?_, ⟨rfl, rfl, rfl⟩, hheap'⟩
      have hroot : (n.setKeyAt 0 l.first).isRootPage = true := by
        simp [InternalPage.isRootPage, InternalPage.setKeyAt, hnpar]
      simp [BPlusTree.updateParentKeys, hpar, hfetch, hfind, hkey, hroot]
    | frame gid left₂ k₂ right₂ up₂ =>
      have hne : gid ≠ INVALID_PAGE_ID := hheap.ne_invalid (by simp [Ctx.flat])
      have hroot : (n.setKeyAt 0 l.first).isRootPage = false := by
        simpa [InternalPage.isRootPage, InternalPage.setKeyAt, hnpar] using hne
      -- The parent as a child of the grandparent.
      have hparent : Heap lm im (t.bpm.setPage pid (.internal (n.setKeyAt 0 l.first)))
          ((STree.node pid ((l.first, .leaf l) :: right)).flat gid ++
            (Ctx.frame gid left₂ k₂ right₂ up₂).flat INVALID_PAGE_ID
              (STree.node pid ((l.first, .leaf l) :: right)).rootId) := hheap'.hole_up
      obtain ⟨g, hgfetch, hgfind, -, -, -, hgheap⟩ := setKey_heap l.first hparent
      refine ⟨(t.setPage pid (.internal (n.setKeyAt 0 l.first))).setPage gid
        (.internal (g.setKeyAt left₂.length l.first)), ?_, ⟨rfl, rfl, rfl⟩, ?_⟩
      · have hgpar : (n.setKeyAt 0 l.first).parentPageId = gid := hnpar
        have hnid : (n.setKeyAt 0 l.first).pageId = pid := hid
        have hnkey' : (n.setKeyAt 0 l.first).keyAt 0 = l.first := hnkey
        have hgfetch' : (t.setPage pid (.internal (n.setKeyAt 0 l.first))).bpm.fetchInternal gid
            = some g := hgfetch
        rw [STree.rootId_node] at hgfind
        simp [BPlusTree.updateParentKeys, hpar, hfetch, hfind, hkey, hroot, hgpar, hgfetch', hnid,
          hgfind, hnkey']
      · refine Heap.perm hgheap (perm_of_countP fun P => ?_)
        simp only [refresh, Ctx.setKey, Ctx.flat, Ctx.parentId_frame, STree.flat_node,
          STree.rootId_node,
          STree.rootId_leaf, names_cons, names_nil, forest_cons, forest_nil, List.nil_append,
          List.cons_append, List.countP_append, List.countP_cons]
        omega

/-! ### The leaf -/

variable {page : LeafPage κ ν}

/-- The items of a leaf begin with the key in its first slot. -/
theorem leaf_items_first {l : Leaf PageId κ ν} (hfirst : page.keyAt 0 = l.first)
    (hpairs : page.pairs = l.entries) :
    ∃ rest, l.items = keyItem l.first :: rest := by
  cases hent : l.entries with
  | nil => exact ⟨[], by simp [Leaf.items, hent]⟩
  | cons e rest =>
    refine ⟨rest.map (fun e => keyItem e.1), ?_⟩
    rw [Leaf.items_of_ne_nil (by simp [hent]), hent, List.map_cons, ← hfirst,
      LeafPage.keyAt_zero (hpairs.trans hent)]

/-- The leaf after `RemoveAndDeleteRecord`. -/
theorem leaf_remove [LinearOrder κ] {c : Ctx PageId κ ν 0} {l : Leaf PageId κ ν} {parent : PageId}
    (hord : (c.plug (.leaf l)).2.items.Pairwise (· < ·))
    (hshow : Shows lm im l.id (.leaf page) ((STree.leaf l).topCell parent)) (x : κ) :
    ∃ l' : Leaf PageId κ ν, l'.id = l.id ∧ l'.next = l.next ∧
      Shows lm im l.id (.leaf (page.removeAndDeleteRecord x)) ((STree.leaf l').topCell parent) ∧
      l'.items.Sublist l.items ∧ (∃ rest, l'.items = keyItem l'.first :: rest) ∧
      l'.entries = l.entries.filter (fun e => e.1 ≠ x) ∧
      l'.entries.length = (if (page.lookup x).isSome then page.size - 1 else page.size) := by
  obtain ⟨hid, hmax, hpar, hnext, hfirst, hpairs⟩ := hshow
  have hpairs : page.pairs = l.entries := hpairs
  have hsorted := Represents.leaf_sorted hord hpairs
  have hlookup := LeafPage.lookup_isSome_iff hsorted x
  have hlen : l.entries.length = page.size := by rw [← hpairs, LeafPage.length_pairs]
  rcases page.remove_pairs hsorted x with
    ⟨hmem, heq⟩ | ⟨as, v, bs, data, hsplit, heq, hslots, hlast⟩
  · -- The key is not there.
    have hnone : (page.lookup x).isSome = false := by
      rw [← Bool.not_eq_true, hlookup]
      exact hmem
    rw [hpairs] at hmem
    refine ⟨l, rfl, rfl, by rw [heq]; exact ⟨hid, hmax, hpar, hnext, hfirst, hpairs⟩,
      List.Sublist.refl _, leaf_items_first hfirst hpairs, ?_, by rw [hnone]; exact hlen⟩
    rw [eq_comm, List.filter_eq_self]
    exact fun e he => decide_eq_true fun hx => hmem (hx ▸ List.mem_map_of_mem he)
  · have hsome : (page.lookup x).isSome = true := by
      rw [hlookup, hsplit]
      simp
    have hkeys : (l.entries.map Prod.fst).Pairwise (· < ·) := hpairs ▸ hsorted
    rw [hsplit] at hpairs
    have hfirst' : (page.removeAndDeleteRecord x).keyAt 0 = (data 0).1 := by rw [heq]; rfl
    have hpairs' : (page.removeAndDeleteRecord x).pairs = as ++ bs := by rw [heq]; exact hslots
    refine ⟨⟨l.id, l.next, (data 0).1, as ++ bs⟩, rfl, rfl, ?_, ?_,
      leaf_items_first hfirst' hpairs', ?_, ?_⟩
    · rw [heq] at hfirst' hpairs' ⊢
      exact ⟨hid, hmax, hpar, hnext, hfirst', hpairs'⟩
    · -- A leaf without records is listed with the key of the record that has gone.
      rw [Leaf.items_of_ne_nil (l := l) (by rw [← hpairs]; simp), ← hpairs]
      by_cases hnil : as ++ bs = []
      · obtain ⟨rfl, rfl⟩ := List.append_eq_nil_iff.mp hnil
        simp [Leaf.items, hlast rfl]
      · rw [Leaf.items_of_ne_nil (by exact hnil)]
        exact ((List.Sublist.refl as).append (List.sublist_cons_self _ _)).map _
    · rw [← hpairs] at hkeys ⊢
      rw [List.map_append, List.map_cons, List.pairwise_append, List.pairwise_cons] at hkeys
      obtain ⟨-, ⟨hbs, -⟩, has⟩ := hkeys
      have has' : as.filter (fun e => e.1 ≠ x) = as := List.filter_eq_self.mpr fun e he =>
        decide_eq_true (ne_of_lt (has e.1 (List.mem_map_of_mem he) x (by simp)))
      have hbs' : bs.filter (fun e => e.1 ≠ x) = bs := List.filter_eq_self.mpr fun e he =>
        decide_eq_true (ne_of_gt (hbs e.1 (List.mem_map_of_mem he)))
      rw [List.filter_append, List.filter_cons, has', hbs']
      simp
    · rw [hsome, if_pos rfl, ← hlen, ← hpairs]
      simp

/-! ### Two leaves -/

/-- The records of a leaf are among its items. -/
theorem leaf_records_sublist (l : Leaf PageId κ ν) :
    (l.entries.map (fun e => keyItem e.1)).Sublist l.items := by
  have h := l.recordItems_sublist
  rwa [recordItems, List.flatMap_singleton] at h

/-- The page of a leaf. -/
theorem exists_leafPage {p parent : PageId} {page : BPlusTreePage κ ν} {l : Leaf PageId κ ν}
    (hshow : Shows lm im p page ((STree.leaf l).topCell parent)) :
    ∃ n, page = .leaf n ∧ page.size = l.entries.length ∧ BPlusTree.maxSizeOf page = lm := by
  cases page with
  | leaf n =>
    have hpairs : n.pairs = l.entries := hshow.2.2.2.2.2
    exact ⟨n, rfl, by rw [← hpairs, LeafPage.length_pairs]; rfl, hshow.2.1⟩
  | internal n => exact hshow.elim

section Leaves
variable [LinearOrder κ] {t : BPlusTree κ ν} {c : Ctx PageId κ ν 1} {pid : PageId} {kL kR : κ}
  {A B : List (κ × STree PageId κ ν 0)} {l r : Leaf PageId κ ν} {pl pr : LeafPage κ ν}
  {n : InternalPage κ}

/-- `Coalesce` of two leaves keeps the order. -/
theorem merge_leaf (hne : l.entries ++ r.entries ≠ [])
    (hf : Focus lm im t c (.node pid (A ++ (kL, .leaf l) :: (kR, .leaf r) :: B)))
    (hl : Shows lm im l.id (.leaf pl) ((STree.leaf l).topCell pid))
    (hr : Shows lm im r.id (.leaf pr) ((STree.leaf r).topCell pid))
    (hn : Shows lm im pid (.internal n : BPlusTreePage κ ν)
      (.node (c.parentId INVALID_PAGE_ID) (names (A ++ (kL, .leaf l) :: (kR, .leaf r) :: B))))
    (fuel : Nat) :
    ∃ t' m, (t.coalesce l.id (.leaf pl) r.id (.leaf pr) pid n A.length).bind
        (afterCoalesce fuel pid)
        = (if A.length + (B.length + 1) < im / 2 then BPlusTree.coalesceOrRedistribute fuel t' pid
          else some t') ∧
      (m.id = l.id ∧ m.next = r.next ∧ m.entries = l.entries ++ r.entries) ∧
      Focus lm im t' c (.node pid (A ++ (kL, .leaf m) :: B)) := by
  obtain ⟨t', m, hco, hsame, hid, hnext, hent, hheap⟩ := coalesce_leaf hf.heap hl hr hn
  refine ⟨t', m, ?_, ⟨hid, hnext, hent⟩, hf.replace hsame hheap ?_⟩
  · rw [hco, Option.bind_some, afterCoalesce_eq (shows_remove (L := .leaf l) (M := .leaf m) hid hn),
      length_names, List.length_append, List.length_cons]
  · have hord := hf.ordered
    rw [items_plug_pair] at hord
    rw [items_plug_child, STree.items_leaf, Leaf.items_of_ne_nil (hent ▸ hne), hent]
    have hsub : ((l.entries ++ r.entries).map (fun e => keyItem e.1)).Sublist
        (l.items ++ sep kR :: r.items) := by
      rw [List.map_append]
      exact (leaf_records_sublist l).append ((leaf_records_sublist r).cons _)
    refine pairwise_shrink (B := l.items ++ sep kR :: r.items) ?_ hsub
    simpa using hord

/-- `Redistribute` of two leaves, to the left one, keeps the order. -/
theorem refill_leaf_left {e e' : κ × ν} {rest : List (κ × ν)}
    (hf : Focus lm im t c (.node pid ((kL, .leaf l) :: (kR, .leaf r) :: B)))
    (hl : Shows lm im l.id (.leaf pl) ((STree.leaf l).topCell pid))
    (hr : Shows lm im r.id (.leaf pr) ((STree.leaf r).topCell pid))
    (hfetch : t.bpm.fetchInternal pid = some n)
    (hn : Shows lm im pid (.internal n : BPlusTreePage κ ν)
      (.node (c.parentId INVALID_PAGE_ID) (names ((kL, .leaf l) :: (kR, .leaf r) :: B))))
    (hentries : r.entries = e :: e' :: rest) :
    ∃ t' l' r', t.redistribute r.id (.leaf pr) l.id (.leaf pl) 0 = some t' ∧
      (l'.id = l.id ∧ l'.next = l.next ∧ l'.entries = l.entries ++ [e]) ∧
      (r'.id = r.id ∧ r'.next = r.next ∧ r'.entries = e' :: rest) ∧
      Focus lm im t' c (.node pid ((kL, .leaf l') :: (e'.1, .leaf r') :: B)) := by
  obtain ⟨t', l', r', hre, hsame, hl', hr', hheap⟩ :=
    redistribute_leaf_left hf.heap hl hr hfetch hn hentries
  refine ⟨t', l', r', hre, hl', hr', hf.replace hsame hheap ?_⟩
  have hord := hf.ordered
  have hpair := items_plug_pair c pid [] B kL kR (.leaf l) (.leaf r)
  have hpair' := items_plug_pair c pid [] B kL e'.1 (.leaf l') (.leaf r')
  rw [List.nil_append] at hpair hpair'
  rw [hpair, STree.items_leaf, STree.items_leaf, Leaf.items_of_ne_nil (l := r) (by simp [hentries]),
    hentries] at hord
  rw [hpair', STree.items_leaf, STree.items_leaf,
    Leaf.items_of_ne_nil (l := r') (by simp [hr'.2.2]),
    Leaf.items_of_ne_nil (l := l') (by simp [hl'.2.2]), hr'.2.2, hl'.2.2]
  -- The old separator goes and the new one comes between the two moved records.
  have hdrop := pairwise_shrink (B := l.items ++ [sep kR])
    (M := l.entries.map (fun e => keyItem e.1))
    (C := keyItem e.1 :: keyItem e'.1 :: (rest.map (fun e => keyItem e.1) ++ (seg B ++ c.post)))
    (by simpa using hord) ((leaf_records_sublist l).trans (List.sublist_append_left _ _))
  rw [← List.append_assoc] at hdrop
  have hins := pairwise_insert_sep hdrop
  simpa using hins

/-- `Redistribute` of two leaves, to the right one, keeps the order. -/
theorem refill_leaf_right {a e : κ × ν} {rest : List (κ × ν)}
    (hf : Focus lm im t c (.node pid (A ++ (kL, .leaf l) :: (kR, .leaf r) :: B)))
    (hl : Shows lm im l.id (.leaf pl) ((STree.leaf l).topCell pid))
    (hr : Shows lm im r.id (.leaf pr) ((STree.leaf r).topCell pid))
    (hfetch : t.bpm.fetchInternal pid = some n)
    (hn : Shows lm im pid (.internal n : BPlusTreePage κ ν)
      (.node (c.parentId INVALID_PAGE_ID) (names (A ++ (kL, .leaf l) :: (kR, .leaf r) :: B))))
    (hentries : l.entries = (rest ++ [a]) ++ [e]) :
    ∃ t' l' r', t.redistribute l.id (.leaf pl) r.id (.leaf pr) (A.length + 1) = some t' ∧
      (l'.id = l.id ∧ l'.next = l.next ∧ l'.entries = rest ++ [a]) ∧
      (r'.id = r.id ∧ r'.next = r.next ∧ r'.entries = e :: r.entries) ∧
      Focus lm im t' c (.node pid (A ++ (kL, .leaf l') :: (e.1, .leaf r') :: B)) := by
  obtain ⟨t', l', r', hre, hsame, hl', hr', hheap⟩ :=
    redistribute_leaf_right hf.heap hl hr hfetch hn hentries
  refine ⟨t', l', r', hre, hl', hr', hf.replace hsame hheap ?_⟩
  have hord := hf.ordered
  rw [items_plug_pair, STree.items_leaf, STree.items_leaf,
    Leaf.items_of_ne_nil (l := l) (by simp [hentries]), hentries] at hord
  rw [items_plug_pair, STree.items_leaf, STree.items_leaf,
    Leaf.items_of_ne_nil (l := r') (by simp [hr'.2.2]),
    Leaf.items_of_ne_nil (l := l') (by simp [hl'.2.2]), hr'.2.2, hl'.2.2]
  have hdrop := pairwise_shrink
    (A := (c.pre ++ (seg A ++ [sep kL]).tail) ++
      (((rest ++ [a]) ++ [e]).map (fun e => keyItem e.1)))
    (B := sep kR :: r.items) (M := r.entries.map (fun e => keyItem e.1)) (C := seg B ++ c.post)
    (by simpa using hord) ((leaf_records_sublist r).cons _)
  have hins := pairwise_insert_sep (A := (c.pre ++ (seg A ++ [sep kL]).tail) ++
      rest.map (fun e => keyItem e.1)) (a := a.1) (b := e.1)
    (B := r.entries.map (fun e => keyItem e.1) ++ (seg B ++ c.post)) (by simpa using hdrop)
  simpa using hins

/-- The two leaves have the names and links of the old ones, and together the same records. -/
def SameRecords (l r l' r' : Leaf PageId κ ν) : Prop :=
  (l'.id = l.id ∧ l'.next = l.next) ∧ (r'.id = r.id ∧ r'.next = r.next) ∧
    l'.entries ++ r'.entries = l.entries ++ r.entries

/-- A leaf and its right sibling, when the leaf is the first child. -/
theorem leaf_first (hf : Focus lm im t c (.node pid ((kL, .leaf l) :: (kR, .leaf r) :: B)))
    (hr : (STree.leaf r).Sized (limits lm im)) (hsmall : l.entries.length < lm / 2)
    (hlen : lm / 2 ≤ l.entries.length + 1) (fuel : Nat) :
    (l.entries.length + r.entries.length < lm ∧ ∃ t' m,
      BPlusTree.coalesceOrRedistribute (fuel + 1) t l.id
        = (if B.length + 1 < im / 2 then BPlusTree.coalesceOrRedistribute fuel t' pid
          else some t') ∧
      (m.id = l.id ∧ m.next = r.next ∧ m.entries = l.entries ++ r.entries) ∧
      Focus lm im t' c (.node pid ((kL, .leaf m) :: B))) ∨
    ∃ t' k l' r', BPlusTree.coalesceOrRedistribute (fuel + 1) t l.id = some t' ∧
      SameRecords l r l' r' ∧ (STree.leaf l').Sized (limits lm im) ∧
      (STree.leaf r').Sized (limits lm im) ∧
      Focus lm im t' c (.node pid ((kL, .leaf l') :: (k, .leaf r') :: B)) := by
  obtain ⟨hmin, hmax⟩ := STree.sizedFrom_leaf.mp hr
  have hmin' : lm / 2 ≤ r.entries.length := hmin
  have hmax' : r.entries.length ≤ lm := hmax
  obtain ⟨pN, pR, n, hsN, hsR, hfn, hsn, hstep⟩ := coalesceOrRedistribute_first hf.heap fuel
  rw [STree.rootId_leaf] at hsN hsR
  obtain ⟨pN, rfl, hsizeN, hmaxN⟩ := exists_leafPage hsN
  obtain ⟨pR, rfl, hsizeR, -⟩ := exists_leafPage hsR
  rw [hsizeN, hsizeR, hmaxN, STree.rootId_leaf, STree.rootId_leaf] at hstep
  by_cases hmerge : l.entries.length + r.entries.length < lm
  · refine Or.inl ⟨hmerge, ?_⟩
    have hne : l.entries ++ r.entries ≠ [] :=
      List.append_ne_nil_of_right_ne_nil _ (List.length_pos_iff.mp (by omega))
    obtain ⟨t', m, hco, hm, hf'⟩ := merge_leaf (A := []) hne hf hsN hsR hsn fuel
    refine ⟨t', m, ?_, hm, hf'⟩
    rw [hstep, if_pos hmerge]
    simpa using hco
  · right
    obtain ⟨e, e', rest, hrest⟩ :=
      exists_cons_cons_of_two_le (by omega : 2 ≤ r.entries.length)
    obtain ⟨t', l', r', hre, hl', hr', hf'⟩ := refill_leaf_left hf hsN hsR hfn hsn hrest
    rw [if_neg hmerge] at hstep
    rw [hrest, List.length_cons, List.length_cons] at hmerge hmax'
    refine ⟨t', e'.1, l', r', hstep.trans hre, ⟨⟨hl'.1, hl'.2.1⟩, ⟨hr'.1, hr'.2.1⟩, ?_⟩,
      STree.sizedFrom_leaf.mpr ⟨?_, ?_⟩, STree.sizedFrom_leaf.mpr ⟨?_, ?_⟩, hf'⟩
    · rw [hl'.2.2, hr'.2.2, hrest]
      simp
    · show lm / 2 ≤ l'.entries.length
      rw [hl'.2.2]
      simpa using hlen
    · show l'.entries.length ≤ lm
      rw [hl'.2.2, List.length_append, List.length_singleton]
      omega
    · show lm / 2 ≤ r'.entries.length
      rw [hr'.2.2, List.length_cons]
      omega
    · show r'.entries.length ≤ lm
      rw [hr'.2.2, List.length_cons]
      omega

/-- A leaf and its left sibling. -/
theorem leaf_next (hf : Focus lm im t c (.node pid (A ++ (kL, .leaf l) :: (kR, .leaf r) :: B)))
    (hl : (STree.leaf l).Sized (limits lm im)) (hsmall : r.entries.length < lm / 2)
    (hlen : lm / 2 ≤ r.entries.length + 1) (fuel : Nat) :
    (r.entries.length + l.entries.length < lm ∧ ∃ t' m,
      BPlusTree.coalesceOrRedistribute (fuel + 1) t r.id
        = (if A.length + (B.length + 1) < im / 2 then BPlusTree.coalesceOrRedistribute fuel t' pid
          else some t') ∧
      (m.id = l.id ∧ m.next = r.next ∧ m.entries = l.entries ++ r.entries) ∧
      Focus lm im t' c (.node pid (A ++ (kL, .leaf m) :: B))) ∨
    ∃ t' k l' r', BPlusTree.coalesceOrRedistribute (fuel + 1) t r.id = some t' ∧
      SameRecords l r l' r' ∧ (STree.leaf l').Sized (limits lm im) ∧
      (STree.leaf r').Sized (limits lm im) ∧
      Focus lm im t' c (.node pid (A ++ (kL, .leaf l') :: (k, .leaf r') :: B)) := by
  obtain ⟨hmin, hmax⟩ := STree.sizedFrom_leaf.mp hl
  have hmin' : lm / 2 ≤ l.entries.length := hmin
  have hmax' : l.entries.length ≤ lm := hmax
  obtain ⟨pL, pN, n, hsL, hsN, hfn, hsn, hstep⟩ := coalesceOrRedistribute_next hf.heap fuel
  rw [STree.rootId_leaf] at hsN hsL
  obtain ⟨pN, rfl, hsizeN, hmaxN⟩ := exists_leafPage hsN
  obtain ⟨pL, rfl, hsizeL, -⟩ := exists_leafPage hsL
  rw [hsizeN, hsizeL, hmaxN, STree.rootId_leaf, STree.rootId_leaf] at hstep
  by_cases hmerge : r.entries.length + l.entries.length < lm
  · refine Or.inl ⟨hmerge, ?_⟩
    have hne : l.entries ++ r.entries ≠ [] :=
      List.append_ne_nil_of_left_ne_nil (List.length_pos_iff.mp (by omega)) _
    obtain ⟨t', m, hco, hm, hf'⟩ := merge_leaf hne hf hsL hsN hsn fuel
    exact ⟨t', m, by rw [hstep, if_pos hmerge, hco], hm, hf'⟩
  · right
    obtain ⟨rest, a, e, hrest⟩ : ∃ rest a e, l.entries = (rest ++ [a]) ++ [e] := by
      rcases List.eq_nil_or_concat l.entries with hent | ⟨rest, e, hent⟩
      · rw [hent, List.length_nil] at hmin' hmerge
        omega
      · rcases List.eq_nil_or_concat rest with rfl | ⟨rest, a, rfl⟩
        · rw [hent] at hmin' hmerge
          simp at hmin' hmerge
          omega
        · exact ⟨rest, a, e, by rw [hent, List.concat_eq_append, List.concat_eq_append]⟩
    obtain ⟨t', l', r', hre, hl', hr', hf'⟩ := refill_leaf_right hf hsL hsN hfn hsn hrest
    rw [if_neg hmerge] at hstep
    simp only [hrest, List.length_append, List.length_singleton] at hmerge hmax'
    refine ⟨t', e.1, l', r', hstep.trans hre, ⟨⟨hl'.1, hl'.2.1⟩, ⟨hr'.1, hr'.2.1⟩, ?_⟩,
      STree.sizedFrom_leaf.mpr ⟨?_, ?_⟩, STree.sizedFrom_leaf.mpr ⟨?_, ?_⟩, hf'⟩
    · rw [hl'.2.2, hr'.2.2, hrest]
      simp
    · show lm / 2 ≤ l'.entries.length
      rw [hl'.2.2, List.length_append, List.length_singleton]
      omega
    · show l'.entries.length ≤ lm
      rw [hl'.2.2, List.length_append, List.length_singleton]
      omega
    · show lm / 2 ≤ r'.entries.length
      rw [hr'.2.2, List.length_cons]
      omega
    · show r'.entries.length ≤ lm
      rw [hr'.2.2, List.length_cons]
      omega

end Leaves

variable {l' : Leaf PageId κ ν} {as bs : List (Leaf PageId κ ν)}

/-- Two leaves in a chain of leaves, with the same names and links. -/
theorem linked_sameRecords {l r r' : Leaf PageId κ ν}
    (h : Linked INVALID_PAGE_ID (as ++ l :: r :: bs)) (hsame : SameRecords l r l' r') :
    Linked INVALID_PAGE_ID (as ++ l' :: r' :: bs) ∧
      (as ++ l' :: r' :: bs).flatMap Leaf.entries = (as ++ l :: r :: bs).flatMap Leaf.entries := by
  obtain ⟨⟨hlid, hlnext⟩, ⟨hrid, hrnext⟩, hent⟩ := hsame
  constructor
  · have hl := h.congr hlid hlnext
    have hr := Linked.congr (A := as ++ [l']) (l := r) (a := r') (B := bs) (by simpa using hl)
      hrid hrnext
    simpa using hr
  · simp only [List.flatMap_append, List.flatMap_cons]
    rw [← List.append_assoc l'.entries, hent, List.append_assoc]

/-- Two leaves in a chain of leaves, merged. -/
theorem linked_merged {l r m : Leaf PageId κ ν} (h : Linked INVALID_PAGE_ID (as ++ l :: r :: bs))
    (hm : m.id = l.id ∧ m.next = r.next ∧ m.entries = l.entries ++ r.entries) :
    Linked INVALID_PAGE_ID (as ++ m :: bs) ∧
      (as ++ m :: bs).flatMap Leaf.entries = (as ++ l :: r :: bs).flatMap Leaf.entries := by
  refine ⟨h.merge hm.1 hm.2.1, ?_⟩
  simp [hm.2.2]

/-- `CoalesceOrRedistribute` of a leaf that has become too small and is not the root: the index is
a tree in order again, with the same records. -/
theorem leaf_underflow [LinearOrder κ] (him : 3 ≤ im) {t : BPlusTree κ ν} {pid : PageId}
    {left right : List (κ × STree PageId κ ν 0)} {key : κ} {up : Ctx PageId κ ν 1}
    {l : Leaf PageId κ ν} (hf : Focus lm im t (.frame pid left key right up) (.leaf l))
    (hsmall : l.entries.length < lm / 2) (hlen : lm / 2 ≤ l.entries.length + 1)
    (hlinked : Linked INVALID_PAGE_ID ((Ctx.frame pid left key right up).leavesPre ++
      l :: (Ctx.frame pid left key right up).leavesPost))
    (hsafe : ∀ S : Leaf PageId κ ν,
      (left.getLast?.or right.head?).map Prod.snd = some (.leaf S) →
      l.entries.length + S.entries.length < lm →
      CtxSafe im up ((left.head?.map Prod.fst).getD key)
        (STree.node pid (left ++ (key, .leaf l) :: right)).keys (left.length + right.length))
    {fuel : Nat} (hfuel : up.depth + 1 < fuel) :
    ∃ t' leaves, BPlusTree.coalesceOrRedistribute fuel t l.id = some t' ∧
      Settled lm im t' leaves ∧ Linked INVALID_PAGE_ID leaves ∧
      leaves.flatMap Leaf.entries = ((Ctx.frame pid left key right up).leavesPre ++
        l :: (Ctx.frame pid left key right up).leavesPost).flatMap Leaf.entries := by
  obtain ⟨fuel, rfl⟩ : ∃ f, fuel = f + 1 := ⟨fuel - 1, by omega⟩
  obtain ⟨hup, hpmin, hpmax, hleft, hright⟩ := hf.sized
  have hupMin : 2 ≤ up.nodeMin (limits lm im) := two_le_nodeMin up
  rcases List.eq_nil_or_concat left with rfl | ⟨A, ⟨kL, L⟩, rfl⟩
  · -- the first child has its sibling on the right
    obtain ⟨⟨kR, R⟩, B, rfl⟩ : ∃ e B, right = e :: B :=
      List.exists_cons_of_ne_nil (by rintro rfl; simp at hpmin; omega)
    obtain ⟨r, rfl⟩ := R.exists_leaf
    have hB : ∀ e ∈ B, e.2.Sized (limits lm im) := fun e he =>
      hright e (List.mem_cons_of_mem _ he)
    simp only [List.length_nil, List.length_cons, Nat.zero_add] at hpmin hpmax hsafe
    simp only [Ctx.leavesPre, Ctx.leavesPost, List.flatMap_nil, List.flatMap_cons, List.append_nil,
      STree.leaves_leaf, List.nil_append, List.cons_append] at hlinked ⊢
    have hr := hright (kR, .leaf r) (by simp)
    rcases leaf_first hf.up hr hsmall hlen fuel with
      ⟨hm, t₁, m, heq, hment, hf'⟩ | ⟨t', k, l', r', heq, hsame, hl', hr', hf'⟩
    · -- merged: the parent loses a child
      obtain ⟨hlinked', hentries⟩ := linked_merged hlinked hment
      have hmsized : (STree.leaf m).Sized (limits lm im) := by
        have hmin : lm / 2 ≤ r.entries.length := (STree.sizedFrom_leaf.mp hr).1
        refine STree.sizedFrom_leaf.mpr ⟨(show lm / 2 ≤ m.entries.length from ?_),
          (show m.entries.length ≤ lm from ?_)⟩
        · rw [hment.2.2, List.length_append]
          omega
        · rw [hment.2.2, List.length_append]
          omega
      obtain ⟨t', heq', hset⟩ := shrink_spec (by omega) him fuel up pid key ((key, .leaf m) :: B) t₁
        (by omega) hf' rfl (List.forall_mem_cons.mpr ⟨hmsized, hB⟩) hpmin
        (by rw [List.length_cons]; exact Nat.le_of_succ_le hpmax) (by
          have hs := hsafe r rfl hm
          simpa [STree.keys_node, STree.keys_leaf, hment.2.2] using hs)
      exact ⟨t', _, by rw [heq, ← heq', List.length_cons], hset, by simpa using hlinked',
        by simpa using hentries⟩
    · -- an entry is borrowed: the parent keeps its children
      obtain ⟨hlinked', hentries⟩ := linked_sameRecords hlinked hsame
      have hset := hf'.settled (STree.sizedFrom_node.mpr ⟨hpmin, hpmax,
        List.forall_mem_cons.mpr ⟨hl', List.forall_mem_cons.mpr ⟨hr', hB⟩⟩⟩)
      exact ⟨t', _, heq, hset, by simpa using hlinked', by simpa using hentries⟩
  · -- any other child has its sibling on the left
    rw [List.concat_eq_append] at *
    obtain ⟨L, rfl⟩ := L.exists_leaf
    have hA : ∀ e ∈ A, e.2.Sized (limits lm im) := fun e he => hleft e (List.mem_append_left _ he)
    have hL := hleft (kL, .leaf L) (by simp)
    simp only [List.length_append, List.length_cons, List.length_nil, Nat.zero_add]
      at hpmin hpmax hsafe
    simp only [Ctx.leavesPre, Ctx.leavesPost, List.flatMap_append, List.flatMap_nil,
      List.flatMap_cons, List.append_nil, STree.leaves_leaf, ← List.append_assoc]
      at hlinked ⊢
    simp only [List.append_assoc _ [L], List.singleton_append] at hlinked ⊢
    have hf₀ : Focus lm im t up (.node pid (A ++ (kL, .leaf L) :: (key, .leaf l) :: right)) := by
      simpa using hf.up
    rcases leaf_next hf₀ hL hsmall hlen fuel with
      ⟨hm, t₁, m, heq, hment, hf'⟩ | ⟨t', k, l', r', heq, hsame, hl', hr', hf'⟩
    · obtain ⟨hlinked', hentries⟩ := linked_merged hlinked hment
      have hmsized : (STree.leaf m).Sized (limits lm im) := by
        have hmin : lm / 2 ≤ L.entries.length := (STree.sizedFrom_leaf.mp hL).1
        refine STree.sizedFrom_leaf.mpr ⟨(show lm / 2 ≤ m.entries.length from ?_),
          (show m.entries.length ≤ lm from ?_)⟩
        · rw [hment.2.2, List.length_append]
          omega
        · rw [hment.2.2, List.length_append]
          omega
      have hpmax' : A.length + 1 + right.length + 1 ≤ im := hpmax
      obtain ⟨t', heq', hset⟩ := shrink_spec (by omega) him fuel up pid
        ((A.head?.map Prod.fst).getD kL) (A ++ (kL, .leaf m) :: right) t₁ (by omega) hf'
        (by cases A <;> rfl)
        (List.forall_mem_append.mpr ⟨hA, List.forall_mem_cons.mpr ⟨hmsized, hright⟩⟩)
        (by rw [List.length_append, List.length_cons]; omega)
        (by rw [List.length_append, List.length_cons]; omega) (by
          have hs := hsafe L (by simp) hm
          rw [show ((A ++ [(kL, STree.leaf L)]).head?.map Prod.fst).getD key
            = (A.head?.map Prod.fst).getD kL by cases A <;> rfl] at hs
          simpa [STree.keys_node, STree.keys_leaf, hment.2.2, Nat.add_assoc,
            Nat.add_comm 1] using hs)
      exact ⟨t', _, by rw [heq, ← heq', List.length_append, List.length_cons], hset,
        by simpa using hlinked', by simpa using hentries⟩
    · obtain ⟨hlinked', hentries⟩ := linked_sameRecords hlinked hsame
      have hset := hf'.settled (STree.sizedFrom_node.mpr ⟨?_, ?_, List.forall_mem_append.mpr ⟨hA,
        List.forall_mem_cons.mpr ⟨hl', List.forall_mem_cons.mpr ⟨hr', hright⟩⟩⟩⟩)
      · exact ⟨t', _, heq, hset, by simpa using hlinked', by simpa using hentries⟩
      · rw [List.length_append, List.length_cons, List.length_cons]
        omega
      · rw [List.length_append, List.length_cons, List.length_cons]
        omega

/-! ### `Remove` -/

/-- The sibling that `CoalesceOrRedistribute` looks at. -/
theorem sibling_page {s : PageStore κ ν} {h : Nat} {pid pp : PageId}
    {left right : List (κ × STree PageId κ ν h)} {key : κ} {N S : STree PageId κ ν h}
    {Γ : List (PageId × Cell PageId κ ν)} {n : InternalPage κ}
    (hheap : Heap lm im s ((STree.node pid (left ++ (key, N) :: right)).flat pp ++ Γ))
    (hpairs : n.pairs = names (left ++ (key, N) :: right))
    (hS : (left.getLast?.or right.head?).map Prod.snd = some S) :
    n.valueAt (if left.length = 0 then 1 else left.length - 1) = S.rootId ∧
      ∃ Γ', Heap lm im s (S.flat pid ++ Γ') := by
  rcases List.eq_nil_or_concat left with rfl | ⟨A, e, rfl⟩
  · cases right with
    | nil => cases hS
    | cons e B =>
      obtain ⟨kR, R⟩ := e
      obtain rfl : R = S := Option.some.inj hS
      refine ⟨?_, Heap.child (A := [(key, N)]) hheap⟩
      rw [List.length_nil, if_pos rfl, InternalPage.valueAt, show n.data 1 = (kR, R.rootId) from
        InternalPage.data_mid (l := [(key, N.rootId)]) hpairs]
  · obtain ⟨kL, L⟩ := e
    rw [List.concat_eq_append] at *
    obtain rfl : L = S := by simpa using hS
    rw [List.append_assoc, List.singleton_append] at hheap hpairs
    refine ⟨?_, Heap.child hheap⟩
    have hmid := InternalPage.data_mid (l := names A) (e := (kL, L.rootId))
      (r := names ((key, N) :: right)) (by rw [hpairs]; simp)
    rw [length_names] at hmid
    rw [List.length_append, List.length_singleton, if_neg (Nat.add_one_ne_zero _),
      Nat.add_sub_cancel, InternalPage.valueAt, hmid]

variable {left right : List (κ × STree PageId κ ν 0)}

/-- The parent of a leaf and the sibling that `CoalesceOrRedistribute` looks at. -/
theorem leaf_parent_sibling {s : PageStore κ ν} {pid pp : PageId} {key : κ} {l S : Leaf PageId κ ν}
    {Γ : List (PageId × Cell PageId κ ν)}
    (hheap : Heap lm im s ((STree.node pid (left ++ (key, .leaf l) :: right)).flat pp ++ Γ))
    (hS : (left.getLast?.or right.head?).map Prod.snd = some (.leaf S)) :
    pid ≠ INVALID_PAGE_ID ∧ ∃ n sp, s.fetchInternal pid = some n ∧
      n.findValue l.id = some left.length ∧
      n.valueAt (if left.length = 0 then 1 else left.length - 1) = S.id ∧
      s.fetchPage S.id = some (.leaf sp) ∧ sp.pageId = S.id ∧ sp.size = S.entries.length := by
  obtain ⟨n, hfetch, -, -, -, hpairs⟩ := hheap.node_fields
  obtain ⟨hsib, Γ, hSheap⟩ := sibling_page hheap hpairs hS
  obtain ⟨sp, hsfetch, hsid, -, -, -, -, hspairs⟩ := hSheap.leaf_page
  refine ⟨hheap.ne_invalid (by simp [STree.flat_node]), n, sp, hfetch, ?_, hsib, hsfetch, hsid, ?_⟩
  · rw [names_append, names_cons] at hpairs
    have h := InternalPage.findValue_spec hpairs (Heap.child_not_mem hheap)
    rwa [length_names] at h
  · rw [← LeafPage.length_pairs, hspairs]

/-- `safeRemove` makes the way up safe, for the leaf `l'` that is left of `l`. -/
theorem ctxSafe_of_safeRemove [LinearOrder κ] {t : BPlusTree κ ν} {pid : PageId} {key x : κ}
    {up : Ctx PageId κ ν 1} {l S : Leaf PageId κ ν} {page : LeafPage κ ν}
    (hr : Represents lm im t ((Ctx.frame pid left key right up).plug (.leaf l)))
    (hadm : (Ctx.frame pid left key right up).Admits x)
    (hshow : Shows lm im l.id (.leaf page) ((STree.leaf l).topCell pid))
    (hfind : t.findLeafPage x = some (some (l.id, page))) (hsafe : t.safeRemove x = true)
    (hent : l'.entries = l.entries.filter (fun e => e.1 ≠ x))
    (hlen : l'.entries.length = (if (page.lookup x).isSome then page.size - 1 else page.size))
    (hadmf : (Ctx.frame pid left key right up).Admits l'.first)
    (hle : ∀ e ∈ l'.entries, l'.first ≤ e.1) (hsmall : l'.entries.length < lm / 2)
    (hS : (left.getLast?.or right.head?).map Prod.snd = some (.leaf S))
    (hm : l'.entries.length + S.entries.length < lm) :
    CtxSafe im (if left.length = 0 then up.setKey l'.first else up)
      ((left.head?.map Prod.fst).getD l'.first)
      (STree.node pid (left ++ (l'.first, .leaf l') :: right)).keys
      (left.length + right.length) := by
  have hheap : Heap lm im t.bpm ((STree.node pid (left ++ (key, .leaf l) :: right)).flat
      (up.parentId INVALID_PAGE_ID) ++ up.flat INVALID_PAGE_ID pid) :=
    Heap.open_hole (c := up) hr.heap
  obtain ⟨hne, n, sp, hfetch, hfindv, hsib, hsfetch, _, hssize⟩ := leaf_parent_sibling hheap hS
  have hpar : page.parentPageId = pid := hshow.2.2.1
  have hmax : page.maxSize = lm := hshow.2.1
  -- `safeRemove` reads the parent and the sibling as the code does
  simp only [BPlusTree.safeRemove, hfind, ← hlen, LeafPage.minSize, hmax, if_pos hsmall,
    LeafPage.isRootPage, hpar, hne, hfetch, hfindv, PageStore.fetchLeaf, hsib, hsfetch, hssize, hm,
    decide_false, decide_true, Bool.false_eq_true, if_false, Bool.not_true, Bool.false_or] at hsafe
  have hfuel : up.depth < t.fuel := Heap.depth_lt_fuel (Γ := []) hheap
  have hrec := ctxSafe_of_safeShrink (f := l'.first) t.fuel up pid
    ((left.head?.map Prod.fst).getD key) ((left.head?.map Prod.fst).getD l'.first)
    (left ++ (key, .leaf l) :: right) (decide (left.length = 0)) hfuel hheap
    (by cases left <;> rfl) hadm.up ?_ ?_ hsafe
  · -- the keys of the parent without `x` are those that are left
    have hleftx := flatMap_keys_filter (x := x) (C := left)
      fun e he y hy => ne_of_lt (hadm.lt_of_mem_left he hy)
    have hrightx := flatMap_keys_filter (x := x) (C := right)
      fun e he y hy => ne_of_gt (hadm.lt_of_mem_right he hy)
    have hleafx : (STree.leaf l).keys.filter (· ≠ x) = (STree.leaf l').keys := by
      rw [STree.keys_leaf, STree.keys_leaf, hent, List.filter_map]
      rfl
    rw [STree.keys_node, List.flatMap_append, List.flatMap_cons, List.filter_append,
      List.filter_append, hleftx, hrightx, hleafx] at hrec
    simpa [STree.keys_node] using hrec
  · intro hnil
    obtain rfl : left = [] := List.length_eq_zero_iff.mp (of_decide_eq_true hnil)
    refine ⟨rfl, hadmf.up, ?_⟩
    intro y hy hyx
    rw [STree.keys_node, List.nil_append, List.flatMap_cons, List.mem_append] at hy
    rcases hy with hy | hy
    · rw [STree.keys_leaf] at hy
      obtain ⟨e, he, rfl⟩ := List.mem_map.mp hy
      exact hle e (by rw [hent]; exact List.mem_filter.mpr ⟨he, decide_eq_true hyx⟩)
    · obtain ⟨e, he, hy⟩ := List.mem_flatMap.mp hy
      exact le_of_lt (hadmf.lt_of_mem_right he hy)
  · intro hne
    cases left with
    | nil => simp at hne
    | cons e left => rfl

/-- `Remove` of a key, from the leaf on. -/
theorem remove_eq [LinearOrder κ] {t : BPlusTree κ ν} {x : κ} {leafId : PageId}
    {page : LeafPage κ ν} (hne : t.isEmpty = false)
    (hfind : t.findLeafPage x = some (some (leafId, page))) :
    t.remove x =
      (let leaf := page.removeAndDeleteRecord x
       let t := t.setPage leafId (.leaf leaf)
       (if leaf.isRootPage then some t else t.updateParentKeys leaf.pageId leaf).bind fun t =>
        if leaf.size < leaf.minSize then BPlusTree.coalesceOrRedistribute t.fuel t leafId
        else some t) := by
  simp only [BPlusTree.remove, hne, hfind, Option.bind_eq_bind, Option.bind_some,
    Bool.false_eq_true, if_false]
  split <;> rfl

/-- The index has no records but the one of `x`, or it is a search tree with the others. -/
def Removed [LinearOrder κ] (lm im : Nat) (x : κ) (t' : BPlusTree κ ν) (pairs : List (κ × ν)) :
    Prop :=
  (t'.leafMaxSize = lm ∧ t'.internalMaxSize = im ∧ t'.rootPageId = INVALID_PAGE_ID ∧
    ∀ e ∈ pairs, e.1 = x) ∨
  ∃ T', Represents lm im t' T' ∧ ∀ e, e ∈ T'.2.pairs ↔ e ∈ pairs ∧ e.1 ≠ x

/-- `Remove` from a root leaf. -/
theorem remove_root [LinearOrder κ] {t : BPlusTree κ ν} {x : κ} {l : Leaf PageId κ ν}
    {page' : LeafPage κ ν} (hr : Represents lm im t ((Ctx.root : Ctx PageId κ ν 0).plug (.leaf l)))
    (hid : l'.id = l.id) (hnext : l'.next = l.next)
    (hshow : Shows lm im l.id (.leaf page') ((STree.leaf l').topCell INVALID_PAGE_ID))
    (hsub : l'.items.Sublist l.items) (hent : l'.entries = l.entries.filter (fun e => e.1 ≠ x))
    (hone : l'.entries.length < lm / 2 → l'.entries.length ≠ 1) :
    ∃ t', (if page'.size < page'.minSize then
        BPlusTree.coalesceOrRedistribute (t.setPage l.id (.leaf page')).fuel
          (t.setPage l.id (.leaf page')) l.id
        else some (t.setPage l.id (.leaf page'))) = some t' ∧
      Removed lm im x t' ((Ctx.root : Ctx PageId κ ν 0).plug (.leaf l)).2.pairs := by
  have hheap := hr.heap.setLeaf (g := page') hid hshow
  have hsize : page'.size = l'.entries.length := by
    rw [← LeafPage.length_pairs]
    exact congrArg List.length hshow.2.2.2.2.2
  have hmax : l.entries.length ≤ lm := (STree.sizedFrom_leaf.mp hr.sized).2
  have hle : l'.entries.length ≤ lm := by
    rw [hent]
    exact le_trans (List.length_filter_le _ _) hmax
  have hrep : min 1 (lm / 2) ≤ l'.entries.length →
      Represents lm im (t.setPage l.id (.leaf page')) ⟨0, .leaf l'⟩ := by
    intro hmin
    refine ⟨⟨hr.leafMaxSize, hr.internalMaxSize, hheap.close_hole, ?_,
      STree.sizedFrom_leaf.mpr ⟨hmin, hle⟩⟩, hr.ordered.sublist hsub, ?_⟩
    · exact hr.root.trans hid.symm
    · exact Linked.congr (A := []) (B := []) hr.linked hid hnext
  have hpairs : ∀ e, e ∈ (STree.leaf l').pairs ↔ e ∈ (STree.leaf l).pairs ∧ e.1 ≠ x := by
    intro e
    rw [STree.pairs_leaf, STree.pairs_leaf, hent, List.mem_filter]
    simp
  rw [hsize, LeafPage.minSize, show page'.maxSize = lm from hshow.2.1]
  by_cases hsmall : l'.entries.length < lm / 2
  · rw [if_pos hsmall]
    obtain ⟨fuel, hfuel⟩ : ∃ fuel, (t.setPage l.id (.leaf page')).fuel = fuel + 1 := by
      have hpos := hr.height_lt_fuel
      exact ⟨t.fuel - 1,
        by rw [BPlusTree.fuel]; exact (Nat.succ_pred_eq_of_pos (Nat.zero_lt_of_lt hpos)).symm⟩
    have hfetch : (t.setPage l.id (.leaf page')).bpm.fetchPage l.id = some (.leaf page') :=
      PageStore.fetchPage_setPage_self (hr.heap.live (by simp [Ctx.plug, STree.flat])) _
    have hpar : page'.parentPageId = INVALID_PAGE_ID := hshow.2.2.1
    rw [hfuel]
    simp only [BPlusTree.coalesceOrRedistribute, hfetch, Option.bind_eq_bind, Option.bind_some,
      BPlusTreePage.isRootPage, BPlusTreePage.parentPageId, hpar, decide_true, if_true,
      BPlusTree.adjustRoot, BPlusTreePage.size, hsize]
    by_cases hbig : l'.entries.length > 1
    · exact ⟨_, if_pos hbig, Or.inr ⟨_, hrep (by omega), hpairs⟩⟩
    · -- The last record has gone, and the root with it.
      refine ⟨_, if_neg hbig, Or.inl ⟨hr.leafMaxSize, hr.internalMaxSize, rfl, ?_⟩⟩
      have hzero : l'.entries = [] := List.length_eq_zero_iff.mp (by have := hone hsmall; omega)
      intro e he
      by_contra hne
      have hmem := (hpairs e).mpr ⟨he, hne⟩
      rw [STree.pairs_leaf, hzero] at hmem
      cases hmem
  · rw [if_neg hsmall]
    exact ⟨_, rfl, Or.inr ⟨_, hrep (by omega), hpairs⟩⟩

/-- The records of a chain of leaves without those of a key. -/
theorem mem_removed [DecidableEq κ] {l : Leaf PageId κ ν} {x : κ}
    (hent : l'.entries = l.entries.filter (fun e => e.1 ≠ x))
    (has : ∀ e ∈ as.flatMap Leaf.entries, e.1 ≠ x) (hbs : ∀ e ∈ bs.flatMap Leaf.entries, e.1 ≠ x)
    (e : κ × ν) : e ∈ (as ++ l' :: bs).flatMap Leaf.entries ↔
      e ∈ (as ++ l :: bs).flatMap Leaf.entries ∧ e.1 ≠ x := by
  rw [List.flatMap_append, List.flatMap_append, List.flatMap_cons, List.flatMap_cons, hent]
  simp only [List.mem_append, List.mem_filter, decide_eq_true_eq]
  constructor
  · rintro (he | ⟨he, hx⟩ | he)
    · exact ⟨Or.inl he, has e he⟩
    · exact ⟨Or.inr (Or.inl he), hx⟩
    · exact ⟨Or.inr (Or.inr he), hbs e he⟩
  · rintro ⟨he | he | he, hx⟩
    · exact Or.inl he
    · exact Or.inr (Or.inl ⟨he, hx⟩)
    · exact Or.inr (Or.inr he)

/-- The records beside a hole do not have an admitted key. -/
theorem admits_records [LinearOrder κ] {h : Nat} {c : Ctx PageId κ ν h} {x : κ}
    (hadm : c.Admits x) :
    (∀ e ∈ c.leavesPre.flatMap Leaf.entries, e.1 ≠ x) ∧
      ∀ e ∈ c.leavesPost.flatMap Leaf.entries, e.1 ≠ x := by
  constructor
  · intro e he hx
    have hitem := c.recordItems_leavesPre_sublist.subset (List.mem_map.mpr ⟨e, he, rfl⟩)
    exact lt_irrefl _ (hx ▸ hadm.1 _ hitem)
  · intro e he hx
    have hitem := c.recordItems_leavesPost_sublist.subset (List.mem_map.mpr ⟨e, he, rfl⟩)
    exact lt_irrefl _ (hx ▸ hadm.2 _ hitem)

/-- A tree in order whose leaves are linked. -/
theorem Settled.removed [LinearOrder κ] {t : BPlusTree κ ν} {leaves : List (Leaf PageId κ ν)}
    {x : κ} {pairs : List (κ × ν)} (hset : Settled lm im t leaves)
    (hlinked : Linked INVALID_PAGE_ID leaves)
    (hpairs : ∀ e, e ∈ leaves.flatMap Leaf.entries ↔ e ∈ pairs ∧ e.1 ≠ x) :
    Removed lm im x t pairs := by
  obtain ⟨T, hstored, hord, hleaves⟩ := hset
  refine Or.inr ⟨T, { hstored with ordered := hord, linked := hleaves ▸ hlinked }, ?_⟩
  intro e
  rw [STree.pairs, hleaves]
  exact hpairs e

/-- `Remove`, when it is safe: the record of the key is gone and the others are there. -/
theorem Represents.remove [LinearOrder κ] (him : 3 ≤ im) {t : BPlusTree κ ν}
    {T : (h : Nat) × STree PageId κ ν h} (hr : Represents lm im t T) {x : κ}
    (hsafe : t.safeRemove x = true) :
    ∃ t', t.remove x = some t' ∧ Removed lm im x t' T.2.pairs := by
  obtain ⟨c, l, page, rfl, hadm, hshow, hfind⟩ := hr.findLeafPage x
  obtain ⟨l', hid, hnext, hshow', hsub, ⟨rest, hitems⟩, hent, hlen⟩ :=
    leaf_remove hr.ordered hshow x
  rw [remove_eq hr.not_isEmpty hfind]
  obtain ⟨page', hpage'⟩ : ∃ page', page' = page.removeAndDeleteRecord x := ⟨_, rfl⟩
  rw [← hpage'] at hshow' ⊢
  have hsize : page'.size = l'.entries.length := by
    rw [← LeafPage.length_pairs]
    exact congrArg List.length hshow'.2.2.2.2.2
  have hmax : page'.maxSize = lm := hshow'.2.1
  have hpar : page'.parentPageId = c.parentId INVALID_PAGE_ID := hshow'.2.2.1
  cases c with
  | root =>
    have hroot : page'.isRootPage = true := by simp [LeafPage.isRootPage, hpar]
    simp only [hroot, if_true, Option.bind_some]
    refine remove_root hr hid hnext hshow' hsub hent ?_
    intro hsmall
    have hpar₀ : page.parentPageId = INVALID_PAGE_ID := hshow.2.2.1
    simp only [BPlusTree.safeRemove, hfind, ← hlen, LeafPage.minSize,
      show page.maxSize = lm from hshow.2.1, if_pos hsmall, LeafPage.isRootPage, hpar₀, decide_true,
      if_true, decide_eq_true_eq] at hsafe
    exact hsafe
  | frame pid left key right up =>
    have hheap := hr.heap.setLeaf (g := page') hid hshow'
    have hne : pid ≠ INVALID_PAGE_ID := hheap.ne_invalid (by simp [Ctx.flat])
    have hroot : page'.isRootPage = false := by simpa [LeafPage.isRootPage, hpar] using hne
    have hkey : page'.keyAt 0 = l'.first := hshow'.2.2.2.2.1
    -- the first key of the leaf may have changed, and the keys above with it
    obtain ⟨t₁, hup, hsame, hheap₁⟩ := updateParentKeys_spec
      (t := t.setPage l.id (.leaf page')) hheap hpar hkey
    have hpid : page'.pageId = l'.id := hshow'.1.trans hid.symm
    simp only [hroot, Bool.false_eq_true, if_false, hpid, hup, Option.bind_some, hsize,
      LeafPage.minSize, hmax]
    have hord : ((Ctx.frame pid left key right up).pre ++ (l'.items ++
        (Ctx.frame pid left key right up).post)).Pairwise (· < ·) := by
      have h := hr.ordered
      rw [Ctx.items_plug] at h
      exact pairwise_shrink h hsub
    rw [hitems, List.cons_append] at hord
    have hadmf : (Ctx.frame pid left key right up).Admits l'.first := by
      obtain ⟨-, hpost, hpre⟩ := List.pairwise_append.mp hord
      exact ⟨fun y hy => hpre y hy _ List.mem_cons_self,
        fun y hy => (List.pairwise_cons.mp hpost).1 y (List.mem_append_right _ hy)⟩
    have hle : ∀ e ∈ l'.entries, l'.first ≤ e.1 := by
      intro e he
      have hitem := (leaf_records_sublist l').subset
        (List.mem_map_of_mem (f := fun e => keyItem e.1) he)
      rw [hitems] at hitem
      rcases List.mem_cons.mp hitem with heq | hmem
      · exact le_of_eq (keyItem_injective heq).symm
      · have hafter := (List.pairwise_cons.mp (List.pairwise_append.mp hord).2.1).1
        exact le_of_lt (keyItem_lt_keyItem.mp (hafter _ (List.mem_append_left _ hmem)))
    have hshape := refresh_sameShape l'.first (Ctx.frame pid left key right up)
    obtain ⟨hcsized, hmin, hmax'⟩ := (Ctx.sized_plug _ _).mp hr.sized
    have hmin : lm / 2 ≤ l.entries.length := hmin
    have hmax' : l.entries.length ≤ lm := hmax'
    -- the tree around the leaf, with the new first key
    have hf : Focus lm im t₁ (refresh l'.first (.frame pid left key right up)) (.leaf l') := by
      refine ⟨hsame.1.trans hr.leafMaxSize, hsame.2.1.trans hr.internalMaxSize, ?_, ?_,
        hshape.sized _ hcsized, ?_⟩
      · rw [hshape.parentId]
        exact hheap₁
      · rw [hshape.topId, STree.rootId_leaf, hid]
        exact hsame.2.2.trans (hr.root.trans (Ctx.rootId_plug _ _))
      · rw [Ctx.items_plug, STree.items_leaf, hshape.post, hitems, List.cons_append]
        exact pairwise_refresh hord
    have hlinked : Linked INVALID_PAGE_ID ((Ctx.frame pid left key right up).leavesPre ++
        l' :: (Ctx.frame pid left key right up).leavesPost) := by
      have h := hr.linked
      rw [Ctx.leaves_plug, STree.leaves_leaf, List.singleton_append] at h
      exact h.congr hid hnext
    have hpairs : ∀ e, e ∈ ((Ctx.frame pid left key right up).leavesPre ++
        l' :: (Ctx.frame pid left key right up).leavesPost).flatMap Leaf.entries ↔
          e ∈ ((Ctx.frame pid left key right up).plug (.leaf l)).2.pairs ∧ e.1 ≠ x := by
      intro e
      rw [STree.pairs, Ctx.leaves_plug]
      exact mem_removed hent (admits_records hadm).1 (admits_records hadm).2 e
    rw [← hshape.leavesPre, ← hshape.leavesPost] at hlinked hpairs
    have hlen' : l'.entries.length ≤ l.entries.length ∧
        l.entries.length ≤ l'.entries.length + 1 := by
      have hpage : page.size = l.entries.length := by
        rw [← LeafPage.length_pairs]
        exact congrArg List.length hshow.2.2.2.2.2
      split at hlen <;> omega
    by_cases hsmall : l'.entries.length < lm / 2
    · -- too few entries are left
      rw [if_pos hsmall]
      rw [refresh_frame] at hf hlinked hpairs
      have hdepth : (if left.length = 0 then up.setKey l'.first else up).depth + 1 < t₁.fuel := by
        exact Heap.depth_lt_fuel (Γ := []) (by rw [List.nil_append]; exact hf.heap)
      rw [← hid]
      obtain ⟨t', leaves, heq, hset, hlinked', hentries⟩ := leaf_underflow him hf hsmall (by omega)
        hlinked (fun S hS hm => ctxSafe_of_safeRemove hr hadm hshow hfind hsafe hent hlen hadmf hle
          hsmall hS hm) hdepth
      exact ⟨t', heq, hset.removed hlinked' (fun e => by rw [hentries]; exact hpairs e)⟩
    · rw [if_neg hsmall]
      refine ⟨t₁, rfl, (hf.settled ?_).removed hlinked hpairs⟩
      rw [hshape.leafMin, hshape.nodeMin]
      exact STree.sizedFrom_leaf.mpr ⟨(show lm / 2 ≤ l'.entries.length by omega),
        (show l'.entries.length ≤ lm by omega)⟩

end DisMiniSql.MiniSql
