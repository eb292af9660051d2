import DisMiniSql.Proofs.Index.PinEvents

/-!
# `DisMiniSql.Proofs.Index.Destroy`: `Destroy` deletes the tree

`Deletes ids es` says of the calls `es` that they take and give back pins in pairs, delete each page
of `ids` once and no other page, and delete no page that still has a pin. `destroyFrom_spec` is the
induction over the tree: the calls for a page are those for the pages below it, between the pin of
the page and its deletion.

`destroy_deletes_tree` is the result for every index that a run of calls makes.
-/

set_option autoImplicit false

namespace DisMiniSql.MiniSql

open DisMiniSql.Lib

variable {κ ν : Type} {lm im : Nat}

/-! ### The calls -/

/-- The pages a list of pool calls deletes, computed along the list: none. -/
@[simp] theorem deletedPages_nil : deletedPages [] = [] := rfl

/-- Those of two lists one after the other. -/
@[simp] theorem deletedPages_append (es es' : Events) :
    deletedPages (es ++ es') = deletedPages es ++ deletedPages es' := List.filterMap_append

/-- A pin deletes nothing. -/
@[simp] theorem deletedPages_take (p : PageId) (es : Events) :
    deletedPages (.take p :: es) = deletedPages es := rfl

/-- Neither does its return. -/
@[simp] theorem deletedPages_give (p : PageId) (es : Events) :
    deletedPages (.give p :: es) = deletedPages es := rfl

/-- Nor a write. -/
@[simp] theorem deletedPages_use (p : PageId) (es : Events) :
    deletedPages (.use p :: es) = deletedPages es := rfl

/-- A deletion counts. -/
@[simp] theorem deletedPages_drop (p : PageId) (es : Events) :
    deletedPages (.drop p :: es) = p :: deletedPages es := rfl

/-- A page without pins is deleted. `DeletePage` refuses any other. -/
def Unpinned (pins : PageId → Nat) (e : PinEvent PageId) : Prop :=
  ∀ p, e = .drop p → pins p = 0

/-- Only a deletion asks that its page be unpinned: a pin does not. -/
theorem unpinned_take (pins : PageId → Nat) (p : PageId) : Unpinned pins (.take p) :=
  fun _ h => nomatch h

/-- The return of a pin does not. -/
theorem unpinned_give (pins : PageId → Nat) (p : PageId) : Unpinned pins (.give p) :=
  fun _ h => nomatch h

/-- A write does not. -/
theorem unpinned_use (pins : PageId → Nat) (p : PageId) : Unpinned pins (.use p) :=
  fun _ h => nomatch h

/-- And a deletion of a page without pins is allowed. -/
theorem unpinned_drop {pins : PageId → Nat} {p : PageId} (h : pins p = 0) :
    Unpinned pins (.drop p) := by
  intro q hq
  cases hq
  exact h

/-- The calls delete the pages `ids`. -/
structure Deletes (ids : List PageId) (es : Events) : Prop where
  neutral : ∀ pins, pinsAfter pins es = pins
  pages : (deletedPages es).Perm ids
  unpinned : ∀ pins, (∀ p ∈ ids, pins p = 0) → Guarded Unpinned PinEvent.apply pins es

/-- The calls for a leaf, and those around the calls for the children of a page. -/
theorem Deletes.page {ids : List PageId} {es : Events} (h : Deletes ids es) {p : PageId}
    (hp : p ∉ ids) :
    Deletes (p :: ids)
      ([fetchPage p, touch p] ++ es ++ [unpinPage p, deletePage p]) where
  neutral := by
    intro pins
    rw [pinsAfter_append, pinsAfter_append]
    show (PinEvent.give p).apply (pinsAfter (addPin pins p) es) = pins
    rw [h.neutral, apply_give_addPin]
  pages := by
    show (deletedPages ([.take p, .use p] ++ es ++ [.give p, .drop p])).Perm _
    simp only [deletedPages_append, deletedPages_take, deletedPages_use, deletedPages_give,
      deletedPages_drop, deletedPages_nil, List.nil_append]
    exact List.perm_append_comm.trans (h.pages.cons p)
  unpinned := by
    intro pins hpins
    have hbelow : ∀ q ∈ ids, addPin pins p q = 0 := by
      intro q hq
      have hne : q ≠ p := fun heq => hp (heq ▸ hq)
      rw [addPin_of_ne hne]
      exact hpins q (List.mem_cons_of_mem p hq)
    rw [Guarded.append, Guarded.append]
    refine ⟨⟨⟨unpinned_take _ _, unpinned_use _ _, trivial⟩, h.unpinned _ hbelow⟩,
      unpinned_give _ _, unpinned_drop ?_, trivial⟩
    -- the pins are as before the call of `FetchPage`
    rw [List.foldl_append]
    show (PinEvent.give p).apply (pinsAfter (addPin pins p) es) p = 0
    rw [h.neutral, apply_give_addPin]
    exact hpins p List.mem_cons_self

/-- The calls under a pin of the page `p`, and a use of it before them. -/
theorem Deletes.touch_append {ids ids' : List PageId} {es es' : Events} (h : Deletes ids es)
    (h' : Deletes ids' es') (p : PageId) : Deletes (ids ++ ids') (touch p :: es ++ es') where
  neutral := by
    intro pins
    rw [List.cons_append]
    show pinsAfter pins (es ++ es') = pins
    rw [pinsAfter_append, h.neutral, h'.neutral]
  pages := by
    show (deletedPages (.use p :: es ++ es')).Perm _
    rw [deletedPages_append, deletedPages_use]
    exact h.pages.append h'.pages
  unpinned := by
    intro pins hpins
    have hrest := h'.unpinned pins fun q hq => hpins q (List.mem_append_right ids hq)
    refine ⟨unpinned_use _ _, Guarded.append.mpr
      ⟨h.unpinned pins fun q hq => hpins q (List.mem_append_left ids' hq), ?_⟩⟩
    show Guarded Unpinned PinEvent.apply (pinsAfter pins es) es'
    rwa [h.neutral]

/-! ### The walk over the tree -/

namespace BPlusTree

/-- The index with some pages deleted. -/
def without (t : BPlusTree κ ν) (ids : List PageId) : BPlusTree κ ν :=
  { t with bpm := { t.bpm with live := t.bpm.live.filter fun p => p ∉ ids } }

/-- Deleting nothing leaves the tree as it is. -/
theorem without_nil (t : BPlusTree κ ν) : t.without [] = t := by
  simp [without]

/-- Deleting twice is deleting both lists. -/
theorem without_without (t : BPlusTree κ ν) (ids ids' : List PageId) :
    (t.without ids).without ids' = t.without (ids ++ ids') := by
  simp only [without, List.filter_filter]
  congr 2
  refine List.filter_congr fun p _ => ?_
  simp only [List.mem_append]
  by_cases h : p ∈ ids <;> by_cases h' : p ∈ ids' <;> simp [h, h']

/-- `DeletePage` behind the pages below. -/
theorem deletePage_without (t : BPlusTree κ ν) (p : PageId) (ids : List PageId) :
    ({ t.without ids with bpm := (t.without ids).bpm.deletePage p } : BPlusTree κ ν) =
      t.without (p :: ids) := by
  have hone : ({ t.without ids with bpm := (t.without ids).bpm.deletePage p } : BPlusTree κ ν) =
      (t.without ids).without [p] := by
    simp [without, PageStore.deletePage]
  rw [hone, without_without]
  simp only [without]
  congr 2
  refine List.filter_congr fun q _ => ?_
  simp [or_comm]

end BPlusTree

/-- The other cells of the heap stay where the pages of a tree are deleted. -/
theorem Heap.without {t : BPlusTree κ ν} {h : Nat} {T : STree PageId κ ν h} {parent : PageId}
    {Γ : List (PageId × Cell PageId κ ν)} (hh : Heap lm im t.bpm (T.flat parent ++ Γ)) :
    Heap lm im (t.without T.ids).bpm Γ where
  holds := by
    intro e he
    obtain ⟨page, hpage, hshow⟩ := hh.holds e (List.mem_append_right _ he)
    have hn := hh.nodup
    rw [List.map_append, STree.map_fst_flat] at hn
    have hnot : e.1 ∉ T.ids := fun hmem =>
      (List.nodup_append.mp hn).2.2 e.1 hmem e.1 (List.mem_map_of_mem he) rfl
    refine ⟨page, ?_, hshow⟩
    have hlive := PageStore.mem_live_of_fetchPage hpage
    rw [PageStore.fetchPage, if_pos hlive] at hpage
    simpa [PageStore.fetchPage, BPlusTree.without, hlive, hnot] using hpage
  nodup := by
    have hn := hh.nodup
    rw [List.map_append] at hn
    exact (List.nodup_append.mp hn).2.1
  nonneg := fun e he => hh.nonneg e (List.mem_append_right _ he)

/-- The children of a page, one after another. -/
theorem destroyChildren_spec {h : Nat} (id : PageId)
    (destroy : BPlusTree κ ν → PageId → Option (Events × BPlusTree κ ν))
    (hdestroy : ∀ {t : BPlusTree κ ν} {T : STree PageId κ ν h}
      {Γ : List (PageId × Cell PageId κ ν)}, Heap lm im t.bpm (T.flat id ++ Γ) →
      ∃ es, destroy t T.rootId = some (es, t.without T.ids) ∧ Deletes T.ids es ∧
        ∀ own, 0 < own id → Disciplined own es)
    (cs : List (κ × STree PageId κ ν h)) :
    ∀ {t : BPlusTree κ ν} {Γ : List (PageId × Cell PageId κ ν)},
      Heap lm im t.bpm (forest id cs ++ Γ) →
      ∃ es, BPlusTree.destroyChildren destroy id t ((names cs).map Prod.snd) =
          some (es, t.without (cs.flatMap fun e => e.2.ids)) ∧
        Deletes (cs.flatMap fun e => e.2.ids) es ∧ ∀ own, 0 < own id → Disciplined own es := by
  induction cs with
  | nil =>
    intro t Γ _
    refine ⟨[touch id], ?_, ⟨fun _ => rfl, .refl _, fun pins _ => ⟨unpinned_use _ _, trivial⟩⟩,
      fun own hown => ⟨hown, trivial⟩⟩
    rw [List.flatMap_nil, BPlusTree.without_nil]
    rfl
  | cons c cs ih =>
    intro t Γ hh
    obtain ⟨k, T⟩ := c
    rw [forest_cons, List.append_assoc] at hh
    obtain ⟨es, heq, hes, hown⟩ := hdestroy hh
    obtain ⟨es', heq', hes', hown'⟩ := ih hh.without
    refine ⟨touch id :: es ++ es', ?_, ?_, ?_⟩
    · simp only [names_cons, List.map_cons, BPlusTree.destroyChildren, heq, heq',
        Option.bind_eq_bind, Option.bind_some, BPlusTree.without_without, List.flatMap_cons]
    · rw [List.flatMap_cons]
      exact hes.touch_append hes' id
    · intro own hpos
      refine ⟨hpos, disciplined_append.mpr ⟨hown own hpos, ?_⟩⟩
      rw [hes.neutral]
      exact hown' own hpos

/-- `Destroy` of the pages of a tree. -/
theorem destroyFrom_spec : ∀ {h : Nat} {fuel : Nat}, h < fuel → ∀ {t : BPlusTree κ ν}
    {T : STree PageId κ ν h} {parent : PageId} {Γ : List (PageId × Cell PageId κ ν)},
    Heap lm im t.bpm (T.flat parent ++ Γ) →
    ∃ es, BPlusTree.destroyFrom fuel t T.rootId = some (es, t.without T.ids) ∧
      Deletes T.ids es ∧ ∀ own, Disciplined own es := by
  intro h
  induction h with
  | zero =>
    intro fuel hfuel t T parent Γ hh
    obtain ⟨l, rfl⟩ := T.exists_leaf
    obtain ⟨fuel, rfl⟩ : ∃ f, fuel = f + 1 := ⟨fuel - 1, by omega⟩
    obtain ⟨page, hpage, -⟩ := hh.fetch_leaf (p := l.id) (q := parent) (n := l.next)
      (k := l.first) (e := l.entries) (by simp [STree.flat_leaf])
    have hvalid : l.id ≠ INVALID_PAGE_ID := hh.ne_invalid (by simp [STree.flat_leaf])
    have hnone : Deletes [] [] := ⟨fun _ => rfl, .refl _, fun _ _ => trivial⟩
    refine ⟨_, ?_, hnone.page (p := l.id) List.not_mem_nil, ?_⟩
    · have hdelete := t.deletePage_without l.id []
      rw [BPlusTree.without_nil] at hdelete
      show BPlusTree.destroyFrom (fuel + 1) t l.id = _
      simp only [BPlusTree.destroyFrom, if_neg hvalid, hpage, hdelete, STree.ids_leaf]
      rfl
    · intro own
      exact ⟨trivial, addPin_self_pos own l.id, trivial, trivial, trivial⟩
  | succ h ih =>
    intro fuel hfuel t T parent Γ hh
    obtain ⟨id, cs, rfl⟩ := T.exists_node
    obtain ⟨fuel, rfl⟩ : ∃ f, fuel = f + 1 := ⟨fuel - 1, by omega⟩
    obtain ⟨page, hpage, -, -, -, hpairs⟩ := hh.fetch_node (p := id) (q := parent)
      (C := names cs) (by simp [STree.flat_node])
    have hvalid : id ≠ INVALID_PAGE_ID := hh.ne_invalid (by simp [STree.flat_node])
    have hchildren : (List.range page.size).map page.valueAt = (names cs).map Prod.snd := by
      rw [← hpairs, InternalPage.pairs, slots, List.map_map]
      rfl
    have hnodup := hh.nodup
    rw [List.map_append, STree.map_fst_flat, STree.ids_node] at hnodup
    have hnew : id ∉ cs.flatMap fun e => e.2.ids :=
      (List.nodup_cons.mp (List.nodup_append.mp hnodup).1).1
    -- the cell of the page stands behind those of its children
    have hforest : Heap lm im t.bpm (forest id cs ++ ((id, .node parent (names cs)) :: Γ)) := by
      refine hh.perm ?_
      rw [STree.flat_node, List.cons_append]
      exact List.perm_middle.symm
    obtain ⟨es, heq, hes, hown⟩ := destroyChildren_spec id (BPlusTree.destroyFrom fuel)
      (fun hh' => by
        obtain ⟨es, heq, hes, hown⟩ := ih (Nat.lt_of_succ_lt_succ hfuel) hh'
        exact ⟨es, heq, hes, fun own _ => hown own⟩) cs hforest
    refine ⟨_, ?_, hes.page hnew, ?_⟩
    · show BPlusTree.destroyFrom (fuel + 1) t id = _
      simp only [BPlusTree.destroyFrom, if_neg hvalid, hpage, hchildren, heq, Option.bind_eq_bind,
        Option.bind_some, BPlusTree.deletePage_without, STree.ids_node]
      rfl
    · intro own
      refine disciplined_append.mpr ⟨disciplined_append.mpr ⟨?_, ?_⟩, trivial, trivial, trivial⟩
      · exact ⟨trivial, addPin_self_pos own id, trivial⟩
      · exact hown (addPin own id) (addPin_self_pos own id)

/-! ### The pages of the index -/

/-- The root is one of the pages. -/
theorem rootId_mem_ids {h : Nat} (T : STree PageId κ ν h) : T.rootId ∈ T.ids := by
  rw [← STree.map_fst_flat T.rootId]
  exact List.mem_cons_self

/-- The names of the children in a cell of the tree are names of the tree. -/
theorem mem_ids_of_cell {h : Nat} {T : STree PageId κ ν h} {parent p q : PageId}
    {children : List (κ × PageId)} (hmem : (p, .node q children) ∈ T.flat parent) {c : κ × PageId}
    (hc : c ∈ children) : c.2 ∈ T.ids := by
  induction h generalizing parent with
  | zero =>
    obtain ⟨l, rfl⟩ := T.exists_leaf
    simp [STree.flat_leaf] at hmem
  | succ h ih =>
    obtain ⟨id, cs, rfl⟩ := T.exists_node
    rw [STree.flat_node] at hmem
    rw [STree.ids_node]
    refine List.mem_cons_of_mem id (List.mem_flatMap.mpr ?_)
    rcases List.mem_cons.mp hmem with heq | hbelow
    · obtain ⟨-, -, rfl⟩ : p = id ∧ q = parent ∧ children = names cs := by simpa using heq
      obtain ⟨e, he, rfl⟩ := List.mem_map.mp hc
      exact ⟨e, he, rootId_mem_ids e.2⟩
    · obtain ⟨e, he, hcell⟩ := List.mem_flatMap.mp hbelow
      exact ⟨e, he, ih hcell⟩

/-- The pages below an owned page are owned. -/
theorem owns_of_mem_ids {t : BPlusTree κ ν} {h : Nat} {T : STree PageId κ ν h} {parent : PageId}
    {Γ : List (PageId × Cell PageId κ ν)} (hh : Heap lm im t.bpm (T.flat parent ++ Γ))
    (htop : t.Owns T.rootId) {p : PageId} (hp : p ∈ T.ids) : t.Owns p := by
  induction h generalizing parent Γ with
  | zero =>
    obtain ⟨l, rfl⟩ := T.exists_leaf
    obtain rfl : p = l.id := by simpa using hp
    exact htop
  | succ h ih =>
    obtain ⟨id, cs, rfl⟩ := T.exists_node
    obtain ⟨page, hpage, -, -, -, hpairs⟩ := hh.fetch_node (p := id) (q := parent)
      (C := names cs) (by simp [STree.flat_node])
    rw [STree.ids_node] at hp
    rcases List.mem_cons.mp hp with rfl | hp
    · exact htop
    · obtain ⟨e, he, hbelow⟩ := List.mem_flatMap.mp hp
      have hchild : (e.1, e.2.rootId) ∈ page.pairs := hpairs ▸ List.mem_map_of_mem he
      obtain ⟨i, hi, heq⟩ : ∃ i, i < page.size ∧ page.data i = (e.1, e.2.rootId) := by
        simpa [InternalPage.pairs, slots] using hchild
      have howns : t.Owns e.2.rootId := by
        have hvalue : page.valueAt i = e.2.rootId := congrArg Prod.snd heq
        rw [← hvalue]
        exact .child htop hpage hi
      obtain ⟨before, after, rfl⟩ := List.append_of_mem he
      -- the cells of the child come first
      have hheap : Heap lm im t.bpm (e.2.flat id ++
          ((id, .node parent (names (before ++ e :: after))) ::
            (forest id before ++ forest id after ++ Γ))) := by
        refine hh.perm ?_
        rw [STree.flat_node, forest_append, forest_cons]
        refine perm_of_countP fun P => ?_
        simp only [List.countP_append, List.countP_cons]
        omega
      exact ih hheap howns hbelow

/-- The pages of the index are those of its tree. -/
theorem Stored.owns_iff {t : BPlusTree κ ν} {T : (h : Nat) × STree PageId κ ν h}
    (h : Stored lm im t T) (p : PageId) : t.Owns p ↔ p ∈ T.2.ids := by
  have hh : Heap lm im t.bpm (T.2.flat INVALID_PAGE_ID ++ []) := by
    rw [List.append_nil]
    exact h.heap
  have hroot : t.rootPageId ≠ INVALID_PAGE_ID := by
    rw [h.root]
    exact h.heap.ne_invalid (by simp [STree.flat])
  constructor
  · intro howns
    induction howns with
    | root _ =>
      rw [h.root]
      exact rootId_mem_ids T.2
    | @child q node i _ hfetch hi ih =>
      rw [← STree.map_fst_flat INVALID_PAGE_ID] at ih
      obtain ⟨e, he, rfl⟩ := List.mem_map.mp ih
      obtain ⟨page, hpage, hshow⟩ := h.heap.holds e he
      obtain rfl := Option.some.inj (hpage.symm.trans hfetch)
      obtain ⟨p, cell⟩ := e
      cases cell with
      | leaf => exact hshow.elim
      | node parent children =>
        have hpairs : node.pairs = children := hshow.2.2.2
        refine mem_ids_of_cell he (c := node.data i) ?_
        rw [← hpairs]
        exact List.mem_map_of_mem (List.mem_range.mpr hi)
  · intro hp
    refine owns_of_mem_ids hh ?_ hp
    rw [← h.root]
    exact .root hroot

/-! ### The result -/

/-- `Destroy` of an index, whatever calls have made it, ends. It deletes each page of the index
once, when the page has no pin of its own any more, and no other page: those that are allocated
afterwards are those that were and are no pages of the index, with the bytes they had. -/
theorem destroy_deletes_tree [LinearOrder κ] [Inhabited κ] [Inhabited ν] (t₀ : BPlusTree κ ν)
    (hlm : 1 ≤ t₀.leafMaxSize) (him : 3 ≤ t₀.internalMaxSize)
    (hempty : t₀.rootPageId = INVALID_PAGE_ID) (ops : List (IndexOp κ ν))
    (hsafe : t₀.safeRun ops = true) :
    ∃ t es t', t₀.run ops = some t ∧ t.destroy = some (es, t') ∧
      (∀ p, p ∈ t'.bpm.live ↔ p ∈ t.bpm.live ∧ ¬ t.Owns p) ∧ t'.bpm.pages = t.bpm.pages ∧
      (∀ p, p ∈ deletedPages es ↔ t.Owns p) ∧ (deletedPages es).Nodup ∧ PinSafe es ∧
      ∀ pins, (∀ p, t.Owns p → pins p = 0) → Guarded Unpinned PinEvent.apply pins es := by
  obtain ⟨t, hrun, h⟩ := run_indexed hlm him hempty hsafe
  rcases h with ⟨-, -, hroot, -⟩ | ⟨T, hr, -⟩
  · have hnone : ∀ p, ¬ t.Owns p := by
      intro p howns
      induction howns with
      | root hne => exact hne hroot
      | child _ _ _ ih => exact ih
    have heq : t.destroy = some ([], t) := by
      simp [BPlusTree.destroy, BPlusTree.destroyFrom, hroot]
    exact ⟨t, [], t, hrun, heq, fun p => by simp [hnone], rfl, fun p => by simp [hnone],
      List.nodup_nil, ⟨fun _ => rfl, trivial⟩, fun _ _ => trivial⟩
  · have hst := hr.toStored
    have hh : Heap (t₀.leafMaxSize) (t₀.internalMaxSize) t.bpm
        (T.2.flat INVALID_PAGE_ID ++ []) := by
      rw [List.append_nil]
      exact hst.heap
    have hvalid : T.2.rootId ≠ INVALID_PAGE_ID := hst.heap.ne_invalid (by simp [STree.flat])
    have hheight : T.1 < t.fuel + 1 := by
      have hlt := T.2.height_lt_length_ids (b := limits t₀.leafMaxSize t₀.internalMaxSize)
        (le_trans (by decide) (le_max_left 2 _)) (by decide) hst.sized
      have hle := hst.heap.length_le
      rw [← List.length_map (f := Prod.fst), STree.map_fst_flat] at hle
      unfold BPlusTree.fuel
      omega
    obtain ⟨es, heq, hes, hown⟩ := destroyFrom_spec hheight hh
    -- the call without an argument starts at the root
    have hdestroy : t.destroy = some (es, t.without T.2.ids) := by
      rw [← heq, BPlusTree.destroy, BPlusTree.destroyFrom, BPlusTree.destroyFrom, if_pos rfl,
        if_neg hvalid, hst.root]
    have hpages : ∀ p, p ∈ deletedPages es ↔ t.Owns p := fun p =>
      (hes.pages.mem_iff).trans (hst.owns_iff p).symm
    have hnodup := hst.heap.nodup
    rw [STree.map_fst_flat] at hnodup
    refine ⟨t, es, t.without T.2.ids, hrun, hdestroy, fun p => ?_, rfl, hpages,
      hes.pages.nodup_iff.mpr hnodup, ⟨hes.neutral, hown _⟩, fun pins hpins => ?_⟩
    · rw [hst.owns_iff]
      simp [BPlusTree.without]
    · exact hes.unpinned pins fun p hp => hpins p ((hst.owns_iff p).mpr hp)

/-- A tree of three levels. -/
theorem destroy_deletes_tree_three_levels :
    ∃ t es t', (BPlusTree.new 2 4 : BPlusTree Nat Nat).run
        ((List.range 9).map fun i => .insert i (10 * i)) = some t ∧
      t.destroy = some (es, t') ∧ t'.bpm.live = [] := by
  obtain ⟨t, es, t', hrun, hdestroy, -⟩ := destroy_deletes_tree
    (BPlusTree.new 2 4 : BPlusTree Nat Nat) (by decide) (by decide) rfl
    ((List.range 9).map fun i => .insert i (10 * i)) (by decide +kernel)
  have hlive : (((BPlusTree.new 2 4 : BPlusTree Nat Nat).run
      ((List.range 9).map fun i => .insert i (10 * i))).bind fun t =>
        t.destroy.map fun r => r.2.bpm.live) = some [] := by
    decide +kernel
  rw [hrun, Option.bind_some, hdestroy, Option.map_some, Option.some.injEq] at hlive
  exact ⟨t, es, t', hrun, hdestroy, hlive⟩

end DisMiniSql.MiniSql
