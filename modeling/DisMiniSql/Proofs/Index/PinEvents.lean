import DisMiniSql.MiniSql.Index.PinEvents
import DisMiniSql.Proofs.Index.Runs

/-!
# `DisMiniSql.Proofs.Index.PinEvents`: the pins of the index

`PinSafe` says of the calls of a method that they leave the pins of all callers as they were, and
that every use of a page is under a pin of the method.

`FindLeafPage` takes and gives back the pins of the pages above the leaf (`findLeafEvents_spec`),
and its caller has the pin of the leaf. `GetValue` gives it back, and `Begin` does not. `Insert`
reads the size of the leaf behind `UnpinPage`, and a merge reads the id of a page behind
`UnpinPage`. So the methods are right exactly as `Pinned` says: `index_pins_iff`.
-/

set_option autoImplicit false

namespace DisMiniSql.MiniSql

open DisMiniSql.Lib

variable {κ ν : Type} {lm im : Nat}

/-- What the calls of a method should do, from no pin of its own. -/
structure PinSafe (es : Events) : Prop where
  neutral : ∀ pins, pinsAfter pins es = pins
  disciplined : Disciplined (fun _ => 0) es

/-- A stretch that returns every pin is safe. -/
theorem PinSafe.of_block {es : Events} (h : Block (fun _ => 0) es) : PinSafe es :=
  ⟨h.neutral, h.disciplined⟩

/-! ### The way down -/

/-- The well-formed pages of a represented tree. -/
theorem Represents.wellFormed [LinearOrder κ] {t : BPlusTree κ ν}
    {T : (h : Nat) × STree PageId κ ν h} (hr : Represents lm im t T) :
    t.bpm.WellFormed T.1 INVALID_PAGE_ID t.rootPageId := by
  have hheap : Heap lm im t.bpm (T.2.flat INVALID_PAGE_ID ++ []) := by
    rw [List.append_nil]
    exact hr.heap
  rw [hr.root]
  exact hheap.wellFormed (Nat.le_refl 2) hr.sized hr.ordered

/-- The loop of `FindLeafPage` leaves the pin of the leaf and no other. -/
theorem findLeafEvents_spec [LinearOrder κ] {s : PageStore κ ν} {child : InternalPage κ → PageId}
    (hchild : ∀ n : InternalPage κ, 2 ≤ n.size → ∃ i, i < n.size ∧ child n = n.valueAt i)
    {h fuel : Nat} {parent p leafId : PageId} {leaf : LeafPage κ ν} {es : Events}
    (hwf : s.WellFormed h parent p)
    (hloop : BPlusTree.findLeafLoop s child fuel p = some (leafId, leaf))
    (hes : BPlusTree.findLeafEvents s child fuel p = some es) :
    leaf.pageId = leafId ∧
      ∃ path, es = path ++ [fetchPage leafId, touch leafId] ∧ ∀ own, Block own path := by
  induction fuel generalizing h parent p es with
  | zero => exact nomatch hloop
  | succ fuel ih =>
    unfold BPlusTree.findLeafLoop at hloop
    unfold BPlusTree.findLeafEvents at hes
    cases h with
    | zero =>
      obtain ⟨l, hfetch, hid, _, _⟩ := hwf
      rw [hfetch] at hloop hes
      obtain ⟨rfl, rfl⟩ := Prod.mk.inj (Option.some.inj hloop)
      exact ⟨hid, [], (Option.some.inj hes).symm, fun own => .nil own⟩
    | succ h =>
      obtain ⟨n, hfetch, hid, _, hsize, _, hsub⟩ := hwf
      rw [hfetch] at hloop hes
      obtain ⟨rest, hrest, rfl⟩ := Option.map_eq_some_iff.mp hes
      obtain ⟨i, hi, hvalue⟩ := hchild n hsize
      have hbelow := (hsub i hi).1
      rw [← hvalue] at hbelow
      obtain ⟨hleaf, path, rfl, hpath⟩ := ih hbelow hloop hrest
      refine ⟨hleaf, [fetchPage p, touch p, unpinPage n.pageId] ++ path,
        (List.append_assoc _ path _).symm, fun own => ?_⟩
      rw [hid]
      exact .bracket (.use (addPin_self_pos own p) (.nil _)) (hpath own)

/-- `Lookup` goes to one of the children. -/
theorem exists_lookup_eq_valueAt [LinearOrder κ] (key : κ) (n : InternalPage κ)
    (hsize : 2 ≤ n.size) :
    ∃ i, i < n.size ∧ n.lookup key = n.valueAt i := by
  obtain ⟨l, e, r, hsplit, hlookup, _⟩ := n.lookup_spec key hsize
  refine ⟨l.length, ?_, ?_⟩
  · rw [← InternalPage.length_pairs, hsplit, List.length_append, List.length_cons]
    omega
  · rw [hlookup, InternalPage.valueAt, InternalPage.data_mid hsplit]

variable [LinearOrder κ] {t : BPlusTree κ ν} {T : (h : Nat) × STree PageId κ ν h} {key : κ}
  {es : Events} {leafId : PageId} {leaf : LeafPage κ ν}

/-- `FindLeafPage(key)` leaves the pin of the leaf and no other. -/
theorem Represents.findLeafPageEvents (hr : Represents lm im t T)
    (hfind : t.findLeafPage key = some (some (leafId, leaf)))
    (hes : t.findLeafPageEvents key = some es) : leaf.pageId = leafId ∧
      ∃ path, es = path ++ [fetchPage leafId, touch leafId] ∧ ∀ own, Block own path := by
  unfold BPlusTree.findLeafPage at hfind
  rw [hr.not_isEmpty, if_neg Bool.false_ne_true] at hfind
  obtain ⟨found, hloop, heq⟩ := Option.map_eq_some_iff.mp hfind
  obtain rfl := Option.some.inj heq
  exact findLeafEvents_spec (exists_lookup_eq_valueAt key) hr.wellFormed hloop hes

omit [LinearOrder κ] in
/-- The way to a leaf leaves the pin of the leaf. -/
theorem pinsAfter_found {path : Events} (hpath : ∀ own, Block own path) (leafId : PageId)
    (pins : PageId → Nat) :
    pinsAfter pins (path ++ [fetchPage leafId, touch leafId]) = addPin pins leafId := by
  rw [pinsAfter_append, (hpath pins).neutral]
  rfl

/-- The way to a leaf, some uses of it, and `UnpinPage`. -/
theorem block_of_uses {path : Events} (hpath : ∀ own, Block own path) (leafId : PageId)
    {uses : Events} (huses : Block (addPin (fun _ => 0) leafId) uses) :
    Block (fun _ => 0) (path ++ [fetchPage leafId, touch leafId] ++ (uses ++
      [unpinPage leafId])) := by
  rw [List.append_assoc]
  exact (hpath _).append (.bracket (.use (addPin_self_pos _ leafId) huses) (.nil _))

/-- `GetValue` gives the pin of the leaf back. -/
theorem Represents.getValueEvents (hr : Represents lm im t T)
    (hes : t.getValueEvents key = some es) : PinSafe es := by
  obtain ⟨_, l, page, _, _, _, hfind⟩ := hr.findLeafPage key
  unfold BPlusTree.getValueEvents at hes
  rw [hfind] at hes
  obtain ⟨found, hfound, heq⟩ := Option.bind_eq_some_iff.mp
    (show (t.findLeafPageEvents key).bind _ = some es from hes)
  obtain rfl := Option.some.inj heq
  obtain ⟨hid, path, rfl, hpath⟩ := hr.findLeafPageEvents hfind hfound
  rw [hid]
  exact .of_block (block_of_uses hpath l.id (.use (addPin_self_pos _ l.id) (.nil _)))

/-! ### `Insert` -/

/-- A use behind the last `UnpinPage`. -/
theorem not_disciplined_of_path {path rest : Events} (hpath : ∀ own, Block own path)
    (leafId : PageId) : ¬ Disciplined (fun _ => 0) (path ++ [fetchPage leafId, touch leafId] ++
      [touch leafId, unpinPage leafId, touch leafId] ++ rest) := by
  intro hd
  have hblock : Block (fun _ => 0) (path ++ [fetchPage leafId, touch leafId] ++
      ([touch leafId] ++ [unpinPage leafId])) :=
    block_of_uses hpath leafId (.use (addPin_self_pos _ leafId) (.nil _))
  have hsplit : path ++ [fetchPage leafId, touch leafId] ++
      [touch leafId, unpinPage leafId, touch leafId] ++ rest =
        (path ++ [fetchPage leafId, touch leafId] ++ ([touch leafId] ++ [unpinPage leafId])) ++
          touch leafId :: rest := by
    simp only [List.append_assoc, List.cons_append, List.nil_append]
  rw [hsplit] at hd
  exact not_disciplined_of_unpinned (congrFun (hblock.neutral _) leafId) rest hd

variable [Inhabited κ] [Inhabited ν] {value : ν}

/-- `Insert` into a tree is right exactly if the key is there. -/
theorem Represents.insertEvents (hr : Represents lm im t T)
    (hes : t.insertEvents key value = some es) :
    PinSafe es ↔ ∃ v, t.getValue key = some (some v) := by
  obtain ⟨_, l, page, _, _, _, hfind⟩ := hr.findLeafPage key
  have hget : t.getValue key = some (page.lookup key) := by
    unfold BPlusTree.getValue
    rw [hr.not_isEmpty, hfind]
    rfl
  unfold BPlusTree.insertEvents BPlusTree.insertIntoLeafEvents at hes
  rw [hr.not_isEmpty, if_neg Bool.false_ne_true, hfind] at hes
  obtain ⟨found, hfound, heq⟩ := Option.bind_eq_some_iff.mp
    (show (t.findLeafPageEvents key).bind _ = some es from hes)
  obtain ⟨hid, path, rfl, hpath⟩ := hr.findLeafPageEvents hfind hfound
  rw [hget]
  dsimp only at heq
  rw [hid] at heq
  cases hlookup : page.lookup key with
  | some v =>
    rw [hlookup, Option.isSome_some, if_pos rfl] at heq
    obtain rfl := Option.some.inj heq
    exact iff_of_true
      (.of_block (block_of_uses hpath l.id (.use (addPin_self_pos _ l.id) (.nil _)))) ⟨v, rfl⟩
  | none =>
    have hinserted : (page.insert key value).pageId = l.id := hid
    rw [hlookup, Option.isSome_none, if_neg Bool.false_ne_true, hinserted] at heq
    refine iff_of_false (fun hsafe => ?_) (fun ⟨v, hv⟩ => nomatch hv)
    obtain ⟨rest, rfl⟩ : ∃ rest, es = path ++ [fetchPage l.id, touch l.id] ++
        [touch l.id, unpinPage l.id, touch l.id] ++ rest := by
      split at heq
      · obtain ⟨above, _, heq⟩ := Option.bind_eq_some_iff.mp heq
        obtain rfl := Option.some.inj heq
        exact ⟨_, List.append_assoc _ _ _⟩
      · obtain rfl := Option.some.inj heq
        exact ⟨[], (List.append_nil _).symm⟩
    exact not_disciplined_of_path hpath l.id hsafe.disciplined

omit [LinearOrder κ] [Inhabited κ] [Inhabited ν] in
/-- A new tree. -/
theorem pinSafe_startNewTree (t : BPlusTree κ ν) : PinSafe t.startNewTreeEvents := by
  unfold BPlusTree.startNewTreeEvents
  generalize t.bpm.newPage.1 = pageId
  have hroots : Block (addPin (fun _ => 0) pageId)
      (BPlusTree.updateRootPageIdEvents ++ [touch pageId]) :=
    .bracket (.use (addPin_self_pos _ INDEX_ROOTS_PAGE_ID) (.nil _))
      (.use (addPin_self_pos _ pageId) (.nil _))
  refine .of_block ?_
  show Block _ (newPage pageId :: (BPlusTree.updateRootPageIdEvents ++ [touch pageId]) ++
    [unpinPage pageId])
  exact .bracket hroots (.nil _)

/-! ### Iteration -/

namespace IndexIterator

/-- The pins with that of the iterator. -/
def withPin (pins : PageId → Nat) (iter : IndexIterator) : PageId → Nat :=
  if iter.currentPageId = INVALID_PAGE_ID then pins else addPin pins iter.currentPageId

/-- A new iterator leaves one pin, on its leaf. -/
theorem pinsAfter_newEvents (pins : PageId → Nat) (iter : IndexIterator) :
    pinsAfter pins iter.newEvents = iter.withPin pins := by
  unfold newEvents withPin
  split
  · rfl
  · rfl

/-- And its end returns it. -/
theorem pinsAfter_deleteEvents (pins : PageId → Nat) (iter : IndexIterator) :
    pinsAfter (iter.withPin pins) iter.deleteEvents = pins := by
  unfold deleteEvents withPin
  split
  · rfl
  · exact apply_give_addPin pins iter.currentPageId

variable {s : PageStore κ ν} {iter : IndexIterator}

omit [LinearOrder κ] [Inhabited κ] [Inhabited ν] in
/-- `++` takes the pin along. -/
theorem pinsAfter_nextEvents {next : IndexIterator} (hnext : iter.next s = some next)
    (hes : iter.nextEvents s = some es) (pins : PageId → Nat) :
    pinsAfter (iter.withPin pins) es = next.withPin pins := by
  obtain ⟨page, hpage, rfl⟩ := Option.map_eq_some_iff.mp hnext
  unfold nextEvents at hes
  by_cases hhere : iter.currentPageId = INVALID_PAGE_ID
  · rw [if_pos hhere] at hes
    exact nomatch hes
  · rw [if_neg hhere, hpage, Option.map_some] at hes
    obtain rfl := Option.some.inj hes
    split
    · rw [pinsAfter_append]
      unfold withPin
      rw [if_neg hhere]
      show pinsAfter ((PinEvent.give _).apply (addPin pins _)) _ = _
      rw [apply_give_addPin]
      exact pinsAfter_newEvents pins ⟨page.nextPageId, 0⟩
    · rfl

omit [LinearOrder κ] [Inhabited κ] [Inhabited ν] in
/-- Any number of `++` and the destructor give the pin of the iterator back. -/
theorem pinsAfter_advanceEvents (steps : Nat) (hes : advanceEvents s steps iter = some es)
    (pins : PageId → Nat) :
    pinsAfter (iter.withPin pins) es = pins := by
  induction steps generalizing iter es with
  | zero =>
    obtain rfl := Option.some.inj hes
    exact pinsAfter_deleteEvents pins iter
  | succ steps ih =>
    obtain ⟨moved, hmoved, hes⟩ := Option.bind_eq_some_iff.mp hes
    obtain ⟨next, hnext, hes⟩ := Option.bind_eq_some_iff.mp hes
    obtain ⟨rest, hrest, heq⟩ := Option.bind_eq_some_iff.mp hes
    obtain rfl := Option.some.inj heq
    rw [pinsAfter_append, pinsAfter_nextEvents hnext hmoved, ih hrest]

omit [LinearOrder κ] [Inhabited κ] [Inhabited ν] in
/-- Nothing happens at the end but the destructor. -/
theorem advanceEvents_end {steps : Nat}
    (hes : advanceEvents s steps BPlusTree.endIterator = some es) : es = [] := by
  cases steps with
  | zero => exact (Option.some.inj hes).symm
  | succ steps => exact nomatch hes

omit [LinearOrder κ] [Inhabited κ] [Inhabited ν] in
/-- The way to a leaf, and an iteration. The pin of the leaf that `FindLeafPage` took stays. -/
theorem not_pinSafe_of_iteration {path rest : Events} {steps : Nat} (hpath : ∀ own, Block own path)
    (leafId : PageId) (uses : Events) (huses : ∀ pins, pinsAfter pins uses = pins)
    (hrest : advanceEvents s steps iter = some rest) :
    ¬ PinSafe (path ++ [fetchPage leafId, touch leafId] ++ (uses ++ (iter.newEvents ++ rest))) := by
  intro hsafe
  have hleft : pinsAfter (fun _ => 0)
      (path ++ [fetchPage leafId, touch leafId] ++ (uses ++ (iter.newEvents ++ rest))) =
        addPin (fun _ => 0) leafId := by
    rw [pinsAfter_append, pinsAfter_found hpath, pinsAfter_append, huses, pinsAfter_append,
      pinsAfter_newEvents, pinsAfter_advanceEvents steps hrest]
  exact addPin_ne _ leafId (hleft.symm.trans (hsafe.neutral _))

end IndexIterator

omit [Inhabited κ] [Inhabited ν] in
/-- `Begin()` keeps a pin. -/
theorem Represents.iterateEvents (hr : Represents lm im t T) {steps : Nat}
    (hes : t.iterateEvents steps = some es) : ¬ PinSafe es := by
  unfold BPlusTree.iterateEvents at hes
  obtain ⟨found, hfind, hes⟩ := Option.bind_eq_some_iff.mp hes
  unfold BPlusTree.findLeftMostLeafPage at hfind
  rw [hr.not_isEmpty, if_neg Bool.false_ne_true] at hfind
  obtain ⟨⟨pageId, leaf⟩, hloop, rfl⟩ := Option.map_eq_some_iff.mp hfind
  obtain ⟨way, hway, hes⟩ := Option.bind_eq_some_iff.mp hes
  obtain ⟨rest, hrest, heq⟩ := Option.bind_eq_some_iff.mp hes
  obtain rfl := Option.some.inj heq
  obtain ⟨-, path, rfl, hpath⟩ := findLeafEvents_spec
    (fun n hsize => ⟨0, Nat.lt_of_lt_of_le Nat.two_pos hsize, rfl⟩) hr.wellFormed hloop hway
  rw [List.append_assoc]
  exact IndexIterator.not_pinSafe_of_iteration hpath pageId [] (fun _ => rfl) hrest

omit [Inhabited κ] [Inhabited ν] in
/-- `Begin(key)` keeps a pin. -/
theorem Represents.iterateFromEvents (hr : Represents lm im t T) {steps : Nat}
    (hes : t.iterateFromEvents key steps = some es) : ¬ PinSafe es := by
  obtain ⟨_, l, page, _, _, _, hfind⟩ := hr.findLeafPage key
  unfold BPlusTree.iterateFromEvents at hes
  rw [hfind] at hes
  obtain ⟨way, hway, hes⟩ := Option.bind_eq_some_iff.mp
    (show (t.findLeafPageEvents key).bind _ = some es from hes)
  obtain ⟨rest, hrest, heq⟩ := Option.bind_eq_some_iff.mp hes
  obtain rfl := Option.some.inj heq
  obtain ⟨-, path, rfl, hpath⟩ := hr.findLeafPageEvents hfind hway
  rw [List.append_assoc]
  exact IndexIterator.not_pinSafe_of_iteration hpath l.id [touch l.id] (fun _ => rfl) hrest

/-! ### `Remove` -/

section Remove

variable {pid pp : PageId} {left right : List (κ × STree PageId κ ν 0)} {k : κ}
    {up : Ctx PageId κ ν 1}
  {l S : Leaf PageId κ ν} {own : PageId → Nat}

omit [LinearOrder κ] [Inhabited κ] [Inhabited ν] in
/-- The pages above the leaf are pinned while they are used. -/
theorem updateParentKeysEvents_block {page : LeafPage κ ν}
    (hheap : Heap lm im t.bpm ((STree.leaf l).flat pid ++
      (Ctx.frame pid left k right up).flat INVALID_PAGE_ID l.id))
    (hpar : page.parentPageId = pid) (hown : 0 < own l.id)
    (hes : t.updateParentKeysEvents l.id page = some es) : Block own es := by
  obtain ⟨n, hfetch, hfind, hid, hnpar, _, hheap'⟩ := setKey_heap (page.keyAt 0) hheap
  rw [STree.rootId_leaf] at hfind
  have hparent := addPin_self_pos own pid
  have hleaf := addPin_pos hown pid
  unfold BPlusTree.updateParentKeysEvents at hes
  simp only [hpar, hfetch, hfind, Option.bind_eq_bind, Option.bind_some] at hes
  split at hes
  · next hfirst =>
    obtain ⟨g, hg, heq⟩ := Option.bind_eq_some_iff.mp hes
    obtain rfl := Option.some.inj heq
    have hgpar : (n.setKeyAt left.length (page.keyAt 0)).parentPageId =
        up.parentId INVALID_PAGE_ID := hnpar
    cases up with
    | root =>
      simp [InternalPage.isRootPage, hgpar] at hfirst
    | frame gid left₂ k₂ right₂ up₂ =>
      obtain ⟨g', hgfetch, _, hgid, _⟩ := setKey_heap (page.keyAt 0) hheap'.hole_up
      rw [hgpar] at hg ⊢
      obtain rfl := Option.some.inj (hgfetch.symm.trans hg)
      have hgrand : Block (addPin own pid)
          (fetchPage gid :: [touch gid, touch pid] ++ unpinPage gid :: [touch pid]) :=
        .bracket (.use (addPin_self_pos _ gid) (.use (addPin_pos hparent gid) (.nil _)))
          (.use hparent (.nil _))
      rw [hid, hgid]
      show Block own (touch l.id :: (fetchPage pid :: (touch pid :: touch l.id :: touch pid ::
        (fetchPage gid :: [touch gid, touch pid] ++ unpinPage gid :: [touch pid])) ++
          [unpinPage pid]))
      exact .use hown (.bracket (.use hparent (.use hleaf (.use hparent hgrand))) (.nil _))
  · obtain rfl := Option.some.inj hes
    rw [hid]
    show Block own (touch l.id :: (fetchPage pid :: [touch pid, touch l.id, touch pid] ++
      [unpinPage pid]))
    exact .use hown (.bracket (.use hparent (.use hleaf (.use hparent (.nil _)))) (.nil _))

omit [LinearOrder κ] [Inhabited κ] [Inhabited ν] in
/-- What `Coalesce` does first, whether or not the parent is too small then. -/
theorem exists_events_of_merge {merged : Option (InternalPage κ × BPlusTree κ ν)} {fuel : Nat}
    {pid : PageId} {started after : Events}
    (hes : merged.bind (fun r =>
      if r.1.size < r.1.minSize then
        (BPlusTree.coalesceOrRedistributeEvents fuel r.2 pid).bind
          fun above => some (started ++ above ++ after)
      else some (started ++ after)) = some es) : ∃ rest, es = started ++ rest := by
  obtain ⟨r, _, hes⟩ := Option.bind_eq_some_iff.mp hes
  split at hes
  · obtain ⟨above, _, heq⟩ := Option.bind_eq_some_iff.mp hes
    exact ⟨above ++ after, (Option.some.inj heq).symm.trans (List.append_assoc _ _ _)⟩
  · exact ⟨after, (Option.some.inj hes).symm⟩

variable {Γ : List (PageId × Cell PageId κ ν)}

omit [LinearOrder κ] [Inhabited κ] [Inhabited ν] in
/-- `CoalesceOrRedistribute` of a leaf with the sibling `S`. -/
theorem coalesceOrRedistributeEvents_leaf
    (hheap : Heap lm im t.bpm ((STree.node pid (left ++ (k, .leaf l) :: right)).flat pp ++ Γ))
    (hS : (left.getLast?.or right.head?).map Prod.snd = some (.leaf S)) {fuel : Nat}
    (hes : BPlusTree.coalesceOrRedistributeEvents (fuel + 1) t l.id = some es) :
    let before := [touch l.id, fetchPage pid, touch l.id, touch pid, fetchPage S.id, touch l.id,
      touch S.id]
    if l.entries.length + S.entries.length < lm then
      ∃ rest, es = before ++ (if left.length = 0 then
        [touch S.id, touch l.id, unpinPage S.id, touch S.id]
        else [touch l.id, touch S.id, unpinPage l.id, touch l.id]) ++ rest
    else es = before ++ [touch l.id, fetchPage pid, touch S.id, touch l.id, touch pid,
      unpinPage pid] ++ [touch S.id, unpinPage S.id, unpinPage pid] := by
  obtain ⟨Γl, hl⟩ := Heap.child hheap
  obtain ⟨page, hfetch, hid, hmax, hpar, _, _, hpairs⟩ := hl.leaf_page
  obtain ⟨hne, n, sp, hn, hindex, hsib, hsfetch, hsid, hssize⟩ := leaf_parent_sibling hheap hS
  have hsize : page.size = l.entries.length := by rw [← LeafPage.length_pairs, hpairs]
  simp only [BPlusTree.coalesceOrRedistributeEvents, hfetch, hn, hsib, hsfetch, hpar, hne, hid,
    hindex,
    Option.bind_eq_bind, Option.bind_some, BPlusTreePage.isRootPage, BPlusTreePage.parentPageId,
    BPlusTreePage.pageId, BPlusTreePage.size, BPlusTree.maxSizeOf, hsize, hssize, hmax,
    decide_false, Bool.false_eq_true, if_false, hsid] at hes
  have hredistribute : BPlusTree.redistributeEvents S.id (.leaf sp) l.id (.leaf page) left.length =
      some [touch l.id, fetchPage pid, touch S.id, touch l.id, touch pid, unpinPage pid] := by
    rw [← hpar]
    rfl
  dsimp only
  split at hes
  · next hmerge =>
    rw [if_pos hmerge]
    cases left with
    | nil =>
      have hmerged : BPlusTree.coalesceEvents l.id (.leaf page) S.id (.leaf sp) pid =
          some ([touch S.id, touch l.id, unpinPage S.id, touch S.id] ++
            [deletePage S.id, touch pid]) := by
        rw [← hsid]
        rfl
      simp only [List.length_nil, if_true, hmerged, Option.bind_some] at hes ⊢
      obtain ⟨rest, rfl⟩ := exists_events_of_merge hes
      exact ⟨[deletePage S.id, touch pid] ++ rest, by simp only [List.append_assoc]⟩
    | cons e left =>
      have hmerged : BPlusTree.coalesceEvents S.id (.leaf sp) l.id (.leaf page) pid =
          some ([touch l.id, touch S.id, unpinPage l.id, touch l.id] ++
            [deletePage l.id, touch pid]) := by
        rw [← hid]
        rfl
      simp only [List.length_cons, Nat.add_eq_zero_iff, Nat.one_ne_zero, and_false, if_false,
        hmerged, Option.bind_some] at hes ⊢
      obtain ⟨rest, rfl⟩ := exists_events_of_merge hes
      exact ⟨[deletePage l.id, touch pid] ++ rest, by simp only [List.append_assoc]⟩
  · next hmerge =>
    rw [if_neg hmerge]
    rw [hredistribute] at hes
    exact (Option.some.inj hes).symm

omit [LinearOrder κ] [Inhabited κ] [Inhabited ν] in
/-- A leaf, its sibling and its parent are three pages. -/
theorem sibling_ids_ne {s : PageStore κ ν}
    (hheap : Heap lm im s ((STree.node pid (left ++ (k, .leaf l) :: right)).flat pp ++ Γ))
    (hS : (left.getLast?.or right.head?).map Prod.snd = some (.leaf S)) :
    l.id ≠ pid ∧ S.id ≠ pid ∧ l.id ≠ S.id := by
  obtain ⟨Γ', hthree⟩ : ∃ Γ', Heap lm im s
      ((pid, .node pp (names (left ++ (k, .leaf l) :: right))) ::
        ((STree.leaf l).flat pid ++ ((STree.leaf S).flat pid ++ Γ'))) := by
    rw [STree.flat_node, forest_append, forest_cons] at hheap
    rcases List.eq_nil_or_concat left with rfl | ⟨A, ⟨kL, L⟩, rfl⟩
    · cases right with
      | nil => exact nomatch hS
      | cons e B =>
        obtain ⟨kR, R⟩ := e
        have hR : R = .leaf S := Option.some.inj hS
        rw [hR] at hheap ⊢
        refine ⟨forest pid B ++ Γ, hheap.perm (perm_of_countP fun P => ?_)⟩
        simp only [forest_nil, forest_cons, List.nil_append, List.cons_append, List.countP_append,
          List.countP_cons]
        omega
    · rw [List.concat_eq_append] at *
      have hL : L = .leaf S := by simpa using hS
      rw [hL] at hheap ⊢
      refine ⟨forest pid A ++ (forest pid right ++ Γ), hheap.perm (perm_of_countP fun P => ?_)⟩
      simp only [forest_append, forest_nil, forest_cons, List.append_nil, List.cons_append,
        List.countP_append, List.countP_cons]
      omega
  have hnodup := hthree.nodup
  simp only [STree.flat_leaf, List.map_cons, List.nil_append, List.cons_append, List.nodup_cons,
    List.mem_cons, not_or] at hnodup
  exact ⟨Ne.symm hnodup.1.1, Ne.symm hnodup.1.2.1, hnodup.2.1.1⟩

omit [LinearOrder κ] [Inhabited κ] [Inhabited ν] in
/-- A leaf and its sibling get a record from each other under pins of all pages. -/
theorem block_of_redistribute {lId SId : PageId} (hown : 0 < own lId) :
    Block own (
      [touch lId, fetchPage pid, touch lId, touch pid, fetchPage SId, touch lId, touch SId] ++
      [touch lId, fetchPage pid, touch SId, touch lId, touch pid, unpinPage pid] ++
      [touch SId, unpinPage SId, unpinPage pid]) := by
  have hleaf := addPin_pos hown pid
  have hparent := addPin_self_pos own pid
  have hleaf' := addPin_pos hleaf SId
  have hparent' := addPin_pos hparent SId
  have hsibling := addPin_self_pos (addPin own pid) SId
  have hinner : Block (addPin (addPin own pid) SId)
      (fetchPage pid :: [touch SId, touch lId, touch pid] ++ unpinPage pid :: [touch SId]) :=
    .bracket (.use (addPin_pos hsibling pid) (.use (addPin_pos hleaf' pid)
      (.use (addPin_self_pos _ pid) (.nil _)))) (.use hsibling (.nil _))
  have hmiddle : Block (addPin own pid) (fetchPage SId :: (touch lId :: touch SId :: touch lId ::
      (fetchPage pid :: [touch SId, touch lId, touch pid] ++ unpinPage pid :: [touch SId])) ++
        [unpinPage SId]) :=
    .bracket (.use hleaf' (.use hsibling (.use hleaf' hinner))) (.nil _)
  show Block own (touch lId :: (fetchPage pid :: (touch lId :: touch pid ::
    (fetchPage SId :: (touch lId :: touch SId :: touch lId ::
      (fetchPage pid :: [touch SId, touch lId, touch pid] ++ unpinPage pid :: [touch SId])) ++
        [unpinPage SId])) ++ [unpinPage pid]))
  exact .use hown (.bracket (.use hleaf (.use hparent hmiddle)) (.nil _))

omit [LinearOrder κ] [Inhabited κ] [Inhabited ν] in
/-- `Coalesce` of a leaf goes on with the right page behind its last `UnpinPage`. -/
theorem not_disciplined_of_merge {lId SId : PageId} (hl : lId ≠ pid) (hS : SId ≠ pid)
    (hlS : lId ≠ SId) {first : Prop} [Decidable first] {rest : Events} :
    ¬ Disciplined (addPin (fun _ => 0) lId)
      ([touch lId, fetchPage pid, touch lId, touch pid, fetchPage SId, touch lId, touch SId] ++
        (if first then [touch SId, touch lId, unpinPage SId, touch SId]
        else [touch lId, touch SId, unpinPage lId, touch lId]) ++ rest) := by
  by_cases hfirst : first
  · rw [if_pos hfirst]
    have hpins : pinsAfter (addPin (fun _ => 0) lId)
        [touch lId, fetchPage pid, touch lId, touch pid,
        fetchPage SId, touch lId, touch SId, touch SId, touch lId, unpinPage SId] SId = 0 := by
      simp [pinsAfter, touch, fetchPage, unpinPage, PinEvent.apply, addPin, Function.update_apply,
        hS, hlS.symm]
    exact not_disciplined_of_unpinned hpins rest
  · rw [if_neg hfirst]
    have hpins : pinsAfter (addPin (fun _ => 0) lId)
        [touch lId, fetchPage pid, touch lId, touch pid,
        fetchPage SId, touch lId, touch SId, touch lId, touch SId, unpinPage lId] lId = 0 := by
      simp [pinsAfter, touch, fetchPage, unpinPage, PinEvent.apply, addPin, Function.update_apply,
        hl, hlS]
    exact not_disciplined_of_unpinned hpins rest

variable {page : LeafPage κ ν}

omit [Inhabited κ] [Inhabited ν] in
/-- The sibling that decides whether the leaf is merged. -/
theorem mergesLeaf_eq {size : Nat}
    (hheap : Heap lm im t.bpm ((STree.node pid (left ++ (k, .leaf l) :: right)).flat pp ++ Γ))
    (hS : (left.getLast?.or right.head?).map Prod.snd = some (.leaf S))
    (hfind : t.findLeafPage key = some (some (l.id, page))) (hmax : page.maxSize = lm)
    (hpar : page.parentPageId = pid)
    (hsize : (if (page.lookup key).isSome then page.size - 1 else page.size) = size) :
    t.mergesLeaf key = true ↔ size < lm / 2 ∧ size + S.entries.length < lm := by
  obtain ⟨hne, n, sp, hn, hindex, hsib, hsfetch, _, hssize⟩ := leaf_parent_sibling hheap hS
  by_cases hsmall : size < lm / 2
  · simp only [BPlusTree.mergesLeaf, hfind, hsize, LeafPage.minSize, hmax, hsmall, if_true,
      LeafPage.isRootPage, hpar, hne, hn, hindex, PageStore.fetchLeaf, hsib, hsfetch, hssize,
      decide_false, Bool.false_eq_true, if_false, decide_eq_true_eq, true_and]
  · simp [BPlusTree.mergesLeaf, hfind, hsize, LeafPage.minSize, hmax, hsmall]

omit [LinearOrder κ] [Inhabited κ] [Inhabited ν] in
/-- `AdjustRoot` of a leaf uses the leaf only. -/
theorem coalesceOrRedistributeEvents_root {leafId : PageId} {fuel : Nat}
    (hfetch : t.bpm.fetchPage leafId = some (.leaf page)) (hroot : page.isRootPage = true)
    (hown : 0 < own leafId) (hes : BPlusTree.coalesceOrRedistributeEvents fuel t leafId = some es) :
    Block own es := by
  cases fuel with
  | zero => exact nomatch hes
  | succ fuel =>
    have hroot' : (BPlusTreePage.leaf page : BPlusTreePage κ ν).isRootPage = true := hroot
    simp only [BPlusTree.coalesceOrRedistributeEvents, hfetch, Option.bind_eq_bind,
      Option.bind_some, hroot', if_true] at hes
    obtain ⟨rest, hrest, rfl⟩ := Option.map_eq_some_iff.mp hes
    unfold BPlusTree.adjustRootEvents at hrest
    split at hrest
    · obtain rfl := Option.some.inj hrest
      exact .use hown (.use hown (.nil own))
    · obtain rfl := Option.some.inj hrest
      exact .use hown (.use hown (.drop _ (.nil own)))

section FromLeaf

variable {path above shrunk : Events}

omit [LinearOrder κ] [Inhabited κ] [Inhabited ν] in
/-- `Remove` is right if the part behind `RemoveAndDeleteRecord` is. -/
theorem pinSafe_of_shrunk (hpath : ∀ own, Block own path)
    (habove : Block (addPin (fun _ => 0) leafId) above)
    (hshrunk : Block (addPin (fun _ => 0) leafId) shrunk) :
    PinSafe (path ++ [fetchPage leafId, touch leafId] ++ touch leafId :: above ++
      touch leafId :: shrunk ++ [touch leafId, unpinPage leafId]) := by
  have hleaf := addPin_self_pos (fun _ => 0) leafId
  have huses : Block (addPin (fun _ => 0) leafId)
      ((touch leafId :: above ++ touch leafId :: shrunk) ++ [touch leafId]) :=
    ((Block.use hleaf habove).append (.use hleaf hshrunk)).append (.use hleaf (.nil _))
  have hall := block_of_uses hpath leafId huses
  simp only [List.append_assoc, List.cons_append, List.nil_append] at hall ⊢
  exact .of_block hall

omit [LinearOrder κ] [Inhabited κ] [Inhabited ν] in
/-- `Remove` from a leaf that stays large: down the path, into the leaf, up to the keys of the
parents, and out again. -/
theorem pinSafe_of_large (hpath : ∀ own, Block own path)
    (habove : Block (addPin (fun _ => 0) leafId) above) :
    PinSafe (path ++ [fetchPage leafId, touch leafId] ++ touch leafId :: above ++
      touch leafId :: [touch leafId, unpinPage leafId]) := by
  have hsafe := pinSafe_of_shrunk hpath habove (.nil _)
  rw [List.append_assoc] at hsafe
  exact hsafe

omit [LinearOrder κ] [Inhabited κ] [Inhabited ν] in
/-- A small leaf ends in calls that write to it or delete it after its pin is gone; what follows
cannot make up for it. -/
theorem not_pinSafe_of_shrunk {rest : Events} (hpath : ∀ own, Block own path)
    (habove : Block (addPin (fun _ => 0) leafId) above)
    (hshrunk : ¬ Disciplined (addPin (fun _ => 0) leafId) shrunk) :
    ¬ PinSafe (path ++ [fetchPage leafId, touch leafId] ++ touch leafId :: above ++
      touch leafId :: shrunk ++ rest) := by
  intro hsafe
  have hd := (disciplined_append.mp hsafe.disciplined).1
  rw [disciplined_append, pinsAfter_append, pinsAfter_found hpath] at hd
  have hpins : pinsAfter (addPin (fun _ => 0) leafId) (touch leafId :: above) =
      addPin (fun _ => 0) leafId := habove.neutral _
  rw [hpins] at hd
  exact hshrunk hd.2.2

end FromLeaf

omit [LinearOrder κ] [Inhabited κ] [Inhabited ν] in
/-- A leaf that is not the root has a sibling. -/
theorem exists_sibling (hsized : (Ctx.frame pid left k right up).Sized (limits lm im)) :
    ∃ S : Leaf PageId κ ν, (left.getLast?.or right.head?).map Prod.snd = some (STree.leaf S) := by
  obtain ⟨_, hmin, _⟩ := hsized
  have hupMin : 2 ≤ up.nodeMin (limits lm im) := two_le_nodeMin up
  obtain ⟨e, he⟩ : ∃ e, left.getLast?.or right.head? = some e := by
    rcases List.eq_nil_or_concat left with rfl | ⟨A, e, rfl⟩
    · cases right with
      | nil =>
        rw [List.length_nil] at hmin
        omega
      | cons e B => exact ⟨e, rfl⟩
    · exact ⟨e, by simp⟩
  obtain ⟨S, hS⟩ := e.2.exists_leaf
  exact ⟨S, by rw [he, Option.map_some, hS]⟩

omit [Inhabited κ] [Inhabited ν] in
/-- `Remove` is right exactly if the leaf is not merged. -/
theorem Represents.removeEvents (hr : Represents lm im t T)
    (hes : t.removeEvents key = some es) : PinSafe es ↔ t.mergesLeaf key = false := by
  obtain ⟨c, l, page, rfl, _, hshow, hfind⟩ := hr.findLeafPage key
  obtain ⟨l', hid, _, hshow', _, _, _, hlen⟩ := leaf_remove hr.ordered hshow key
  unfold BPlusTree.removeEvents at hes
  rw [hfind] at hes
  obtain ⟨found, hfound, hes⟩ := Option.bind_eq_some_iff.mp
    (show (t.findLeafPageEvents key).bind _ = some es from hes)
  obtain ⟨_, path, rfl, hpath⟩ := hr.findLeafPageEvents hfind hfound
  obtain ⟨page', hpage'⟩ : ∃ page', page' = page.removeAndDeleteRecord key := ⟨_, rfl⟩
  dsimp only at hes
  rw [← hpage'] at hshow' hes
  have hpid : page'.pageId = l.id := hshow'.1
  have hpar : page'.parentPageId = c.parentId INVALID_PAGE_ID := hshow'.2.2.1
  have hpar₀ : page.parentPageId = c.parentId INVALID_PAGE_ID := hshow.2.2.1
  have hmax : page'.maxSize = lm := hshow'.2.1
  have hsize : page'.size = l'.entries.length := by
    rw [← LeafPage.length_pairs]
    exact congrArg List.length hshow'.2.2.2.2.2
  have hleaf := addPin_self_pos (fun _ : PageId => 0) l.id
  rw [hpid, hsize, LeafPage.minSize, hmax] at hes
  cases c with
  | root =>
    -- the root has no sibling, so nothing is merged
    have hroot : page'.isRootPage = true := by simp [LeafPage.isRootPage, hpar]
    have hroot₀ : page.isRootPage = true := by simp [LeafPage.isRootPage, hpar₀]
    have hmerges : t.mergesLeaf key = false := by simp [BPlusTree.mergesLeaf, hfind, hroot₀]
    refine iff_of_true ?_ hmerges
    simp only [hroot, if_true, Option.bind_eq_bind, Option.bind_some] at hes
    split at hes
    · obtain ⟨shrunk, hshrunk, heq⟩ := Option.bind_eq_some_iff.mp hes
      obtain rfl := Option.some.inj heq
      have hfetch : (t.setPage l.id (.leaf page')).bpm.fetchPage l.id = some (.leaf page') :=
        PageStore.fetchPage_setPage_self (hr.heap.live (by simp [Ctx.plug, STree.flat])) _
      exact pinSafe_of_shrunk hpath (.nil _)
        (coalesceOrRedistributeEvents_root hfetch hroot hleaf hshrunk)
    · obtain rfl := Option.some.inj hes
      exact pinSafe_of_large hpath (.nil _)
  | frame pid left k right up =>
    have hheap := hr.heap.setLeaf (g := page') hid hshow'
    have hne : pid ≠ INVALID_PAGE_ID := hheap.ne_invalid (by simp [Ctx.flat])
    have hroot : page'.isRootPage = false := by simpa [LeafPage.isRootPage, hpar] using hne
    have hkey : page'.keyAt 0 = l'.first := hshow'.2.2.2.2.1
    obtain ⟨t₁, hup, _, hheap₁⟩ := updateParentKeys_spec
      (t := t.setPage l.id (.leaf page')) hheap hpar hkey
    obtain ⟨S, hS⟩ := exists_sibling ((Ctx.sized_plug _ _).mp hr.sized).1
    have hmerges :=
      mergesLeaf_eq (Heap.open_hole (c := up) hr.heap) hS hfind hshow.2.1 hpar₀ hlen.symm
    rw [hid] at hup
    simp only [hroot, Bool.false_eq_true, if_false, hup, Option.bind_eq_bind,
      Option.bind_some] at hes
    obtain ⟨above, habove, hes⟩ := Option.bind_eq_some_iff.mp hes
    have hblock : Block (addPin (fun _ => 0) l.id) above :=
      updateParentKeysEvents_block (t := t.setPage l.id (.leaf page')) hheap hpar
        (by rw [hid]; exact hleaf) (by rw [hid]; exact habove)
    split at hes
    · next hsmall =>
      obtain ⟨shrunk, hshrunk, heq⟩ := Option.bind_eq_some_iff.mp hes
      obtain rfl := Option.some.inj heq
      rw [refresh_frame] at hheap₁
      have hheap₂ := hheap₁.hole_up
      cases hfuel : t₁.fuel with
      | zero =>
        rw [hfuel] at hshrunk
        cases hshrunk
      | succ fuel =>
        rw [hfuel, ← hid] at hshrunk
        have hunder := coalesceOrRedistributeEvents_leaf hheap₂ hS hshrunk
        dsimp only at hunder
        rw [hid] at hunder
        by_cases hmerge : l'.entries.length + S.entries.length < lm
        · -- merged: a page is used after its pin was returned
          rw [if_pos hmerge] at hunder
          obtain ⟨rest, rfl⟩ := hunder
          obtain ⟨hl, hS, hlS⟩ := sibling_ids_ne hheap₂ hS
          rw [hid] at hl hlS
          refine iff_of_false (not_pinSafe_of_shrunk hpath hblock
            (not_disciplined_of_merge hl hS hlS)) ?_
          rw [hmerges.mpr ⟨hsmall, hmerge⟩]
          decide
        · -- borrowed: each pin is returned once, after the last use
          rw [if_neg hmerge] at hunder
          obtain rfl := hunder
          refine iff_of_true (pinSafe_of_shrunk hpath hblock (block_of_redistribute hleaf)) ?_
          rw [← Bool.not_eq_true, hmerges]
          exact fun h => hmerge h.2
    · next hlarge =>
      obtain rfl := Option.some.inj hes
      refine iff_of_true (pinSafe_of_large hpath hblock) ?_
      rw [← Bool.not_eq_true, hmerges]
      exact fun h => hlarge h.1

end Remove

/-! ### The index -/

/-- When a call of the index, or an iteration, is right about the pins. -/
def Pinned (t : BPlusTree κ ν) (m : κ → Option ν) : IndexUse κ ν → Prop
  | .getValue _ => True
  | .insert key _ => t.isEmpty = true ∨ m key ≠ none
  | .remove key => t.mergesLeaf key = false
  | .iterate _ => t.isEmpty = true
  | .iterateFrom _ _ => t.isEmpty = true

omit [Inhabited κ] [Inhabited ν] in
/-- In an empty tree there is no leaf to find. -/
theorem findLeafPage_of_isEmpty (hempty : t.isEmpty = true) (key : κ) :
    t.findLeafPage key = some none := if_pos hempty

/-- An empty index. -/
theorem pinSafe_of_isEmpty (hempty : t.isEmpty = true) {m : κ → Option ν} {use : IndexUse κ ν}
    (hes : t.events use = some es) : PinSafe es ∧ Pinned t m use := by
  have hnil : PinSafe [] := .of_block (.nil _)
  have hnone := findLeafPage_of_isEmpty hempty
  cases use with
  | getValue key =>
    have hes : t.getValueEvents key = some es := hes
    simp only [BPlusTree.getValueEvents, hnone, Option.bind_eq_bind, Option.bind_some] at hes
    obtain rfl := Option.some.inj hes
    exact ⟨hnil, trivial⟩
  | insert key value =>
    have hes : t.insertEvents key value = some es := hes
    rw [BPlusTree.insertEvents, if_pos hempty] at hes
    obtain rfl := Option.some.inj hes
    exact ⟨pinSafe_startNewTree t, .inl hempty⟩
  | remove key =>
    have hes : t.removeEvents key = some es := hes
    simp only [BPlusTree.removeEvents, hnone, Option.bind_eq_bind, Option.bind_some] at hes
    obtain rfl := Option.some.inj hes
    refine ⟨hnil, ?_⟩
    show t.mergesLeaf key = false
    simp only [BPlusTree.mergesLeaf, hnone]
  | iterate steps =>
    have hes : t.iterateEvents steps = some es := hes
    have hleft : t.findLeftMostLeafPage = some none := if_pos hempty
    simp only [BPlusTree.iterateEvents, hleft, Option.bind_eq_bind, Option.bind_some] at hes
    obtain rfl := IndexIterator.advanceEvents_end hes
    exact ⟨hnil, hempty⟩
  | iterateFrom key steps =>
    have hes : t.iterateFromEvents key steps = some es := hes
    simp only [BPlusTree.iterateFromEvents, hnone, Option.bind_eq_bind, Option.bind_some] at hes
    obtain rfl := IndexIterator.advanceEvents_end hes
    exact ⟨hnil, hempty⟩

/-- A tree with the records of `m`. -/
theorem Represents.pinSafe_iff (hr : Represents lm im t T) {m : κ → Option ν}
    (hm : ∀ k v, (k, v) ∈ T.2.pairs ↔ m k = some v) {use : IndexUse κ ν}
    (hes : t.events use = some es) : PinSafe es ↔ Pinned t m use := by
  have hnot : t.isEmpty ≠ true := by
    rw [hr.not_isEmpty]
    exact Bool.false_ne_true
  cases use with
  | getValue key => exact iff_of_true (hr.getValueEvents hes) trivial
  | insert key value =>
    have hstored : (∃ v, t.getValue key = some (some v)) ↔ m key ≠ none := by
      obtain ⟨r, hget, hr⟩ := hr.getValue key
      rw [hget, Option.ne_none_iff_exists']
      refine exists_congr (fun v => ?_)
      rw [← hm, ← hr, Option.some_inj]
    exact (hr.insertEvents hes).trans (hstored.trans ⟨.inr, fun h => h.resolve_left hnot⟩)
  | remove key => exact hr.removeEvents hes
  | iterate steps => exact iff_of_false (hr.iterateEvents hes) hnot
  | iterateFrom key steps => exact iff_of_false (hr.iterateFromEvents hes) hnot

/-- A call of an index leaves the pins of all pages and uses pages under its own pins only, exactly
if it is `GetValue`, the `Insert` of a stored key, a `Remove` that merges no leaf, or a call on an
empty index. -/
theorem index_pins_iff {m : κ → Option ν} (h : Indexed lm im t m) (use : IndexUse κ ν)
    (hes : t.events use = some es) : PinSafe es ↔ Pinned t m use := by
  rcases h with ⟨_, _, hroot, _⟩ | ⟨T, hr, hm⟩
  · obtain ⟨hsafe, hpinned⟩ := pinSafe_of_isEmpty (by simp [BPlusTree.isEmpty, hroot]) hes
    exact iff_of_true hsafe hpinned
  · exact hr.pinSafe_iff hm hes

/-- Leaves of up to two records. The key 3 goes without a merge, and the key 4 is new. -/
theorem index_pins_iff_three_keys : ∃ t es es', (BPlusTree.new 2 3 : BPlusTree Nat Nat).run
      [.insert 1 10, .insert 2 20, .insert 3 30] = some t ∧ t.events (.remove 3) = some es ∧
    PinSafe es ∧ t.events (.insert 4 40) = some es' ∧ ¬ PinSafe es' := by
  obtain ⟨t, hrun, h⟩ : ∃ t, (BPlusTree.new 2 3 : BPlusTree Nat Nat).run
      [.insert 1 10, .insert 2 20, .insert 3 30] = some t ∧
        Indexed 2 3 t (mapAfter [.insert 1 10, .insert 2 20, .insert 3 30]) :=
    run_indexed (by decide) (by decide) rfl (by decide)
  obtain rfl := Option.some.inj hrun
  refine ⟨_, _, _, hrun, rfl, (index_pins_iff h (.remove 3) rfl).mpr ?_, rfl, ?_⟩
  · show BPlusTree.mergesLeaf _ 3 = false
    decide +kernel
  · rw [index_pins_iff h (.insert 4 40) rfl]
    show ¬ (_ ∨ _)
    decide +kernel

/-- A tree of one record. `Begin()` and the destructor leave a pin. -/
theorem begin_leaves_pin : ∃ t es,
    (BPlusTree.new 2 3 : BPlusTree Nat Nat).run [.insert 1 10] = some t ∧
    t.events (.iterate 0) = some es ∧ pinsAfter (fun _ => 0) es 0 = 1 ∧ ¬ PinSafe es := by
  refine ⟨_, _, rfl, rfl, by decide, ?_⟩
  intro hsafe
  have hpins := congrFun (hsafe.neutral (fun _ => 0)) 0
  exact absurd hpins (by decide)

end DisMiniSql.MiniSql
