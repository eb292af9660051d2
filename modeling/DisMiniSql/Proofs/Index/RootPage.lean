import DisMiniSql.MiniSql.Index.RootPage
import DisMiniSql.Proofs.Index.Runs

/-!
# `DisMiniSql.Proofs.Index.RootPage`: when the page of the roots has the root of the index

`SameRoot` says that a part of a call leaves `root_page_id_` and the page of the roots alone. It
holds of everything but `StartNewTree`, the new root of `InsertIntoParent` and `AdjustRoot`. The
first two write the new id into the page of the roots, where `Insert` needs that the index has no
entry and `Update` that it has one.

`root_persisted`: as long as no `Remove` comes to the part of `AdjustRoot` that replaces the root,
the entry of the index is its root, and an index that is opened from the pages is the same.
-/

set_option autoImplicit false

namespace DisMiniSql.MiniSql

variable {κ ν : Type}

/-! ### The page of the roots -/

namespace IndexRootsPage

variable {r : IndexRootsPage} {indexId : IndexId}

/-- Overwriting the found place with an entry that passes the test leaves it the first. -/
theorem findIdx?_set {α : Type} {p : α → Bool} {a : α} (ha : p a = true) (l : List α) {i : Nat}
    (h : l.findIdx? p = some i) : (l.set i a).findIdx? p = some i := by
  induction l generalizing i with
  | nil => exact nomatch h
  | cons b l ih =>
    rw [List.findIdx?_cons] at h
    by_cases hb : p b = true
    · obtain rfl : 0 = i := by simpa [hb] using h
      simp [List.findIdx?_cons, ha]
    · rw [if_neg hb, Option.map_eq_some_iff] at h
      obtain ⟨j, hj, rfl⟩ := h
      rw [List.set_cons_succ, List.findIdx?_cons, if_neg hb, ih hj, Option.map_some]

/-- An index without an entry gets one. -/
theorem getRootId_insert (h : r.getRootId indexId = none) (rootId : PageId) :
    (r.insert indexId rootId).2.getRootId indexId = some rootId := by
  have hnone : r.findIndex indexId = none := by
    cases hfind : r.findIndex indexId with
    | none => rfl
    | some i =>
      obtain ⟨hi, -⟩ := List.findIdx?_eq_some_iff_getElem.mp hfind
      simp [getRootId, hfind, hi] at h
  have hlast : (r.roots ++ [(indexId, rootId)]).findIdx? (fun e => e.1 = indexId) =
      some r.roots.length := by
    rw [List.findIdx?_append, show r.roots.findIdx? (fun e => e.1 = indexId) = none from hnone]
    simp
  rw [show (r.insert indexId rootId).2 = ⟨r.roots ++ [(indexId, rootId)]⟩ by simp [insert, hnone]]
  simp [getRootId, findIndex, hlast]

/-- The entry of an index is changed. -/
theorem getRootId_update {oldId : PageId} (h : r.getRootId indexId = some oldId) (rootId : PageId) :
    (r.update indexId rootId).2.getRootId indexId = some rootId := by
  cases hfind : r.findIndex indexId with
  | none => simp [getRootId, hfind] at h
  | some i =>
    obtain ⟨hi, -⟩ := List.findIdx?_eq_some_iff_getElem.mp hfind
    have hset := findIdx?_set (a := (indexId, rootId)) (by simp) r.roots hfind
    rw [show (r.update indexId rootId).2 = ⟨r.roots.set i (indexId, rootId)⟩
      by simp [update, hfind]]
    simp [getRootId, findIndex, hset, hi]

end IndexRootsPage

/-! ### What leaves the root alone -/

/-- The root page id and the page of the roots are the same. -/
structure SameRoot (t t' : BPlusTree κ ν) : Prop where
  rootPageId : t'.rootPageId = t.rootPageId
  indexId : t'.indexId = t.indexId
  indexRoots : t'.indexRoots = t.indexRoots

namespace SameRoot

variable {t t' t₁ : BPlusTree κ ν}

theorem refl (t : BPlusTree κ ν) : SameRoot t t := ⟨rfl, rfl, rfl⟩

/-- Two steps that change no root. -/
theorem trans (h : SameRoot t t₁) (h' : SameRoot t₁ t') : SameRoot t t' :=
  ⟨h'.rootPageId.trans h.rootPageId, h'.indexId.trans h.indexId, h'.indexRoots.trans h.indexRoots⟩

/-- Of the steps of a removal only `AdjustRoot` changes the root: `Redistribute` does not. -/
theorem redistribute {neighborId nodeId : PageId} {neighbor node : BPlusTreePage κ ν} {index : Nat}
    (h : t.redistribute neighborId neighbor nodeId node index = some t') : SameRoot t t' := by
  cases neighbor with
  | leaf neighbor =>
    cases node with
    | leaf node =>
      obtain ⟨parent, -, h⟩ := Option.bind_eq_some_iff.mp h
      split at h <;> exact Option.some.inj h ▸ ⟨rfl, rfl, rfl⟩
    | internal node => exact nomatch h
  | internal neighbor =>
    cases node with
    | leaf node => exact nomatch h
    | internal node =>
      obtain ⟨parent, -, h⟩ := Option.bind_eq_some_iff.mp h
      split at h <;> exact Option.some.inj h ▸ ⟨rfl, rfl, rfl⟩

/-- `Coalesce` does not. -/
theorem coalesce {neighborId nodeId parentId : PageId} {neighbor node : BPlusTreePage κ ν}
    {parent parent' : InternalPage κ} {index : Nat}
    (h : t.coalesce neighborId neighbor nodeId node parentId parent index = some (parent', t')) :
    SameRoot t t' := by
  cases neighbor with
  | leaf neighbor =>
    cases node with
    | leaf node =>
      obtain ⟨-, rfl⟩ := Prod.mk.inj (Option.some.inj h)
      exact ⟨rfl, rfl, rfl⟩
    | internal node => exact nomatch h
  | internal neighbor =>
    cases node with
    | leaf node => exact nomatch h
    | internal node =>
      obtain ⟨-, rfl⟩ := Prod.mk.inj (Option.some.inj h)
      exact ⟨rfl, rfl, rfl⟩

/-- Repairing an inner page does not. -/
theorem shrink {nodeId : PageId} {node : BPlusTreePage κ ν} {up : Option PageId}
    (h : t.shrink nodeId node = some (up, t')) : SameRoot t t' := by
  obtain ⟨parent, -, h⟩ := Option.bind_eq_some_iff.mp h
  obtain ⟨index, -, h⟩ := Option.bind_eq_some_iff.mp h
  obtain ⟨sibling, -, h⟩ := Option.bind_eq_some_iff.mp h
  split at h
  · obtain ⟨parent', t₁, hsame, h⟩ : ∃ parent' t₁, SameRoot t t₁ ∧
        (if InternalPage.size parent' < parent'.minSize then some (some node.parentPageId, t₁)
          else some (none, t₁)) = some (up, t') := by
      dsimp only at h
      split at h
      · obtain ⟨⟨parent', t₁⟩, hcoalesce, h⟩ := Option.bind_eq_some_iff.mp h
        exact ⟨parent', t₁, coalesce hcoalesce, h⟩
      · obtain ⟨⟨parent', t₁⟩, hcoalesce, h⟩ := Option.bind_eq_some_iff.mp h
        exact ⟨parent', t₁, coalesce hcoalesce, h⟩
    split at h
    · obtain ⟨-, rfl⟩ := Prod.mk.inj (Option.some.inj h)
      exact hsame
    · obtain ⟨-, rfl⟩ := Prod.mk.inj (Option.some.inj h)
      exact hsame
  · obtain ⟨t₁, hredistribute, heq⟩ := Option.map_eq_some_iff.mp h
    obtain ⟨-, rfl⟩ := Prod.mk.inj heq
    exact redistribute hredistribute

/-- Refreshing the keys of the parents does not. -/
theorem updateParentKeys {leafId : PageId} {leaf : LeafPage κ ν}
    (h : t.updateParentKeys leafId leaf = some t') : SameRoot t t' := by
  obtain ⟨parent, -, h⟩ := Option.bind_eq_some_iff.mp h
  split at h
  · exact Option.some.inj h ▸ refl t
  · dsimp only at h
    split at h
    · obtain ⟨grandParent, -, h⟩ := Option.bind_eq_some_iff.mp h
      split at h <;> exact Option.some.inj h ▸ ⟨rfl, rfl, rfl⟩
    · exact Option.some.inj h ▸ ⟨rfl, rfl, rfl⟩

/-- And `AdjustRoot` does not while the root has two entries or more. -/
theorem adjustRoot {rootId : PageId} {node : BPlusTreePage κ ν} (hsize : ¬ node.size ≤ 1)
    (h : t.adjustRoot rootId node = some t') : SameRoot t t' := by
  unfold BPlusTree.adjustRoot at h
  rw [if_pos (Nat.lt_of_not_le hsize)] at h
  exact Option.some.inj h ▸ refl t

end SameRoot

/-- `CoalesceOrRedistribute` is `AdjustRoot`, or one level of `shrink` and the call for the parent.
-/
theorem coalesceOrRedistribute_succ (fuel : Nat) (t : BPlusTree κ ν) (nodeId : PageId) :
    BPlusTree.coalesceOrRedistribute (fuel + 1) t nodeId =
      (t.bpm.fetchPage nodeId).bind fun node =>
        if node.isRootPage then t.adjustRoot nodeId node
        else (t.shrink nodeId node).bind fun r =>
          r.1.elim (some r.2) (BPlusTree.coalesceOrRedistribute fuel r.2) := by
  rw [BPlusTree.coalesceOrRedistribute]
  refine Option.bind_congr fun node _ => ?_
  split
  · rfl
  · simp only [BPlusTree.shrink, Option.bind_eq_bind, Option.bind_assoc]
    refine Option.bind_congr fun parent _ => ?_
    refine Option.bind_congr fun index _ => ?_
    refine Option.bind_congr fun sibling _ => ?_
    have hend : ∀ r : InternalPage κ × BPlusTree κ ν,
        (if r.1.size < r.1.minSize then
            BPlusTree.coalesceOrRedistribute fuel r.2 node.parentPageId
          else some r.2) =
          (if r.1.size < r.1.minSize then some (some node.parentPageId, r.2)
            else some (none, r.2)).bind fun r =>
              r.1.elim (some r.2) (BPlusTree.coalesceOrRedistribute fuel r.2) := by
      intro r
      split <;> rfl
    by_cases hmerge : node.size + sibling.size < BPlusTree.maxSizeOf node
    · rw [if_pos hmerge, if_pos hmerge]
      split
      · rw [Option.bind_assoc]
        exact Option.bind_congr fun r _ => hend r
      · rw [Option.bind_assoc]
        exact Option.bind_congr fun r _ => hend r
    · rw [if_neg hmerge, if_neg hmerge, Option.bind_map]
      exact (Option.bind_fun_some _).symm

/-- Without the part of `AdjustRoot` that replaces the root, `CoalesceOrRedistribute` leaves it. -/
theorem SameRoot.coalesceOrRedistribute (fuel : Nat) {t t' : BPlusTree κ ν} {nodeId : PageId}
    (hkeeps : BPlusTree.climbDropsRoot fuel t nodeId = false)
    (h : BPlusTree.coalesceOrRedistribute fuel t nodeId = some t') : SameRoot t t' := by
  induction fuel generalizing t nodeId with
  | zero => exact nomatch h
  | succ fuel ih =>
    rw [coalesceOrRedistribute_succ] at h
    obtain ⟨node, hfetch, h⟩ := Option.bind_eq_some_iff.mp h
    simp only [BPlusTree.climbDropsRoot, hfetch] at hkeeps
    by_cases hroot : node.isRootPage = true
    · rw [if_pos hroot] at h hkeeps
      exact adjustRoot (of_decide_eq_false hkeeps) h
    · rw [if_neg hroot] at h hkeeps
      obtain ⟨⟨up, t₁⟩, hshrink, h⟩ := Option.bind_eq_some_iff.mp h
      rw [hshrink] at hkeeps
      cases up with
      | none =>
        obtain rfl : t₁ = t' := Option.some.inj h
        exact shrink hshrink
      | some parentId => exact (shrink hshrink).trans (ih hkeeps h)

/-- The same for `Remove`. -/
theorem SameRoot.remove [LinearOrder κ] {t t' : BPlusTree κ ν} {key : κ}
    (hkeeps : t.dropsRoot key = false) (h : t.remove key = some t') : SameRoot t t' := by
  by_cases hempty : t.isEmpty = true
  · rw [BPlusTree.remove, if_pos hempty] at h
    exact Option.some.inj h ▸ refl t
  · cases hfind : t.findLeafPage key with
    | none => simp [BPlusTree.remove, hempty, hfind] at h
    | some found =>
      cases found with
      | none =>
        obtain rfl : t = t' := by simpa [BPlusTree.remove, hempty, hfind] using h
        exact refl t
      | some found =>
        obtain ⟨leafId, leaf⟩ := found
        rw [remove_eq (Bool.eq_false_iff.mpr hempty) hfind] at h
        simp only [BPlusTree.dropsRoot, hfind] at hkeeps
        obtain ⟨t₁, hkeys, h⟩ := Option.bind_eq_some_iff.mp h
        rw [hkeys] at hkeeps
        have hsame : SameRoot t t₁ := by
          split at hkeys
          · exact Option.some.inj hkeys ▸ ⟨rfl, rfl, rfl⟩
          · have hset : SameRoot t (t.setPage leafId (.leaf (leaf.removeAndDeleteRecord key))) :=
              ⟨rfl, rfl, rfl⟩
            exact hset.trans (updateParentKeys hkeys)
        split at h
        · next hsmall =>
          refine hsame.trans (coalesceOrRedistribute _ ?_ h)
          simpa [hsmall] using hkeeps
        · exact Option.some.inj h ▸ hsame

/-! ### Insertions -/

/-- The index has a root, and it is the entry of the index. -/
def Entered (t : BPlusTree κ ν) : Prop :=
  t.rootPageId ≠ INVALID_PAGE_ID ∧ t.indexRoots.getRootId t.indexId = some t.rootPageId

/-- What does not change the root keeps it entered on the roots page. -/
theorem Entered.of_sameRoot {t t' : BPlusTree κ ν} (h : Entered t) (hsame : SameRoot t t') :
    Entered t' := by
  unfold Entered
  rw [hsame.rootPageId, hsame.indexId, hsame.indexRoots]
  exact h

/-- The id of a new page. -/
theorem newPage_ne_invalid (s : PageStore κ ν) : s.newPage.1 ≠ INVALID_PAGE_ID := by
  intro heq
  have hnonneg := s.newPage_fst_nonneg
  rw [heq] at hnonneg
  exact absurd hnonneg (by decide)

/-- `StartNewTree` makes an entry for an index that has none. -/
theorem startNewTree_entered [LinearOrder κ] [Inhabited κ] [Inhabited ν] {t : BPlusTree κ ν}
    (habsent : t.indexRoots.getRootId t.indexId = none) (key : κ) (v : ν) :
    Entered (t.startNewTree key v) :=
  ⟨newPage_ne_invalid t.bpm, IndexRootsPage.getRootId_insert habsent t.bpm.newPage.1⟩

/-- A new root goes into the entry. -/
theorem Entered.insertIntoNewRoot [Inhabited κ] {t : BPlusTree κ ν} (h : Entered t)
    (oldId newId : PageId) (old new : BPlusTreePage κ ν) (key : κ) :
    Entered (t.insertIntoNewRoot oldId old key newId new) :=
  ⟨newPage_ne_invalid t.bpm, IndexRootsPage.getRootId_update h.2 t.bpm.newPage.1⟩

/-- A root split enters the new root, at whatever height it happens; by induction on the fuel. -/
theorem Entered.insertIntoParent [Inhabited κ] (fuel : Nat) {t t' : BPlusTree κ ν} (h : Entered t)
    {oldId newId : PageId} {key : κ}
    (hinsert : BPlusTree.insertIntoParent fuel t oldId key newId = some t') : Entered t' := by
  induction fuel generalizing t oldId newId key with
  | zero => exact nomatch hinsert
  | succ fuel ih =>
    obtain ⟨old, -, hinsert⟩ := Option.bind_eq_some_iff.mp hinsert
    obtain ⟨new, -, hinsert⟩ := Option.bind_eq_some_iff.mp hinsert
    dsimp only at hinsert
    split at hinsert
    · exact Option.some.inj hinsert ▸ h.insertIntoNewRoot oldId newId old new key
    · obtain ⟨parent, -, hinsert⟩ := Option.bind_eq_some_iff.mp hinsert
      split at hinsert
      · refine ih (t := (BPlusTree.splitInternal _ _ _).2) ?_ hinsert
        exact h.of_sameRoot ⟨rfl, rfl, rfl⟩
      · exact Option.some.inj hinsert ▸ h.of_sameRoot ⟨rfl, rfl, rfl⟩

/-- An insert keeps the root entered: no leaf, a key that is there, room, or a split. -/
theorem Entered.insertIntoLeaf [LinearOrder κ] [Inhabited κ] [Inhabited ν] {t t' : BPlusTree κ ν}
    (h : Entered t) {key : κ} {v : ν} {ok : Bool}
    (hinsert : t.insertIntoLeaf key v = some (ok, t')) : Entered t' := by
  obtain ⟨found, hfind, hinsert⟩ := Option.bind_eq_some_iff.mp hinsert
  cases found with
  | none =>
    obtain ⟨-, rfl⟩ := Prod.mk.inj (Option.some.inj hinsert)
    exact h
  | some found =>
    obtain ⟨leafId, leaf⟩ := found
    dsimp only at hinsert
    split at hinsert
    · obtain ⟨-, rfl⟩ := Prod.mk.inj (Option.some.inj hinsert)
      exact h
    · split at hinsert
      · obtain ⟨t₁, hparent, hinsert⟩ := Option.bind_eq_some_iff.mp hinsert
        obtain ⟨-, rfl⟩ := Prod.mk.inj (Option.some.inj hinsert)
        have hsplit : Entered (BPlusTree.splitLeaf (t.setPage leafId (.leaf (leaf.insert key v)))
            leafId (leaf.insert key v)).2 := h.of_sameRoot ⟨rfl, rfl, rfl⟩
        exact hsplit.insertIntoParent _ hparent
      · obtain ⟨-, rfl⟩ := Prod.mk.inj (Option.some.inj hinsert)
        exact h.of_sameRoot ⟨rfl, rfl, rfl⟩

/-! ### Runs -/

/-- The index is empty and has no entry, or its root is its entry. -/
def Rooted (t : BPlusTree κ ν) : Prop :=
  (t.rootPageId = INVALID_PAGE_ID ∧ t.indexRoots.getRootId t.indexId = none) ∨ Entered t

/-- The entry of the index is its root. It is absent, or the invalid id, when the index is empty. -/
def RootPersisted (t : BPlusTree κ ν) : Prop :=
  (t.indexRoots.getRootId t.indexId).getD INVALID_PAGE_ID = t.rootPageId

/-- The root of a rooted tree is what the roots page says. -/
theorem Rooted.rootPersisted {t : BPlusTree κ ν} (h : Rooted t) : RootPersisted t := by
  unfold RootPersisted
  rcases h with ⟨hroot, habsent⟩ | ⟨-, hentry⟩
  · rw [habsent, hroot, Option.getD_none]
  · rw [hentry, Option.getD_some]

/-- An index that is opened from the pages is the same. -/
theorem RootPersisted.reopen {t : BPlusTree κ ν} (h : RootPersisted t) : t.reopen = t := by
  unfold BPlusTree.reopen
  rw [show (t.indexRoots.getRootId t.indexId).getD INVALID_PAGE_ID = t.rootPageId from h]

variable [LinearOrder κ] [Inhabited κ] [Inhabited ν]

/-- The call does not come to the part of `AdjustRoot` that replaces the root. -/
def BPlusTree.keepsRoot (t : BPlusTree κ ν) : IndexOp κ ν → Bool
  | .remove key => !t.dropsRoot key
  | _ => true

/-- No call of the run comes to it. -/
def BPlusTree.keepsRootRun (t : BPlusTree κ ν) : List (IndexOp κ ν) → Bool
  | [] => true
  | op :: ops => t.keepsRoot op && (t.step op).all (keepsRootRun · ops)

/-- One call. -/
theorem Rooted.step {t t' : BPlusTree κ ν} (h : Rooted t) {op : IndexOp κ ν}
    (hkeeps : t.keepsRoot op = true) (hstep : t.step op = some t') : Rooted t' := by
  cases op with
  | insert key v =>
    obtain ⟨⟨ok, t₁⟩, hinsert, rfl⟩ := Option.map_eq_some_iff.mp hstep
    unfold BPlusTree.insert at hinsert
    by_cases hempty : t.isEmpty = true
    · rw [if_pos hempty] at hinsert
      obtain ⟨-, rfl⟩ := Prod.mk.inj (Option.some.inj hinsert)
      rcases h with ⟨-, habsent⟩ | ⟨hne, -⟩
      · exact Or.inr (startNewTree_entered habsent key v)
      · exact absurd (of_decide_eq_true hempty) hne
    · rw [if_neg hempty] at hinsert
      rcases h with ⟨hroot, -⟩ | hentered
      · exact absurd (decide_eq_true hroot) hempty
      · exact Or.inr (hentered.insertIntoLeaf hinsert)
  | remove key =>
    have hsame : SameRoot t t' := .remove (Bool.not_eq_eq_eq_not.mp hkeeps) hstep
    rcases h with ⟨hroot, habsent⟩ | hentered
    · refine Or.inl ⟨hsame.rootPageId.trans hroot, ?_⟩
      rw [hsame.indexRoots, hsame.indexId]
      exact habsent
    · exact Or.inr (hentered.of_sameRoot hsame)
  | getValue key =>
    obtain ⟨found, -, rfl⟩ := Option.map_eq_some_iff.mp hstep
    exact h

/-- All calls of a run. -/
theorem Rooted.run {t t' : BPlusTree κ ν} (h : Rooted t) {ops : List (IndexOp κ ν)}
    (hkeeps : t.keepsRootRun ops = true) (n : Nat) (hrun : t.run (ops.take n) = some t') :
    Rooted t' := by
  induction ops generalizing t n with
  | nil =>
    rw [List.take_nil] at hrun
    exact Option.some.inj hrun ▸ h
  | cons op ops ih =>
    cases n with
    | zero => exact Option.some.inj hrun ▸ h
    | succ n =>
      obtain ⟨t₁, hstep, hrun⟩ := Option.bind_eq_some_iff.mp hrun
      rw [BPlusTree.keepsRootRun, Bool.and_eq_true, hstep] at hkeeps
      exact ih (h.step hkeeps.1 hstep) hkeeps.2 n hrun

/-- In every run of calls on an index without an entry in which no `Remove` replaces the root, the
entry of the index is its root after every call, and an index that is opened from the pages is the
same. -/
theorem root_persisted (t₀ : BPlusTree κ ν) (hempty : t₀.rootPageId = INVALID_PAGE_ID)
    (habsent : t₀.indexRoots.getRootId t₀.indexId = none) (ops : List (IndexOp κ ν))
    (hkeeps : t₀.keepsRootRun ops = true) (n : Nat) (t : BPlusTree κ ν)
    (hrun : t₀.run (ops.take n) = some t) :
    RootPersisted t ∧ t.reopen = t ∧ ∀ key, t.reopen.getValue key = t.getValue key := by
  have hstart : Rooted t₀ := Or.inl ⟨hempty, habsent⟩
  have hpersisted := (hstart.run hkeeps n hrun).rootPersisted
  exact ⟨hpersisted, hpersisted.reopen, fun key => by rw [hpersisted.reopen]⟩

/-- A split, a new root, and a `Remove` that leaves it. -/
theorem root_persisted_three :
    ∃ t, (BPlusTree.new 2 3 : BPlusTree Nat Nat).run
        [.insert 1 10, .insert 2 20, .insert 3 30, .remove 2] = some t ∧ t.reopen = t :=
  ⟨_, rfl, (root_persisted (BPlusTree.new 2 3 : BPlusTree Nat Nat) rfl rfl
    [.insert 1 10, .insert 2 20, .insert 3 30, .remove 2] (by decide +kernel) 4 _ rfl).2.1⟩

/-- The last record is removed, and the entry still has the root that is gone. An index that is
opened from the pages goes to that page. -/
theorem entry_of_deleted_root :
    ∃ t, (BPlusTree.new 2 3 : BPlusTree Nat Nat).run [.insert 1 10, .remove 1] = some t ∧
      t.rootPageId = INVALID_PAGE_ID ∧ t.indexRoots.getRootId t.indexId = some 0 ∧
      ¬ RootPersisted t ∧ t.getValue 1 = some none ∧ t.reopen.getValue 1 = none :=
  ⟨_, rfl, by decide +kernel, by decide +kernel, by unfold RootPersisted; decide +kernel,
    by decide +kernel, by decide +kernel⟩

end DisMiniSql.MiniSql
