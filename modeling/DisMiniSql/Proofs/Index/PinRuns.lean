import DisMiniSql.Proofs.Buffer.PinCount
import DisMiniSql.Proofs.Index.PinEvents

/-!
# `DisMiniSql.Proofs.Index.PinRuns`: the calls of the index, made of the buffer pool

* `exists_events`: where a call of the index has a result, its list of calls of the buffer pool is
  there.
* `Indexed.pool_pins`: a pool that answers the calls of a call that is right about the pins has the
  pin counts afterwards that it had before.
-/

set_option autoImplicit false

namespace DisMiniSql.MiniSql

open DisMiniSql.Lib

variable {κ ν : Type} {lm im : Nat} {t t' : BPlusTree κ ν}

/-! ### Methods that return -/

/-- The calls of a search are known whenever the search succeeds, by induction on its fuel. The
lemmas that follow say the same of every other function of the tree. -/
theorem exists_findLeafEvents {s : PageStore κ ν} {child : InternalPage κ → PageId} {fuel : Nat}
    {p : PageId} {r : PageId × LeafPage κ ν}
    (h : BPlusTree.findLeafLoop s child fuel p = some r) :
    ∃ es, BPlusTree.findLeafEvents s child fuel p = some es := by
  induction fuel generalizing p with
  | zero => cases h
  | succ fuel ih =>
    unfold BPlusTree.findLeafLoop at h
    unfold BPlusTree.findLeafEvents
    cases hfetch : s.fetchPage p with
    | none =>
      rw [hfetch] at h
      cases h
    | some page =>
      rw [hfetch] at h
      cases page with
      | leaf page => exact ⟨_, rfl⟩
      | internal node =>
        obtain ⟨rest, hrest⟩ := ih h
        exact ⟨_, Option.map_eq_some_iff.mpr ⟨rest, hrest, rfl⟩⟩

/-- `AdjustRoot`. -/
theorem exists_adjustRootEvents {rootId : PageId} {root : BPlusTreePage κ ν}
    (h : t.adjustRoot rootId root = some t') : ∃ es, t.adjustRootEvents rootId root = some es := by
  unfold BPlusTree.adjustRoot at h
  unfold BPlusTree.adjustRootEvents
  split at h
  · next hsize => exact ⟨_, if_pos hsize⟩
  · next hsize =>
    rw [if_neg hsize]
    cases root with
    | leaf root => exact ⟨_, rfl⟩
    | internal root =>
      obtain ⟨child, hchild, _⟩ := Option.bind_eq_some_iff.mp h
      exact ⟨_, Option.bind_eq_some_iff.mpr ⟨child, hchild, rfl⟩⟩

/-- `Redistribute`. -/
theorem exists_redistributeEvents {siblingId nodeId : PageId} {sibling node : BPlusTreePage κ ν}
    {index : Nat} (h : t.redistribute siblingId sibling nodeId node index = some t') :
    ∃ es, BPlusTree.redistributeEvents siblingId sibling nodeId node index = some es := by
  unfold BPlusTree.redistribute at h
  unfold BPlusTree.redistributeEvents
  split at h
  · exact ⟨_, rfl⟩
  · exact ⟨_, rfl⟩
  · exact nomatch h

/-- `Coalesce`. -/
theorem exists_coalesceEvents {neighborId nodeId parentId : PageId}
    {neighbor node : BPlusTreePage κ ν} {parent : InternalPage κ} {index : Nat}
    {r : InternalPage κ × BPlusTree κ ν}
    (h : t.coalesce neighborId neighbor nodeId node parentId parent index = some r) :
    ∃ es, BPlusTree.coalesceEvents neighborId neighbor nodeId node parentId = some es := by
  unfold BPlusTree.coalesce at h
  unfold BPlusTree.coalesceEvents
  split at h
  · exact ⟨_, rfl⟩
  · exact ⟨_, rfl⟩
  · exact nomatch h

/-- By induction on the pages on the way up. -/
theorem exists_coalesceOrRedistributeEvents (fuel : Nat) {t t' : BPlusTree κ ν} {nodeId : PageId}
    (h : BPlusTree.coalesceOrRedistribute fuel t nodeId = some t') :
    ∃ es, BPlusTree.coalesceOrRedistributeEvents fuel t nodeId = some es := by
  induction fuel generalizing t nodeId with
  | zero => exact nomatch h
  | succ fuel ih =>
    unfold BPlusTree.coalesceOrRedistribute at h
    unfold BPlusTree.coalesceOrRedistributeEvents
    obtain ⟨node, hnode, h⟩ := Option.bind_eq_some_iff.mp h
    have exists_above : ∀ {r : InternalPage κ × BPlusTree κ ν} {p : PageId} {before after : Events},
        (if r.1.size < r.1.minSize then BPlusTree.coalesceOrRedistribute fuel r.2 p
          else pure r.2) = some t' →
        ∃ es, (if r.1.size < r.1.minSize then
          (BPlusTree.coalesceOrRedistributeEvents fuel r.2 p).bind
            fun above => pure (before ++ above ++ after)
          else pure (before ++ after)) = some es := by
      intro r p before after h
      split at h
      · next hsmall =>
        obtain ⟨above, habove⟩ := ih h
        exact ⟨_, by rw [if_pos hsmall, habove]; rfl⟩
      · next hlarge => exact ⟨_, if_neg hlarge⟩
    simp only [hnode, Option.bind_eq_bind, Option.bind_some]
    split at h
    · next hroot =>
      rw [if_pos hroot]
      obtain ⟨es, hes⟩ := exists_adjustRootEvents h
      exact ⟨_, by rw [hes]; rfl⟩
    · next hroot =>
      obtain ⟨parent, hparent, h⟩ := Option.bind_eq_some_iff.mp h
      obtain ⟨index, hindex, h⟩ := Option.bind_eq_some_iff.mp h
      obtain ⟨sibling, hsibling, h⟩ := Option.bind_eq_some_iff.mp h
      simp only [if_neg hroot, hparent, hindex, hsibling, Option.bind_some]
      split at h
      · next hmerge =>
        rw [if_pos hmerge]
        by_cases hfirst : index = 0
        · simp only [if_pos hfirst] at h ⊢
          obtain ⟨r, hr, h⟩ := Option.bind_eq_some_iff.mp h
          obtain ⟨merged, hmerged⟩ := exists_coalesceEvents hr
          simp only [hmerged, hr, Option.bind_some]
          exact exists_above h
        · simp only [if_neg hfirst] at h ⊢
          obtain ⟨r, hr, h⟩ := Option.bind_eq_some_iff.mp h
          obtain ⟨merged, hmerged⟩ := exists_coalesceEvents hr
          simp only [hmerged, hr, Option.bind_some]
          exact exists_above h
      · next hmerge =>
        obtain ⟨es, hes⟩ := exists_redistributeEvents h
        rw [if_neg hmerge, hes]
        exact ⟨_, rfl⟩

/-- The walk that refreshes the keys of the parents. -/
theorem exists_updateParentKeysEvents {leafId : PageId} {leaf : LeafPage κ ν}
    (h : t.updateParentKeys leafId leaf = some t') :
    ∃ es, t.updateParentKeysEvents leafId leaf = some es := by
  unfold BPlusTree.updateParentKeys at h
  unfold BPlusTree.updateParentKeysEvents
  obtain ⟨parent, hparent, h⟩ := Option.bind_eq_some_iff.mp h
  simp only [hparent, Option.bind_eq_bind, Option.bind_some]
  cases hfind : parent.findValue leafId with
  | none => exact ⟨_, rfl⟩
  | some i =>
    simp only [hfind] at h ⊢
    split at h
    · next hfirst =>
      obtain ⟨grandParent, hgrand, _⟩ := Option.bind_eq_some_iff.mp h
      exact ⟨_, by rw [if_pos hfirst, hgrand]; rfl⟩
    · next hfirst => exact ⟨_, if_neg hfirst⟩

/-- By induction on the pages on the way up. -/
theorem exists_insertIntoParentEvents [Inhabited κ] (fuel : Nat) {t t' : BPlusTree κ ν}
    {oldId newId : PageId} {key : κ}
    (h : BPlusTree.insertIntoParent fuel t oldId key newId = some t') :
    ∃ es, BPlusTree.insertIntoParentEvents fuel t oldId key newId = some es := by
  induction fuel generalizing t oldId key newId with
  | zero => exact nomatch h
  | succ fuel ih =>
    unfold BPlusTree.insertIntoParent at h
    unfold BPlusTree.insertIntoParentEvents
    obtain ⟨oldNode, hold, h⟩ := Option.bind_eq_some_iff.mp h
    obtain ⟨newNode, hnew, h⟩ := Option.bind_eq_some_iff.mp h
    simp only [hold, hnew, Option.bind_eq_bind, Option.bind_some]
    split at h
    · next hroot => exact ⟨_, if_pos hroot⟩
    · next hroot =>
      obtain ⟨parent, hparent, h⟩ := Option.bind_eq_some_iff.mp h
      simp only [if_neg hroot, hparent, Option.bind_some]
      dsimp only at h
      split at h
      · next hlarge =>
        obtain ⟨above, habove⟩ := ih h
        exact ⟨_, by rw [if_pos hlarge, habove]; rfl⟩
      · next hlarge => exact ⟨_, if_neg hlarge⟩

variable [LinearOrder κ]

/-- `FindLeafPage`. -/
theorem exists_findLeafPageEvents {key : κ} {r : PageId × LeafPage κ ν}
    (h : t.findLeafPage key = some (some r)) : ∃ es, t.findLeafPageEvents key = some es := by
  unfold BPlusTree.findLeafPage at h
  split at h
  · exact nomatch h
  · obtain ⟨r', hloop, _⟩ := Option.map_eq_some_iff.mp h
    exact exists_findLeafEvents hloop

/-- `GetValue`. -/
theorem exists_getValueEvents {key : κ} {found : Option ν} (h : t.getValue key = some found) :
    ∃ es, t.getValueEvents key = some es := by
  unfold BPlusTree.getValue at h
  unfold BPlusTree.getValueEvents
  split at h
  · next hempty =>
    have hnone := findLeafPage_of_isEmpty hempty key
    exact ⟨[], by rw [hnone]; rfl⟩
  · obtain ⟨r, hfind, _⟩ := Option.bind_eq_some_iff.mp h
    cases r with
    | none => exact ⟨[], by rw [hfind]; rfl⟩
    | some r =>
      obtain ⟨way, hway⟩ := exists_findLeafPageEvents hfind
      exact ⟨_, by simp only [hfind, hway, Option.bind_eq_bind, Option.bind_some]; rfl⟩

/-- `Remove`, in both of its endings: the leaf stays large, or it is merged or refilled. -/
theorem exists_removeEvents {key : κ} (h : t.remove key = some t') :
    ∃ es, t.removeEvents key = some es := by
  unfold BPlusTree.remove at h
  unfold BPlusTree.removeEvents
  split at h
  · next hempty =>
    have hnone := findLeafPage_of_isEmpty hempty key
    exact ⟨[], by rw [hnone]; rfl⟩
  · obtain ⟨r, hfind, h⟩ := Option.bind_eq_some_iff.mp h
    cases r with
    | none => exact ⟨[], by rw [hfind]; rfl⟩
    | some r =>
      obtain ⟨way, hway⟩ := exists_findLeafPageEvents hfind
      simp only [hfind, hway, Option.bind_eq_bind, Option.bind_some]
      dsimp only at h
      -- the two places where a small leaf is repaired share their calls
      have hunder : ∀ {t₁ : BPlusTree κ ν} {before after : Events} {leafId : PageId}
          {leaf : LeafPage κ ν},
          (if leaf.size < leaf.minSize then BPlusTree.coalesceOrRedistribute t₁.fuel t₁ leafId
            else pure t₁) = some t' →
          ∃ es, (if leaf.size < leaf.minSize then
            (BPlusTree.coalesceOrRedistributeEvents t₁.fuel t₁ leafId).bind
              fun shrunk => pure (before ++ touch leafId :: shrunk ++ after)
            else pure (before ++ touch leafId :: after)) = some es := by
        intro t₁ before after leafId leaf h
        split at h
        · next hsmall =>
          obtain ⟨shrunk, hshrunk⟩ := exists_coalesceOrRedistributeEvents _ h
          exact ⟨_, by rw [if_pos hsmall, hshrunk]; rfl⟩
        · next hlarge => exact ⟨_, if_neg hlarge⟩
      split at h
      · next hroot =>
        simp only [if_pos hroot]
        exact hunder h
      · next hroot =>
        obtain ⟨t₁, hup, h⟩ := Option.bind_eq_some_iff.mp h
        obtain ⟨above, habove⟩ := exists_updateParentKeysEvents hup
        simp only [if_neg hroot, hup, habove, Option.bind_some]
        exact hunder h

/-- `Insert`: a new tree, a key that is there, room in the leaf, or a split. -/
theorem exists_insertEvents [Inhabited κ] [Inhabited ν] {key : κ} {value : ν}
    {r : Bool × BPlusTree κ ν} (h : t.insert key value = some r) :
    ∃ es, t.insertEvents key value = some es := by
  unfold BPlusTree.insert at h
  unfold BPlusTree.insertEvents
  split at h
  · next hempty => exact ⟨_, if_pos hempty⟩
  · next hempty =>
    rw [if_neg hempty]
    unfold BPlusTree.insertIntoLeaf at h
    unfold BPlusTree.insertIntoLeafEvents
    obtain ⟨r, hfind, h⟩ := Option.bind_eq_some_iff.mp h
    cases r with
    | none => exact ⟨[], by rw [hfind]; rfl⟩
    | some r =>
      obtain ⟨way, hway⟩ := exists_findLeafPageEvents hfind
      simp only [hfind, hway, Option.bind_eq_bind, Option.bind_some]
      dsimp only at h
      split at h
      · next hhas => exact ⟨_, if_pos hhas⟩
      · next hhas =>
        rw [if_neg hhas]
        split at h
        · next hlarge =>
          obtain ⟨split, hsplit, _⟩ := Option.bind_eq_some_iff.mp h
          obtain ⟨above, habove⟩ := exists_insertIntoParentEvents _ hsplit
          exact ⟨_, by rw [if_pos hlarge, habove]; rfl⟩
        · next hlarge => exact ⟨_, if_neg hlarge⟩

/-- A call of the index, as a use. -/
def IndexOp.use : IndexOp κ ν → IndexUse κ ν
  | .insert key value => .insert key value
  | .remove key => .remove key
  | .getValue key => .getValue key

variable [Inhabited κ] [Inhabited ν]

/-- Where a call has a result, its list of calls of the buffer pool is there. -/
theorem exists_events {op : IndexOp κ ν} (h : t.step op = some t') :
    ∃ es, t.events op.use = some es := by
  cases op with
  | insert key value =>
    obtain ⟨r, hinsert, _⟩ := Option.map_eq_some_iff.mp h
    exact exists_insertEvents hinsert
  | remove key => exact exists_removeEvents h
  | getValue key =>
    obtain ⟨found, hget, _⟩ := Option.map_eq_some_iff.mp h
    exact exists_getValueEvents hget

/-! ### The buffer pool -/

omit [LinearOrder κ] [Inhabited κ] [Inhabited ν] in
/-- A pool that answers the events has the pin counts that it had. -/
theorem PinSafe.pinCountOf {es : Events} (h : PinSafe es) {s s' : Pool} (hsound : s.bpm.Sound)
    (hrun : Steps Pool.Answers s es s') : s'.bpm.pinCountOf = s.bpm.pinCountOf :=
  (Pool.pinCountOf_run hrun hsound).2.trans (h.neutral _)

/-- A call that returns, and that is right about the pins, over any buffer pool that answers it. -/
theorem Indexed.pool_pins {m : κ → Option ν} (h : Indexed lm im t m) {op : IndexOp κ ν}
    (hstep : t.step op = some t') (hpinned : Pinned t m op.use) :
    ∃ es, t.events op.use = some es ∧ PinSafe es ∧ ∀ s s' : Pool, s.bpm.Sound →
      Steps Pool.Answers s es s' → s'.bpm.pinCountOf = s.bpm.pinCountOf := by
  obtain ⟨es, hes⟩ := exists_events hstep
  have hsafe : PinSafe es := by
    rcases h with ⟨_, _, hroot, _⟩ | ⟨T, hr, hm⟩
    · exact (pinSafe_of_isEmpty (m := m) (by simp [BPlusTree.isEmpty, hroot]) hes).1
    · exact (hr.pinSafe_iff hm hes).mpr hpinned
  exact ⟨es, hes, hsafe, fun s s' hsound hrun => hsafe.pinCountOf hsound hrun⟩

end DisMiniSql.MiniSql
