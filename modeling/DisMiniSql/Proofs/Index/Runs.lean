import DisMiniSql.Proofs.Index.Insert
import DisMiniSql.Proofs.Index.Remove

/-!
# `DisMiniSql.Proofs.Index.Runs`: whole runs of an index

A run is a list of `Insert`, `Remove` and `GetValue` calls. Beside it runs a finite map, and
`safeRun` says that `safeRemove` holds before every `Remove`.

* `run_refines_map`: in a safe run, `GetValue` and the leaf chain are the map.
* `run_keeps_structure`: in a safe run the pages stay a well-formed tree.
* `remove_loses_last_key`, `remove_leaves_one_child`: what `Remove` does otherwise.
-/

set_option autoImplicit false

namespace DisMiniSql.MiniSql

open DisMiniSql.Lib

variable {κ ν : Type} {lm im : Nat}

/-! ### One `Remove` -/

/-- The map without a key. -/
def mapErase [DecidableEq κ] (m : κ → Option ν) (key : κ) : κ → Option ν :=
  fun k => if key = k then none else m k

/-- What an erased map still holds. -/
theorem mapErase_eq_some_iff [DecidableEq κ] {m : κ → Option ν} {key k : κ} {v : ν} :
    mapErase m key k = some v ↔ m k = some v ∧ k ≠ key := by
  unfold mapErase
  split
  · rename_i heq
    simp [heq]
  · rename_i hne
    simp [Ne.symm hne]

/-- A safe `Remove`. -/
theorem Indexed.remove [LinearOrder κ] (him : 3 ≤ im) {t : BPlusTree κ ν} {m : κ → Option ν}
    (h : Indexed lm im t m) {x : κ} (hsafe : t.safeRemove x = true) :
    ∃ t', t.remove x = some t' ∧ Indexed lm im t' (mapErase m x) := by
  rcases h with ⟨hlm, him', hroot, hm⟩ | ⟨T, hr, hm⟩
  · have hempty : t.isEmpty = true := by simp [BPlusTree.isEmpty, hroot]
    exact ⟨t, by simp [BPlusTree.remove, hempty],
      Or.inl ⟨hlm, him', hroot, fun k => by simp [mapErase, hm]⟩⟩
  · obtain ⟨t', heq, ⟨hlm, him', hroot, hall⟩ | ⟨T', hr', hpairs⟩⟩ := hr.remove him hsafe
    · refine ⟨t', heq, Or.inl ⟨hlm, him', hroot, fun k => Option.eq_none_iff_forall_ne_some.mpr ?_⟩⟩
      intro v hv
      obtain ⟨hk, hne⟩ := mapErase_eq_some_iff.mp hv
      exact hne (hall (k, v) ((hm k v).mpr hk))
    · refine ⟨t', heq, Or.inr ⟨T', hr', fun k v => ?_⟩⟩
      rw [hpairs, hm, mapErase_eq_some_iff]

/-! ### Runs -/

/-- A call. -/
inductive IndexOp (κ ν : Type)
  | insert (key : κ) (value : ν)
  | remove (key : κ)
  | getValue (key : κ)

/-- What the call does to the map. -/
def IndexOp.onMap [DecidableEq κ] (m : κ → Option ν) : IndexOp κ ν → κ → Option ν
  | .insert k v => mapInsert m k v
  | .remove k => mapErase m k
  | .getValue _ => m

/-- The map after some calls, from the empty one. -/
def mapAfter [DecidableEq κ] (ops : List (IndexOp κ ν)) : κ → Option ν :=
  ops.foldl IndexOp.onMap (fun _ => none)

namespace BPlusTree
variable [LinearOrder κ] [Inhabited κ] [Inhabited ν]

/-- The index after a call. -/
def step (t : BPlusTree κ ν) : IndexOp κ ν → Option (BPlusTree κ ν)
  | .insert k v => (t.insert k v).map Prod.snd
  | .remove k => t.remove k
  | .getValue k => (t.getValue k).map fun _ => t

/-- The index after some calls. -/
def run (t : BPlusTree κ ν) : List (IndexOp κ ν) → Option (BPlusTree κ ν)
  | [] => some t
  | op :: ops => (t.step op).bind (run · ops)

/-- A `Remove` is safe, and the other calls always are. -/
def safeStep (t : BPlusTree κ ν) : IndexOp κ ν → Bool
  | .remove k => t.safeRemove k
  | _ => true

/-- `safeRemove` holds before every `Remove`. -/
def safeRun (t : BPlusTree κ ν) : List (IndexOp κ ν) → Bool
  | [] => true
  | op :: ops => t.safeStep op && (t.step op).all (safeRun · ops)

end BPlusTree

section Runs
variable [LinearOrder κ]

/-- `FindLeafPage` reaches the leaf of every stored key. -/
theorem Indexed.findLeafPage {t : BPlusTree κ ν} {m : κ → Option ν} (h : Indexed lm im t m)
    {k : κ} {v : ν} (hk : m k = some v) :
    ∃ p leaf, t.findLeafPage k = some (some (p, leaf)) ∧ (k, v) ∈ leaf.pairs := by
  rcases h with ⟨-, -, -, hm⟩ | ⟨T, hr, hm⟩
  · rw [hm] at hk
    cases hk
  · obtain ⟨c, l, page, rfl, hadm, hshow, hfind⟩ := hr.findLeafPage k
    refine ⟨l.id, page, hfind, ?_⟩
    have hmem := (hadm.mem_pairs_iff (.leaf l) v).mp ((hm k v).mpr hk)
    rw [STree.pairs_leaf] at hmem
    rw [show page.pairs = l.entries from hshow.2.2.2.2.2]
    exact hmem

variable [Inhabited κ] [Inhabited ν]

/-- One call. -/
theorem Indexed.step (hlm : 1 ≤ lm) (him : 3 ≤ im) {t : BPlusTree κ ν} {m : κ → Option ν}
    (h : Indexed lm im t m) {op : IndexOp κ ν}
    (hsafe : t.safeStep op = true) :
    ∃ t', t.step op = some t' ∧ Indexed lm im t' (op.onMap m) := by
  cases op with
  | insert k v =>
    obtain ⟨t', heq, h', -⟩ := h.insert hlm him k v
    exact ⟨t', by rw [BPlusTree.step, heq]; rfl, h'⟩
  | remove k => exact h.remove him hsafe
  | getValue k =>
    have hget := h.isIndex.getValue k
    exact ⟨t, by rw [BPlusTree.step, hget]; rfl, h⟩

/-- All calls of a run. -/
theorem Indexed.run (hlm : 1 ≤ lm) (him : 3 ≤ im) (ops : List (IndexOp κ ν)) {t : BPlusTree κ ν}
    {m : κ → Option ν} (h : Indexed lm im t m) (hsafe : t.safeRun ops = true) :
    ∃ t', t.run ops = some t' ∧ Indexed lm im t' (ops.foldl IndexOp.onMap m) := by
  induction ops generalizing t m with
  | nil => exact ⟨t, rfl, h⟩
  | cons op ops ih =>
    rw [BPlusTree.safeRun, Bool.and_eq_true] at hsafe
    obtain ⟨t₁, heq, h₁⟩ := h.step hlm him hsafe.1
    obtain ⟨t', hrun, h'⟩ := ih h₁ (by simpa [heq] using hsafe.2)
    exact ⟨t', by rw [BPlusTree.run, heq, Option.bind_some, hrun], h'⟩

/-- A safe run from an empty tree ends in an index for the map of the run. -/
theorem run_indexed {t₀ : BPlusTree κ ν} (hlm : 1 ≤ t₀.leafMaxSize) (him : 3 ≤ t₀.internalMaxSize)
    (hempty : t₀.rootPageId = INVALID_PAGE_ID) {ops : List (IndexOp κ ν)}
    (hsafe : t₀.safeRun ops = true) :
    ∃ t, t₀.run ops = some t ∧
      Indexed t₀.leafMaxSize t₀.internalMaxSize t (mapAfter ops) :=
  Indexed.run hlm him ops (Or.inl ⟨rfl, rfl, hempty, fun _ => rfl⟩) hsafe

/-- In every run from an empty index whose `Remove` calls are safe, the index is the finite map of
the calls: `GetValue` and the leaf chain agree with it after the run, and so after every step. -/
theorem run_refines_map (t₀ : BPlusTree κ ν) (hlm : 1 ≤ t₀.leafMaxSize)
    (him : 3 ≤ t₀.internalMaxSize) (hempty : t₀.rootPageId = INVALID_PAGE_ID)
    (ops : List (IndexOp κ ν)) (hsafe : t₀.safeRun ops = true) :
    ∃ t, t₀.run ops = some t ∧ (∀ x, t.getValue x = some (mapAfter ops x)) ∧
      ∃ pairs, t.ChainLists pairs ∧ ∀ x v, (x, v) ∈ pairs ↔ mapAfter ops x = some v := by
  obtain ⟨t, hrun, h⟩ := run_indexed hlm him hempty hsafe
  obtain ⟨pairs, hchain, -, hpairs⟩ := h.isIndex.chain
  exact ⟨t, hrun, h.isIndex.getValue, pairs, hchain, hpairs⟩

/-- A leaf with two records left and one that gets a record from it. -/
theorem run_refines_map_borrow :
    ∃ t, (BPlusTree.new 2 3 : BPlusTree Nat Nat).run
        [.insert 1 10, .insert 2 20, .insert 3 30, .remove 3, .remove 7] = some t ∧
      t.getValue 2 = some (some 20) ∧ t.getValue 3 = some none := by
  obtain ⟨t, hrun, hget, -⟩ := run_refines_map (BPlusTree.new 2 3 : BPlusTree Nat Nat) (by decide)
    (by decide) rfl [.insert 1 10, .insert 2 20, .insert 3 30, .remove 3, .remove 7] (by decide)
  exact ⟨t, hrun, hget 2, hget 3⟩

/-- Leaves of up to four records. The root leaf has two records, and `Remove` of one of them drops
the root and loses the other. -/
theorem remove_loses_last_key :
    ∃ t, (BPlusTree.new 4 4 : BPlusTree Nat Nat).run
        [.insert 1 10, .insert 2 20, .remove 1] = some t ∧
      t.getValue 2 = some none ∧
      mapAfter [.insert 1 10, .insert 2 20, .remove 1] 2 = some 20 :=
  ⟨_, rfl, by decide, by decide⟩

/-- In every run from an empty index whose `Remove` calls are safe, the pages are a well-formed
tree, the leaf chain lists the stored pairs in the order of their keys, and `FindLeafPage` reaches
the leaf of every stored key. -/
theorem run_keeps_structure (t₀ : BPlusTree κ ν) (hlm : 2 ≤ t₀.leafMaxSize)
    (him : 3 ≤ t₀.internalMaxSize) (hempty : t₀.rootPageId = INVALID_PAGE_ID)
    (ops : List (IndexOp κ ν)) (hsafe : t₀.safeRun ops = true) :
    ∃ t, t₀.run ops = some t ∧
      (t.rootPageId ≠ INVALID_PAGE_ID → ∃ h, t.bpm.WellFormed h INVALID_PAGE_ID t.rootPageId) ∧
      (∃ pairs, t.ChainLists pairs ∧ (pairs.map Prod.fst).Pairwise (· < ·) ∧
        ∀ x v, (x, v) ∈ pairs ↔ mapAfter ops x = some v) ∧
      ∀ x v, mapAfter ops x = some v →
        ∃ p leaf, t.findLeafPage x = some (some (p, leaf)) ∧ (x, v) ∈ leaf.pairs := by
  obtain ⟨t, hrun, h⟩ := run_indexed (Nat.le_of_succ_le hlm) him hempty hsafe
  exact ⟨t, hrun, h.isIndex.wellFormed, h.isIndex.chain, fun x v hx => h.findLeafPage hx⟩

/-- A tree of three levels, with merges of leaves and of internal pages. -/
theorem run_keeps_structure_three_levels :
    ∃ t, (BPlusTree.new 2 4 : BPlusTree Nat Nat).run
        (((List.range 9).map fun i => .insert i (10 * i)) ++
          [.remove 8, .remove 7, .remove 1, .remove 0]) = some t ∧
      ∃ p leaf, t.findLeafPage 5 = some (some (p, leaf)) ∧ (5, 50) ∈ leaf.pairs := by
  obtain ⟨t, hrun, -, -, hfind⟩ := run_keeps_structure (BPlusTree.new 2 4 : BPlusTree Nat Nat)
    (by decide) (by decide) rfl (((List.range 9).map fun i => .insert i (10 * i))
      ++ [.remove 8, .remove 7, .remove 1, .remove 0]) (by decide +kernel)
  exact ⟨t, hrun, hfind 5 50 (by decide)⟩

/-- The root page is internal. -/
def rootIsInternal (t : BPlusTree κ ν) : Bool :=
  (t.bpm.fetchInternal t.rootPageId).isSome

/-- Leaves of up to two records and internal pages of up to three children. The root is internal
from the third call on, and the last `Remove` leaves it with one child. -/
theorem remove_leaves_one_child :
    (∀ n ∈ [3, 4, 5], ((BPlusTree.new 2 3 : BPlusTree Nat Nat).run (List.take n
        [.insert 1 10, .insert 2 20, .insert 3 30, .remove 2, .remove 3])).map rootIsInternal
          = some true) ∧
    ∃ t, (BPlusTree.new 2 3 : BPlusTree Nat Nat).run
        [.insert 1 10, .insert 2 20, .insert 3 30, .remove 2, .remove 3] = some t ∧
      t.rootPageId ≠ INVALID_PAGE_ID ∧
      ¬ ∃ h, t.bpm.WellFormed h INVALID_PAGE_ID t.rootPageId := by
  refine ⟨by decide +kernel, _, rfl, by decide +kernel, ?_⟩
  rintro ⟨h, hwf⟩
  cases h with
  | zero =>
    obtain ⟨l, hl, -⟩ := hwf
    cases hl
  | succ h =>
    obtain ⟨n, hn, -, -, hsize, -⟩ := hwf
    cases hn
    exact absurd hsize (by decide +kernel)

end Runs

end DisMiniSql.MiniSql
