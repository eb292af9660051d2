import DisMiniSql.MiniSql.Index.SafeRemove
import DisMiniSql.Proofs.Index.Shrink

/-!
# `DisMiniSql.Proofs.Index.SafeRemove`: what `safeShrink` says about the tree

`safeShrink` reads the pages before the call, and the walk needs `CtxSafe` of the tree in the
middle of the call. `ctxSafe_of_safeShrink` goes from one to the other, level by level.
-/

set_option autoImplicit false

namespace DisMiniSql.MiniSql

open DisMiniSql.Lib

variable {κ ν : Type} {lm im : Nat} {s : PageStore κ ν}

/-- The page of a node, as `safeShrink` reads it. -/
theorem Heap.node_fields {h : Nat} {id parent : PageId} {cs : List (κ × STree PageId κ ν h)}
    {Γ : List (PageId × Cell PageId κ ν)}
    (hh : Heap lm im s ((STree.node id cs).flat parent ++ Γ)) :
    ∃ n, s.fetchInternal id = some n ∧ n.size = cs.length ∧ n.maxSize = im ∧
      n.parentPageId = parent ∧ n.pairs = names cs := by
  obtain ⟨n, hfetch, -, hmax, hpar, hpairs⟩ := hh.fetchInternal_node (p := id) (q := parent)
    (C := names cs) (by simp [STree.flat_node])
  exact ⟨n, hfetch, by rw [← InternalPage.length_pairs, hpairs, length_names], hmax, hpar, hpairs⟩

/-- `slotSeparates`, in terms of the two trees. -/
theorem separates_of_slotSeparates [LinearOrder κ] {x k : κ} {h : Nat}
    {L : STree PageId κ ν (h + 1)}
    {id pl pr : PageId} {cs : List (κ × STree PageId κ ν h)}
    {Γ₁ Γ₂ : List (PageId × Cell PageId κ ν)}
    (hL : Heap lm im s (L.flat pl ++ Γ₁))
    (hR : Heap lm im s ((STree.node id cs).flat pr ++ Γ₂))
    (hk : cs.head?.map Prod.fst = some k)
    (hsep : s.slotSeparates x (h + 1) L.rootId id = true) :
    (∀ y ∈ L.keys, y ≠ x → y < k) ∧ ∀ y ∈ (STree.node id cs).keys, y ≠ x → k ≤ y := by
  obtain ⟨n, hfetch, -, -, -, hpairs⟩ := hR.node_fields
  have hkey : n.keyAt 0 = k := by
    cases cs with
    | nil => cases hk
    | cons e cs =>
      rw [InternalPage.keyAt_zero (e := (e.1, e.2.rootId)) (r := names cs) hpairs]
      exact Option.some.inj hk
  have hunder := hR.keysUnder_eq
  rw [STree.rootId_node] at hunder
  simp only [PageStore.slotSeparates, hfetch, hL.keysUnder_eq, hunder, hkey, Bool.and_eq_true,
    List.all_eq_true, Bool.or_eq_true, decide_eq_true_eq] at hsep
  exact ⟨fun y hy hne => (hsep.1 y hy).resolve_left hne,
    fun y hy hne => (hsep.2 y hy).resolve_left hne⟩

/-- The keys of the nodes beside the hole do not change when `x` is removed from the hole. -/
theorem flatMap_keys_filter [LinearOrder κ] {x : κ} {h : Nat} {C : List (κ × STree PageId κ ν h)}
    (hx : ∀ e ∈ C, ∀ y ∈ e.2.keys, y ≠ x) :
    (C.flatMap (fun e => e.2.keys)).filter (· ≠ x) = C.flatMap (fun e => e.2.keys) := by
  rw [List.filter_eq_self]
  intro y hy
  obtain ⟨e, he, hy⟩ := List.mem_flatMap.mp hy
  simpa using hx e he y hy

/-- `safeShrink` before the removal of `x` makes the way up safe after it. `f` is the first key of
the leaf then, and `fresh` says that it is in slot 0 of the node. -/
theorem ctxSafe_of_safeShrink [LinearOrder κ] {x f : κ} : ∀ (fuel : Nat) {h : Nat}
    (up : Ctx PageId κ ν (h + 1)) (id : PageId) (k₀ s₀ : κ) (cs : List (κ × STree PageId κ ν h))
    (fresh : Bool), up.depth < fuel →
    Heap lm im s ((STree.node id cs).flat (up.parentId INVALID_PAGE_ID) ++
      up.flat INVALID_PAGE_ID id) →
    cs.head?.map Prod.fst = some k₀ → up.Admits x →
    (fresh = true → s₀ = f ∧ up.Admits f ∧ ∀ y ∈ (STree.node id cs).keys, y ≠ x → f ≤ y) →
    (fresh = false → s₀ = k₀) → s.safeShrink x fuel (h + 1) fresh id = true →
    CtxSafe im (if h = 0 ∧ fresh = true then up.setKey f else up) s₀
      ((STree.node id cs).keys.filter (· ≠ x)) (cs.length - 1) := by
  intro fuel
  induction fuel with
  | zero => exact fun up _ _ _ _ _ hfuel => absurd hfuel (Nat.not_lt_zero _)
  | succ fuel ih =>
    intro h up id k₀ s₀ cs fresh hfuel hheap hk₀ hadm hfresh hstale hsafe
    obtain ⟨n, hfetch, hsize, hmax, hpar, -⟩ := hheap.node_fields
    rw [PageStore.safeShrink, hfetch] at hsafe
    simp only [hsize, InternalPage.minSize, hmax, InternalPage.isRootPage, hpar] at hsafe
    cases up with
    | root =>
      have hsetKey : (if h = 0 ∧ fresh = true then Ctx.setKey f (Ctx.root : Ctx PageId κ ν (h + 1))
          else .root) = .root := by
        split <;> rfl
      rw [hsetKey, CtxSafe]
      by_cases hsmall : cs.length - 1 < im / 2
      · exact Or.inl hsmall
      · rw [if_neg hsmall] at hsafe
        exact Or.inr (of_decide_eq_true hsafe)
    | frame pid left key right up =>
      obtain ⟨key', hframe, hkeyF, hkeyS⟩ : ∃ key',
          (if h = 0 ∧ fresh = true then (Ctx.frame pid left key right up).setKey f
            else .frame pid left key right up) = .frame pid left key' right up ∧
          (h = 0 ∧ fresh = true → key' = f) ∧ (¬ (h = 0 ∧ fresh = true) → key' = key) := by
        by_cases hc : h = 0 ∧ fresh = true
        · exact ⟨f, if_pos hc, fun _ => rfl, fun hn => absurd hc hn⟩
        · exact ⟨key, if_neg hc, fun hp => absurd hp hc, fun _ => rfl⟩
      rw [hframe, CtxSafe]
      have hparent : Heap lm im s ((STree.node pid (left ++ (key, .node id cs) :: right)).flat
          (up.parentId INVALID_PAGE_ID) ++ up.flat INVALID_PAGE_ID pid) :=
        hheap.perm (perm_of_countP fun P => by
          simp only [Ctx.parentId_frame, Ctx.flat, STree.flat_node, STree.rootId_node, names_append,
            names_cons, forest_append, forest_cons, List.cons_append, List.countP_append,
            List.countP_cons]
          omega)
      have hne : pid ≠ INVALID_PAGE_ID := hparent.ne_invalid (by simp [STree.flat_node])
      obtain ⟨p, hpfetch, -, -, -, hppairs⟩ := hparent.node_fields
      rw [names_append, names_cons] at hppairs
      have hfind := InternalPage.findValue_spec hppairs (Heap.child_not_mem hparent)
      rw [length_names, STree.rootId_node] at hfind
      simp only [Ctx.parentId_frame, hne, hpfetch, hfind, decide_false, Bool.false_eq_true,
        if_false] at hsafe
      -- The walk goes on in the parent.
      have hnext : s.safeShrink x fuel (h + 1 + 1)
          (h + 1 = 1 && fresh && left.length = 0) pid = true →
          CtxSafe im up ((left.head?.map Prod.fst).getD key')
            (left.flatMap (fun e => e.2.keys) ++ ((STree.node id cs).keys.filter (· ≠ x) ++
              right.flatMap (fun e => e.2.keys))) (left.length + right.length) := by
        intro hsafe'
        have hrec := ih up pid ((left.head?.map Prod.fst).getD key)
          ((left.head?.map Prod.fst).getD key') (left ++ (key, .node id cs) :: right) _
          (Nat.lt_of_succ_lt_succ hfuel) hparent (by cases left <;> rfl) hadm.up ?_ ?_ hsafe'
        · rw [if_neg (by simp)] at hrec
          have hleftx := flatMap_keys_filter (x := x) (C := left)
            fun e he y hy => ne_of_lt (hadm.lt_of_mem_left he hy)
          have hrightx := flatMap_keys_filter (x := x) (C := right)
            fun e he y hy => ne_of_gt (hadm.lt_of_mem_right he hy)
          rw [STree.keys_node, List.flatMap_append, List.flatMap_cons, List.filter_append,
            List.filter_append, hleftx, hrightx] at hrec
          simpa using hrec
        · intro htrue
          simp only [Bool.and_eq_true, decide_eq_true_eq, List.length_eq_zero_iff] at htrue
          obtain ⟨⟨hh, hfr⟩, rfl⟩ := htrue
          obtain ⟨-, hadmf, hle⟩ := hfresh hfr
          refine ⟨hkeyF ⟨by omega, hfr⟩, hadmf.up, ?_⟩
          intro y hy hyx
          rw [STree.keys_node, List.nil_append, List.flatMap_cons, List.mem_append] at hy
          rcases hy with hy | hy
          · exact hle y hy hyx
          · obtain ⟨e, he, hy⟩ := List.mem_flatMap.mp hy
            exact le_of_lt (hadmf.lt_of_mem_right he hy)
        · intro hfalse
          cases left with
          | cons e left => rfl
          | nil =>
            refine hkeyS fun hc => ?_
            simp [hc.1, hc.2] at hfalse
      by_cases hsmall : cs.length - 1 < im / 2
      · rw [if_pos hsmall] at hsafe ⊢
        refine ⟨?_, ?_⟩
        · rintro A kL L rfl
          obtain ⟨lid, lcs, rfl⟩ := L.exists_node
          obtain ⟨Γ₁, hLheap⟩ := Heap.child (A := A) (k := kL) (t := .node lid lcs)
            (B := (key, .node id cs) :: right) (by simpa using hparent)
          obtain ⟨sib, hsfetch, hssize, -⟩ := hLheap.node_fields
          have hsib : p.valueAt A.length = lid := by
            have hmid := InternalPage.data_mid (l := names A) (e := (kL, lid))
              (r := (key, id) :: names right) (by rw [hppairs]; simp)
            rw [length_names] at hmid
            rw [InternalPage.valueAt, hmid]
          have hlen : (A ++ [(kL, STree.node lid lcs)]).length = A.length + 1 := by simp
          simp only [hlen, Nat.add_one_ne_zero, if_false, Nat.add_sub_cancel, hsib, hsfetch, hssize,
            Bool.and_eq_true, Bool.or_eq_true, Bool.not_eq_true', decide_eq_false_iff_not] at hsafe
          obtain ⟨hslot, hwalk⟩ := hsafe
          refine ⟨⟨?_, ?_⟩, fun hm => hnext ?_⟩
          · intro y hy
            cases hfr : fresh with
            | true =>
              obtain ⟨rfl, hadmf, -⟩ := hfresh hfr
              exact hadmf.lt_of_mem_left (e := (kL, .node lid lcs)) (by simp) hy
            | false =>
              rw [hstale hfr]
              have hslot' := hslot.resolve_left (by simp [hfr])
              exact (separates_of_slotSeparates hLheap hheap hk₀ hslot').1 y hy
                (ne_of_lt (hadm.lt_of_mem_left (e := (kL, .node lid lcs)) (by simp) hy))
          · intro y hy
            obtain ⟨hy, hyx⟩ := List.mem_filter.mp hy
            have hyx : y ≠ x := by simpa using hyx
            cases hfr : fresh with
            | true =>
              obtain ⟨rfl, -, hle⟩ := hfresh hfr
              exact hle y hy hyx
            | false =>
              rw [hstale hfr]
              have hslot' := hslot.resolve_left (by simp [hfr])
              exact (separates_of_slotSeparates hLheap hheap hk₀ hslot').2 y hy hyx
          · simp only [hlen, Nat.add_one_ne_zero]
            exact hwalk.resolve_left (fun hn => hn hm)
        · rintro kR R B rfl rfl hm
          obtain ⟨rid, rcs, rfl⟩ := R.exists_node
          obtain ⟨Γ₂, hRheap⟩ := Heap.child (A := [(key, .node id cs)]) (k := kR)
            (t := .node rid rcs) (B := B) (by simpa using hparent)
          obtain ⟨sib, hsfetch, hssize, -⟩ := hRheap.node_fields
          have hsib : p.valueAt 1 = rid := by
            rw [InternalPage.valueAt, show p.data 1 = (kR, rid) from
              InternalPage.data_mid (l := [(key, id)]) hppairs]
          simp only [List.length_nil, if_true, hsib, hsfetch, hssize] at hsafe
          have hm' : cs.length - 1 + rcs.length < im := hm
          simp only [hm', decide_true, Bool.not_true, Bool.false_or, Bool.and_eq_true] at hsafe
          obtain ⟨hslot, hwalk⟩ := hsafe
          refine ⟨?_, ?_⟩
          · intro r hr
            have hsep := separates_of_slotSeparates (L := .node id cs) hheap hRheap hr hslot
            refine ⟨fun y hy => ?_, fun y hy => ?_⟩
            · obtain ⟨hy, hyx⟩ := List.mem_filter.mp hy
              exact hsep.1 y hy (by simpa using hyx)
            · exact hsep.2 y hy
                (ne_of_gt (hadm.lt_of_mem_right (e := (kR, .node rid rcs)) (by simp) hy))
          · simpa using hnext hwalk
      · rw [if_neg hsmall] at hsafe ⊢
        exact of_decide_eq_true hsafe

end DisMiniSql.MiniSql
