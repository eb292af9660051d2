import DisMiniSql.MiniSql.Buffer.LruPointers
import DisMiniSql.Proofs.Buffer.LruReplacer

/-!
# `DisMiniSql.Proofs.Buffer.LruPointers`: the pointers of `LRUReplacer` hold a queue

In two steps. `Refines` says that the memory of the nodes is the list of an `LRUReplacer`, with
`map`, `unpinned` and `now_size` next to it. Every call follows pointers to nodes of the list only,
and refines the call on the list. `Tracks` says that the list is the queue, the frame that came in
last in front. `lru_replacer_refines_queue` puts them together for whole runs.
-/

set_option autoImplicit false

namespace DisMiniSql.MiniSql.LruPointers

variable {p : LruPointers} {r : LRUReplacer} {q : Queue} {f : FrameId}

/-! ### The list in memory -/

/-- The address of a node: those of `head` and `tail` are the first two. -/
def addrOf (n : LruNode) : Nat := n.addr + 2

/-- The memory holds the list, and the rest is the same. -/
structure Refines (p : LruPointers) (r : LRUReplacer) : Prop where
  linked : p.memory.Linked (p.head :: (r.nodes.map addrOf ++ [p.tail]))
  vals : ∀ n ∈ r.nodes, p.memory.val (addrOf n) = n.val
  fresh : ∀ a, p.nextAddr ≤ a → p.memory.live a = false
  map : ∀ f, p.map f = (r.map f).map (· + 2)
  unpinned : ∀ f, p.unpinned[f]? = if f < p.maxNumPages + 5 then some (r.unpinned f) else none
  nowSize : p.nowSize = r.nowSize
  maxNumPages : p.maxNumPages = r.maxNumPages
  nextAddr : p.nextAddr = r.nextAddr + 2
  bound : ∀ n ∈ r.nodes, n.val ≤ p.maxNumPages

/-- The two sentinels of a new list point to each other, whatever the memory held. -/
theorem refines_new (garbage : Lib.Memory FrameId) (numPages : Nat) :
    Refines (new garbage numPages) (LRUReplacer.new numPages) where
  linked := by
    refine ⟨?_, by simp [new, LRUReplacer.new]⟩
    show List.IsChain _ [0, 1]
    rw [List.isChain_pair]
    constructor <;> simp [new]
  vals n hn := by simp [LRUReplacer.new] at hn
  fresh a ha := by
    have hge : 2 ≤ a := ha
    have hne : a ≠ 0 ∧ a ≠ 1 := by omega
    simp [new, hne]
  map f := rfl
  unpinned f := by
    simp only [new, LRUReplacer.new, List.getElem?_replicate]
    rfl
  nowSize := rfl
  maxNumPages := rfl
  nextAddr := rfl
  bound n hn := by simp [LRUReplacer.new] at hn

variable {n : LruNode}

/-- The nodes without one of them. -/
theorem unlink_split {front back : List LruNode} (h : ((front ++ n :: back).map (·.addr)).Nodup) :
    LRUReplacer.unlink (front ++ n :: back) n.addr = front ++ back := by
  have hnot : n.addr ∉ (front ++ back).map (·.addr) := by
    rw [List.map_append, List.map_cons, List.nodup_middle, ← List.map_append] at h
    exact (List.nodup_cons.mp h).1
  have hkeep (l : List LruNode) (hl : l ⊆ front ++ back) :
      l.filter (fun k => k.addr != n.addr) = l := by
    rw [List.filter_eq_self]
    intro k hk
    have hne : k.addr ≠ n.addr := fun heq => hnot (heq ▸ List.mem_map_of_mem (hl hk))
    simpa using hne
  unfold LRUReplacer.unlink
  rw [List.filter_append, List.filter_cons_of_neg (by simp), hkeep front (by simp),
    hkeep back (by simp)]

/-- The state of the pointers when the node `n` was taken out and deleted. -/
def removed (p : LruPointers) (n : LruNode) (memory : Lib.Memory FrameId) : LruPointers :=
  { p with
    memory
    map := Function.update p.map n.val none
    unpinned := p.unpinned.set n.val false
    nowSize := p.nowSize - 1 }

/-- Writing a flag. -/
theorem Refines.unpinned_set (h : Refines p r) (f : FrameId) (b : Bool) (g : FrameId) :
    (p.unpinned.set f b)[g]? =
      if g < p.maxNumPages + 5 then some (if g = f then b else r.unpinned g) else none := by
  have hlength : g < p.unpinned.length ↔ g < p.maxNumPages + 5 := by
    rw [← not_iff_not, not_lt, ← List.getElem?_eq_none_iff, h.unpinned]
    simp
  rw [List.getElem?_set, h.unpinned]
  by_cases hg : g = f
  · subst hg
    by_cases hlt : g < p.maxNumPages + 5 <;> simp [hlt, hlength]
  · simp [hg, Ne.symm hg]

/-- The state of the pointers when a node of the frame was put in. -/
def added (p : LruPointers) (f : FrameId) (memory : Lib.Memory FrameId) : LruPointers :=
  { p with
    memory
    map := Function.update p.map f (some p.nextAddr)
    unpinned := p.unpinned.set f true
    nowSize := p.nowSize + 1
    nextAddr := p.nextAddr + 1 }

/-- Taking out a node of the list and deleting it: the part that `Victim` and `Pin` share. -/
theorem Refines.remove (h : Refines p r) (hr : r.Consistent) (hn : n ∈ r.nodes) :
    ∃ m m', p.memory.unlink (addrOf n) = some m ∧ m.free (addrOf n) = some m' ∧
      Refines (p.removed n m') (r.remove n.val n.addr) := by
  obtain ⟨front, back, hsplit⟩ := List.append_of_mem hn
  have hlinked := h.linked
  rw [hsplit, List.map_append, List.map_cons, List.append_assoc, List.cons_append,
    ← List.cons_append] at hlinked
  obtain ⟨m, hm, hlinked', hval, hlive⟩ := hlinked.unlink_middle (by simp) (by simp)
  have hnot : addrOf n ∉ (p.head :: front.map addrOf) ++ (back.map addrOf ++ [p.tail]) :=
    (List.nodup_cons.mp (List.nodup_middle.mp hlinked.nodup)).1
  have hliveNode : m.live (addrOf n) := by
    rw [hlive]
    exact hlinked.live (by simp; omega) (by simp)
  obtain ⟨m', hm', hlinked'', hval', hlive'⟩ := hlinked'.free hliveNode hnot
  have hnodes : (r.remove n.val n.addr).nodes = front ++ back := by
    show LRUReplacer.unlink r.nodes n.addr = _
    rw [hsplit]
    exact unlink_split (hsplit ▸ hr.addrs_nodup)
  have hsub : ∀ k ∈ (r.remove n.val n.addr).nodes, k ∈ r.nodes := fun k hk =>
    (List.mem_filter.mp hk).1
  refine ⟨m, m', hm, hm', ⟨?_, ?_, ?_, ?_, ?_, ?_, ?_, ?_, ?_⟩⟩
  · rw [hnodes]
    simpa [removed] using hlinked''
  · intro k hk
    show m'.val (addrOf k) = k.val
    rw [hval', hval, h.vals k (hsub k hk)]
  · intro a ha
    show m'.live a = false
    rw [hlive', hlive, Function.update_apply, h.fresh a ha, ite_self]
  · intro g
    show Function.update p.map n.val none g = Option.map _ (if g = n.val then none else r.map g)
    rw [Function.update_apply, h.map]
    split <;> rfl
  · intro g
    exact h.unpinned_set n.val false g
  · show p.nowSize - 1 = r.nowSize - 1
    rw [h.nowSize]
  · exact h.maxNumPages
  · exact h.nextAddr
  · exact fun k hk => h.bound k (hsub k hk)

/-- A frame within the bound has a flag. -/
theorem Refines.flag (h : Refines p r) (hf : f ≤ p.maxNumPages) :
    p.getUnpinned f = some (r.unpinned f) ∧ ∀ q : LruPointers, q.unpinned = p.unpinned →
      ∀ b, q.setUnpinned f b = some { q with unpinned := p.unpinned.set f b } := by
  have hlt : f < p.maxNumPages + 5 :=
    Nat.lt_of_le_of_lt hf (Nat.lt_add_of_pos_right (by decide))
  have hflag : p.unpinned[f]? = some (r.unpinned f) := by
    rw [h.unpinned, if_pos hlt]
  refine ⟨hflag, fun q hq b => ?_⟩
  have hlt := (List.getElem?_eq_some_iff.mp hflag).1
  simp [setUnpinned, hq, hlt]

/-- The last node of the list is in front of `tail`. -/
theorem Refines.getPrev_tail (h : Refines p r) {front : List LruNode}
    (hlast : r.nodes = front ++ [n]) : p.memory.getPrev p.tail = some (addrOf n) := by
  have hchain := h.linked.chain
  rw [hlast, List.map_append, List.map_singleton, List.append_assoc, List.singleton_append,
    ← List.cons_append, List.isChain_append_cons_cons] at hchain
  have hjoined := hchain.2.1
  simp [Lib.Memory.getPrev, hjoined.live', hjoined.prev]

/-- A node of the list is allocated. -/
theorem Refines.live (h : Refines p r) (hn : n ∈ r.nodes) :
    p.memory.live (addrOf n) := by
  apply h.linked.live
  · simp
  · simp only [List.mem_cons, List.mem_append, List.mem_map]
    exact .inr (.inl ⟨n, hn, rfl⟩)

/-- A node of the list holds its frame. -/
theorem Refines.getVal (h : Refines p r) (hn : n ∈ r.nodes) :
    p.memory.getVal (addrOf n) = some n.val := by
  simp [Lib.Memory.getVal, h.live hn, h.vals n hn]

/-- A new node is not one of the list. -/
theorem Refines.addrOf_ne (h : Refines p r) (hn : n ∈ r.nodes) :
    addrOf n ≠ p.nextAddr := by
  intro heq
  have hlive := h.live hn
  rw [h.fresh _ (Nat.le_of_eq heq.symm)] at hlive
  cases hlive

/-! ### The calls -/

/-- `Victim`. -/
theorem Refines.victim (h : Refines p r) (hr : r.Consistent) :
    ∃ p', p.victim = some (r.victim.1, p') ∧ Refines p' r.victim.2 := by
  by_cases hzero : r.nowSize = 0
  · refine ⟨p, ?_, ?_⟩
    · simp [LruPointers.victim, LRUReplacer.victim, h.nowSize, hzero]
    · simpa [LRUReplacer.victim, hzero] using h
  · obtain ⟨front, last, hlast⟩ : ∃ front last, r.nodes = front ++ [last] := by
      rcases List.eq_nil_or_concat r.nodes with hnil | ⟨front, last, hlast⟩
      · simp [hr.size_eq, hnil] at hzero
      · exact ⟨front, last, by simpa using hlast⟩
    have hmem : last ∈ r.nodes := by simp [hlast]
    obtain ⟨m, m', hm, hm', hrefines⟩ := h.remove hr hmem
    have hset := (h.flag (h.bound last hmem)).2
    have hvictim : r.victim = (some last.val, r.remove last.val last.addr) := by
      simp [LRUReplacer.victim, hzero, hlast, LRUReplacer.remove]
    rw [hvictim]
    refine ⟨p.removed last m', ?_, hrefines⟩
    simp [LruPointers.victim, h.nowSize, hzero, h.getPrev_tail hlast, h.getVal hmem, hm, hset, hm',
      removed]

/-- `Pin`. -/
theorem Refines.pin (h : Refines p r) (hr : r.Consistent) (f : FrameId) :
    ∃ p', p.pin f = some p' ∧ Refines p' (r.pin f) := by
  by_cases hbound : f > p.maxNumPages
  · refine ⟨p, if_pos hbound, ?_⟩
    rw [LRUReplacer.pin, if_pos (h.maxNumPages ▸ hbound)]
    exact h
  · obtain ⟨hget, hset⟩ := h.flag (Nat.not_lt.mp hbound)
    have hbound' : ¬ f > r.maxNumPages := h.maxNumPages ▸ hbound
    cases hflag : r.unpinned f with
    | false =>
      refine ⟨p, ?_, ?_⟩
      · simp [LruPointers.pin, hbound, hget, hflag]
      · simpa [LRUReplacer.pin, hbound', hflag] using h
    | true =>
      obtain ⟨a, ha⟩ := LRUReplacer.mem_frames.mp ((hr.unpinned_iff f).mp hflag)
      have hmap := (hr.map_iff f a).mpr ha
      obtain ⟨m, m', hm, hm', hrefines⟩ := h.remove hr ha
      have hpin : r.pin f = r.remove f a := by
        simp [LRUReplacer.pin, hbound', hflag, hmap, LRUReplacer.remove]
      rw [hpin]
      refine ⟨p.removed ⟨a, f⟩ m', ?_, hrefines⟩
      have hm₁ : p.memory.unlink (a + 2) = some m := hm
      have hm₂ : m.free (a + 2) = some m' := hm'
      simp [LruPointers.pin, hbound, hget, hflag, hset, h.map, hmap, hm₁, hm₂, removed]

/-- `Unpin`. -/
theorem Refines.unpin (h : Refines p r) (f : FrameId) :
    ∃ p', p.unpin f = some p' ∧ Refines p' (r.unpin f) := by
  by_cases hbound : f > p.maxNumPages
  · refine ⟨p, if_pos hbound, ?_⟩
    rw [LRUReplacer.unpin, if_pos (h.maxNumPages ▸ hbound)]
    exact h
  · obtain ⟨hget, hset⟩ := h.flag (Nat.not_lt.mp hbound)
    have hbound' : ¬ f > r.maxNumPages := h.maxNumPages ▸ hbound
    cases hflag : r.unpinned f with
    | true =>
      refine ⟨p, ?_, ?_⟩
      · simp [LruPointers.unpin, hbound, hget, hflag]
      · simpa [LRUReplacer.unpin, hbound', hflag] using h
    | false =>
      -- the new cell is linked in behind the head
      obtain ⟨b, l, hrest⟩ : ∃ b l, r.nodes.map addrOf ++ [p.tail] = b :: l :=
        List.exists_cons_of_ne_nil (by simp)
      have hlinked : p.memory.Linked (p.head :: b :: l) := hrest ▸ h.linked
      obtain ⟨m, hm, hlinked', hval, hlive⟩ :=
        hlinked.linkBehind (h.fresh p.nextAddr (Nat.le_refl _)) f
      rw [← hrest] at hlinked'
      refine ⟨p.added f m, ?_, ?_⟩
      · simp [LruPointers.unpin, hbound, hget, hflag, hset, hm, added]
      have hunpin : r.unpin f =
          { r with
            unpinned := fun g => if g = f then true else r.unpinned g
            nowSize := r.nowSize + 1
            nodes := ⟨r.nextAddr, f⟩ :: r.nodes
            map := fun g => if g = f then some r.nextAddr else r.map g
            nextAddr := r.nextAddr + 1 } := by
        simp [LRUReplacer.unpin, hbound', hflag]
      have hfresh : addrOf ⟨r.nextAddr, f⟩ = p.nextAddr := h.nextAddr.symm
      rw [hunpin]
      constructor
      · simpa [added, hfresh] using hlinked'
      · intro n hn
        show m.val (addrOf n) = n.val
        rw [hval, Function.update_apply]
        rcases List.mem_cons.mp hn with rfl | hn
        · rw [if_pos hfresh]
        · rw [if_neg (h.addrOf_ne hn), h.vals n hn]
      · intro a ha
        have hlt : p.nextAddr < a := ha
        show m.live a = false
        rw [hlive, Function.update_apply, if_neg (by omega), h.fresh a (by omega)]
      · intro g
        show Function.update p.map f (some p.nextAddr) g = Option.map _ (if g = f then _ else _)
        rw [Function.update_apply, h.map, h.nextAddr]
        split <;> rfl
      · exact h.unpinned_set f true
      · show p.nowSize + 1 = r.nowSize + 1
        rw [h.nowSize]
      · exact h.maxNumPages
      · show p.nextAddr + 1 = r.nextAddr + 1 + 2
        rw [h.nextAddr]
      · intro n hn
        rcases List.mem_cons.mp hn with rfl | hn
        · exact Nat.not_lt.mp hbound
        · exact h.bound n hn

/-! ### The list is the queue -/

/-- The frames of the list are those of the queue, the last one that came in in front. -/
structure Tracks (r : LRUReplacer) (q : Queue) : Prop where
  mem : ∀ f, f ∈ r.frames ↔ q.since f ≠ none
  past : ∀ f t, q.since f = some t → t < q.time
  order : r.frames.Pairwise fun f g => ∀ t u, q.since f = some t → q.since g = some u → u < t

/-- The map of a new replacer is empty. -/
theorem tracks_new (numPages : Nat) : Tracks (LRUReplacer.new numPages) {} where
  mem f := by simp [LRUReplacer.new, LRUReplacer.frames]
  past f t ht := by simp at ht
  order := by simp [LRUReplacer.new, LRUReplacer.frames]

/-- A frame of the list has a time. -/
theorem Tracks.since (h : Tracks r q) (hf : f ∈ r.frames) : ∃ t, q.since f = some t :=
  Option.ne_none_iff_exists'.mp ((h.mem f).mp hf)

/-- The list and the queue without one frame. -/
theorem Tracks.remove (h : Tracks r q) {r' : LRUReplacer}
    (hframes : r'.frames = r.frames.filter (· != f)) :
    Tracks r' (q.remove f) where
  mem g := by
    rw [hframes, List.mem_filter, h.mem, Queue.since_remove]
    by_cases hg : g = f <;> simp [hg]
  past g t ht := by
    rw [Queue.since_remove] at ht
    split at ht
    · cases ht
    · exact h.past g t ht
  order := by
    rw [hframes]
    apply (h.order.sublist List.filter_sublist).imp
    intro a b hab t u ha hb
    -- neither of the two is the frame that was taken out
    rw [Queue.since_remove] at ha hb
    split at ha
    · cases ha
    · split at hb
      · cases hb
      · exact hab t u ha hb

/-- `Victim` takes the frame that came in first. -/
theorem Tracks.victim (h : Tracks r q) (hr : r.Consistent) :
    ∃ q', Queue.Step q .victim r.victim.1 q' ∧ Tracks r.victim.2 q' ∧ r.victim.2.Consistent ∧
      r.victim.2.maxNumPages = r.maxNumPages := by
  rcases hr.victim_eq with ⟨hnil, hvictim⟩ | ⟨rest, f, r', hframes, hvictim, hrest, hr', hmax⟩
  · rw [hvictim]
    refine ⟨q, .empty q fun f => ?_, h, hr, rfl⟩
    have hnot : f ∉ r.frames := by simp [hnil]
    simpa [h.mem] using hnot
  · rw [hvictim]
    have hnodup := hr.frames_nodup
    have horder := h.order
    rw [hframes] at hnodup horder
    obtain ⟨t, ht⟩ := h.since (f := f) (by simp [hframes])
    refine ⟨_, .victim q f t ht fun g u hu => ?_, h.remove ?_, hr', hmax⟩
    · -- the frame is the last one of the list
      have hg : g ∈ rest ++ [f] := by
        rw [← hframes, h.mem]
        simp [hu]
      rcases List.mem_append.mp hg with hg | hg
      · exact Nat.le_of_lt ((List.pairwise_append.mp horder).2.2 g hg f (by simp) u t hu ht)
      · obtain rfl := List.mem_singleton.mp hg
        exact Nat.le_of_eq (Option.some.inj (ht.symm.trans hu))
    · rw [hrest, hframes, List.filter_append]
      have hkeep : rest.filter (· != f) = rest := by
        rw [List.filter_eq_self]
        intro g hg
        simpa using (List.nodup_append.mp hnodup).2.2 g hg f (by simp)
      simp [hkeep]

/-- `Pin` takes its frame out. -/
theorem Tracks.pin (h : Tracks r q) (hr : r.Consistent) (hf : f ≤ r.maxNumPages) :
    ∃ q', Queue.Step q (.pin f) none q' ∧ Tracks (r.pin f) q' ∧ (r.pin f).Consistent ∧
      (r.pin f).maxNumPages = r.maxNumPages := by
  obtain ⟨hframes, hr', hmax⟩ := hr.pin_frames hf
  exact ⟨_, .pin q f, h.remove hframes, hr', hmax⟩

/-- `Unpin` puts its frame in front, if it is not in the list. -/
theorem Tracks.unpin (h : Tracks r q) (hr : r.Consistent) (hf : f ≤ r.maxNumPages) :
    ∃ q', Queue.Step q (.unpin f) none q' ∧ Tracks (r.unpin f) q' ∧ (r.unpin f).Consistent ∧
      (r.unpin f).maxNumPages = r.maxNumPages := by
  obtain ⟨hframes, hr', hmax⟩ := hr.unpin_frames hf
  by_cases hmem : f ∈ r.frames
  · rw [if_pos hmem] at hframes
    refine ⟨q, .again q f ((h.mem f).mp hmem), ⟨?_, h.past, ?_⟩, hr', hmax⟩
    · intro g
      rw [hframes]
      exact h.mem g
    · rw [hframes]
      exact h.order
  · rw [if_neg hmem] at hframes
    have hnone : q.since f = none := by simpa [h.mem] using hmem
    refine ⟨_, .unpin q f hnone, ⟨?_, ?_, ?_⟩, hr', hmax⟩
    · intro g
      rw [hframes, List.mem_cons, h.mem, Queue.since_enter]
      by_cases hg : g = f <;> simp [hg]
    · intro g t ht
      rw [Queue.since_enter] at ht
      split at ht
      · obtain rfl := Option.some.inj ht
        exact Nat.lt_succ_self _
      · exact Nat.lt_succ_of_lt (h.past g t ht)
    · rw [hframes, List.pairwise_cons]
      have hother : ∀ g ∈ r.frames, g ≠ f := fun g hg heq => hmem (heq ▸ hg)
      constructor
      · intro g hg t u ht hu
        rw [Queue.since_enter, if_pos rfl] at ht
        rw [Queue.since_enter, if_neg (hother g hg)] at hu
        obtain rfl := Option.some.inj ht
        exact h.past g u hu
      · apply h.order.imp_of_mem
        intro a b ha hb hab t u ht hu
        rw [Queue.since_enter, if_neg (hother a ha)] at ht
        rw [Queue.since_enter, if_neg (hother b hb)] at hu
        exact hab t u ht hu

/-! ### The runs -/

/-- The pointers are a list, and the list is the queue. -/
structure Simulates (p : LruPointers) (r : LRUReplacer) (q : Queue) : Prop where
  refines : Refines p r
  consistent : r.Consistent
  tracks : Tracks r q

/-- The nodes with their addresses in memory. -/
def inMemory (nodes : List LruNode) : List LruNode := nodes.map fun n => ⟨addrOf n, n.val⟩

/-- The cells in memory hold the frames of the list. -/
theorem map_val_inMemory (r : LRUReplacer) : (inMemory r.nodes).map (·.val) = r.frames := by
  simp [inMemory, LRUReplacer.frames]

/-- All four parts of the replacer are the queue. -/
theorem Simulates.holds (h : Simulates p r q) : p.Holds q (inMemory r.nodes) where
  linked := by
    have haddrs : (inMemory r.nodes).map (·.addr) = r.nodes.map addrOf := by simp [inMemory]
    rw [haddrs]
    exact h.refines.linked
  vals n hn := by
    obtain ⟨k, hk, rfl⟩ := List.mem_map.mp hn
    exact h.refines.vals k hk
  nodup := by
    rw [map_val_inMemory]
    exact h.consistent.frames_nodup
  map f a := by
    have hmem : (⟨a, f⟩ : LruNode) ∈ inMemory r.nodes ↔ ∃ b, ⟨b, f⟩ ∈ r.nodes ∧ b + 2 = a := by
      simp only [inMemory, List.mem_map, LruNode.mk.injEq]
      constructor
      · rintro ⟨⟨b, g⟩, hn, hb, rfl⟩
        exact ⟨b, hn, hb⟩
      · rintro ⟨b, hn, hb⟩
        exact ⟨⟨b, f⟩, hn, hb, rfl⟩
    rw [h.refines.map, hmem, Option.map_eq_some_iff]
    simp [h.consistent.map_iff]
  unpinned f := by
    rw [map_val_inMemory, ← h.consistent.unpinned_iff, h.refines.unpinned]
    constructor
    · intro hflag
      split at hflag
      · exact Option.some.inj hflag
      · cases hflag
    · intro hflag
      -- a frame of the list is within the bound
      obtain ⟨a, ha⟩ := LRUReplacer.mem_frames.mp ((h.consistent.unpinned_iff f).mp hflag)
      have hle : f ≤ p.maxNumPages := h.refines.bound _ ha
      rw [if_pos (Nat.lt_of_le_of_lt hle (Nat.lt_add_of_pos_right (by decide))), hflag]
  size := by
    rw [h.refines.nowSize, h.consistent.size_eq]
    simp [inMemory]
  mem f := by
    rw [map_val_inMemory]
    exact h.tracks.mem f
  order := by
    rw [map_val_inMemory]
    exact h.tracks.order

/-- A call follows pointers to nodes of the list only, and does what the queue does. -/
theorem Simulates.call (h : Simulates p r q) {c : ReplacerCall} (hc : c.AtMost r.maxNumPages) :
    ∃ a p' r' q', p.call c = some (a, p') ∧ Queue.Step q c a q' ∧ Simulates p' r' q' ∧
      r'.maxNumPages = r.maxNumPages := by
  obtain ⟨hrefines, hr, htracks⟩ := h
  cases c with
  | victim =>
    obtain ⟨p', hp', hrefines'⟩ := hrefines.victim hr
    obtain ⟨q', hstep, htracks', hr', hmax⟩ := htracks.victim hr
    exact ⟨_, p', _, q', hp', hstep, ⟨hrefines', hr', htracks'⟩, hmax⟩
  | pin f =>
    obtain ⟨p', hp', hrefines'⟩ := hrefines.pin hr f
    obtain ⟨q', hstep, htracks', hr', hmax⟩ := htracks.pin hr hc
    exact ⟨none, p', _, q', by simp [LruPointers.call, hp'], hstep, ⟨hrefines', hr', htracks'⟩,
      hmax⟩
  | unpin f =>
    obtain ⟨p', hp', hrefines'⟩ := hrefines.unpin f
    obtain ⟨q', hstep, htracks', hr', hmax⟩ := htracks.unpin hr hc
    exact ⟨none, p', _, q', by simp [LruPointers.call, hp'], hstep, ⟨hrefines', hr', htracks'⟩,
      hmax⟩

/-- So do calls one after another. -/
theorem Simulates.calls (h : Simulates p r q) {cs : List ReplacerCall}
    (hcs : ∀ c ∈ cs, c.AtMost r.maxNumPages) :
    ∃ as p' r' q', p.calls cs = some (as, p') ∧ Queue.Steps q cs as q' ∧ Simulates p' r' q' := by
  induction cs generalizing p r q with
  | nil => exact ⟨[], p, r, q, rfl, .nil q, h⟩
  | cons c cs ih =>
    obtain ⟨a, p', r', q', hcall, hstep, h', hmax⟩ := h.call (hcs c (by simp))
    obtain ⟨as, p'', r'', q'', hcalls, hsteps, h''⟩ := ih h' fun c hc => by
      rw [hmax]
      exact hcs c (by simp [hc])
    exact ⟨a :: as, p'', r'', q'', by simp [LruPointers.calls, hcall, hcalls], .cons hstep hsteps,
      h''⟩

/-- For every number of pages and every sequence of calls with frame ids up to it, whatever memory
holds before: no call follows a pointer to a node that is not there, the answers are those of the
queue, and the list, the map, the flags and the size describe the queue at the end. -/
theorem lru_replacer_refines_queue (garbage : Lib.Memory FrameId) (numPages : Nat)
    (cs : List ReplacerCall) (hcs : ∀ c ∈ cs, c.AtMost numPages) :
    ∃ answers r q nodes, (new garbage numPages).calls cs = some (answers, r) ∧
      Queue.Steps {} cs answers q ∧ r.Holds q nodes := by
  have hnew : Simulates (new garbage numPages) (LRUReplacer.new numPages) {} :=
    ⟨refines_new garbage numPages, LRUReplacer.consistent_new numPages, tracks_new numPages⟩
  obtain ⟨answers, p, r, q, hcalls, hsteps, hsim⟩ := hnew.calls hcs
  exact ⟨answers, p, q, _, hcalls, hsteps, hsim.holds⟩

/-- Two pages: the frame that came in first is the victim. -/
theorem lru_replacer_refines_queue_two :
    ∃ answers r q nodes, (new ⟨fun _ => false, fun _ => 0, fun _ => 0, fun _ => 0⟩ 2).calls
        [.unpin 2, .unpin 1, .unpin 2, .victim, .pin 1] = some (answers, r) ∧
      Queue.Steps {} [.unpin 2, .unpin 1, .unpin 2, .victim, .pin 1] answers q ∧ r.Holds q nodes :=
  lru_replacer_refines_queue _ 2 _ (by simp [ReplacerCall.AtMost])

end DisMiniSql.MiniSql.LruPointers
