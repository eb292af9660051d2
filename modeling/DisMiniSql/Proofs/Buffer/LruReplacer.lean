import Mathlib.Data.List.Nodup
import DisMiniSql.MiniSql.Buffer.LruReplacer

/-!
# `DisMiniSql.Proofs.Buffer.LruReplacer`: the replacer as a queue of frames

The list, the map, the flags and the counter of an `LRUReplacer` hold the same frames
(`LRUReplacer.Consistent`). Under this invariant the replacer is the queue `frames`, most
recently unpinned first: `victim_eq` takes the last frame, `pin_frames` removes one frame and
`unpin_frames` puts a new frame in front.
-/

set_option autoImplicit false

namespace DisMiniSql.MiniSql.LRUReplacer

/-- The frames of the linked list, from `head->next` to `tail->prev`. -/
def frames (r : LRUReplacer) : List FrameId := r.nodes.map (·.val)

/-- The list, the map, the flags and the counter describe the same frames. -/
structure Consistent (r : LRUReplacer) : Prop where
  addrs_nodup : (r.nodes.map (·.addr)).Nodup
  frames_nodup : r.frames.Nodup
  addr_lt : ∀ n ∈ r.nodes, n.addr < r.nextAddr
  map_iff : ∀ f a, r.map f = some a ↔ ⟨a, f⟩ ∈ r.nodes
  unpinned_iff : ∀ f, r.unpinned f = true ↔ f ∈ r.frames
  size_eq : r.nowSize = r.nodes.length

variable {f : FrameId} {r : LRUReplacer}

/-- A frame of the list stands in a cell. -/
theorem mem_frames :
    f ∈ r.frames ↔ ∃ a, ⟨a, f⟩ ∈ r.nodes := by
  simp only [frames, List.mem_map]
  constructor
  · rintro ⟨⟨a, v⟩, hn, rfl⟩
    exact ⟨a, hn⟩
  · rintro ⟨a, ha⟩
    exact ⟨⟨a, f⟩, ha, rfl⟩

/-- A new replacer is consistent. -/
theorem consistent_new (n : Nat) : (new n).Consistent where
  addrs_nodup := List.nodup_nil
  frames_nodup := List.nodup_nil
  addr_lt := by simp [new]
  map_iff := by simp [new]
  unpinned_iff := by simp [new, frames]
  size_eq := rfl

/-- Two nodes with the same frame are the same node. -/
theorem Consistent.addr_unique (hr : r.Consistent) {a b : Nat} (ha : ⟨a, f⟩ ∈ r.nodes)
    (hb : ⟨b, f⟩ ∈ r.nodes) : a = b := by
  have h := (hr.map_iff f a).mpr ha
  rw [(hr.map_iff f b).mpr hb] at h
  exact (Option.some.inj h).symm

/-- Unlinking the node of the frame `f` leaves the nodes of the other frames. -/
theorem Consistent.mem_unlink (hr : r.Consistent) {a : Nat} (ha : ⟨a, f⟩ ∈ r.nodes) (n : LruNode) :
    n ∈ unlink r.nodes a ↔ n ∈ r.nodes ∧ n.val ≠ f := by
  simp only [unlink, List.mem_filter, bne_iff_ne, ne_eq, and_congr_right_iff]
  intro hn
  obtain ⟨b, v⟩ := n
  constructor
  · rintro hb rfl
    exact hb (hr.addr_unique hn ha)
  · rintro hv rfl
    exact hv (congrArg LruNode.val (List.inj_on_of_nodup_map hr.addrs_nodup hn ha rfl))

/-- One node has the address `a`, so `unlink` drops exactly one. -/
theorem length_unlink {nodes : List LruNode} (hnodup : (nodes.map (·.addr)).Nodup)
    {n : LruNode} (hn : n ∈ nodes) : (unlink nodes n.addr).length = nodes.length - 1 := by
  induction nodes with
  | nil => cases hn
  | cons m ms ih =>
    rw [List.map_cons, List.nodup_cons] at hnodup
    obtain ⟨hm, hms⟩ := hnodup
    rcases List.mem_cons.mp hn with rfl | hn
    · have hall : ms.filter (fun k => k.addr != n.addr) = ms := by
        rw [List.filter_eq_self]
        intro k hk
        simp only [bne_iff_ne, ne_eq]
        exact fun h => hm (h ▸ List.mem_map_of_mem hk)
      simp [unlink, hall]
    · have hne : m.addr ≠ n.addr := fun h => hm (h ▸ List.mem_map_of_mem hn)
      have hpos : 0 < ms.length := List.length_pos_of_mem hn
      have h := ih hms hn
      simp only [unlink] at h ⊢
      rw [List.filter_cons_of_pos (by simpa using hne), List.length_cons, h, List.length_cons]
      omega

/-- The state after the node of `f` at the address `a` is taken out: the part that `Victim` and
`Pin` share. -/
def remove (r : LRUReplacer) (f : FrameId) (a : Nat) : LRUReplacer :=
  { r with
      nodes := unlink r.nodes a
      map := fun g => if g = f then none else r.map g
      unpinned := fun g => if g = f then false else r.unpinned g
      nowSize := r.nowSize - 1 }

/-- Taking a cell out takes its frame out of list and map. -/
theorem Consistent.remove (hr : r.Consistent) {a : Nat} (ha : ⟨a, f⟩ ∈ r.nodes) :
    (r.remove f a).Consistent where
  addrs_nodup := hr.addrs_nodup.sublist (List.filter_sublist.map _)
  frames_nodup := hr.frames_nodup.sublist (List.filter_sublist.map _)
  addr_lt := fun n hn => hr.addr_lt n ((hr.mem_unlink ha n).mp hn).1
  map_iff := by
    intro g b
    show (if g = f then none else r.map g) = some b ↔ _ ∈ unlink r.nodes a
    rw [hr.mem_unlink ha]
    by_cases hg : g = f
    · simp [hg]
    · simp [hg, hr.map_iff]
  unpinned_iff := by
    intro g
    show (if g = f then false else r.unpinned g) = true ↔ g ∈ (r.remove f a).frames
    rw [mem_frames]
    simp only [LRUReplacer.remove, hr.mem_unlink ha]
    by_cases hg : g = f
    · simp [hg]
    · simp [hg, hr.unpinned_iff, mem_frames]
  size_eq := by
    show r.nowSize - 1 = (unlink r.nodes a).length
    rw [hr.size_eq, length_unlink hr.addrs_nodup ha]

/-- Taking out the node of `f` removes `f` from the queue and keeps the order of the rest. -/
theorem Consistent.remove_frames (hr : r.Consistent) {a : Nat} (ha : ⟨a, f⟩ ∈ r.nodes) :
    (r.remove f a).frames = r.frames.filter (· != f) := by
  show (unlink r.nodes a).map (·.val) = (r.nodes.map (·.val)).filter (· != f)
  rw [List.filter_map]
  refine congrArg _ (List.filter_congr fun n hn => ?_)
  have h := hr.mem_unlink ha n
  rw [unlink, List.mem_filter] at h
  rw [Bool.eq_iff_iff, Function.comp_apply, bne_iff_ne (a := n.val)]
  exact ⟨fun hx => (h.mp ⟨hn, hx⟩).2, fun hx => (h.mpr ⟨hn, hx⟩).2⟩

/-- `Victim` fails exactly on the empty queue, and else takes its last frame. -/
theorem Consistent.victim_eq (hr : r.Consistent) :
    (r.frames = [] ∧ r.victim = (none, r)) ∨
    ∃ rest f r', r.frames = rest ++ [f] ∧ r.victim = (some f, r') ∧ r'.frames = rest ∧
      r'.Consistent ∧ r'.maxNumPages = r.maxNumPages := by
  rcases List.eq_nil_or_concat r.nodes with hnil | ⟨init, last, hlast⟩
  · left
    refine ⟨by simp [frames, hnil], ?_⟩
    simp [victim, hr.size_eq, hnil]
  · right
    have hmem : last ∈ r.nodes := by simp [hlast]
    have hsize : (r.nowSize == 0) = false := by simp [hr.size_eq, hlast]
    refine ⟨init.map (·.val), last.val, r.remove last.val last.addr, ?_, ?_, ?_,
      hr.remove hmem, rfl⟩
    · simp [frames, hlast]
    · simp [victim, hsize, hlast, LRUReplacer.remove]
    · rw [hr.remove_frames hmem]
      have hnd := hr.frames_nodup
      simp only [frames, hlast, List.concat_eq_append, List.map_append, List.map_cons,
        List.map_nil, List.nodup_append, List.mem_singleton] at hnd ⊢
      rw [List.filter_append, List.filter_cons_of_neg (by simp), List.filter_nil,
        List.append_nil, List.filter_eq_self]
      intro g hg
      simpa using hnd.2.2 g hg last.val rfl

/-- `Pin` removes its frame from the queue, and only this frame. -/
theorem Consistent.pin_frames (hr : r.Consistent) (hf : f ≤ r.maxNumPages) :
    (r.pin f).frames = r.frames.filter (· != f) ∧ (r.pin f).Consistent ∧
      (r.pin f).maxNumPages = r.maxNumPages := by
  have hle : ¬ f > r.maxNumPages := Nat.not_lt.mpr hf
  by_cases hmem : f ∈ r.frames
  · obtain ⟨a, ha⟩ := mem_frames.mp hmem
    have hpin : r.pin f = r.remove f a := by
      simp only [pin, hle, if_false, (hr.unpinned_iff f).mpr hmem, (hr.map_iff f a).mpr ha]
      rfl
    rw [hpin]
    exact ⟨hr.remove_frames ha, hr.remove ha, rfl⟩
  · have hun : r.unpinned f = false := by
      rw [← Bool.not_eq_true, hr.unpinned_iff]
      exact hmem
    have hpin : r.pin f = r := by simp [pin, hle, hun]
    rw [hpin]
    refine ⟨(List.filter_eq_self.mpr fun g hg => ?_).symm, hr, rfl⟩
    simp only [bne_iff_ne, ne_eq]
    rintro rfl
    exact hmem hg

/-- `Unpin` puts a frame that is not in the queue in front, and changes nothing for a frame
that is. -/
theorem Consistent.unpin_frames (hr : r.Consistent) (hf : f ≤ r.maxNumPages) :
    (r.unpin f).frames = (if f ∈ r.frames then r.frames else f :: r.frames) ∧
      (r.unpin f).Consistent ∧ (r.unpin f).maxNumPages = r.maxNumPages := by
  have hle : ¬ f > r.maxNumPages := Nat.not_lt.mpr hf
  by_cases hmem : f ∈ r.frames
  · have hunpin : r.unpin f = r := by simp [unpin, hle, (hr.unpinned_iff f).mpr hmem]
    rw [hunpin, if_pos hmem]
    exact ⟨rfl, hr, rfl⟩
  · have hun : r.unpinned f = false := by
      rw [← Bool.not_eq_true, hr.unpinned_iff]
      exact hmem
    have hunpin : r.unpin f =
        { r with
            unpinned := fun g => if g = f then true else r.unpinned g
            nowSize := r.nowSize + 1
            nodes := ⟨r.nextAddr, f⟩ :: r.nodes
            map := fun g => if g = f then some r.nextAddr else r.map g
            nextAddr := r.nextAddr + 1 } := by simp [unpin, hle, hun]
    rw [hunpin, if_neg hmem]
    refine ⟨rfl, ⟨?_, ?_, ?_, ?_, ?_, ?_⟩, rfl⟩
    · -- The new address is above every address in the list.
      rw [List.map_cons, List.nodup_cons]
      refine ⟨fun h => ?_, hr.addrs_nodup⟩
      obtain ⟨n, hn, he⟩ := List.mem_map.mp h
      have := hr.addr_lt n hn
      simp only at he
      omega
    · exact List.nodup_cons.mpr ⟨hmem, hr.frames_nodup⟩
    · intro n hn
      rcases List.mem_cons.mp hn with rfl | hn
      · simp
      · have := hr.addr_lt n hn
        simp only
        omega
    · intro g a
      by_cases hg : g = f
      · subst hg
        have hno : ∀ b, (⟨b, g⟩ : LruNode) ∉ r.nodes := fun b hb =>
          hmem (mem_frames.mpr ⟨b, hb⟩)
        simp only [if_true, Option.some.injEq, List.mem_cons, LruNode.mk.injEq, and_true, hno,
          or_false]
        exact eq_comm
      · simp [hg, hr.map_iff]
    · intro g
      by_cases hg : g = f
      · simp [frames, hg]
      · simp [frames, hg, hr.unpinned_iff]
    · simp [hr.size_eq]

end DisMiniSql.MiniSql.LRUReplacer
