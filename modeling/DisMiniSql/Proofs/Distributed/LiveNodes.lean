import DisMiniSql.Distributed.Zk.LiveNodes

/-!
# `DisMiniSql.Proofs.Distributed.LiveNodes`: the listing of the nodes

`liveNodes` reads the names in the directory and then one znode after another, while nodes come and
go. `Progress` is what its loop has got so far: every node that has stayed is in the result or still
to be read. A znode that has gone when its turn comes makes the call return no node at all.

`live_nodes_right_iff` says in which runs each listing is right: a departure hits the loop only when
no node has stayed. `run_liveNodes` is the call with nobody else around.
-/

set_option autoImplicit false

namespace DisMiniSql.Distributed

open DisMiniSql.Lib (Prog Guarded)

namespace NodeDir

variable {d : NodeDir} {name : String}

theorem find_eq_none_iff : d.find name = none ↔ name ∉ d.names := by
  rw [find, List.find?_eq_none, names, List.mem_map]
  constructor
  · rintro h ⟨z, hz, rfl⟩
    exact h z hz (beq_self_eq_true _)
  · intro h z hz hname
    exact h ⟨z, hz, beq_iff_eq.mp hname⟩

theorem name_of_find {z : Ephemeral} (h : d.find name = some z) : z ∈ d.znodes ∧ z.name = name := by
  have hname := List.find?_some h
  exact ⟨List.mem_of_find?_eq_some h, beq_iff_eq.mp hname⟩

/-- `getChildren` returns the names, in whatever order. -/
theorem getChildren_perm (order : List String) (d : NodeDir) :
    (d.sem order .getChildren).1.Perm d.names := by
  show (if order.Perm d.names then order else d.names).Perm d.names
  split
  · next h => exact h
  · exact .refl _

end NodeDir

/-- The node is registered at every moment. -/
def Stays (moments : List NodeDir) (nodeId : String) : Prop := ∀ d ∈ moments, nodeId ∈ d.names

/-- The record is registered at some moment. -/
def Seen (moments : List NodeDir) (info : NodeInfo) : Prop :=
  ∃ d ∈ moments, ∃ z ∈ d.znodes, z.data = info

/-- What the result of a listing should be, for the moments of the call. -/
structure RightList (moments : List NodeDir) (result : List NodeInfo) : Prop where
  complete : ∀ nodeId, Stays moments nodeId → nodeId ∈ result.map (·.nodeId)
  registered : ∀ info ∈ result, Seen moments info
  nodup : (result.map (·.nodeId)).Nodup

/-- The call has the result it should have, if it has one. -/
def NodeListing.RightListing (s : NodeListing) : Prop :=
  ∀ result, s.listing.bind Prog.result = some result → RightList s.moments result

/-- When the turn of a znode comes, it is there or no node has stayed. -/
def NodeListing.NoDeparture (s : NodeListing) : NodeEvent → Prop
  | .read _ =>
    ∀ name next, s.listing = some (.call (.getData name) next) →
      name ∈ s.dir.names ∨ ∀ nodeId, ¬ Stays s.moments nodeId
  | _ => True

/-! ### The loop -/

/-- The loop has read `result`, and `children` are still to be read. -/
structure Progress (moments : List NodeDir) (result : List NodeInfo) (children : List String) :
    Prop where
  complete : ∀ nodeId, Stays moments nodeId → nodeId ∈ result.map (·.nodeId) ++ children
  registered : ∀ info ∈ result, Seen moments info
  nodup : (result.map (·.nodeId) ++ children).Nodup

namespace Progress

variable {moments : List NodeDir} {result : List NodeInfo} {children : List String}

theorem append (h : Progress moments result children) (d : NodeDir) :
    Progress (moments ++ [d]) result children where
  complete nodeId hstays := h.complete nodeId fun e he => hstays e (List.mem_append_left _ he)
  registered info hinfo := by
    obtain ⟨e, he, hseen⟩ := h.registered info hinfo
    exact ⟨e, List.mem_append_left _ he, hseen⟩
  nodup := h.nodup

/-- The names that `getChildren` returns. -/
theorem getChildren {d : NodeDir} (h : d ∈ moments) (hperm : children.Perm d.names) :
    Progress moments [] children where
  complete _ hstays := hperm.mem_iff.mpr (hstays d h)
  registered _ hinfo := absurd hinfo List.not_mem_nil
  nodup := hperm.nodup_iff.mpr d.nodup

/-- The next znode is there. -/
theorem getData {d : NodeDir} {child : String} {z : Ephemeral}
    (h : Progress moments result (child :: children)) (hd : d ∈ moments)
    (hz : d.find child = some z) : Progress moments (result ++ [z.data]) children := by
  obtain ⟨hmem, hname⟩ := NodeDir.name_of_find hz
  have hnames : (result ++ [z.data]).map (·.nodeId) ++ children =
      result.map (·.nodeId) ++ child :: children := by
    rw [List.map_append, List.append_assoc, ← hname]
    rfl
  refine ⟨fun nodeId hstays => ?_, fun info hinfo => ?_, ?_⟩
  · rw [hnames]
    exact h.complete nodeId hstays
  · rcases List.mem_append.mp hinfo with hinfo | hinfo
    · exact h.registered info hinfo
    · obtain rfl := List.mem_singleton.mp hinfo
      exact ⟨d, hd, z, hmem, rfl⟩
  · rw [hnames]
    exact h.nodup

/-- The loop is at its end, and the result is sorted. -/
theorem sorted (h : Progress moments result []) :
    RightList moments (result.insertionSort fun a b => a.nodeId ≤ b.nodeId) := by
  have hperm := List.perm_insertionSort (fun a b : NodeInfo => a.nodeId ≤ b.nodeId) result
  refine ⟨fun nodeId hstays => ?_, fun info hinfo => ?_, ?_⟩
  · have hmem := h.complete nodeId hstays
    rw [List.append_nil] at hmem
    exact (hperm.map _).mem_iff.mpr hmem
  · exact h.registered info (hperm.mem_iff.mp hinfo)
  · have hnodup := h.nodup
    rw [List.append_nil] at hnodup
    exact (hperm.map _).nodup_iff.mpr hnodup

end Progress

/-- Where a call of `liveNodes` is. -/
inductive Listing (dir : NodeDir) (moments : List NodeDir) :
    Option (DirProg (List NodeInfo)) → Prop
  | idle : Listing dir moments none
  | begun (h : dir ∈ moments) : Listing dir moments (some DirProg.liveNodes)
  | reading {result : List NodeInfo} {child : String} {children : List String}
      (h : dir ∈ moments) (hprogress : Progress moments result (child :: children)) :
      Listing dir moments (some (DirProg.readEach result (child :: children)))
  | done {result : List NodeInfo} (h : RightList moments result) :
      Listing dir moments (some (.pure result))

theorem Listing.of_progress {dir : NodeDir} {moments : List NodeDir} {result : List NodeInfo}
    {children : List String} (hdir : dir ∈ moments) (h : Progress moments result children) :
    Listing dir moments (some (DirProg.readEach result children)) := by
  cases children with
  | nil => exact .done h.sorted
  | cons child children => exact .reading hdir h

namespace NodeListing

variable {s : NodeListing} {order : List String}

/-- What other calls and the ends of sessions do leaves the call where it is. -/
theorem listing_setDir (h : Listing s.dir s.moments s.listing) (d : NodeDir) :
    Listing d (s.setDir d).moments s.listing := by
  unfold setDir isRunning
  generalize s.listing = listing at h ⊢
  cases h with
  | idle => exact .idle
  | begun h => exact .begun (List.mem_append_right _ (List.mem_singleton_self d))
  | reading h hprogress =>
    exact .reading (List.mem_append_right _ (List.mem_singleton_self d)) (hprogress.append d)
  | done h => exact .done h

/-- A listing that has come to its end has given the right answer. -/
theorem rightListing_of (h : Listing s.dir s.moments s.listing) : s.RightListing := by
  unfold RightListing
  generalize s.listing = listing at h ⊢
  intro result hresult
  cases h with
  | idle => cases hresult
  | begun h => cases hresult
  | reading h hprogress => cases hresult
  | done h =>
    obtain rfl := Option.some.inj hresult
    exact h

theorem step_read {o : DirOp} {next : o.Res → DirProg (List NodeInfo)}
    (h : s.listing = some (.call o next)) :
    s.step (.read order) =
      { s with dir := (s.dir.sem order o).2, listing := some (next (s.dir.sem order o).1) } := by
  simp only [step, h]

theorem step_read_result {result : List NodeInfo} (h : s.listing = some (.pure result)) :
    s.step (.read order) = s := by
  simp only [step, h]

section
variable {result : List NodeInfo} {child : String} {children : List String}

/-- The next znode of the loop is there. -/
theorem step_read_some (h : s.listing = some (DirProg.readEach result (child :: children)))
    {z : Ephemeral} (hz : s.dir.find child = some z) :
    s.step (.read order) =
      { s with listing := some (DirProg.readEach (result ++ [z.data]) children) } := by
  have hdata : (s.dir.sem order (.getData child)).1 = some z.data := by
    show (s.dir.find child).map (·.data) = _
    rw [hz]
    rfl
  rw [step_read h, hdata]
  rfl

/-- The next znode of the loop has gone. -/
theorem step_read_none (h : s.listing = some (DirProg.readEach result (child :: children)))
    (hgone : s.dir.find child = none) :
    s.step (.read order) = { s with listing := some (.pure []) } := by
  have hdata : (s.dir.sem order (.getData child)).1 = none := by
    show (s.dir.find child).map (·.data) = _
    rw [hgone]
    rfl
  rw [step_read h, hdata]
  rfl

end

/-- An operation of the call. -/
theorem listing_read (h : Listing s.dir s.moments s.listing) (hread : s.NoDeparture (.read order)) :
    Listing (s.step (.read order)).dir (s.step (.read order)).moments
      (s.step (.read order)).listing := by
  cases hlisting : s.listing with
  | none =>
    have hstep : s.step (.read order) = s := by
      simp only [step, hlisting]
    rw [hstep]
    exact h
  | some p =>
    rw [hlisting] at h
    cases h with
    | begun h =>
      rw [step_read hlisting]
      exact .of_progress h (.getChildren h (s.dir.getChildren_perm order))
    | @reading result child children h hprogress =>
      cases hfind : s.dir.find child with
      | some z =>
        rw [step_read_some hlisting hfind]
        exact .of_progress h (hprogress.getData h hfind)
      | none =>
        rw [step_read_none hlisting hfind]
        -- the znode has gone
        have hnobody := (hread child _ hlisting).resolve_left (NodeDir.find_eq_none_iff.mp hfind)
        exact .done ⟨fun nodeId hstays => absurd hstays (hnobody nodeId),
          fun info hinfo => absurd hinfo List.not_mem_nil, List.nodup_nil⟩
    | done h =>
      rw [step_read_result hlisting, hlisting]
      exact .done h

/-- A listing that is right after an operation was not spoiled by it. -/
theorem noDeparture_of_rightListing (h : Listing s.dir s.moments s.listing)
    (hright : (s.step (.read order)).RightListing) : s.NoDeparture (.read order) := by
  intro name next hnext
  rw [hnext] at h
  by_contra hnot
  rw [not_or, not_forall] at hnot
  obtain ⟨hgone, nodeId, hstays⟩ := hnot
  generalize hp : Prog.call (DirOp.getData name) next = p at h hnext
  cases h with
  | begun h => cases hp
  | @reading result child children h hprogress =>
    cases hp
    rw [step_read_none hnext (NodeDir.find_eq_none_iff.mpr hgone)] at hright
    have hempty := (hright [] rfl).complete nodeId (not_not.mp hstays)
    exact absurd hempty List.not_mem_nil
  | done h => cases hp

/-- One event. -/
theorem listing_step (h : Listing s.dir s.moments s.listing) {e : NodeEvent}
    (he : s.NoDeparture e) :
    Listing (s.step e).dir (s.step e).moments (s.step e).listing := by
  cases e with
  | upsert info => exact h
  | write k =>
    unfold step
    dsimp only
    split
    · exact listing_setDir h _
    · exact h
  | expire nodeId => exact listing_setDir h _
  | list => exact .begun (List.mem_singleton_self s.dir)
  | read order => exact listing_read h he

end NodeListing

/-- In every run, each call of `liveNodes` that has returned has returned every node that stayed
registered throughout the call, only nodes that were registered at some moment of it, and no node
twice: exactly if no znode that the call has listed is gone when its turn comes, unless no node has
stayed registered. -/
theorem live_nodes_right_iff (events : List NodeEvent) :
    (∀ n, ((events.take n).foldl NodeListing.step {}).RightListing) ↔
      Guarded NodeListing.NoDeparture NodeListing.step {} events := by
  have hinit : Listing NodeDir.empty [] none := .idle
  refine Guarded.iff_forall_take_of (J := fun s : NodeListing => Listing s.dir s.moments s.listing)
    (fun s h => NodeListing.rightListing_of h) (fun s e h he => NodeListing.listing_step h he)
    (fun s e h hright => ?_) events {} hinit
  cases e with
  | read order => exact NodeListing.noDeparture_of_rightListing h hright
  | upsert info => trivial
  | write k => trivial
  | expire nodeId => trivial
  | list => trivial

/-- A node that serves nothing yet. -/
def idleNode (nodeId : String) : NodeInfo :=
  { nodeId := nodeId, shards := [], replicaState := .SERVING }

/-- Two nodes are registered and are listed; the second one goes after the first one is read. -/
def departure : List NodeEvent :=
  [.upsert (idleNode "dn1"), .write 0, .write 0, .upsert (idleNode "dn2"), .write 1, .write 1,
    .list, .read ["dn1", "dn2"], .read [], .expire "dn2", .read []]

/-- The first node stays registered, and the call returns no node. -/
theorem not_live_nodes_right :
    ¬ ∀ (events : List NodeEvent) (n : Nat),
      ((events.take n).foldl NodeListing.step {}).RightListing := by
  intro h
  have hcomplete := (h departure departure.length [] rfl).complete "dn1" (by
    intro d hd
    have hmoments : ((departure.take departure.length).foldl NodeListing.step {}).moments.all
        (fun d => d.names.contains "dn1") = true := by
      decide
    exact List.contains_iff_mem.mp (List.all_eq_true.mp hmoments d hd))
  exact absurd hcomplete List.not_mem_nil

/-! ### A call with nobody else around -/

/-- The records in the directory. -/
def NodeDir.infos (d : NodeDir) : List NodeInfo := d.znodes.map (·.data)

theorem NodeDir.find_of_mem {d : NodeDir} {z : Ephemeral} (h : z ∈ d.znodes) :
    d.find z.name = some z := by
  obtain ⟨w, hw⟩ : ∃ w, d.find z.name = some w := by
    rw [← Option.isSome_iff_exists, find, List.find?_isSome]
    exact ⟨z, h, beq_self_eq_true _⟩
  obtain ⟨hmem, hname⟩ := name_of_find hw
  rw [hw, List.inj_on_of_nodup_map d.nodup hmem h hname]

/-- Read alone, the nodes are those that are there, in the order of their ids. -/
theorem run_readEach {order : List String} {d : NodeDir} (result : List NodeInfo)
    {children : List String} (h : ∀ child ∈ children, child ∈ d.names) :
    (DirProg.readEach result children).run (NodeDir.sem order) d =
      (d, some ((result ++ children.filterMap fun child =>
        (d.find child).map (·.data)).insertionSort fun a b => a.nodeId ≤ b.nodeId)) := by
  induction children generalizing result with
  | nil =>
    rw [List.filterMap_nil, List.append_nil]
    rfl
  | cons child children ih =>
    obtain ⟨z, hz, rfl⟩ := List.mem_map.mp (h child List.mem_cons_self)
    have hfind := NodeDir.find_of_mem hz
    have hop : (Prog.op (DirOp.getData z.name)).run (NodeDir.sem order) d =
        (d, some (some z.data)) := by
      show (d, some ((d.find z.name).map (·.data))) = _
      rw [hfind]
      rfl
    rw [DirProg.readEach, Prog.run_bind hop]
    dsimp only
    rw [ih _ fun c hc => h c (List.mem_cons_of_mem _ hc), List.filterMap_cons, hfind,
      List.append_assoc]
    rfl

/-- The records that the loop finds, whatever the order of the names. -/
theorem NodeDir.filterMap_find_perm {d : NodeDir} {children : List String}
    (h : children.Perm d.names) :
    (children.filterMap fun child => (d.find child).map (·.data)).Perm d.infos := by
  refine (h.filterMap _).trans (List.Perm.of_eq ?_)
  rw [NodeDir.names, NodeDir.infos, List.filterMap_map, ← List.filterMap_eq_map]
  refine List.filterMap_congr fun z hz => ?_
  show (d.find z.name).map (·.data) = some z.data
  rw [find_of_mem hz]
  rfl

/-- Alone, the call is the one step that `ZkMetadataStore.liveNodes` takes it for. -/
theorem run_liveNodes (order : List String) (d : NodeDir) :
    DirProg.liveNodes.run (NodeDir.sem order) d =
      (d, some ({ nodes := d.infos } : ZkMetadataStore).liveNodes) := by
  have hop : (Prog.op DirOp.getChildren).run (NodeDir.sem order) d =
      (d, some (d.sem order .getChildren).1) := rfl
  have hperm := d.getChildren_perm order
  have hfound := NodeDir.filterMap_find_perm hperm
  rw [DirProg.liveNodes, Prog.run_bind hop, run_readEach [] fun child hc => hperm.mem_iff.mp hc]
  -- no two records have one id, so sorting forgets the order
  have hnodup : (d.infos.map (·.nodeId)).Nodup := by
    rw [NodeDir.infos, List.map_map]
    exact d.nodup
  have hsort : ∀ l : List NodeInfo, l.Perm d.infos →
      (l.insertionSort fun a b => a.nodeId ≤ b.nodeId).Perm d.infos :=
    fun l hl => (List.perm_insertionSort _ l).trans hl
  refine congrArg (fun l => (d, some l)) (List.Perm.eq_of_pairwise (fun a b ha hb hab hba => ?_)
    (List.pairwise_insertionSort _ _) (List.pairwise_insertionSort _ _)
    ((hsort _ hfound).trans (hsort _ (.refl _)).symm))
  exact List.inj_on_of_nodup_map hnodup ((hsort _ hfound).mem_iff.mp ha)
    ((hsort _ (.refl _)).mem_iff.mp hb) (String.le_antisymm hab hba)

end DisMiniSql.Distributed
