import DisMiniSql.MiniSql.Buffer.ClockReplacer

/-!
# `DisMiniSql.Proofs.Buffer.ClockReplacer`: the hand of `CLOCKReplacer`

`Valid` is the invariant: the four parts are the same frames, and the hand is one of the list. Then
the list is a ring from the hand on (`Valid.exists_ring`), and the loops of `Victim` walk along it
(`sweep_pass`, `sweep_found`). `Victim` and `Unpin` look whether the hand is at the end before they
use it. `Pin` does not: it reads `*now` there. `clock_replacer_refines_iff` says that a run is one
of the clock exactly when no `Pin` of a frame of the list finds the hand at the end.
-/

set_option autoImplicit false

namespace DisMiniSql.MiniSql.CLOCKReplacer

open Lib (ListCell Iter Guarded)
open Lib.Cells (Ring without addrs)

variable {r : CLOCKReplacer} {f : FrameId} {c : ListCell FrameId}
  {ring rest passed : List (ListCell FrameId)}

/-- The parts of a replacer in a run, and the addresses that were given out. -/
structure Valid (r : CLOCKReplacer) : Prop where
  describes : r.Describes
  fresh : ∀ c ∈ r.clockList, c.addr < r.nextAddr

/-- A new replacer holds no frame. -/
theorem valid_new (numPages : Nat) : (new numPages).Valid where
  describes :=
    { addrs := List.nodup_nil
      nodup := List.nodup_nil
      capacity := rfl
      map := by simp [new]
      unpinned := by simp [new, frames]
      hand := .inl rfl }
  fresh := by simp [new]

/-! ### The ring -/

/-- The list has an order that starts at the hand. -/
theorem Valid.exists_ring (h : r.Valid) : ∃ ring, Ring r.clockList r.now ring :=
  Lib.Cells.exists_ring h.describes.addrs h.describes.hand

/-- The clock is the ring. -/
theorem clock_eq (h : Ring r.clockList r.now ring) :
    r.clock = ⟨ring.map (·.val), fun f => r.status f != 0⟩ := by
  simp [clock, h.eq]

/-- The ring holds the frames of the list. -/
theorem mem_frames_iff (h : Ring r.clockList r.now ring) :
    f ∈ ring.map (·.val) ↔ f ∈ r.frames :=
  (h.perm.map _).mem_iff

/-- Each of them once. -/
theorem Valid.nodup_ring (h : r.Valid) (hring : Ring r.clockList r.now ring) :
    (ring.map (·.val)).Nodup :=
  (hring.perm.map _).nodup_iff.mpr h.describes.nodup

/-- Cells with the same frame are the same cell. -/
theorem Valid.eq_of_val (h : r.Valid) {d : ListCell FrameId} (hc : c ∈ r.clockList)
    (hd : d ∈ r.clockList) (hval : c.val = d.val) : c = d :=
  List.inj_on_of_nodup_map h.describes.nodup hc hd hval

/-- Cells at the same address are the same cell. -/
theorem Valid.eq_of_addr (h : r.Valid) {d : ListCell FrameId} (hc : c ∈ r.clockList)
    (hd : d ∈ r.clockList) (haddr : c.addr = d.addr) : c = d :=
  List.inj_on_of_nodup_map h.describes.addrs hc hd haddr

/-! ### A frame goes out -/

/-- The replacer without a cell, with the hand at `now`. -/
def removed (r : CLOCKReplacer) (c : ListCell FrameId) (now : Iter) : CLOCKReplacer :=
  { r with
    capacity := r.capacity - 1
    now
    clockList := without r.clockList c.addr
    unpinned := Function.update r.unpinned c.val false
    map := Function.update r.map c.val none }

/-- The other cells are those with other frames. -/
theorem Valid.mem_without (h : r.Valid) (hc : c ∈ r.clockList) (d : ListCell FrameId) :
    d ∈ without r.clockList c.addr ↔ d ∈ r.clockList ∧ d.val ≠ c.val := by
  rw [Lib.Cells.mem_without]
  apply and_congr_right
  intro hd
  apply not_congr
  exact ⟨fun heq => congrArg ListCell.val (h.eq_of_addr hd hc heq),
    fun heq => congrArg ListCell.addr (h.eq_of_val hd hc heq)⟩

/-- The frames without one of them. -/
theorem map_val_without {l : List (ListCell FrameId)} (haddrs : (addrs l).Nodup)
    (hvals : (l.map (·.val)).Nodup) (hc : c ∈ l) :
    (without l c.addr).map (·.val) = (l.map (·.val)).erase c.val := by
  obtain ⟨front, back, hsplit⟩ := Lib.Cells.exists_split haddrs hc
  have hnot : c.val ∉ front.map (·.val) := by
    rw [hsplit.eq, List.map_append, List.nodup_append] at hvals
    exact fun hmem => hvals.2.2 _ hmem _ (by simp) rfl
  rw [hsplit.without_eq, hsplit.eq, List.map_append, List.map_append, List.map_cons,
    List.erase_append_right _ hnot, List.erase_cons_head]

/-- Taking a cell out keeps the lists and the map in step, if the hand ends on a cell that stays. -/
theorem Valid.removed (h : r.Valid) (hc : c ∈ r.clockList) {now : Iter}
    (hring : Ring (without r.clockList c.addr) now rest) : (r.removed c now).Valid := by
  have hmem := h.mem_without hc
  have hframes : (r.removed c now).frames = r.frames.erase c.val :=
    map_val_without h.describes.addrs h.describes.nodup hc
  refine ⟨⟨hring.nodup, ?_, ?_, ?_, ?_, hring.iter⟩, ?_⟩
  · rw [hframes]
    exact h.describes.nodup.erase _
  · have hlength := congrArg List.length hframes
    have hval : c.val ∈ r.frames := List.mem_map_of_mem hc
    rw [List.length_erase_of_mem hval] at hlength
    simp only [frames, List.length_map] at hlength
    show r.capacity - 1 = _
    rw [hlength, h.describes.capacity]
  · intro g a
    show Function.update r.map c.val none g = some a ↔ _ ∈ without r.clockList c.addr
    rw [hmem, Function.update_apply]
    by_cases hg : g = c.val <;> simp [hg, h.describes.map]
  · intro g
    show Function.update r.unpinned c.val false g = true ↔ _
    rw [hframes, h.describes.nodup.mem_erase_iff, Function.update_apply]
    by_cases hg : g = c.val <;> simp [hg, h.describes.unpinned]
  · exact fun d hd => h.fresh d ((hmem d).mp hd).1

/-! ### The loops of `Victim` -/

/-- The replacer with the hand and the status as a loop leaves them. -/
def moved (r : CLOCKReplacer) (now : Iter) (status : FrameId → Nat) : CLOCKReplacer :=
  { r with now, status }

/-- A replacer with the hand elsewhere on the list is as in a run. -/
theorem Valid.moved (h : r.Valid) {now : Iter} (hring : Ring r.clockList now ring)
    (status : FrameId → Nat) : (r.moved now status).Valid :=
  ⟨⟨h.describes.addrs, h.describes.nodup, h.describes.capacity, h.describes.map,
    h.describes.unpinned, hring.iter⟩, h.fresh⟩

/-- A round of the loop comes to the first cell of the ring. -/
theorem skipEnd_eq (h : Ring r.clockList r.now (c :: ring)) :
    r.skipEnd = some (r.moved (some c.addr) r.status) := by
  have hskip := h.skip_end.1
  unfold skipEnd advance
  split
  · rename_i hend
    rw [if_pos hend] at hskip
    simp [hskip, CLOCKReplacer.moved]
  · rename_i hend
    rw [if_neg hend] at hskip
    simp [CLOCKReplacer.moved, ← Option.some.inj hskip]

/-- The status after some frames were passed. -/
def passStatus (status : FrameId → Nat) (passed : List (ListCell FrameId)) : FrameId → Nat :=
  fun f => if f ∈ passed.map (·.val) then 0 else status f

/-- A round of the loop passes a frame with a status. -/
theorem sweep_succ (h : Ring r.clockList r.now (c :: ring)) (hstatus : r.status c.val ≠ 0)
    (n : Nat) :
    ∃ now, r.sweep clear (n + 1) =
        sweep clear (r.moved now (Function.update r.status c.val 0)) n ∧
      Ring r.clockList now (ring ++ [c]) := by
  obtain ⟨now, hnext, hring, -⟩ := h.skip_end.2.next
  refine ⟨now, ?_, hring⟩
  have hget := h.skip_end.2.get
  rw [sweep, skipEnd_eq h]
  simp [atHand, CLOCKReplacer.moved, hget, hstatus, clear, advance, hnext]

/-- A round of the loop ends at a frame without a status. -/
theorem sweep_found (h : Ring r.clockList r.now (c :: rest)) (hstatus : r.status c.val = 0)
    (pass : CLOCKReplacer → FrameId → CLOCKReplacer) (n : Nat) :
    r.sweep pass (n + 1) = some (true, r.moved (some c.addr) r.status) := by
  have hget := h.skip_end.2.get
  rw [sweep, skipEnd_eq h]
  simp [atHand, CLOCKReplacer.moved, hget, hstatus]

/-- The loop passes the frames with a status, and clears it. -/
theorem sweep_pass (h : Ring r.clockList r.now (passed ++ rest))
    (hnodup : (passed.map (·.val)).Nodup) (hstatus : ∀ c ∈ passed, r.status c.val ≠ 0) (n : Nat) :
    ∃ now, r.sweep clear (passed.length + n) =
        sweep clear (r.moved now (passStatus r.status passed)) n ∧
      Ring r.clockList now (rest ++ passed) := by
  induction passed generalizing r rest with
  | nil =>
    have hstatuses : passStatus r.status [] = r.status := by
      funext f
      simp [passStatus]
    exact ⟨r.now, by simp [hstatuses, CLOCKReplacer.moved], by simpa using h⟩
  | cons c passed ih =>
    have hnot : c.val ∉ passed.map (·.val) := (List.nodup_cons.mp hnodup).1
    have hhand : Ring r.clockList r.now (c :: (passed ++ rest)) := h
    obtain ⟨now₁, hround, hring₁⟩ :=
      sweep_succ hhand (hstatus c (by simp)) (passed.length + n)
    rw [List.append_assoc] at hring₁
    -- the rest of the loop, from where the round leaves the hand
    have hstatus₁ : ∀ d ∈ passed, Function.update r.status c.val 0 d.val ≠ 0 := by
      intro d hd
      have hval : d.val ≠ c.val := fun heq => hnot (List.mem_map.mpr ⟨d, hd, heq⟩)
      simpa [hval] using hstatus d (by simp [hd])
    obtain ⟨now, hsweep, hring⟩ :=
      ih (r := r.moved now₁ (Function.update r.status c.val 0)) hring₁ (List.nodup_cons.mp hnodup).2
        hstatus₁
    refine ⟨now, ?_, by simpa [CLOCKReplacer.moved] using hring⟩
    have hstatuses : passStatus (Function.update r.status c.val 0) passed =
        passStatus r.status (c :: passed) := by
      funext f
      simp only [passStatus, List.map_cons, List.mem_cons, Function.update_apply]
      by_cases hf : f = c.val <;> simp [hf]
    rw [List.length_cons, Nat.add_right_comm, hround, hsweep, ← hstatuses]
    rfl

/-- The frame at the hand goes out, and the hand is behind it. -/
theorem Valid.evict (h : r.Valid) (hring : Ring r.clockList r.now (c :: rest))
    (hnow : r.now = some c.addr) :
    ∃ now, r.evict = some (c.val, r.removed c now) ∧ (r.removed c now).Valid ∧
      Ring (without r.clockList c.addr) now rest := by
  rw [hnow] at hring
  have hc : c ∈ r.clockList := hring.perm.mem_iff.mp (by simp)
  obtain ⟨now, hnext, -, hring'⟩ := hring.next
  refine ⟨now, ?_, h.removed hc hring', hring'⟩
  simp [CLOCKReplacer.evict, atHand, advance, hnow, hring.get, hnext,
    Lib.Cells.erase_eq h.describes.addrs hc, CLOCKReplacer.removed]

/-! ### `Victim` -/

/-- A call that keeps the clock, and leaves a replacer as in a run. -/
def Keeps (r : CLOCKReplacer) (call : ReplacerCall) : Prop :=
  ∃ answer r', r.call call = some (answer, r') ∧ r'.Valid ∧ r'.maxNumPages = r.maxNumPages ∧
    Clock.Step r.clock call answer r'.clock

/-- The bits of the clock after some frames were passed. -/
theorem bit_passStatus (status : FrameId → Nat) (passed : List (ListCell FrameId)) :
    (fun f => passStatus status passed f != 0) =
      Clock.pass (fun f => status f != 0) (passed.map (·.val)) := by
  funext f
  by_cases hf : f ∈ passed.map (·.val) <;> simp [passStatus, Clock.pass, hf]

/-- A ring has a first frame without a status, or all have one. -/
theorem split_status (status : FrameId → Nat) (ring : List (ListCell FrameId)) :
    (∀ c ∈ ring, status c.val ≠ 0) ∨ ∃ passed c rest, ring = passed ++ c :: rest ∧
      (∀ d ∈ passed, status d.val ≠ 0) ∧ status c.val = 0 := by
  induction ring with
  | nil => exact .inl (by simp)
  | cons c ring ih =>
    by_cases hc : status c.val = 0
    · exact .inr ⟨[], c, ring, rfl, by simp, hc⟩
    · rcases ih with hall | ⟨passed, d, rest, rfl, hpassed, hd⟩
      · exact .inl (by simpa [hc] using hall)
      · exact .inr ⟨c :: passed, d, rest, rfl, by simpa [hc] using hpassed, hd⟩

/-- The capacity in use is the length of the ring. -/
theorem Valid.capacity_eq (h : r.Valid) (hring : Ring r.clockList r.now ring) :
    r.capacity = ring.length := by
  rw [h.describes.capacity, hring.perm.length_eq]

/-- The frame that the loops have found goes out. -/
theorem Valid.victim_of_search (h : r.Valid) {now : Iter} {status : FrameId → Nat}
    (hring : Ring r.clockList now (c :: rest)) (hpos : r.capacity ≠ 0)
    (hsearch : r.search = some (true, r.moved (some c.addr) status)) :
    ∃ r', r.call .victim = some (some c.val, r') ∧ r'.Valid ∧ r'.maxNumPages = r.maxNumPages ∧
      r'.clock = ⟨rest.map (·.val), fun f => status f != 0⟩ := by
  have hvalid : (r.moved (some c.addr) status).Valid := h.moved hring.skip_end.2 status
  obtain ⟨now', hevict, hvalid', hring'⟩ := hvalid.evict hring.skip_end.2 rfl
  refine ⟨_, ?_, hvalid', rfl, clock_eq hring'⟩
  show r.victim = _
  unfold CLOCKReplacer.victim
  rw [if_neg hpos, hsearch]
  simp [hevict]

/-- The victim in a ring that has a frame without a status: the first one. -/
theorem Valid.victim_first (h : r.Valid) (hring : Ring r.clockList r.now (passed ++ c :: rest))
    (hpassed : ∀ d ∈ passed, r.status d.val ≠ 0) (hc : r.status c.val = 0) :
    Keeps r .victim := by
  have hnodup : ((passed ++ c :: rest).map (·.val)).Nodup := h.nodup_ring hring
  rw [List.map_append, List.nodup_append] at hnodup
  have hcapacity : r.capacity = passed.length + (rest.length + 1) := by
    simpa using h.capacity_eq hring
  obtain ⟨now₁, hsweep, hring₁⟩ := sweep_pass hring hnodup.1 hpassed (rest.length + 1)
  rw [← hcapacity] at hsweep
  rw [List.cons_append] at hring₁
  -- the frame was not passed, so its status is what it was
  have hstatus : passStatus r.status passed c.val = 0 := by simp [passStatus, hc]
  have hfound := sweep_found (r := r.moved now₁ (passStatus r.status passed)) hring₁ hstatus clear
    rest.length
  have hsearch : r.search = some (true, r.moved (some c.addr) (passStatus r.status passed)) := by
    unfold search
    rw [hsweep, hfound]
    rfl
  obtain ⟨r', hcall, hvalid, hmax, hclock⟩ := h.victim_of_search hring₁ (by omega) hsearch
  refine ⟨some c.val, r', hcall, hvalid, hmax, ?_⟩
  rw [hclock, clock_eq hring, bit_passStatus, List.map_append, List.map_append, List.map_cons]
  apply Clock.Step.victim
  · intro g hg
    obtain ⟨d, hd, rfl⟩ := List.mem_map.mp hg
    simpa using hpassed d hd
  · simp [hc]

/-- The victim in a ring whose frames all have a status: the first one, in the second loop. -/
theorem Valid.victim_second (h : r.Valid) (hring : Ring r.clockList r.now (c :: rest))
    (hall : ∀ d ∈ c :: rest, r.status d.val ≠ 0) : Keeps r .victim := by
  have hcapacity : r.capacity = rest.length + 1 := h.capacity_eq hring
  have hround : Ring r.clockList r.now ((c :: rest) ++ []) := by simpa using hring
  obtain ⟨now₁, hsweep, hring₁⟩ := sweep_pass hround (h.nodup_ring hring) hall 0
  have hlength : (c :: rest).length + 0 = r.capacity := hcapacity.symm
  rw [hlength] at hsweep
  have hstatus : passStatus r.status (c :: rest) c.val = 0 := by simp [passStatus]
  have hfound := sweep_found (r := r.moved now₁ (passStatus r.status (c :: rest))) hring₁ hstatus
    (fun r _ => r) rest.length
  have hsearch :
      r.search = some (true, r.moved (some c.addr) (passStatus r.status (c :: rest))) := by
    unfold search
    rw [hsweep]
    show (r.moved now₁ (passStatus r.status (c :: rest))).sweep (fun r _ => r) r.capacity = _
    rw [hcapacity, hfound]
    rfl
  obtain ⟨r', hcall, hvalid, hmax, hclock⟩ := h.victim_of_search hring₁ (by omega) hsearch
  refine ⟨some c.val, r', hcall, hvalid, hmax, ?_⟩
  rw [hclock, clock_eq hring, bit_passStatus, List.map_cons]
  apply Clock.Step.second
  intro g hg
  rw [← List.map_cons] at hg
  obtain ⟨d, hd, rfl⟩ := List.mem_map.mp hg
  simpa using hall d hd

/-- `Victim` keeps the replacer in step with the ring. -/
theorem Valid.victim (h : r.Valid) : Keeps r .victim := by
  obtain ⟨ring, hring⟩ := h.exists_ring
  rcases split_status r.status ring with hall | ⟨passed, c, rest, rfl, hpassed, hc⟩
  · cases ring with
    | nil =>
      refine ⟨none, r, if_pos (h.capacity_eq hring), h, rfl, ?_⟩
      rw [clock_eq hring]
      exact .empty _
    | cons c rest => exact h.victim_second hring hall
  · exact h.victim_first hring hpassed hc

/-! ### `Pin` and `Unpin` -/

/-- A call that changes nothing. -/
theorem Valid.keeps_self (h : r.Valid) {call : ReplacerCall} (hcall : r.call call = some (none, r))
    (hstep : Clock.Step r.clock call none r.clock) : Keeps r call :=
  ⟨none, r, hcall, h, rfl, hstep⟩

/-- `Pin` of a frame that is not in the list. -/
theorem Valid.pin_absent (h : r.Valid) (hf : r.unpinned f = false) : Keeps r (.pin f) := by
  obtain ⟨ring, hring⟩ := h.exists_ring
  have hnot : f ∉ r.clock.ring := by
    rw [clock_eq hring, mem_frames_iff hring, ← h.describes.unpinned, hf]
    simp
  have hstep := Clock.Step.pin r.clock f
  rw [List.erase_of_not_mem hnot] at hstep
  refine h.keeps_self ?_ hstep
  simp [call, CLOCKReplacer.pin, hf]

/-- The ring without a cell, where the hand moves on if it is there. -/
theorem exists_without (hring : Ring r.clockList r.now ring) (hnow : r.now ≠ none)
    (hc : c ∈ r.clockList) :
    ∃ hand now, r.atHand = some hand.val ∧ hand ∈ r.clockList ∧
      (if c = hand then Lib.Cells.next r.clockList r.now else some r.now) = some now ∧
      Ring (without r.clockList c.addr) now (without ring c.addr) := by
  obtain ⟨a, ha⟩ := Option.ne_none_iff_exists'.mp hnow
  rw [atHand, ha]
  rw [ha] at hring
  cases ring with
  | nil =>
    have hmem := hring.perm.mem_iff.mpr hc
    simp at hmem
  | cons hand rest =>
    have hmem : hand ∈ r.clockList := hring.perm.mem_iff.mp (by simp)
    obtain ⟨rfl, -⟩ := hring.split
    have haddrs : (addrs (hand :: rest)).Nodup := (hring.perm.map _).nodup_iff.mpr hring.nodup
    by_cases heq : c = hand
    · subst heq
      obtain ⟨now, hnext, -, hring'⟩ := hring.next
      refine ⟨c, now, hring.get, hmem, by simpa using hnext, ?_⟩
      rwa [Lib.Cells.without_head haddrs]
    · have hne : some hand.addr ≠ some c.addr := by
        intro haddr
        exact heq (List.inj_on_of_nodup_map hring.nodup hc hmem (Option.some.inj haddr).symm)
      exact ⟨hand, some hand.addr, hring.get, hmem, by simp [heq], hring.without hne⟩

/-- The end of `Pin`. -/
theorem release_eq {hand : ListCell FrameId} {now : Iter} (haddrs : (addrs r.clockList).Nodup)
    (hc : c ∈ r.clockList) (hhand : r.atHand = some hand.val) (hval : c.val = hand.val ↔ c = hand)
    (hmove : (if c = hand then Lib.Cells.next r.clockList r.now else some r.now) = some now) :
    r.release c.val c.addr = some { r with
      now, clockList := without r.clockList c.addr, map := Function.update r.map c.val none
      capacity := r.capacity - 1 } := by
  have hget := Lib.Cells.get_eq haddrs hc
  have herase := Lib.Cells.erase_eq haddrs hc
  unfold release
  by_cases heq : c = hand
  · rw [if_pos heq] at hmove
    simp [hget, hhand, hval.mpr heq, advance, hmove, herase]
  · rw [if_neg heq] at hmove
    have hne : ¬ c.val = hand.val := fun h => heq (hval.mp h)
    simp [hget, hhand, hne, herase, Option.some.inj hmove]

/-- `Pin` of a frame of the list, with the hand at one. -/
theorem Valid.pin_present (h : r.Valid) (hbound : f ≤ r.maxNumPages) (hf : r.unpinned f = true)
    (hnow : r.now ≠ none) : Keeps r (.pin f) := by
  obtain ⟨ring, hring⟩ := h.exists_ring
  obtain ⟨c, hc, rfl⟩ := List.mem_map.mp ((h.describes.unpinned f).mp hf)
  have hmap : r.map c.val = some c.addr := (h.describes.map c.val c.addr).mpr hc
  obtain ⟨hand, now, hhand, hmem, hmove, hring'⟩ := exists_without hring hnow hc
  have hbound' : ¬ c.val > r.maxNumPages := Nat.not_lt.mpr hbound
  have hval : c.val = hand.val ↔ c = hand := ⟨h.eq_of_val hc hmem, congrArg ListCell.val⟩
  refine ⟨none, r.removed c now, ?_, h.removed hc hring', rfl, ?_⟩
  · have hrelease := release_eq
      (r := { r with unpinned := Function.update r.unpinned c.val false })
      h.describes.addrs hc hhand hval hmove
    simp [call, CLOCKReplacer.pin, hbound', hf, hmap, hrelease, CLOCKReplacer.removed]
  · have hframes : (without ring c.addr).map (·.val) = (ring.map (·.val)).erase c.val :=
      map_val_without ((hring.perm.map _).nodup_iff.mpr hring.nodup) (h.nodup_ring hring)
        (hring.perm.mem_iff.mpr hc)
    rw [clock_eq (r := r.removed c now) hring', clock_eq hring, hframes]
    exact .pin ⟨ring.map (·.val), fun f => r.status f != 0⟩ c.val

/-- `Pin` reads `*now`, so it has no result for a frame of the list with the hand at the end. -/
theorem Valid.pin_end (h : r.Valid) (hbound : f ≤ r.maxNumPages) (hf : r.unpinned f = true)
    (hnow : r.now = none) : r.call (.pin f) = none := by
  obtain ⟨c, hc, rfl⟩ := List.mem_map.mp ((h.describes.unpinned f).mp hf)
  have hmap : r.map c.val = some c.addr := (h.describes.map c.val c.addr).mpr hc
  have hbound' : ¬ c.val > r.maxNumPages := Nat.not_lt.mpr hbound
  have hget := Lib.Cells.get_eq h.describes.addrs hc
  have hend : Lib.Cells.get r.clockList none = none := by
    have hsplit : Lib.Cells.Split r.clockList none r.clockList [] :=
      ⟨by simp, rfl, h.describes.addrs⟩
    simp [Lib.Cells.get, hsplit.onward]
  simp [call, CLOCKReplacer.pin, hbound', hf, hmap, release, hget, atHand, hnow, hend]

/-- `Unpin` of a frame that is in the list. -/
theorem Valid.unpin_present (h : r.Valid) (hf : r.unpinned f = true) : Keeps r (.unpin f) := by
  obtain ⟨ring, hring⟩ := h.exists_ring
  have hmem : f ∈ r.clock.ring := by
    rw [clock_eq hring, mem_frames_iff hring, ← h.describes.unpinned, hf]
  refine h.keeps_self ?_ (.again r.clock f hmem)
  simp [call, CLOCKReplacer.unpin, hf]

/-- The replacer with a new cell, and the hand at `now`. -/
def added (r : CLOCKReplacer) (f : FrameId) (clockList : List (ListCell FrameId)) (now : Iter) :
    CLOCKReplacer :=
  { r with
    capacity := r.capacity + 1
    now
    clockList
    status := Function.update r.status f 1
    unpinned := Function.update r.unpinned f true
    map := Function.update r.map f (some r.nextAddr)
    nextAddr := r.nextAddr + 1 }

/-- So does a new cell, wherever it is put in. -/
theorem Valid.added (h : r.Valid) (hf : f ∉ r.frames) {l : List (ListCell FrameId)} {now : Iter}
    (hperm : l.Perm (⟨r.nextAddr, f⟩ :: r.clockList)) (hring : Ring l now ring) :
    (r.added f l now).Valid := by
  have hframes : (r.added f l now).frames.Perm (f :: r.frames) := hperm.map _
  refine ⟨⟨hring.nodup, ?_, ?_, ?_, ?_, hring.iter⟩, ?_⟩
  · rw [hframes.nodup_iff]
    exact List.nodup_cons.mpr ⟨hf, h.describes.nodup⟩
  · show r.capacity + 1 = l.length
    rw [hperm.length_eq, h.describes.capacity]
    rfl
  · intro g a
    show Function.update r.map f (some r.nextAddr) g = some a ↔ (⟨a, g⟩ : ListCell FrameId) ∈ l
    rw [hperm.mem_iff, List.mem_cons, Function.update_apply]
    by_cases hg : g = f
    · -- the new address is the map's; an old cell keeps its own
      have hnot : ⟨a, f⟩ ∉ r.clockList := fun hmem => hf (List.mem_map_of_mem hmem)
      simp [hg, hnot, eq_comm]
    · simp [hg, h.describes.map]
  · intro g
    show Function.update r.unpinned f true g = true ↔ _
    rw [hframes.mem_iff, List.mem_cons, Function.update_apply]
    by_cases hg : g = f <;> simp [hg, h.describes.unpinned]
  · intro c hc
    show c.addr < r.nextAddr + 1
    rcases List.mem_cons.mp (hperm.mem_iff.mp hc) with rfl | hc
    · exact Nat.lt_succ_self _
    · exact Nat.lt_succ_of_lt (h.fresh c hc)

/-- `Unpin` of a frame that is not. -/
theorem Valid.unpin_absent (h : r.Valid) (hbound : f ≤ r.maxNumPages) (hf : r.unpinned f = false) :
    Keeps r (.unpin f) := by
  obtain ⟨ring, hring⟩ := h.exists_ring
  have hbound' : ¬ f > r.maxNumPages := Nat.not_lt.mpr hbound
  have hnot : f ∉ r.frames := by
    rw [← h.describes.unpinned, hf]
    simp
  have hfresh : r.nextAddr ∉ addrs r.clockList := by
    intro hmem
    obtain ⟨c, hc, heq⟩ := List.mem_map.mp hmem
    exact absurd (h.fresh c hc) (by simp [heq])
  obtain ⟨now, hskip, hring₁⟩ := hring.skip
  obtain ⟨l, hinsert, hperm, hprev, hnext, hring₂⟩ :=
    hring₁.insert (c := ⟨r.nextAddr, f⟩) hfresh
  refine ⟨none, r.added f l now, ?_, h.added hnot hperm hring₂, rfl, ?_⟩
  · have hskipEnd (s : CLOCKReplacer) (hnow : s.now = r.now) (hl : s.clockList = r.clockList) :
        s.skipEnd = some { s with now } := by
      unfold skipEnd advance
      rw [hnow, hl]
      by_cases hend : r.now = none
      · rw [if_pos hend] at hskip ⊢
        simp [hskip]
      · rw [if_neg hend] at hskip ⊢
        obtain rfl := Option.some.inj hskip
        rw [← hnow, ← hl]
    simp [call, CLOCKReplacer.unpin, hbound', hf, hskipEnd, hinsert, retreat, hprev, advance, hnext,
      CLOCKReplacer.added]
  · have hmem : f ∉ ring.map (·.val) := by rwa [mem_frames_iff hring]
    have hclock := clock_eq (r := r.added f l now) hring₂
    rw [hclock, clock_eq hring, List.map_append]
    have hbits : (fun g => (r.added f l now).status g != 0) =
        Function.update (fun g => r.status g != 0) f true := by
      funext g
      by_cases hg : g = f <;> simp [CLOCKReplacer.added, hg]
    rw [hbits]
    exact .unpin ⟨ring.map (·.val), fun g => r.status g != 0⟩ f hmem

/-! ### The runs -/

/-- A call within the bound that does not read the end keeps the clock. -/
theorem Valid.call (h : r.Valid) {call : ReplacerCall} (hbound : call.AtMost r.maxNumPages)
    (hread : r.HandReadable call) : Keeps r call := by
  cases call with
  | victim => exact h.victim
  | pin f =>
    cases hf : r.unpinned f with
    | false => exact h.pin_absent hf
    | true => exact h.pin_present hbound hf (hread hf)
  | unpin f =>
    cases hf : r.unpinned f with
    | false => exact h.unpin_absent hbound hf
    | true => exact h.unpin_present hf

/-- A call that keeps the clock does not read the end. -/
theorem Valid.handReadable (h : r.Valid) {call : ReplacerCall} (hbound : call.AtMost r.maxNumPages)
    (hkeeps : r.KeepsClock call) : r.HandReadable call := by
  cases call with
  | victim => trivial
  | pin f =>
    intro hf hnow
    obtain ⟨answer, r', hcall, -⟩ := hkeeps
    rw [h.pin_end hbound hf hnow] at hcall
    cases hcall
  | unpin f => trivial

/-- For every number of pages and every sequence of calls with frame ids up to it: the parts of a
new replacer are the same frames, and every call keeps them so, uses iterators of the list only and
does what it does on the clock, exactly if no call pins a frame of the list while the hand is at the
end. -/
theorem clock_replacer_refines_iff (numPages : Nat) (calls : List ReplacerCall)
    (hcalls : ∀ call ∈ calls, call.AtMost numPages) :
    (new numPages).Describes ∧ (new numPages).clock.ring = [] ∧
      (Guarded KeepsClock step (new numPages) calls ↔
        Guarded HandReadable step (new numPages) calls) := by
  refine ⟨(valid_new numPages).describes, rfl, ?_⟩
  have hkeeps : Guarded (fun r call => call.AtMost numPages ∧ KeepsClock r call) step
      (new numPages) calls ↔
      Guarded (fun r call => call.AtMost numPages ∧ HandReadable r call) step (new numPages)
        calls :=
    Guarded.iff_guarded_of (J := fun r => r.Valid ∧ r.maxNumPages = numPages)
      (fun r call hr hcall => by
        obtain ⟨answer, r', heq, hvalid, hmax, hclock⟩ :=
          hr.1.call (hr.2.symm ▸ hcall.1) hcall.2
        have hstep : r.step call = r' := by simp [step, heq]
        rw [hstep]
        exact ⟨⟨hcall.1, answer, r', heq, hvalid.describes, hclock⟩, hvalid, hmax.trans hr.2⟩)
      (fun r call hr hcall => ⟨hcall.1, hr.1.handReadable (hr.2.symm ▸ hcall.1) hcall.2⟩)
      calls (new numPages) ⟨valid_new numPages, rfl⟩
  rw [Guarded.and_forall, Guarded.and_forall] at hkeeps
  exact ⟨fun h => (hkeeps.mp ⟨hcalls, h⟩).2, fun h => (hkeeps.mpr ⟨hcalls, h⟩).2⟩

/-- Five calls that do not read the end: 2 has lost its bit when it is the victim. -/
theorem clock_replacer_refines_five :
    (new 7).Describes ∧ (new 7).clock.ring = [] ∧
      (Guarded KeepsClock step (new 7) [.unpin 1, .unpin 2, .victim, .pin 2, .victim] ↔
        Guarded HandReadable step (new 7) [.unpin 1, .unpin 2, .victim, .pin 2, .victim]) :=
  clock_replacer_refines_iff 7 _ (by simp [ReplacerCall.AtMost])

/-- `Unpin` of a frame and `Pin` of the same one, on a new replacer: `Unpin` leaves the hand at the
end, and `Pin` reads it. -/
theorem pin_reads_end : ¬ Guarded KeepsClock step (new 7) [.unpin 1, .pin 1] := by
  rintro ⟨-, ⟨answer, r', hcall, -⟩, -⟩
  have hnone : ((new 7).step (.unpin 1)).call (.pin 1) = none := by decide
  rw [hnone] at hcall
  cases hcall

end DisMiniSql.MiniSql.CLOCKReplacer
