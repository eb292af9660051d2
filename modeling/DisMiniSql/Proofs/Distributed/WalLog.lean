import DisMiniSql.Proofs.Distributed.Texts

/-!
# `DisMiniSql.Proofs.Distributed.WalLog`: the log of a data node

`append` and `appendRecovered` either find an entry of the same request in the file and change
nothing, or they put one entry at the end (`append_cases`, `appendRecovered_cases`). `Appends`
says what holds of the entry in the second case, and `WalLog.Wf` is what every method keeps.
-/

set_option autoImplicit false

namespace DisMiniSql.Distributed

namespace WalLog

variable {w : WalLog} {e : WalEntry} {r : Option String}

@[simp] theorem mem_readAll : e ∈ w.readAll ↔ e ∈ w.walFile := List.mem_insertionSort _

theorem findByRequestId_eq_none_iff :
    w.findByRequestId r = none ↔
      blankId r = true ∨ ∀ e ∈ w.walFile, e.requestId ≠ r := by
  unfold findByRequestId
  by_cases hblank : blankId r = true
  · simp [hblank]
  · simp [hblank]

theorem of_findByRequestId_eq_some (h : w.findByRequestId r = some e) :
    blankId r = false ∧ e ∈ w.walFile ∧ e.requestId = r := by
  unfold findByRequestId at h
  by_cases hblank : blankId r = true
  · simp [hblank] at h
  · simp only [hblank, Bool.false_eq_true, if_false] at h
    have hid : e.requestId = r := by simpa using List.find?_some h
    exact ⟨by simpa using hblank, mem_readAll.mp (List.mem_of_find?_eq_some h), hid⟩

/-- The entry may be appended: no entry of the same request is in the file, its number comes
after all numbers so far, and its statement is normalized. -/
structure Appends (w : WalLog) (e : WalEntry) : Prop where
  fresh : w.findByRequestId e.requestId = none
  after : w.lastSequence < e.sequence
  normalized : SqlUtils.normalize e.sql = e.sql

/-- `append` changes nothing, because an entry of the request is in the file, or appends the
entry of the request. -/
theorem append_cases (w : WalLog) (r : Option String) (s : Int) (i : Nat) (q : String) :
    ((w.append r s i q).1 = w ∧ ∃ e ∈ w.walFile, e.requestId = r) ∨
      (w.Appends (w.newEntry r s i q) ∧
        (w.append r s i q).1 = w.appendRaw (w.newEntry r s i q)) := by
  unfold append
  split
  · rename_i existing hfind
    obtain ⟨_, hmem, hid⟩ := of_findByRequestId_eq_some hfind
    exact Or.inl ⟨rfl, existing, hmem, hid⟩
  · rename_i hfind
    exact Or.inr ⟨⟨hfind, Nat.lt_succ_self _, SqlUtils.normalize_normalize q⟩, rfl⟩

/-- `appendRecovered` changes nothing, because an entry of the request is in the file, or
appends the entry of the peer under a new number. -/
theorem appendRecovered_cases (w : WalLog) (p : WalEntry) :
    ((w.appendRecovered p).1 = w ∧ ∃ e ∈ w.walFile, e.requestId = p.requestId) ∨
      (w.Appends (w.localEntry p) ∧ (w.appendRecovered p).1 = w.appendRaw (w.localEntry p)) := by
  unfold appendRecovered
  split
  · rename_i existing hfind
    obtain ⟨_, hmem, hid⟩ := of_findByRequestId_eq_some hfind
    exact Or.inl ⟨rfl, existing, hmem, hid⟩
  · rename_i hfind
    refine Or.inr ⟨⟨hfind, ?_, SqlUtils.normalize_normalize _⟩, rfl⟩
    exact lt_of_lt_of_le (Nat.lt_succ_self _) (le_max_left _ _)

/-- What every method of the log keeps. -/
structure Wf (w : WalLog) : Prop where
  normalized : ∀ e ∈ w.walFile, SqlUtils.normalize e.sql = e.sql
  /-- No two entries of the file share a request id that is not blank. -/
  distinct : w.walFile.Pairwise (fun a b => blankId a.requestId = false → a.requestId ≠ b.requestId)
  known : ∀ e ∈ w.walFile, e.requestId ∈ w.requestIds
  recorded : ∀ e ∈ w.walFile, e ∈ w.history
  logged : ∀ r ∈ w.requestIds, ∃ e ∈ w.history, e.requestId = r

theorem Wf.empty : Wf {} where
  normalized := by simp
  distinct := List.Pairwise.nil
  known := by simp
  recorded := by simp
  logged := by simp

/-- Appending a new entry keeps it so. -/
theorem Wf.appendRaw (hw : w.Wf) (he : w.Appends e) : (w.appendRaw e).Wf where
  normalized := by
    intro x hx
    obtain hx | hx := List.mem_append.mp hx
    · exact hw.normalized x hx
    · rw [List.mem_singleton.mp hx]
      exact he.normalized
  distinct := by
    refine List.pairwise_append.mpr ⟨hw.distinct, List.pairwise_singleton _ _, ?_⟩
    intro a ha b hb hblank hab
    rw [List.mem_singleton.mp hb] at hab
    obtain hb | hb := findByRequestId_eq_none_iff.mp he.fresh
    · rw [hab, hb] at hblank
      exact absurd hblank (by simp)
    · exact hb a ha hab
  known := by
    intro x hx
    obtain hx | hx := List.mem_append.mp hx
    · exact List.mem_insert_of_mem (hw.known x hx)
    · rw [List.mem_singleton.mp hx]
      exact List.mem_insert_self
  recorded := by
    intro x hx
    obtain hx | hx := List.mem_append.mp hx
    · exact List.mem_append_left _ (hw.recorded x hx)
    · exact List.mem_append_right _ hx
  logged := by
    intro r hr
    obtain rfl | hr := List.mem_insert_iff.mp hr
    · exact ⟨e, List.mem_append_right _ (List.mem_singleton_self e), rfl⟩
    · obtain ⟨x, hx, hid⟩ := hw.logged r hr
      exact ⟨x, List.mem_append_left _ hx, hid⟩

/-- A file with some of the entries, in any order, and a larger index keep `Wf`. -/
theorem Wf.of_sublist {w' : WalLog} (hw : w.Wf) {file : List WalEntry}
    (hfile : file.Sublist w.walFile) (hperm : w'.walFile.Perm file)
    (hids : ∀ r, r ∈ w'.requestIds ↔ r ∈ w.requestIds) (hhist : w'.history = w.history) :
    w'.Wf := by
  have hsub : ∀ e ∈ w'.walFile, e ∈ w.walFile := fun e he => hfile.subset (hperm.subset he)
  refine ⟨fun e he => hw.normalized e (hsub e he), ?_, ?_, ?_, ?_⟩
  · refine (hperm.pairwise_iff ?_).mpr (hw.distinct.sublist hfile)
    intro a b hab hblank hba
    exact hab (hba ▸ hblank) hba.symm
  · exact fun e he => (hids _).mpr (hw.known e (hsub e he))
  · exact fun e he => hhist ▸ hw.recorded e (hsub e he)
  · exact fun r hr => hhist ▸ hw.logged r ((hids r).mp hr)

theorem Wf.advanceLastSequence (hw : w.Wf) (s : Nat) : (w.advanceLastSequence s).Wf := by
  refine hw.of_sublist (List.Sublist.refl _) (List.Perm.of_eq ?_) (fun r => ?_) ?_ <;>
    (unfold WalLog.advanceLastSequence; split <;> simp)

theorem mem_compactThrough {s : Nat} :
    e ∈ (w.compactThrough s).walFile ↔ e ∈ w.walFile ∧ s < e.sequence := by
  simp [compactThrough]

theorem Wf.compactThrough (hw : w.Wf) (s : Nat) : (w.compactThrough s).Wf := by
  have hsub : (w.walFile.filter (fun e => s < e.sequence)).Sublist w.walFile :=
    List.filter_sublist
  refine hw.of_sublist hsub ?_ (fun r => Iff.rfl) rfl
  refine (List.perm_insertionSort _ _).trans ?_
  exact (List.perm_insertionSort _ w.walFile).filter _

/-- Loading the index adds the ids of the file. -/
theorem Wf.loadIndex (hw : w.Wf) : w.loadIndex.Wf := by
  refine hw.of_sublist (List.Sublist.refl _) (List.Perm.refl _) (fun r => ?_) rfl
  -- the ids that are read from the file are in the index already
  have hfold : ∀ (ids known : List (Option String)), (∀ x ∈ ids, x ∈ known) →
      (r ∈ ids.foldl (fun known x => known.insert x) known ↔ r ∈ known) := by
    intro ids
    induction ids with
    | nil => exact fun known _ => Iff.rfl
    | cons x ids ih =>
      intro known hids
      rw [List.foldl_cons, List.insert_of_mem (hids x List.mem_cons_self)]
      exact ih known (fun y hy => hids y (List.mem_cons_of_mem _ hy))
  refine hfold _ _ fun x hx => ?_
  obtain ⟨hx, _⟩ := List.mem_filter.mp hx
  obtain ⟨e, he, rfl⟩ := List.mem_map.mp hx
  exact hw.known e (mem_readAll.mp he)

/-- The last number is not below those of the file, so reading the file does not raise it. -/
theorem lastSequence_loadIndex (h : ∀ e ∈ w.walFile, e.sequence ≤ w.lastSequence) :
    w.loadIndex.lastSequence = w.lastSequence := by
  have hfold : ∀ (es : List WalEntry) (last : Nat), (∀ e ∈ es, e.sequence ≤ last) →
      es.foldl (fun last entry => max last entry.sequence) last = last := by
    intro es
    induction es with
    | nil => exact fun last _ => rfl
    | cons e es ih =>
      intro last hle
      rw [List.foldl_cons, max_eq_left (hle e List.mem_cons_self)]
      exact ih last (fun d hd => hle d (List.mem_cons_of_mem _ hd))
  exact hfold _ _ fun e he => h e (mem_readAll.mp he)

/-- Every id that `containsRequestId` finds is that of an entry appended before. -/
theorem Wf.exists_of_containsRequestId (hw : w.Wf) (h : w.containsRequestId r = true) :
    ∃ e ∈ w.history, e.requestId = r := by
  rw [WalLog.containsRequestId, Bool.or_eq_true] at h
  obtain h | h := h
  · exact hw.logged r (by simpa using h)
  · obtain ⟨e, he⟩ := Option.isSome_iff_exists.mp h
    obtain ⟨_, hmem, hid⟩ := of_findByRequestId_eq_some he
    exact ⟨e, hw.recorded e hmem, hid⟩

/-- The id of an entry of the file is found. -/
theorem Wf.containsRequestId_of_mem (hw : w.Wf) (he : e ∈ w.walFile) :
    w.containsRequestId e.requestId = true := by
  simp [WalLog.containsRequestId, hw.known e he]

end WalLog

end DisMiniSql.Distributed
