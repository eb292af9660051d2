import Mathlib.Data.List.Dedup
import DisMiniSql.Distributed.Zk.ZooKeeper
import DisMiniSql.Proofs.Distributed.ZkMetadataStore

/-!
# `DisMiniSql.Proofs.Distributed.ZooKeeper`: concurrent writers of the shard records

Any number of calls of `electPrimary`, `rebalance` and `updateCommitIndex` run at the same time,
and their operations come in any order. A call reads a record, changes it, asks for the version
of the znode and writes with that version. Nothing ties the version to the record that was read:
a write that falls in between is lost.

`Undisturbed` is the condition that no write does: at every `exists` the znode still has the
version that the call read. Then each write is made on the record that it replaces, and the two
results follow from one invariant: no update is lost (`no_lost_update`), and a term has one
primary (`one_primary_per_term`).
-/

set_option autoImplicit false

namespace DisMiniSql.Distributed

open DisMiniSql.Lib (Prog Contract Pool PoolAction Steps)

/-- What the methods may write over a record. -/
structure Advances (old m : ShardMetadata) : Prop where
  shardId : m.shardId = old.shardId
  term : old.term ≤ m.term
  commitIndex : old.commitIndex ≤ m.commitIndex
  primary : m.primary ≠ old.primary → old.term < m.term

theorem ZkMetadataStore.Rebalanced.advances {liveNodes : List NodeInfo} {old m : ShardMetadata}
    (h : ZkMetadataStore.Rebalanced liveNodes old m) : Advances old m where
  shardId := h.shardId
  term := by
    obtain hterm | hterm := h.term
    · exact hterm.ge
    · exact hterm ▸ Nat.le_succ _
  commitIndex := h.commitIndex.ge
  primary := fun hne => (h.primary hne).symm ▸ Nat.lt_succ_self _

/-- Before `setData` the version is the one of the znode that was read. -/
def zkContract : Contract ZkOp ZkOp.Res ZkNote where
  pre := fun g o =>
    match o with
    | .create shardId data => data.shardId = shardId
    | .setData shardId data version =>
      ∃ n, g.read shardId = some n ∧ version = n.version ∧ Advances n.data data
    | _ => True
  may := fun g o r =>
    match o, r with
    | .getChildren, children => children.Nodup
    | .getData shardId, some n => n.data.shardId = shardId
    | .existsNode shardId, stat => ∀ n, g.read shardId = some n → stat = some n.version
    | _, _ => True

/-- Between a call's first `getData` of a znode and its `exists`, nobody writes the znode. -/
def Undisturbed (zk : ZooKeeper) (g : ZkNote) : ZkOp → Prop
  | .existsNode shardId =>
    ∀ n, g.read shardId = some n → (zk.shards shardId).map (·.version) = some n.version
  | _ => True

instance (zk : ZooKeeper) (g : ZkNote) : (o : ZkOp) → Decidable (Undisturbed zk g o)
  | .existsNode shardId =>
    match hread : g.read shardId with
    | none => isTrue fun _ h => nomatch hread.symm.trans h
    | some n =>
      decidable_of_iff ((zk.shards shardId).map (·.version) = some n.version)
        ⟨fun h x hx => by rwa [← Option.some.inj (hread.symm.trans hx)], fun h => h n hread⟩
  | .getChildren => isTrue trivial
  | .getData _ => isTrue trivial
  | .create _ _ => isTrue trivial
  | .setData _ _ _ => isTrue trivial

namespace ZooKeeper

variable {zk : ZooKeeper}

/-- The current record of a shard is the latest one, and a term has one primary. -/
structure Ok (zk : ZooKeeper) : Prop where
  distinct : zk.children.Nodup
  there : ∀ s ∈ zk.children, zk.shards s ≠ none
  shardId : ∀ s n, zk.shards s = some n → n.data.shardId = s
  current : ∀ s n, zk.shards s = some n → n.data ∈ zk.history s
  latest : ∀ s n, zk.shards s = some n → ∀ m ∈ zk.history s, m.term ≤ n.data.term
  absent : ∀ s, zk.shards s = none → zk.history s = []
  agree : ∀ s, ∀ m ∈ zk.history s, ∀ m' ∈ zk.history s, m.term = m'.term → m.primary = m'.primary

/-- The notes of a call are true. -/
structure Noted (zk : ZooKeeper) (g : ZkNote) : Prop where
  read : ∀ s n, g.read s = some n →
    ∃ cur, zk.shards s = some cur ∧ n.version ≤ cur.version ∧ (cur.version = n.version → cur = n)
  known : ∀ m ∈ g.known, m ∈ zk.history m.shardId

/-- ZooKeeper as a store fills it is in order. -/
theorem Ok.ofStore (z : ZkMetadataStore) : (ofStore z).Ok where
  distinct := List.nodup_dedup _
  there := by
    intro s hs
    obtain ⟨m, hm, rfl⟩ := List.mem_map.mp (List.mem_dedup.mp hs)
    have hfind : (z.shard m.shardId).isSome = true := List.find?_isSome.mpr ⟨m, hm, by simp⟩
    intro hnone
    rw [Option.map_eq_none_iff.mp hnone] at hfind
    cases hfind
  shardId := by
    intro s n hn
    obtain ⟨m, hm, rfl⟩ := Option.map_eq_some_iff.mp hn
    exact ZkMetadataStore.shardId_of_shard hm
  current := by
    intro s n hn
    obtain ⟨m, hm, rfl⟩ := Option.map_eq_some_iff.mp hn
    simp [ZooKeeper.ofStore, hm]
  latest := by
    intro s n hn m' hm'
    obtain ⟨m, hm, rfl⟩ := Option.map_eq_some_iff.mp hn
    simp only [ZooKeeper.ofStore, hm, Option.toList_some, List.mem_singleton] at hm'
    rw [hm']
  absent := by
    intro s hs
    have hs : z.shard s = none := by simpa [ZooKeeper.ofStore] using hs
    simp [ZooKeeper.ofStore, hs]
  agree := by
    intro s m hm m' hm' _
    have heq : some m = some m' := (Option.mem_toList.mp hm).symm.trans (Option.mem_toList.mp hm')
    rw [Option.some.inj heq]

theorem Noted.new (zk : ZooKeeper) : zk.Noted {} :=
  ⟨fun _ _ h => by simp at h, fun _ h => by simp at h⟩

/-- A shard gets a record, the first one or one that advances the current one. -/
theorem Ok.write (h : zk.Ok) {s : Int} {d : ShardMetadata} (hid : d.shardId = s)
    (hd : ∀ cur, zk.shards s = some cur → Advances cur.data d) (v : Nat) :
    (zk.write s { data := d, version := v }).Ok := by
  -- the records of the shard before
  have hold : ∀ m ∈ zk.history s, m.term ≤ d.term ∧ (m.term = d.term → m.primary = d.primary) := by
    intro m hm
    cases hcur : zk.shards s with
    | none =>
      rw [h.absent s hcur] at hm
      cases hm
    | some cur =>
      have hadv := hd cur hcur
      have hle := h.latest s cur hcur m hm
      refine ⟨hle.trans hadv.term, fun hterm => ?_⟩
      have hcurrent : m.primary = cur.data.primary :=
        h.agree s m hm _ (h.current s cur hcur) (by have := hadv.term; omega)
      by_contra hne
      have hlt := hadv.primary fun heq => hne (hcurrent.trans heq.symm)
      omega
  refine ⟨h.distinct, fun t ht => ?_, fun t n hn => ?_, fun t n hn => ?_, fun t n hn m hm => ?_,
    fun t ht => ?_, fun t m hm m' hm' hterm => ?_⟩
  · by_cases hts : t = s
    · subst hts
      simp [ZooKeeper.write]
    · simpa [ZooKeeper.write, Function.update_of_ne hts] using h.there t ht
  · by_cases hts : t = s
    · subst hts
      simp only [ZooKeeper.write, Function.update_self, Option.some.injEq] at hn
      rw [← hn]
      exact hid
    · exact h.shardId t n (by simpa [ZooKeeper.write, Function.update_of_ne hts] using hn)
  · by_cases hts : t = s
    · subst hts
      simp only [ZooKeeper.write, Function.update_self, Option.some.injEq] at hn
      simp [ZooKeeper.write, ← hn]
    · simp only [ZooKeeper.write, Function.update_of_ne hts] at hn ⊢
      exact h.current t n hn
  · by_cases hts : t = s
    · subst hts
      simp only [ZooKeeper.write, Function.update_self, Option.some.injEq, List.mem_append,
        List.mem_singleton] at hn hm
      rw [← hn]
      obtain hm | rfl := hm
      · exact (hold m hm).1
      · exact Nat.le_refl _
    · simp only [ZooKeeper.write, Function.update_of_ne hts] at hn hm
      exact h.latest t n hn m hm
  · by_cases hts : t = s
    · subst hts
      simp [ZooKeeper.write] at ht
    · simp only [ZooKeeper.write, Function.update_of_ne hts] at ht ⊢
      exact h.absent t ht
  · by_cases hts : t = s
    · subst hts
      simp only [ZooKeeper.write, Function.update_self, List.mem_append, List.mem_singleton]
        at hm hm'
      obtain hm | rfl := hm
      · obtain hm' | rfl := hm'
        · exact h.agree t m hm m' hm' hterm
        · exact (hold m hm).2 hterm
      · obtain hm' | rfl := hm'
        · exact ((hold m' hm').2 hterm.symm).symm
        · rfl
    · simp only [ZooKeeper.write, Function.update_of_ne hts] at hm hm'
      exact h.agree t m hm m' hm' hterm

/-- Notes stay true when a shard gets a newer version. -/
theorem Noted.write {g : ZkNote} (h : zk.Noted g) {s : Int} {n : Znode}
    (hn : ∀ cur, zk.shards s = some cur → cur.version < n.version) : (zk.write s n).Noted g := by
  refine ⟨fun t x hx => ?_, fun m hm => ?_⟩
  · obtain ⟨cur, hcur, hle, hsame⟩ := h.read t x hx
    by_cases hts : t = s
    · subst hts
      refine ⟨n, by simp [ZooKeeper.write], hle.trans (Nat.le_of_lt (hn cur hcur)), ?_⟩
      have := hn cur hcur
      omega
    · exact ⟨cur, by simpa [ZooKeeper.write, Function.update_of_ne hts] using hcur, hle, hsame⟩
  · by_cases hms : m.shardId = s
    · have hmem := h.known m hm
      rw [hms] at hmem ⊢
      simp [ZooKeeper.write, hmem]
    · simpa [ZooKeeper.write, Function.update_of_ne hms] using h.known m hm

/-- A new znode is listed. -/
theorem Ok.addChild (h : zk.Ok) {s : Int} (hs : s ∉ zk.children) (hthere : zk.shards s ≠ none) :
    Ok { zk with children := zk.children ++ [s] } where
  distinct := by
    refine List.nodup_append.mpr ⟨h.distinct, List.nodup_singleton s, fun a ha b hb => ?_⟩
    rw [List.mem_singleton.mp hb]
    exact fun heq => hs (heq ▸ ha)
  there := by
    intro t ht
    obtain ht | ht := List.mem_append.mp ht
    · exact h.there t ht
    · rw [List.mem_singleton.mp ht]
      exact hthere
  shardId := h.shardId
  current := h.current
  latest := h.latest
  absent := h.absent
  agree := h.agree

theorem sem_create (zk : ZooKeeper) (s : Int) (d : ShardMetadata) :
    (zk.shards s = none ∧ zk.sem (.create s d) =
        (true, { zk.write s { data := d } with children := zk.children ++ [s] })) ∨
      zk.sem (.create s d) = (false, zk) := by
  cases hs : zk.shards s with
  | none => exact Or.inl ⟨rfl, by simp [sem, hs]⟩
  | some n => exact Or.inr (by simp [sem, hs])

/-- A write: done with the right version, or refused. -/
theorem sem_setData (zk : ZooKeeper) (s : Int) (d : ShardMetadata) (v : Nat) :
    (∃ n, zk.shards s = some n ∧ n.version = v ∧ zk.sem (.setData s d v) =
        (true, zk.write s { data := d, version := v + 1 })) ∨
      zk.sem (.setData s d v) = (false, zk) := by
  cases hs : zk.shards s with
  | none => exact Or.inr (by simp [sem, hs])
  | some n =>
    by_cases hv : n.version = v
    · exact Or.inl ⟨n, rfl, hv, by simp [sem, hs, hv]⟩
    · exact Or.inr (by simp [sem, hs, hv])

/-- The call has read what it writes over. -/
theorem Noted.read_eq {g : ZkNote} (h : zk.Noted g) {s : Int} {d : ShardMetadata} {v : Nat}
    (hpre : zkContract.pre g (.setData s d v)) {n : Znode} (hn : zk.shards s = some n)
    (hv : n.version = v) : g.read s = some n ∧ Advances n.data d := by
  obtain ⟨x, hx, hxv, hadv⟩ := hpre
  obtain ⟨cur, hcur, _, hsame⟩ := h.read s x hx
  have hcn : cur = n := Option.some.inj (hcur.symm.trans hn)
  subst hcn
  have hcx : cur = x := hsame (hv.trans hxv)
  subst hcx
  exact ⟨hx, hadv⟩

/-- What was just read is noted rightly. -/
theorem Noted.getData {g : ZkNote} (h : zk.Noted g) (hok : zk.Ok) {s : Int} {n : Znode}
    (hn : zk.shards s = some n) : zk.Noted (zooKeeper.note g (.getData s) (some n)) := by
  refine ⟨fun t x hx => ?_, fun m hm => ?_⟩
  · simp only [zooKeeper] at hx
    split at hx
    · by_cases hts : t = s
      · subst hts
        simp only [Function.update_self, Option.some.injEq] at hx
        subst hx
        exact ⟨n, hn, Nat.le_refl _, fun _ => rfl⟩
      · rw [Function.update_of_ne hts] at hx
        exact h.read t x hx
    · exact h.read t x hx
  · obtain rfl | hm := List.mem_cons.mp hm
    · have hcurrent := hok.current s n hn
      rwa [hok.shardId s n hn]
    · exact h.known m hm

/-- A record that was written is known. -/
theorem Noted.wrote {g : ZkNote} (h : zk.Noted g) {d : ShardMetadata}
    (hd : d ∈ zk.history d.shardId) : zk.Noted { g with known := d :: g.known } := by
  refine ⟨h.read, fun m hm => ?_⟩
  obtain rfl | hm := List.mem_cons.mp hm
  · exact hd
  · exact h.known m hm

theorem mem_history_write (zk : ZooKeeper) (s : Int) (n : Znode) :
    n.data ∈ (zk.write s n).history s := by
  simp [ZooKeeper.write]

/-- The operations keep the invariant and the notes of all calls. -/
theorem sound : Pool.Sound zooKeeper zkContract Undisturbed ZooKeeper.Ok ZooKeeper.Noted where
  step := by
    intro zk g o hok hg hpre hcond
    show (zk.sem o).2.Ok ∧ (zk.sem o).2.Noted (zooKeeper.note g o (zk.sem o).1) ∧
      zkContract.may g o (zk.sem o).1
    cases o with
    | getChildren => exact ⟨hok, hg, hok.distinct⟩
    | getData s =>
      cases hs : zk.shards s with
      | none =>
        have hsem : zk.sem (.getData s) = (none, zk) := by simp [sem, hs]
        rw [hsem]
        exact ⟨hok, hg, trivial⟩
      | some n =>
        have hsem : zk.sem (.getData s) = (some n, zk) := by simp [sem, hs]
        rw [hsem]
        exact ⟨hok, hg.getData hok hs, hok.shardId s n hs⟩
    | existsNode s => exact ⟨hok, hg, hcond⟩
    | create s d =>
      have hid : d.shardId = s := hpre
      obtain ⟨hs, hsem⟩ | hsem := zk.sem_create s d
      · rw [hsem]
        have hwrite := hok.write hid (fun cur hcur => by simp [hs] at hcur) 0
        refine ⟨hwrite.addChild (fun hmem => hok.there s hmem hs) (by simp [ZooKeeper.write]), ?_,
          trivial⟩
        have hnoted : (zk.write s { data := d }).Noted g :=
          hg.write fun cur hcur => by simp [hs] at hcur
        subst hid
        have hwrote := hnoted.wrote (zk.mem_history_write d.shardId { data := d })
        exact ⟨hwrote.read, hwrote.known⟩
      · rw [hsem]
        exact ⟨hok, hg, trivial⟩
    | setData s d v =>
      obtain ⟨n, hn, hv, hsem⟩ | hsem := zk.sem_setData s d v
      · -- the version is the one that was read, so nobody has written since
        rw [hsem]
        obtain ⟨_, hadv⟩ := hg.read_eq hpre hn hv
        have hid : d.shardId = s := hadv.shardId.trans (hok.shardId s n hn)
        have hcur : ∀ cur, zk.shards s = some cur → cur = n := fun cur hcur =>
          Option.some.inj (hcur.symm.trans hn)
        refine ⟨hok.write hid (fun cur h => hcur cur h ▸ hadv) (v + 1), ?_, trivial⟩
        have hnoted : (zk.write s { data := d, version := v + 1 }).Noted g :=
          hg.write fun cur h => by
            rw [hcur cur h, hv]
            exact Nat.lt_succ_self v
        subst hid
        exact hnoted.wrote (zk.mem_history_write d.shardId { data := d, version := v + 1 })
      · rw [hsem]
        exact ⟨hok, hg, trivial⟩
  stable := by
    intro zk g o g' hok hg hpre _ hg'
    show (zk.sem o).2.Noted g'
    cases o with
    | getChildren => exact hg'
    | getData s => exact hg'
    | existsNode s => exact hg'
    | create s d =>
      obtain ⟨hs, hsem⟩ | hsem := zk.sem_create s d
      · rw [hsem]
        have hwrite : (zk.write s { data := d }).Noted g' :=
          hg'.write fun cur hcur => by simp [hs] at hcur
        exact ⟨hwrite.read, hwrite.known⟩
      · rw [hsem]
        exact hg'
    | setData s d v =>
      obtain ⟨n, hn, hv, hsem⟩ | hsem := zk.sem_setData s d v
      · rw [hsem]
        refine hg'.write fun cur hcur => ?_
        have hcn : cur = n := Option.some.inj (hcur.symm.trans hn)
        rw [hcn, hv]
        exact Nat.lt_succ_self v
      · rw [hsem]
        exact hg'

end ZooKeeper

/-- A call notes more and more. -/
structure ZkNote.Extends (g g' : ZkNote) : Prop where
  read : ∀ s n, g.read s = some n → g'.read s = some n
  known : ∀ m ∈ g.known, m ∈ g'.known

theorem ZkNote.Extends.trans {g g' g'' : ZkNote} (h : g.Extends g') (h' : g'.Extends g'') :
    g.Extends g'' :=
  ⟨fun s n hn => h'.read s n (h.read s n hn), fun m hm => h'.known m (h.known m hm)⟩

/-- Reading adds one. -/
theorem ZkNote.extends_getData (g : ZkNote) (s : Int) (n : Znode) :
    g.Extends (zooKeeper.note g (.getData s) (some n)) := by
  refine ⟨fun t x hx => ?_, fun m hm => List.mem_cons_of_mem _ hm⟩
  simp only [zooKeeper]
  split
  · rename_i hnone
    by_cases hts : t = s
    · subst hts
      rw [hx] at hnone
      cases hnone
    · rwa [Function.update_of_ne hts]
  · exact hx

/-- The note after a first `getData`. -/
theorem ZkNote.read_getData {g : ZkNote} {s : Int} (hs : g.read s = none) (n : Znode) (t : Int) :
    (zooKeeper.note g (.getData s) (some n)).read t = if t = s then some n else g.read t := by
  simp only [zooKeeper, hs, Option.isNone_none, if_true]
  exact Function.update_apply _ _ _ _

namespace ZkProg

variable {α : Type} {g : ZkNote}

/-- The program is safe from these notes on. -/
abbrev SafeFrom (g : ZkNote) (p : ZkProg α) (post : ZkNote → α → Prop) : Prop :=
  Prog.Safe zooKeeper zkContract post g p

theorem safe_shard {s : Int} {post : ZkNote → ShardMetadata → Prop}
    (h : ∀ n, n.data.shardId = s → post (zooKeeper.note g (.getData s) (some n)) n.data) :
    SafeFrom g (shard s) post := by
  refine Prog.Safe.bind (Prog.Safe.op trivial fun r hr => ?_)
  cases r with
  | none => trivial
  | some n => exact h n hr

/-- The records that `readAll` returns are known. If none of them was read before, they are the
noted ones. -/
theorem safe_readAll {children : List Int} (hchildren : children.Nodup) :
    SafeFrom g (readAll children) (fun g' ms => g.Extends g' ∧ (∀ m ∈ ms, m ∈ g'.known) ∧
      ((∀ s ∈ children, g.read s = none) →
        ∀ m ∈ ms, ∃ n, g'.read m.shardId = some n ∧ n.data = m)) := by
  induction children generalizing g with
  | nil => exact ⟨⟨fun _ _ h => h, fun _ h => h⟩, by simp, by simp⟩
  | cons s children ih =>
    obtain ⟨hs, hrest⟩ := List.nodup_cons.mp hchildren
    refine Prog.Safe.bind (safe_shard fun n hn => ?_)
    refine Prog.Safe.bind ((ih hrest).mono fun g' ms hms => ?_)
    obtain ⟨hext, hknown, hread⟩ := hms
    refine ⟨(g.extends_getData s n).trans hext, fun m hm => ?_, fun hnew m hm => ?_⟩
    · obtain rfl | hm := List.mem_cons.mp hm
      · exact hext.known _ List.mem_cons_self
      · exact hknown m hm
    · have hnone := hnew s List.mem_cons_self
      obtain rfl | hm := List.mem_cons.mp hm
      · refine ⟨n, hext.read _ n ?_, rfl⟩
        rw [ZkNote.read_getData hnone, if_pos hn]
      · refine hread (fun t ht => ?_) m hm
        rw [ZkNote.read_getData hnone, if_neg fun hts : t = s => hs (hts ▸ ht)]
        exact hnew t (List.mem_cons_of_mem _ ht)

theorem safe_shards :
    SafeFrom g shards (fun g' ms => g.Extends g' ∧ (∀ m ∈ ms, m ∈ g'.known) ∧
      ((∀ s, g.read s = none) → ∀ m ∈ ms, ∃ n, g'.read m.shardId = some n ∧ n.data = m)) := by
  refine Prog.Safe.bind (Prog.Safe.op trivial fun children hchildren => ?_)
  refine Prog.Safe.bind ((safe_readAll hchildren).mono fun g' ms hms => ?_)
  obtain ⟨hext, hknown, hread⟩ := hms
  refine ⟨hext, fun m hm => hknown m ((List.mem_insertionSort _).mp hm), fun hnew m hm => ?_⟩
  exact hread (fun s _ => hnew s) m ((List.mem_insertionSort _).mp hm)

/-- A record may be written that advances the one that was read. -/
theorem safe_updateShard {m : ShardMetadata} {n : Znode} {post : ZkNote → Unit → Prop}
    (hread : g.read m.shardId = some n) (hadv : Advances n.data m)
    (hpost : post { g with known := m :: g.known } ()) : SafeFrom g (updateShard m) post := by
  refine Prog.Safe.bind (Prog.Safe.op trivial fun stat hstat => ?_)
  have hstat : stat = some n.version := hstat n hread
  subst hstat
  refine Prog.Safe.bind (Prog.Safe.op ⟨n, hread, rfl, hadv⟩ fun written _ => ?_)
  cases written with
  | false => trivial
  | true => exact hpost

/-- Writing several, each over the one it was read from. -/
theorem safe_updateAll {ms : List ShardMetadata}
    (h : ∀ m ∈ ms, ∃ n, g.read m.shardId = some n ∧ Advances n.data m) :
    SafeFrom g (updateAll ms) (fun g' _ => g.Extends g' ∧ ∀ m ∈ ms, m ∈ g'.known) := by
  induction ms generalizing g with
  | nil => exact ⟨⟨fun _ _ h => h, fun _ h => h⟩, by simp⟩
  | cons m ms ih =>
    obtain ⟨n, hread, hadv⟩ := h m List.mem_cons_self
    refine Prog.Safe.bind (safe_updateShard hread hadv ?_)
    have hrest : SafeFrom { g with known := m :: g.known } (updateAll ms) _ :=
      ih fun x hx => h x (List.mem_cons_of_mem _ hx)
    refine hrest.mono fun g' _ hms => ?_
    obtain ⟨hext, hknown⟩ := hms
    have hfirst : g.Extends { g with known := m :: g.known } :=
      ⟨fun _ _ h => h, fun _ h => List.mem_cons_of_mem _ h⟩
    refine ⟨hfirst.trans hext, fun x hx => ?_⟩
    obtain rfl | hx := List.mem_cons.mp hx
    · exact hext.known _ List.mem_cons_self
    · exact hknown x hx

/-- `electPrimary` writes a record with a new primary and the next term, and returns a known
record. -/
theorem safe_electPrimary (s : Int) (liveNodes : List NodeInfo) :
    SafeFrom {} (electPrimary s liveNodes) (fun g' m => m ∈ g'.known) := by
  refine Prog.Safe.bind (safe_shard fun n hn => ?_)
  have hread : (zooKeeper.note {} (.getData s) (some n)).read n.data.shardId = some n := by
    rw [ZkNote.read_getData rfl, if_pos hn]
  dsimp only
  split
  · exact List.mem_cons_self
  split
  · exact List.mem_cons_self
  refine Prog.Safe.bind (Prog.Safe.bind (safe_shards.mono fun g' ms hms => ?_))
  obtain ⟨hext, _, _⟩ := hms
  show Prog.Safe _ _ _ _ (ite _ _ _)
  split
  · exact hext.known _ List.mem_cons_self
  · rename_i hne
    refine Prog.Safe.bind (safe_updateShard (hext.read _ n hread) ?_ List.mem_cons_self)
    exact ⟨rfl, Nat.le_succ _, Nat.le_refl _, fun _ => Nat.lt_succ_self _⟩

/-- A rebalance. -/
theorem safe_rebalance (liveNodes : List NodeInfo) (rf : Nat) :
    SafeFrom {} (rebalance liveNodes rf) (fun g' ms => ∀ m ∈ ms, m ∈ g'.known) := by
  unfold rebalance
  dsimp only
  split
  · exact safe_shards.mono fun g' ms hms => hms.2.1
  · refine Prog.Safe.bind (safe_shards.mono fun g' previous hprevious => ?_)
    obtain ⟨_, _, hread⟩ := hprevious
    refine Prog.Safe.bind ((safe_updateAll fun m hm => ?_).mono fun g'' _ h => h.2)
    -- every record that is written is made of one that was read
    obtain ⟨old, hold, hmade⟩ := ZkMetadataStore.exists_of_mem_rebalanced hm
    obtain ⟨n, hn, hdata⟩ := hread (fun _ => rfl) old hold
    refine ⟨n, ?_, ?_⟩
    · rw [← hn, hmade.shardId]
    · rw [hdata]
      exact hmade.advances

/-- A commit. -/
theorem safe_updateCommitIndex (s : Int) (k : Nat) :
    SafeFrom {} (updateCommitIndex s k) (fun _ _ => True) := by
  refine Prog.Safe.bind (safe_shard fun n hn => ?_)
  split
  · rename_i hlt
    refine safe_updateShard (n := n) ?_ ?_ trivial
    · rw [ZkNote.read_getData rfl]
      exact if_pos hn
    · exact ⟨rfl, Nat.le_refl _, Nat.le_of_lt hlt, fun hne => absurd rfl hne⟩
  · trivial

end ZkProg

/-- Every call is safe, and returns records that it knows. -/
theorem StoreCall.safe (call : StoreCall) :
    ZkProg.SafeFrom {} call.program (fun g' ms => ∀ m ∈ ms, m ∈ g'.known) := by
  cases call with
  | electPrimary s liveNodes =>
    refine Prog.Safe.bind ((ZkProg.safe_electPrimary s liveNodes).mono fun g' m hm => ?_)
    intro x hx
    rwa [List.mem_singleton.mp hx]
  | rebalance liveNodes rf => exact ZkProg.safe_rebalance liveNodes rf
  | updateCommitIndex s k =>
    refine Prog.Safe.bind ((ZkProg.safe_updateCommitIndex s k).mono fun g' _ _ => ?_)
    intro x hx
    cases hx

namespace ZkPool

variable {z : ZkMetadataStore} {actions : List (PoolAction StoreCall)} {c : ZkPool}

/-- The invariant over every undisturbed run. -/
theorem ok_of_steps
    (hrun : Steps (fun (c : ZkPool) a c' => c.Meets Undisturbed a ∧ c' = c.step a)
      { shared := ZooKeeper.ofStore z } actions c) :
    c.Ok zooKeeper zkContract ZooKeeper.Ok ZooKeeper.Noted
      (fun g' ms => ∀ m ∈ ms, m ∈ g'.known) :=
  Steps.pool ZooKeeper.sound (fun zk _ => ZooKeeper.Noted.new zk) (ZooKeeper.Ok.ofStore z)
    (fun call _ => call.safe) hrun

/-- The only change to a record is a `setData` of its version. -/
theorem shards_sem_cases {zk : ZooKeeper} {s : Int} {n : Znode} (hn : zk.shards s = some n)
    (o : ZkOp) :
    (zk.sem o).2.shards s = some n ∨
      ∃ d, o = .setData s d n.version ∧
        (zk.sem o).2.shards s = some { data := d, version := n.version + 1 } := by
  cases o with
  | getChildren => exact Or.inl hn
  | getData t => exact Or.inl hn
  | existsNode t => exact Or.inl hn
  | create t d =>
    left
    obtain ⟨ht, hsem⟩ | hsem := zk.sem_create t d
    · rw [hsem]
      have hst : s ≠ t := by
        rintro rfl
        rw [hn] at ht
        cases ht
      simpa [ZooKeeper.write, Function.update_of_ne hst] using hn
    · rwa [hsem]
  | setData t d v =>
    obtain ⟨x, hx, hv, hsem⟩ | hsem := zk.sem_setData t d v
    · rw [hsem]
      by_cases hst : s = t
      · subst hst
        cases hn.symm.trans hx
        subst hv
        exact Or.inr ⟨d, rfl, by simp [ZooKeeper.write]⟩
      · exact Or.inl (by simpa [ZooKeeper.write, Function.update_of_ne hst] using hn)
    · rw [hsem]
      exact Or.inl hn

/-- A step makes one operation of a call, or none. -/
theorem step_cases (c : ZkPool) (a : PoolAction StoreCall) :
    (c.step a).shared = c.shared ∨
      ∃ k g o next, a = .op k ∧ c.calls[k]? = some ⟨g, .call o next⟩ ∧
        (c.step a).shared = (c.shared.sem o).2 := by
  unfold ZkPool.step Pool.step
  cases a with
  | start call => exact Or.inl rfl
  | op k =>
    dsimp only
    split
    · rename_i g o next hk
      exact Or.inr ⟨k, g, o, next, rfl, hk, rfl⟩
    · exact Or.inl rfl

/-- No update is lost. In every run of any number of calls in which nobody writes a znode
between a call's `getData` and its `exists`, every step keeps or raises the term and the commit
index of a shard; and a call that has read a record before the current one was written leaves
the current one as it is. -/
theorem no_lost_update
    (hrun : Steps (fun (c : ZkPool) a c' => c.Meets Undisturbed a ∧ c' = c.step a)
      { shared := ZooKeeper.ofStore z } actions c)
    {a : PoolAction StoreCall} (ha : c.Meets Undisturbed a) {s : Int} {n : Znode}
    (hn : c.shared.shards s = some n) :
    (∃ n', (c.step a).shared.shards s = some n' ∧ n.version ≤ n'.version ∧
        n.data.term ≤ n'.data.term ∧ n.data.commitIndex ≤ n'.data.commitIndex) ∧
      ∀ k x old, a = .op k → c.calls[k]? = some x → x.ghost.read s = some old →
        old.version < n.version → (c.step a).shared.shards s = some n := by
  have hok := ok_of_steps hrun
  obtain hsame | ⟨k, g, o, next, rfl, hk, hshared⟩ := c.step_cases a
  · rw [hsame]
    exact ⟨⟨n, hn, Nat.le_refl _, Nat.le_refl _, Nat.le_refl _⟩, fun _ _ _ _ _ _ _ => hn⟩
  rw [hshared]
  obtain hkeeps | ⟨d, rfl, hwritten⟩ := shards_sem_cases hn o
  · exact ⟨⟨n, hkeeps, Nat.le_refl _, Nat.le_refl _, Nat.le_refl _⟩,
      fun _ _ _ _ _ _ _ => hkeeps⟩
  -- the call has read the record that it replaces
  have hmem := List.mem_of_getElem? hk
  obtain ⟨hread, hadv⟩ := (hok.noted _ hmem).read_eq (hok.safe _ hmem).1 hn rfl
  refine ⟨⟨_, hwritten, Nat.le_succ _, hadv.term, hadv.commitIndex⟩, ?_⟩
  intro k' x old hop hx hold hlt
  cases hop
  cases hk.symm.trans hx
  cases hread.symm.trans hold
  exact absurd hlt (Nat.lt_irrefl _)

/-- A shard with three replicas. -/
def threeReplicas (commitIndex : Nat) : ShardMetadata where
  shardId := 0
  replicas := ["n1", "n2", "n3"]
  primary := some "n1"
  term := 1
  commitIndex := commitIndex

/-- A cluster with this shard. -/
def oneShard : ZkMetadataStore where
  shardNodes := [threeReplicas 0]

/-- A serving node. -/
def serving (nodeId : String) : NodeInfo where
  nodeId := nodeId
  shards := [0]
  replicaState := .SERVING

/-- A commit and an election that starts before the commit has written, and reads after it. -/
def commitThenElect : List (PoolAction StoreCall) :=
  [.start (.updateCommitIndex 0 5), .start (.electPrimary 0 [serving "n2"]), .op 0, .op 0, .op 0,
    .op 1, .op 1, .op 1, .op 1]

/-- The last write of `commitThenElect` keeps the commit index and raises the term. -/
theorem no_lost_update_commit_then_elect :
    ∃ c : ZkPool, (c.shared.shards 0).map (·.data.commitIndex) = some 5 ∧
      ∃ n', (c.step (.op 1)).shared.shards 0 = some n' ∧ 1 ≤ n'.data.term ∧
        5 ≤ n'.data.commitIndex := by
  have hrun := Steps.of_guarded (s := ({ shared := ZooKeeper.ofStore oneShard } : ZkPool))
    (l := commitThenElect) (f := ZkPool.step) (P := fun c a => c.Meets Undisturbed a)
    (by decide +kernel)
  have hnext : Pool.Meets Undisturbed
      (commitThenElect.foldl ZkPool.step { shared := ZooKeeper.ofStore oneShard })
      (PoolAction.op 1 : PoolAction StoreCall) := by decide +kernel
  obtain ⟨n', hn', _, hterm, hcommit⟩ := (no_lost_update hrun hnext (s := 0)
    (n := { data := threeReplicas 5, version := 1 }) (by decide +kernel)).1
  exact ⟨_, by decide +kernel, n', hn', hterm, hcommit⟩

/-- Two commits. The second one writes between the `getData` and the `exists` of the first. -/
def overtakenCommit : List (PoolAction StoreCall) :=
  [.start (.updateCommitIndex 0 5), .start (.updateCommitIndex 0 9), .op 0, .op 1, .op 1, .op 1,
    .op 0]

/-- Without the condition the commit index goes back: the last write of the first call replaces
the larger index of the second, which has returned. -/
theorem overtaken_commit_is_lost :
    ¬ ∀ (z : ZkMetadataStore) (actions : List (PoolAction StoreCall)) (a : PoolAction StoreCall)
        (s : Int) (n n' : Znode),
      (actions.foldl ZkPool.step { shared := ZooKeeper.ofStore z }).shared.shards s = some n →
      (ZkPool.step (actions.foldl ZkPool.step { shared := ZooKeeper.ofStore z }) a).shared.shards
        s = some n' →
      n.data.term ≤ n'.data.term ∧ n.data.commitIndex ≤ n'.data.commitIndex := by
  intro h
  have hle := h oneShard overtakenCommit (.op 0) 0
    { data := threeReplicas 9, version := 1 } { data := threeReplicas 5, version := 2 }
    (by decide +kernel) (by decide +kernel)
  revert hle
  decide

/-- A term has one primary. In every run of any number of calls in which nobody writes a znode
between a call's `getData` and its `exists`, any two records that calls return for one shard and
one term have the same primary. -/
theorem one_primary_per_term
    (hrun : Steps (fun (c : ZkPool) a c' => c.Meets Undisturbed a ∧ c' = c.step a)
      { shared := ZooKeeper.ofStore z } actions c)
    {x y : Lib.Running ZkOp ZkOp.Res (List ShardMetadata) ZkNote} (hx : x ∈ c.calls)
    (hy : y ∈ c.calls) {ms ms' : List ShardMetadata} (hms : x.prog.result = some ms)
    (hms' : y.prog.result = some ms') {m m' : ShardMetadata} (hm : m ∈ ms) (hm' : m' ∈ ms')
    (hid : m.shardId = m'.shardId) (hterm : m.term = m'.term) : m.primary = m'.primary := by
  have hok := ok_of_steps hrun
  -- what a call returns was stored
  have hstored : ∀ x ∈ c.calls, ∀ ms, x.prog.result = some ms → ∀ m ∈ ms,
      m ∈ c.shared.history m.shardId := by
    intro x hx ms hms m hm
    have hsafe := hok.safe x hx
    rw [Prog.result_eq_some hms] at hsafe
    exact (hok.noted x hx).known m (hsafe m hm)
  refine hok.shared.agree m.shardId m (hstored x hx ms hms m hm) m' ?_ hterm
  rw [hid]
  exact hstored y hy ms' hms' m' hm'

/-- Two elections, one after the other; the second one finds a primary. -/
def electTwice : List (PoolAction StoreCall) :=
  [.start (.electPrimary 0 [serving "n2"]), .op 0, .op 0, .op 0, .op 0, .op 0,
    .start (.electPrimary 0 [serving "n2", serving "n3"]), .op 1]

/-- The record that both elections return. -/
def elected : ShardMetadata where
  shardId := 0
  replicas := ["n1", "n2", "n3"]
  primary := some "n2"
  term := 2

/-- Two elections with their operations mixed. -/
theorem one_primary_per_term_elect_twice :
    ∃ c : ZkPool, ∃ m m' : ShardMetadata, c.calls.map (·.prog.result) = [some [m], some [m']] ∧
      m.term = 2 ∧ m.primary = m'.primary := by
  have hrun := Steps.of_guarded (s := ({ shared := ZooKeeper.ofStore oneShard } : ZkPool))
    (l := electTwice) (f := ZkPool.step) (P := fun c a => c.Meets Undisturbed a)
    (by decide +kernel)
  have hresults : (electTwice.foldl ZkPool.step
      { shared := ZooKeeper.ofStore oneShard }).calls.map (·.prog.result) =
      [some [elected], some [elected]] := by decide +kernel
  have hcall : ∃ x ∈ (electTwice.foldl ZkPool.step
      { shared := ZooKeeper.ofStore oneShard }).calls,
      x.prog.result = some [elected] := by
    refine List.mem_map.mp ?_
    rw [hresults]
    exact List.mem_cons_self
  obtain ⟨x, hx, hms⟩ := hcall
  refine ⟨_, elected, elected, hresults, rfl, ?_⟩
  exact one_primary_per_term hrun hx hx hms hms (List.mem_singleton.mpr rfl)
    (List.mem_singleton.mpr rfl) rfl rfl

/-- Two coordinators that see different nodes; both read before either writes. -/
def electBoth : List (PoolAction StoreCall) :=
  [.start (.electPrimary 0 [serving "n2"]), .start (.electPrimary 0 [serving "n3"]), .op 0, .op 1,
    .op 0, .op 0, .op 0, .op 0, .op 1, .op 1, .op 1, .op 1]

/-- Without the condition a term has two primaries. -/
theorem two_primaries_in_a_term :
    (electBoth.foldl ZkPool.step { shared := ZooKeeper.ofStore oneShard }).calls.map
        (fun x => x.prog.result.map (fun ms => ms.map (fun m => (m.shardId, m.term, m.primary)))) =
      [some [(0, 2, some "n2")], some [(0, 2, some "n3")]] := by
  decide +kernel

end ZkPool

end DisMiniSql.Distributed
