import DisMiniSql.Proofs.Distributed.Aggregates
import DisMiniSql.Proofs.Distributed.PartialReads

/-!
# `DisMiniSql.Proofs.Distributed.OrderedRead`: the rows that a read returns

A read without an aggregate passes the statement on without its `order by`. Each node that is
asked prints the rows that it has. The answers are parsed and merged, and the merged rows are put
in order. `Shown` says that the answers show rows: they are all successes, and they are what
MiniSQL prints for the rows of their nodes.

* `mergeSelect_shown`: the merged table has the rows that the nodes have, each of them once, and
  they are ordered if the statement has an `order by`.
* `distributedRead_ordered`: so does the text that the client gets, when it reads it back.
-/

set_option autoImplicit false

namespace DisMiniSql.Distributed

open Lib (Regex)
open MiniSqlResultParser
open DisMiniSql.MiniSql (printScan)

variable {ρ δ : Type} [LinearOrder δ] {fold : Char → Char} {doubles : DoubleOps δ}
  {lists : ListSort} {columns : List Text} {cells : ρ → List Text} {rows : List ρ}
  {held : String → List ρ} {answers : List Answer}

/-- The answers show the rows that the nodes hold. -/
structure Shown (columns : List Text) (cells : ρ → List Text) (held : String → List ρ)
    (answers : List Answer) : Prop where
  ok : ∀ a ∈ answers, a.response.ok = true
  prints : ∀ a ∈ answers, ∃ milliseconds, a.response.output.toList =
    printScan columns ((held a.node.nodeId).map cells) milliseconds

/-- The rows are those of the nodes that have answered, each of them once. -/
structure HeldRows (columns : List Text) (cells : ρ → List Text) (held : String → List ρ)
    (answers : List Answer) (rows : List ρ) : Prop where
  nodup : rows.Nodup
  mem_iff : ∀ r, r ∈ rows ↔ ∃ a ∈ answers, r ∈ held a.node.nodeId
  columns_ne : columns ≠ []
  fits : ∀ r, (cells r).length = columns.length

namespace QueryPostProcessor

/-- The node that has answered, with an engine that prints this answer. -/
def answering (held : String → List ρ) (a : Answer) : Node ρ where
  nodeId := a.node.nodeId
  rows := held a.node.nodeId
  engine := fun _ => a.response.output.toList

/-- The rows held by the nodes asked are spread over their answers. -/
theorem spread_answering (h : HeldRows columns cells held answers rows)
    (hshown : Shown columns cells held answers) (table : Text) :
    Spread columns cells table rows (answers.map (answering held)) where
  nodup := h.nodup
  mem_iff := by
    intro r
    rw [h.mem_iff]
    simp [answering]
  columns_ne := h.columns_ne
  fits := h.fits
  prints := by
    rw [List.forall_mem_map]
    intro a ha
    exact hshown.prints a ha

/-- The merge reads whether an answer is a success, and its text. -/
theorem mergeResponses_shown (hshown : Shown columns cells held answers) (sql : Text) :
    mergeResponses fold (answers.map (·.response)) =
      mergeResponses fold
        (QueryPostProcessor.answers (answers.map (answering held)) sql) := by
  have hok : (answers.map (·.response)).filter (·.ok) = answers.map (·.response) := by
    rw [List.filter_eq_self, List.forall_mem_map]
    exact hshown.ok
  have hok' : (QueryPostProcessor.answers (answers.map (answering held)) sql).filter (·.ok) =
      QueryPostProcessor.answers (answers.map (answering held)) sql := by
    rw [List.filter_eq_self, QueryPostProcessor.answers, List.forall_mem_map]
    exact fun _ _ => rfl
  rw [mergeResponses, mergeResponses, hok, hok', QueryPostProcessor.answers, List.map_map,
    List.mapM_map, List.mapM_map]
  congr 2
  funext a
  show parse a.response.output.toList = parse (String.ofList a.response.output.toList).toList
  rw [String.toList_ofList]

/-- Rows that are permuted as texts are permuted. -/
theorem exists_perm_of_map {f : ρ → List Text} {some_rows : List ρ} {texts : List (List Text)}
    (hnodup : rows.Nodup) (hperm : some_rows.Perm rows)
    (hinj : ∀ r ∈ rows, ∀ r' ∈ rows, f r = f r' → r = r')
    (h : texts.Perm (some_rows.map f)) :
    ∃ sorted : List ρ, sorted.Perm rows ∧ sorted.map f = texts := by
  have hpre : ∀ t ∈ texts, ∃ r ∈ some_rows, f r = t := fun t ht => List.mem_map.mp (h.subset ht)
  obtain ⟨sorted, hmap, hsub⟩ := exists_map_eq hpre
  have hinj' : ∀ r ∈ some_rows, ∀ r' ∈ some_rows, f r = f r' → r = r' :=
    fun r hr r' hr' => hinj r (hperm.subset hr) r' (hperm.subset hr')
  have hdistinct : (some_rows.map f).Nodup :=
    (hperm.nodup_iff.mpr hnodup).map_on hinj'
  have hsorted : sorted.Nodup := by
    have hall := h.nodup_iff.mpr hdistinct
    rw [← hmap] at hall
    exact hall.of_map
  refine ⟨sorted, (List.perm_ext_iff_of_nodup hsorted hnodup).mpr fun r => ?_, hmap⟩
  constructor
  · exact fun hr => hperm.subset (hsub r hr)
  · intro hr
    have hmem : f r ∈ sorted.map f := by
      rw [hmap]
      exact h.symm.subset (List.mem_map_of_mem (hperm.symm.subset hr))
    obtain ⟨r', hr', heq⟩ := List.mem_map.mp hmem
    rwa [← hinj r' (hperm.subset (hsub r' hr')) r hr heq]

/-- The merged table has the columns of the answers and the rows of the nodes, in some order. -/
theorem mergeResponses_eq (hheld : HeldRows columns cells held answers rows)
    (hshown : Shown columns cells held answers) (hclean : Clean columns cells rows) :
    ∃ merged_rows : List ρ, merged_rows.Perm rows ∧
      mergeResponses fold (answers.map (·.response)) =
        some (if rows = [] then {} else { columns := columns, rows := merged_rows.map cells }) := by
  have hs := spread_answering hheld hshown []
  obtain ⟨merged_rows, hperm, hmerged⟩ : ∃ merged_rows : List ρ, merged_rows.Perm rows ∧
      (merge fold ((answers.map (answering held)).map (tableOf columns cells))).rows =
        merged_rows.map cells := merge_tableOf hs hclean
  refine ⟨merged_rows, hperm, ?_⟩
  rw [mergeResponses_shown hshown (selectAll []), mergeResponses_answers hs hclean,
    Option.some.injEq]
  by_cases hrows : rows = []
  · rw [if_pos hrows, merge_tableOf_nil hs hrows]
  · rw [if_neg hrows]
    have hcolumns :
        (merge fold ((answers.map (answering held)).map (tableOf columns cells))).columns =
          columns := columns_merge_tableOf hs hrows
    have heta : ∀ t : QueryTable, t.columns = columns →
        t = { columns := columns, rows := t.rows } := by
      rintro ⟨_, _⟩ rfl
      rfl
    rw [← hmerged]
    exact heta _ hcolumns

/-- The column of the `order by`, if the statement has one and the table has the column, has the
text `null` beside two different numbers. -/
def Unorderable (fold : Char → Char) (doubles : DoubleOps δ) (columns : List Text) (sql : Text)
    (texts : List (List Text)) : Prop :=
  ∃ groups index, ORDER_BY.matchAll sql = some groups ∧
    columnIndex fold columns (group groups 2) = some index ∧
    MixesNull doubles (texts.map (cell · index))

omit [LinearOrder δ] in
theorem Unorderable.of_perm {sql : Text} {texts more : List (List Text)}
    (h : Unorderable fold doubles columns sql texts) (hperm : texts.Perm more) :
    Unorderable fold doubles columns sql more := by
  obtain ⟨groups, index, hsql, hindex, a, ha, b, hb, c, hc, hrest⟩ := h
  -- the cells of the column are the same
  have hcells := hperm.map (cell · index)
  exact ⟨groups, index, hsql, hindex, a, hcells.subset ha, b, hcells.subset hb, c,
    hcells.subset hc, hrest⟩

/-- The rows are ordered by the column of an `order by`, if the merged table has this column and the
order is one on its cells. -/
def OrderedBy (fold : Char → Char) (doubles : DoubleOps δ) (columns : List Text) (sql : Text)
    (texts : List (List Text)) : Prop :=
  ∀ groups index, ORDER_BY.matchAll sql = some groups →
    columnIndex fold columns (group groups 2) = some index →
    ¬ MixesNull doubles (texts.map (cell · index)) →
      Ordered doubles (isDesc fold groups) index texts

/-- `applyOrderBy` permutes the rows, and puts them in order if there is one. It throws only if
there is none. -/
theorem applyOrderBy_spec (fold : Char → Char) (doubles : DoubleOps δ) (lists : ListSort)
    (sql : Text) (table : QueryTable) :
    (applyOrderBy fold doubles lists sql table = none ∧
      Unorderable fold doubles table.columns sql table.rows) ∨
    ∃ texts, texts.Perm table.rows ∧
      applyOrderBy fold doubles lists sql table = some { table with rows := texts } ∧
      OrderedBy fold doubles table.columns sql texts := by
  unfold applyOrderBy OrderedBy
  cases hsql : ORDER_BY.matchAll sql with
  | none => exact .inr ⟨table.rows, .refl _, rfl, fun groups index h => by cases h⟩
  | some groups =>
    dsimp only
    cases hindex : columnIndex fold table.columns (group groups 2) with
    | none =>
      refine .inr ⟨table.rows, .refl _, rfl, fun groups' index h hindex' => ?_⟩
      obtain rfl := Option.some.inj h
      rw [hindex] at hindex'
      cases hindex'
    | some index =>
      dsimp only
      cases hsorted : sortRows doubles lists (isDesc fold groups) index table.rows with
      | none =>
        refine .inl ⟨rfl, groups, index, hsql, hindex, ?_⟩
        by_contra hmixed
        obtain ⟨texts, htexts, -⟩ := sortRows_isSome lists (isDesc fold groups) hmixed
        rw [hsorted] at htexts
        cases htexts
      | some texts =>
        have hperm : texts.Perm table.rows := sortRows_perm hsorted
        refine .inr ⟨texts, hperm, rfl, fun groups' index' h hindex' hmixed => ?_⟩
        obtain rfl := Option.some.inj h
        obtain rfl : index = index' := Option.some.inj (hindex.symm.trans hindex')
        have hmixed' : ¬ MixesNull doubles (table.rows.map (cell · index)) := by
          rintro ⟨a, ha, b, hb, c, hc, hrest⟩
          have hcells := (hperm.map (cell · index)).symm
          exact hmixed ⟨a, hcells.subset ha, b, hcells.subset hb, c, hcells.subset hc, hrest⟩
        obtain ⟨sorted, hsome, hordered⟩ := sortRows_isSome lists (isDesc fold groups) hmixed'
        rw [hsorted] at hsome
        obtain rfl := Option.some.inj hsome
        exact hordered

/-- What is sent to the client, if there is a row. -/
theorem mergeSelect_shown (fold : Char → Char) (doubles : DoubleOps δ) (lists : ListSort)
    {sql : Text} (hsql : isAggregate sql = false)
    (hheld : HeldRows columns cells held answers rows)
    (hshown : Shown columns cells held answers) (hclean : Clean columns cells rows) :
    (rows = [] → mergeSelect fold doubles lists sql (answers.map (·.response)) = .ok []) ∧
    (rows ≠ [] →
      (mergeSelect fold doubles lists sql (answers.map (·.response)) = .error sortFailure ∧
        Unorderable fold doubles columns sql (rows.map cells)) ∨
      ∃ sorted : List ρ, sorted.Perm rows ∧
        mergeSelect fold doubles lists sql (answers.map (·.response)) =
          .ok ({ columns := columns, rows := sorted.map cells } : QueryTable).toAsciiTable ∧
        OrderedBy fold doubles columns sql (sorted.map cells)) := by
  obtain ⟨merged_rows, hperm, hmerged⟩ := mergeResponses_eq hheld hshown hclean
  constructor
  · intro hrows
    rw [mergeSelect, hmerged, if_pos hrows]
    rfl
  · intro hrows
    rw [if_neg hrows] at hmerged
    have hne : ({ columns := columns, rows := merged_rows.map cells } : QueryTable).isEmpty =
        false := List.isEmpty_eq_false_iff.mpr hheld.columns_ne
    -- what is left of the merge
    have hselect : mergeSelect fold doubles lists sql (answers.map (·.response)) =
        (applyOrderBy fold doubles lists sql
          { columns := columns, rows := merged_rows.map cells }).elim (.error sortFailure)
          (fun ordered => .ok ordered.toAsciiTable) := by
      cases horder : applyOrderBy fold doubles lists sql
        { columns := columns, rows := merged_rows.map cells } with
      | none =>
        simp only [mergeSelect, hmerged, hne, hsql, horder, Bool.false_eq_true, if_false,
          Option.elim_none]
      | some ordered =>
        simp only [mergeSelect, hmerged, hne, hsql, horder, Bool.false_eq_true, if_false,
          Option.elim_some]
    rcases applyOrderBy_spec fold doubles lists sql
      { columns := columns, rows := merged_rows.map cells } with hthrows | hordered
    · refine .inl ⟨?_, hthrows.2.of_perm (hperm.map cells)⟩
      rw [hselect, hthrows.1, Option.elim_none]
    · obtain ⟨texts, htexts, happly, hordered⟩ := hordered
      have hinj : ∀ r ∈ rows, ∀ r' ∈ rows, cells r = cells r' → r = r' :=
        fun r hr r' hr' heq => hclean.keys r hr r' hr' (by rw [heq])
      obtain ⟨sorted, hsorted, rfl⟩ := exists_perm_of_map hheld.nodup hperm hinj htexts
      refine .inr ⟨sorted, hsorted, ?_, hordered⟩
      rw [hselect, happly, Option.elim_some]

end QueryPostProcessor

open QueryPostProcessor (OrderedBy Unorderable isAggregate mergeSelect_shown sortFailure)

section
variable (sha256 : Text → Vector (BitVec 8) 32) (shardCount : Int) {w : Surroundings} {sql : Text}
  {shardKey : Option Text}

/-- The nodes that the read asks answer with the rows that they hold. -/
def AsksFor (w : Surroundings) (sql : Text) (shardKey : Option Text) (columns : List Text)
    (cells : ρ → List Text) (held : String → List ρ) : Prop :=
  ∀ a, w.Gets sha256 shardCount (dispatchSql sql) shardKey a → a.response.ok = true ∧
    ∃ milliseconds, a.response.output.toList =
      printScan columns ((held a.node.nodeId).map cells) milliseconds

/-- The rows that the nodes that are asked hold, each of them once. -/
structure Asked (w : Surroundings) (sql : Text) (shardKey : Option Text) (columns : List Text)
    (cells : ρ → List Text) (held : String → List ρ) (rows : List ρ) : Prop where
  nodup : rows.Nodup
  mem_iff : ∀ r, r ∈ rows ↔ ∃ a, w.Gets sha256 shardCount (dispatchSql sql) shardKey a ∧
    r ∈ held a.node.nodeId
  columns_ne : columns ≠ []
  fits : ∀ r, (cells r).length = columns.length

/-- A read returns the rows of the nodes that it asks. Only the sort can throw, at rows that have no
order. -/
theorem distributedRead_asked (lists : ListSort) (hsql : isAggregate sql = false)
    (hthrows : ¬ w.Throws sha256 shardCount shardKey)
    (hsilent : ¬ w.Silent sha256 shardCount shardKey)
    (hprints : AsksFor sha256 shardCount w sql shardKey columns cells held)
    (hasked : Asked sha256 shardCount w sql shardKey columns cells held rows)
    (hclean : QueryPostProcessor.Clean columns cells rows) :
    (distributedRead fold doubles lists sha256 shardCount w sql (dispatchSql sql) shardKey =
        .error sortFailure ∧ Unorderable fold doubles columns sql (rows.map cells)) ∨
    ∃ response, distributedRead fold doubles lists sha256 shardCount w sql (dispatchSql sql)
        shardKey = .ok response ∧ response.ok = true ∧
      (rows = [] → response.mergedOutput = []) ∧
      (rows ≠ [] → ∃ sorted : List ρ, sorted.Perm rows ∧
        parse response.mergedOutput = some { columns := columns, rows := sorted.map cells } ∧
        OrderedBy fold doubles columns sql (sorted.map cells)) := by
  obtain ⟨answers, hanswers, hnil, hmem⟩ :=
    Surroundings.readResponses_spec sha256 shardCount (dispatchSql sql) hthrows
  have hshown : Shown columns cells held answers :=
    ⟨fun a ha => (hprints a ((hmem a).mp ha)).1, fun a ha => (hprints a ((hmem a).mp ha)).2⟩
  have hheld : HeldRows columns cells held answers rows := by
    refine ⟨hasked.nodup, fun r => ?_, hasked.columns_ne, hasked.fits⟩
    rw [hasked.mem_iff]
    simp only [hmem]
  obtain ⟨hempty, hsome⟩ := mergeSelect_shown fold doubles lists hsql hheld hshown hclean
  have hasks : (answers.map (·.response)).isEmpty = false := by
    rw [List.isEmpty_eq_false_iff]
    exact fun h => hsilent (hnil.mp (List.map_eq_nil_iff.mp h))
  -- what is left of the read
  have hread : distributedRead fold doubles lists sha256 shardCount w sql (dispatchSql sql)
      shardKey =
      (QueryPostProcessor.mergeSelect fold doubles lists sql (answers.map (·.response))).map
        fun merged =>
          { ok := true
            route :=
              if (SqlUtils.explicitKey shardKey).isSome then "read single shard"
              else "scatter-gather read"
            responses := answers.map (·.response)
            mergedOutput := merged } := by
    unfold distributedRead
    rw [hanswers]
    show (if (answers.map (·.response)).isEmpty then _ else _) = _
    cases hmerge : QueryPostProcessor.mergeSelect fold doubles lists sql
      (answers.map (·.response)) with
    | error message => simp only [hasks, Bool.false_eq_true, if_false, Except.map]
    | ok merged => simp only [hasks, Bool.false_eq_true, if_false, Except.map]
  by_cases hrows : rows = []
  · rw [hempty hrows] at hread
    exact .inr ⟨_, hread, rfl, fun _ => rfl, fun h => absurd hrows h⟩
  · rcases hsome hrows with ⟨hfails, hmixed⟩ | ⟨sorted, hperm, hmerged, hordered⟩
    · rw [hfails] at hread
      exact .inl ⟨hread, hmixed⟩
    · rw [hmerged] at hread
      refine .inr ⟨_, hread, rfl, fun h => absurd h hrows, fun _ => ⟨sorted, hperm, ?_, hordered⟩⟩
      refine parse_toAsciiTable hasked.columns_ne ?_ ?_
      · show ∀ row ∈ sorted.map cells, row.length = columns.length
        rw [List.forall_mem_map]
        exact fun r _ => hasked.fits r
      · refine ⟨hclean.plain.1, ?_⟩
        show ∀ row ∈ sorted.map cells, ∀ c ∈ row, Plain c
        rw [List.forall_mem_map]
        exact fun r hr => hclean.plain.2 r (hperm.subset hr)

/-- A read of all shards can ask a replica of each. -/
structure Healthy (w : Surroundings) : Prop where
  nodesFailure : w.nodesFailure = none
  shardsFailure : w.shardsFailure = none
  nodup : (w.liveNodes.map (·.nodeId)).Nodup
  shards_ne : w.shards ≠ []
  choosable : ∀ shard ∈ w.shards, chooseForWrite shard.replicas w.liveNodes ≠ []

/-- The serving replicas of a shard hold its rows, and they hold rows of shards only. -/
structure Replicated (w : Surroundings) (held : String → List ρ) (shardRows : Int → List ρ) :
    Prop where
  complete : ∀ shard ∈ w.shards, ∀ node ∈ chooseForWrite shard.replicas w.liveNodes,
    ∀ r ∈ shardRows shard.shardId, r ∈ held node.nodeId
  current : ∀ shard ∈ w.shards, ∀ node ∈ chooseForWrite shard.replicas w.liveNodes,
    ∀ r ∈ held node.nodeId, ∃ s ∈ w.shards, r ∈ shardRows s.shardId

/-- The node asked is a live replica of the shard. -/
theorem mem_chooseForWrite_of_ask {n : Nat} {shard : ShardMetadata} {a : Answer} {text : Text}
    (h : w.ask text n shard = .ok a) :
    a.node ∈ chooseForWrite shard.replicas w.liveNodes ∧
      a.response = w.send n shard.shardId text a.node := by
  unfold Surroundings.ask at h
  cases hc : chooseForRead shard.shardId (w.counter n) shard.replicas w.liveNodes with
  | error message =>
    rw [hc] at h
    cases h
  | ok node =>
    rw [hc] at h
    obtain rfl := Except.ok.inj h
    refine ⟨?_, rfl⟩
    unfold chooseForRead at hc
    split at hc
    · cases hreplicas : chooseForWrite shard.replicas w.liveNodes with
      | nil =>
        rw [hreplicas] at hc
        cases hc
      | cons first rest =>
        rw [hreplicas] at hc
        obtain rfl := Except.ok.inj hc
        -- the place is within the list
        have hpos : (0 : Int) < (first :: rest).length := by simp
        have hlt : ((w.counter n).fmod (first :: rest).length).toNat < (first :: rest).length := by
          have hlow := Int.fmod_nonneg_of_pos (w.counter n) hpos
          have hhigh := Int.fmod_lt_of_pos (w.counter n) hpos
          omega
        rw [List.getD_eq_getElem?_getD, List.getElem?_eq_getElem hlt]
        exact List.getElem_mem hlt
    · cases hc

theorem not_throws (hw : Healthy w) : ¬ w.Throws sha256 shardCount none := by
  rintro (hnodes | ⟨-, hshards | ⟨hkey, -⟩ | ⟨shard, hshard, hnot⟩⟩)
  · rw [hw.nodesFailure] at hnodes
    cases hnodes
  · rw [hw.shardsFailure] at hshards
    cases hshards
  · cases hkey
  · exact hnot ⟨hw.nodup, hw.choosable shard hshard⟩

theorem not_silent (hw : Healthy w) : ¬ w.Silent sha256 shardCount none := by
  rintro (hlive | hneeded)
  · obtain ⟨shard, hshard⟩ := List.exists_mem_of_ne_nil _ hw.shards_ne
    have hsome := hw.choosable shard hshard
    rw [hlive, chooseForWrite_nil] at hsome
    exact hsome rfl
  · exact hw.shards_ne hneeded

/-- The nodes that the read asks for the shards have the rows of the shards. -/
theorem asked_of_replicated {shardRows : Int → List ρ} (hw : Healthy w)
    (hreplicated : Replicated w held shardRows) (hnodup : rows.Nodup)
    (hmem : ∀ r, r ∈ rows ↔ ∃ s ∈ w.shards, r ∈ shardRows s.shardId) (hcolumns : columns ≠ [])
    (hfits : ∀ r, (cells r).length = columns.length) :
    Asked sha256 shardCount w sql none columns cells held rows := by
  refine ⟨hnodup, fun r => ?_, hcolumns, hfits⟩
  rw [hmem]
  constructor
  · intro h
    obtain ⟨s, hs, hr⟩ := h
    obtain ⟨n, hn⟩ := List.mem_iff_getElem?.mp hs
    -- the replica that is asked about the shard
    obtain ⟨a, ha⟩ := (w.exists_ask_iff (dispatchSql sql) n s).mpr ⟨hw.nodup, hw.choosable s hs⟩
    have hnode := (mem_chooseForWrite_of_ask ha).1
    exact ⟨a, ⟨n, s, hn, ha⟩, hreplicated.complete s hs a.node hnode r hr⟩
  · intro h
    obtain ⟨a, ⟨n, s, hn, ha⟩, hr⟩ := h
    have hs : s ∈ w.shards := List.mem_iff_getElem?.mpr ⟨n, hn⟩
    exact hreplicated.current s hs a.node (mem_chooseForWrite_of_ask ha).1 r hr

/-- The nodes print the rows that they hold, whenever they are asked. -/
def Prints (w : Surroundings) (sql : Text) (columns : List Text) (cells : ρ → List Text)
    (held : String → List ρ) : Prop :=
  ∀ n node request, request.sql = String.ofList (dispatchSql sql) →
    ∃ response, w.postJson n node request = .ok response ∧ response.ok = true ∧
      ∃ milliseconds, response.output.toList =
        printScan columns ((held node.nodeId).map cells) milliseconds

/-- What the nodes print is asked for with any shard key. -/
theorem Prints.asksFor (h : Prints w sql columns cells held) (shardKey : Option Text) :
    AsksFor sha256 shardCount w sql shardKey columns cells held := by
  intro a ha
  obtain ⟨n, shard, -, ha⟩ := ha
  have hsend := (mem_chooseForWrite_of_ask ha).2
  obtain ⟨response, hpost, hok, hout⟩ :=
    h n a.node (w.request n shard.shardId (dispatchSql sql)) rfl
  have hresponse : a.response = response := by
    rw [hsend, Surroundings.send, hpost]
  rw [hresponse]
  exact ⟨hok, hout⟩

/-- A `select` with or without an `order by` over all shards. If the serving replicas of each shard
hold its rows and no node holds others, then the client reads back the rows of all shards, each of
them once, in the order that the statement asks for, if there is one on the cells of the column. The
call fails only in the sort, and only if there is no such order. -/
theorem distributedRead_ordered (lists : ListSort) {shardRows : Int → List ρ}
    (hsql : isAggregate sql = false) (hw : Healthy w) (hreplicated : Replicated w held shardRows)
    (hprints : Prints w sql columns cells held) (hnodup : rows.Nodup)
    (hmem : ∀ r, r ∈ rows ↔ ∃ s ∈ w.shards, r ∈ shardRows s.shardId) (hcolumns : columns ≠ [])
    (hfits : ∀ r, (cells r).length = columns.length)
    (hclean : QueryPostProcessor.Clean columns cells rows) :
    (distributedRead fold doubles lists sha256 shardCount w sql (dispatchSql sql) none =
        .error sortFailure ∧ Unorderable fold doubles columns sql (rows.map cells)) ∨
    ∃ response, distributedRead fold doubles lists sha256 shardCount w sql (dispatchSql sql) none =
        .ok response ∧ response.ok = true ∧
      (rows = [] → response.mergedOutput = []) ∧
      (rows ≠ [] → ∃ sorted : List ρ, sorted.Perm rows ∧
        parse response.mergedOutput = some { columns := columns, rows := sorted.map cells } ∧
        OrderedBy fold doubles columns sql (sorted.map cells)) := by
  have hasked : Asked sha256 shardCount w sql none columns cells held rows :=
    asked_of_replicated sha256 shardCount hw hreplicated hnodup hmem hcolumns hfits
  exact distributedRead_asked sha256 shardCount lists hsql (not_throws sha256 shardCount hw)
    (not_silent sha256 shardCount hw) (hprints.asksFor sha256 shardCount none) hasked hclean

end

open QueryPostProcessor (decimal wholes clean_two)

/-- The rows of two nodes. -/
def heldByTwo (nodeId : String) : List Int := if nodeId = "dn1" then [2] else [1]

/-- Two shards on a node each. -/
def bothReached : Surroundings where
  liveNodes := halfReached.liveNodes
  shards := halfReached.shards
  nodesFailure := none
  shardsFailure := none
  counter := fun _ => 0
  randomUUID := fun n => n.repr
  postJson := fun _ node _ => .ok (.success node.nodeId 0 (String.ofList
    (printScan [['i', 'd']] ((heldByTwo node.nodeId).map fun n => [decimal n]) 0)))

/-- The two rows, the larger one first. -/
theorem distributedRead_ordered_desc :
    ∃ response, distributedRead Char.toLower wholes .neverThrows
        (fun _ => Vector.replicate 32 0) 2 bothReached "select * from t order by id desc;".toList
        (dispatchSql "select * from t order by id desc;".toList) none = .ok response ∧
      response.ok = true ∧ (([1, 2] : List Int) = [] → response.mergedOutput = []) ∧
      (([1, 2] : List Int) ≠ [] → ∃ sorted : List Int, sorted.Perm [1, 2] ∧
        parse response.mergedOutput =
          some { columns := [['i', 'd']], rows := sorted.map fun n => [decimal n] } ∧
        OrderedBy Char.toLower wholes [['i', 'd']] "select * from t order by id desc;".toList
          (sorted.map fun n => [decimal n])) := by
  have hw : Healthy bothReached := ⟨rfl, rfl, by decide, by decide, by decide +kernel⟩
  have hreplicated : Replicated bothReached heldByTwo (fun s => if s = 0 then [2] else [1]) :=
    ⟨by decide +kernel, by decide +kernel⟩
  have hprints : Prints bothReached "select * from t order by id desc;".toList [['i', 'd']]
      (fun n => [decimal n]) heldByTwo :=
    fun _ node _ _ => ⟨_, rfl, rfl, 0, String.toList_ofList⟩
  have hmem : ∀ r : Int, r ∈ [1, 2] ↔ ∃ s ∈ bothReached.shards,
      r ∈ (fun s => if s = 0 then [2] else [1] : Int → List Int) s.shardId := by
    intro r
    simp [bothReached, halfReached, or_comm]
  refine (distributedRead_ordered (fun _ => Vector.replicate 32 0) 2 .neverThrows
    (by decide +kernel) hw hreplicated hprints (by decide) hmem (by decide) (fun _ => rfl)
    clean_two).resolve_left ?_
  -- a sort that never throws
  intro h
  obtain ⟨heq, -⟩ := h
  have hok : (distributedRead Char.toLower wholes .neverThrows (fun _ => Vector.replicate 32 0) 2
      bothReached "select * from t order by id desc;".toList
      (dispatchSql "select * from t order by id desc;".toList) none).isOk = true := by
    decide +kernel
  rw [heq] at hok
  cases hok

end DisMiniSql.Distributed
