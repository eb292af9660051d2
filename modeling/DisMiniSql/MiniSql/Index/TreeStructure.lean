import DisMiniSql.MiniSql.Index.BPlusTree

/-!
# `DisMiniSql.MiniSql.Index.TreeStructure`: what a well-formed index is

These are the statements about the pages of an index that its correctness is made of. They
speak of the store only.

* `keysUnder`: the keys in the leaves below a page.
* `WellFormed`: leaves at one depth, sizes, parent ids and separators below a page.
* `LeafChain`: the records along the `next_page_id` links.
* `LeafRecords`: the records of each leaf along these links.
* `IsIndex t m`: the tree is well formed, `GetValue` is the finite map `m`, and the leaf chain
  lists `m` in the order of the keys.
-/

set_option autoImplicit false

namespace DisMiniSql.MiniSql

variable {κ ν : Type}

namespace PageStore

/-- The keys stored in the leaves `h` levels below a page. -/
def keysUnder (s : PageStore κ ν) : Nat → PageId → List κ
  | 0, p =>
    match s.fetchLeaf p with
    | some l => l.pairs.map Prod.fst
    | none => []
  | h + 1, p =>
    match s.fetchInternal p with
    | some n => n.pairs.flatMap (fun e => keysUnder s h e.2)
    | none => []

/-- The pages below `p` are a search tree whose leaves are all `h` levels below `p`. No page has
more entries than its maximum, an internal page has two children at least, and `parentPageId`
is the page above. The keys below the child `i` of an internal page are less than the separator
`i + 1` and, from the second child on, not less than the separator `i`. -/
def WellFormed [LinearOrder κ] (s : PageStore κ ν) : Nat → PageId → PageId → Prop
  | 0, parent, p =>
    ∃ l, s.fetchPage p = some (.leaf l) ∧ l.pageId = p ∧ l.parentPageId = parent ∧
      l.size ≤ l.maxSize
  | h + 1, parent, p =>
    ∃ n, s.fetchPage p = some (.internal n) ∧ n.pageId = p ∧ n.parentPageId = parent ∧
      2 ≤ n.size ∧ n.size ≤ n.maxSize ∧
      ∀ i, i < n.size → WellFormed s h p (n.valueAt i) ∧
        ∀ k ∈ s.keysUnder h (n.valueAt i),
          (1 ≤ i → n.keyAt i ≤ k) ∧ (i + 1 < n.size → k < n.keyAt (i + 1))

/-- The records of the leaves from `p` on, along `next_page_id`. -/
inductive LeafChain (s : PageStore κ ν) : PageId → List (κ × ν) → Prop
  | nil : LeafChain s INVALID_PAGE_ID []
  | cons {p : PageId} {l : LeafPage κ ν} {rest : List (κ × ν)} :
      s.fetchPage p = some (.leaf l) → LeafChain s l.nextPageId rest →
      LeafChain s p (l.pairs ++ rest)

/-- The records of each leaf from `p` on, along `next_page_id`. -/
inductive LeafRecords (s : PageStore κ ν) : PageId → List (List (κ × ν)) → Prop
  | nil : LeafRecords s INVALID_PAGE_ID []
  | cons {p : PageId} {l : LeafPage κ ν} {rest : List (List (κ × ν))} :
      s.fetchPage p = some (.leaf l) → LeafRecords s l.nextPageId rest →
      LeafRecords s p (l.pairs :: rest)

end PageStore

/-- The leaves of the index, from its leftmost leaf on, have the records. -/
def BPlusTree.HasLeaves (t : BPlusTree κ ν) (leaves : List (List (κ × ν))) : Prop :=
  (t.findLeftMostLeafPage = some none ∧ leaves = []) ∨
    ∃ p l, t.findLeftMostLeafPage = some (some (p, l)) ∧ t.bpm.LeafRecords p leaves

/-- The leaf chain of the index, from its leftmost leaf on, lists `pairs`. -/
def BPlusTree.ChainLists (t : BPlusTree κ ν) (pairs : List (κ × ν)) : Prop :=
  (t.findLeftMostLeafPage = some none ∧ pairs = []) ∨
    ∃ p l, t.findLeftMostLeafPage = some (some (p, l)) ∧ t.bpm.LeafChain p pairs

/-- The index is a well-formed tree that stores the finite map `m`. -/
structure IsIndex [LinearOrder κ] (t : BPlusTree κ ν) (m : κ → Option ν) : Prop where
  getValue : ∀ k, t.getValue k = some (m k)
  chain : ∃ pairs, t.ChainLists pairs ∧ (pairs.map Prod.fst).Pairwise (· < ·) ∧
    ∀ k v, (k, v) ∈ pairs ↔ m k = some v
  wellFormed : t.rootPageId ≠ INVALID_PAGE_ID →
    ∃ h, t.bpm.WellFormed h INVALID_PAGE_ID t.rootPageId

end DisMiniSql.MiniSql
