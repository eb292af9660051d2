import DisMiniSql.Lib.Slots
import DisMiniSql.MiniSql.Config

/-!
# `DisMiniSql.MiniSql.Page.BPlusTreePage`: the pages of an index

`page/b_plus_tree_page.h` is the header that leaf pages and internal pages share. The page type
is the constructor of `BPlusTreePage` here, and the header fields are fields of both kinds.

The keys are an arbitrary type `κ`: a `GenericKey` is only moved, copied and compared. `ν` is
the type of the values of a leaf (`RowId`). A slot that was never written holds `default`, the
zero bytes of a new page.
-/

set_option autoImplicit false

namespace DisMiniSql.MiniSql

/-- `BPlusTreeLeafPage`. -/
structure LeafPage (κ ν : Type) where
  pageId : PageId
  parentPageId : PageId
  nextPageId : PageId
  size : Nat
  maxSize : Nat
  /-- The slots of `data_`: a key and a value each. -/
  data : Nat → κ × ν

/-- `BPlusTreeInternalPage`. -/
structure InternalPage (κ : Type) where
  pageId : PageId
  parentPageId : PageId
  size : Nat
  maxSize : Nat
  /-- The slots of `data_`: a key and the page id of a child each. -/
  data : Nat → κ × PageId

/-- `BPlusTreePage`. -/
inductive BPlusTreePage (κ ν : Type)
  | leaf (page : LeafPage κ ν)
  | internal (page : InternalPage κ)

namespace LeafPage
variable {κ ν : Type}

/-- `BPlusTreePage::IsRootPage`. -/
def isRootPage (p : LeafPage κ ν) : Bool :=
  p.parentPageId = INVALID_PAGE_ID

/-- `BPlusTreePage::GetMinSize`. -/
def minSize (p : LeafPage κ ν) : Nat :=
  p.maxSize / 2

/-- The records in use. -/
def pairs (p : LeafPage κ ν) : List (κ × ν) :=
  Lib.slots p.data p.size

end LeafPage

namespace InternalPage
variable {κ : Type}

/-- `BPlusTreePage::IsRootPage`. -/
def isRootPage (p : InternalPage κ) : Bool :=
  p.parentPageId = INVALID_PAGE_ID

/-- `BPlusTreePage::GetMinSize`. -/
def minSize (p : InternalPage κ) : Nat :=
  p.maxSize / 2

/-- The slots in use. -/
def pairs (p : InternalPage κ) : List (κ × PageId) :=
  Lib.slots p.data p.size

end InternalPage

namespace BPlusTreePage
variable {κ ν : Type}

/-- `BPlusTreePage::IsLeafPage`. -/
def isLeafPage : BPlusTreePage κ ν → Bool
  | .leaf _ => true
  | .internal _ => false

/-- `BPlusTreePage::GetSize`. -/
def size : BPlusTreePage κ ν → Nat
  | .leaf p => p.size
  | .internal p => p.size

/-- `BPlusTreePage::GetPageId`. -/
def pageId : BPlusTreePage κ ν → PageId
  | .leaf p => p.pageId
  | .internal p => p.pageId

/-- `BPlusTreePage::GetParentPageId`. -/
def parentPageId : BPlusTreePage κ ν → PageId
  | .leaf p => p.parentPageId
  | .internal p => p.parentPageId

/-- `BPlusTreePage::IsRootPage`. -/
def isRootPage (p : BPlusTreePage κ ν) : Bool :=
  p.parentPageId = INVALID_PAGE_ID

/-- `BPlusTreePage::SetParentPageId`. -/
def setParentPageId (parent : PageId) : BPlusTreePage κ ν → BPlusTreePage κ ν
  | .leaf p => .leaf { p with parentPageId := parent }
  | .internal p => .internal { p with parentPageId := parent }

/-- `KeyAt(0)`, of the kind of page it is. -/
def firstKey : BPlusTreePage κ ν → κ
  | .leaf p => (p.data 0).1
  | .internal p => (p.data 0).1

end BPlusTreePage

end DisMiniSql.MiniSql
