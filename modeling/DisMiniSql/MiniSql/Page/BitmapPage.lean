import Mathlib.Data.Finset.Insert
import Mathlib.Data.Finset.Erase
import DisMiniSql.Lib.Bytes
import DisMiniSql.MiniSql.Config

/-!
# `DisMiniSql.MiniSql.Page.BitmapPage`: `BitmapPage`

`page/bitmap_page.cpp` for pages of `PAGE_SIZE` bytes: one bit for each page of an extent, behind
the number of allocated pages and a hint where the next free page is. A page of zeros is a bitmap
without an allocated page.

The source is a template over the size of the page. In `Sized` the size is an argument. The sizes
that the source instantiates are 64 to 4096 bytes, so no counter of 32 bits wraps. There the search
loop of `AllocatePage` may not end where no page is free, and then it gives `none`.
-/

set_option autoImplicit false

namespace DisMiniSql.MiniSql.Disk

open DisMiniSql.Lib (Bytes)

/-- `BitmapPage<PAGE_SIZE>`. -/
structure BitmapPage where
  pageAllocated : Nat
  nextFreePage : Nat
  bytes : Bytes

namespace BitmapPage

/-- `MAX_PAGES`, which is also `GetMaxSupportedSize`. -/
def MAX_PAGES : Nat := (PAGE_SIZE - 2 * 4) * 8

/-- A page of zeros. -/
def empty : BitmapPage := ⟨0, 0, fun _ => 0⟩

/-- `BitmapPage::set`: `bytes[x>>3] |= (1<<(x&7))`. -/
def set (b : BitmapPage) (x : Nat) : BitmapPage :=
  { b with
    bytes := Function.update b.bytes (x / 8)
      (UInt8.ofNat ((b.bytes (x / 8)).toNat ||| 1 <<< (x % 8))) }

/-- `BitmapPage::reset`: `bytes[x>>3] &= (255^(1<<(x&7)))`. -/
def reset (b : BitmapPage) (x : Nat) : BitmapPage :=
  { b with
    bytes := Function.update b.bytes (x / 8)
      (UInt8.ofNat ((b.bytes (x / 8)).toNat &&& (255 ^^^ 1 <<< (x % 8)))) }

/-- `BitmapPage::get`: `(bytes[x>>3]>>(x&7))&1`. -/
def get (b : BitmapPage) (x : Nat) : Bool := (b.bytes (x / 8)).toNat.testBit (x % 8)

/-- `BitmapPage::IsPageFree`. -/
def isPageFree (b : BitmapPage) (pageOffset : Nat) : Bool :=
  if MAX_PAGES ≤ pageOffset then false else !b.get pageOffset

/-- The loop of `AllocatePage`, which goes on to the next free page. It ends before it has come
around, since a page is free. -/
def seekFree : Nat → BitmapPage → BitmapPage
  | 0, b => b
  | fuel + 1, b =>
    if b.isPageFree b.nextFreePage then b
    else
      let nextFreePage := b.nextFreePage + 1
      seekFree fuel { b with
        nextFreePage := if MAX_PAGES ≤ nextFreePage then nextFreePage % MAX_PAGES
          else nextFreePage }

/-- `BitmapPage::AllocatePage`: the page offset, or `none` for `false`, which sets no offset. -/
def allocatePage (b : BitmapPage) : Option Nat × BitmapPage :=
  if MAX_PAGES < b.pageAllocated + 1 then (none, b)
  else
    let pageOffset := b.nextFreePage
    let b := { b with pageAllocated := b.pageAllocated + 1 }.set pageOffset
    (some pageOffset,
      if b.pageAllocated = MAX_PAGES then { b with nextFreePage := 0 } else b.seekFree MAX_PAGES)

/-- `BitmapPage::DeAllocatePage`. -/
def deAllocatePage (b : BitmapPage) (pageOffset : Nat) : Bool × BitmapPage :=
  if MAX_PAGES ≤ pageOffset ∨ b.isPageFree pageOffset then (false, b)
  else
    let b := b.reset pageOffset
    let b := if b.pageAllocated = MAX_PAGES then { b with nextFreePage := pageOffset } else b
    (true, { b with pageAllocated := b.pageAllocated - 1 })

end BitmapPage

end DisMiniSql.MiniSql.Disk

/-! ### Every page size -/

namespace DisMiniSql.MiniSql.Disk.BitmapPage.Sized

/-- `BitmapPage<PageSize>::MAX_PAGES`. -/
def MAX_PAGES (pageSize : Nat) : Nat := (pageSize - 2 * 4) * 8

variable (pageSize : Nat)

/-- `BitmapPage<PageSize>::IsPageFree`. -/
def isPageFree (b : BitmapPage) (pageOffset : Nat) : Bool :=
  if MAX_PAGES pageSize ≤ pageOffset then false else !b.get pageOffset

/-- The loop of `AllocatePage`. Nothing but the hint changes in it, and after `MAX_PAGES` steps the
hint is where it was: a loop that has not ended by then does not end. -/
def seekFree : Nat → BitmapPage → Option BitmapPage
  | 0, _ => none
  | fuel + 1, b =>
    if isPageFree pageSize b b.nextFreePage then some b
    else
      let nextFreePage := b.nextFreePage + 1
      seekFree fuel { b with
        nextFreePage := if MAX_PAGES pageSize ≤ nextFreePage then nextFreePage % MAX_PAGES pageSize
          else nextFreePage }

/-- `BitmapPage<PageSize>::AllocatePage`: the page offset, or `none` for `false`. Without a result
the call does not return. -/
def allocatePage (b : BitmapPage) : Option (Option Nat × BitmapPage) :=
  if MAX_PAGES pageSize < b.pageAllocated + 1 then some (none, b)
  else
    let pageOffset := b.nextFreePage
    let b := { b with pageAllocated := b.pageAllocated + 1 }.set pageOffset
    if b.pageAllocated = MAX_PAGES pageSize then
      some (some pageOffset, { b with nextFreePage := 0 })
    else
      match seekFree pageSize (MAX_PAGES pageSize) b with
      | none => none
      | some b => some (some pageOffset, b)

/-- `BitmapPage<PageSize>::DeAllocatePage`. -/
def deAllocatePage (b : BitmapPage) (pageOffset : Nat) : Bool × BitmapPage :=
  if MAX_PAGES pageSize ≤ pageOffset ∨ isPageFree pageSize b pageOffset then (false, b)
  else
    let b := b.reset pageOffset
    let b := if b.pageAllocated = MAX_PAGES pageSize then { b with nextFreePage := pageOffset }
      else b
    (true, { b with pageAllocated := b.pageAllocated - 1 })

/-- A call on a bitmap page. -/
inductive Call
  | allocatePage
  | deAllocatePage (pageOffset : Nat)
  deriving DecidableEq, Repr

/-- A bitmap page, and the offsets that are allocated by the answers of the calls so far: those that
`AllocatePage` has returned and `DeAllocatePage` has not taken back. -/
structure Session where
  page : BitmapPage := BitmapPage.empty
  held : Finset Nat := ∅

/-- The session after a call. -/
def Session.step (s : Session) : Call → Option Session
  | .allocatePage =>
    match Sized.allocatePage pageSize s.page with
    | none => none
    | some (none, page) => some { s with page := page }
    | some (some pageOffset, page) => some { page := page, held := insert pageOffset s.held }
  | .deAllocatePage pageOffset =>
    match Sized.deAllocatePage pageSize s.page pageOffset with
    | (false, page) => some { s with page := page }
    | (true, page) => some { page := page, held := s.held.erase pageOffset }

end DisMiniSql.MiniSql.Disk.BitmapPage.Sized
