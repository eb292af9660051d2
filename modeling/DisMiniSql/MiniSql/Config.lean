/-!
# `DisMiniSql.MiniSql.Config`: the constants of the storage engine

`common/config.h` fixes the types of the page ids and frame ids and the page size. A
`page_id_t` is a signed 32-bit integer whose value `-1` stands for "no page", so a page id is
an `Int` here. A frame id indexes the array `pages_` and is a `Nat`.
-/

set_option autoImplicit false

namespace DisMiniSql.MiniSql

/-- `page_id_t`. -/
abbrev PageId := Int

/-- `frame_id_t`: an index of the buffer pool's array of pages. -/
abbrev FrameId := Nat

/-- `INVALID_PAGE_ID`. -/
def INVALID_PAGE_ID : PageId := -1

/-- `PAGE_SIZE`, in bytes. -/
def PAGE_SIZE : Nat := 4096

/-- The bytes of one page. -/
abbrev PageData := Fin PAGE_SIZE → UInt8

/-- `EMPTY_PAGE_DATA`: a page of zeros. -/
def emptyPageData : PageData := fun _ => 0

end DisMiniSql.MiniSql
