import DisMiniSql.MiniSql.Record.Column
import DisMiniSql.MiniSql.Config

/-!
# `DisMiniSql.MiniSql.Record.Row`: `Field` and `Row`, with their bytes

`record/types.cpp` writes and reads one field, `record/row.cpp` a row: a header of three numbers,
the last of them the bitmap of the fields that are null, and the fields that are not null. `none` is
an `ASSERT` that fails.

A `float` is its 32 bits. A string is its `len_` bytes.
-/

set_option autoImplicit false

namespace DisMiniSql.MiniSql.Record

open DisMiniSql.Lib (Bytes writeAll readAll)

/-- `VARCHAR_MAX_LEN`. -/
def VARCHAR_MAX_LEN : Nat := PAGE_SIZE / 2

/-- `Field`, a null one being `none`. -/
inductive Field
  | int (integer : Option Int32)
  | float (bits : Option UInt32)
  | char (chars : Option (List UInt8))
  deriving DecidableEq, Repr

namespace Field

/-- `Field::GetTypeId`. -/
def getTypeId : Field → TypeId
  | .int _ => .kTypeInt
  | .float _ => .kTypeFloat
  | .char _ => .kTypeChar

/-- `Field::IsNull`. -/
def isNull : Field → Bool
  | .int integer => integer.isNone
  | .float bits => bits.isNone
  | .char chars => chars.isNone

/-- `Field::SerializeTo`. -/
def serializeTo (field : Field) (buf : Bytes) (p : Nat) : Bytes × Nat :=
  match field with
  | .int (some integer) => (buf.set32 p integer.toUInt32.toNat, 4)
  | .float (some bits) => (buf.set32 p bits.toNat, 4)
  | .char (some chars) =>
    ((buf.set32 p chars.length).blit (p + 4) chars, uint32 (chars.length + 4))
  | _ => (buf, 0)

/-- `Field::GetSerializedSize`. -/
def getSerializedSize (field : Field) : Nat :=
  match field with
  | .int (some _) => 4
  | .float (some _) => 4
  | .char (some chars) => uint32 (chars.length + 4)
  | _ => 0

/-- `Field::DeserializeFrom`. The constructor of a string copies at most `VARCHAR_MAX_LEN - 1`
bytes. -/
def deserializeFrom (type : TypeId) (isNull : Bool) (buf : Bytes) (p : Nat) :
    Option (Field × Nat) :=
  match type with
  | .kTypeInvalid => none
  | .kTypeInt =>
    if isNull then some (.int none, 0)
    else some (.int (some (UInt32.ofNat (buf.get32 p)).toInt32), 4)
  | .kTypeFloat =>
    if isNull then some (.float none, 0)
    else some (.float (some (UInt32.ofNat (buf.get32 p))), 4)
  | .kTypeChar =>
    if isNull then some (.char none, 0)
    else
      let len := buf.get32 p
      if len < VARCHAR_MAX_LEN then some (.char (some (buf.slice (p + 4) len)), uint32 (len + 4))
      else none

end Field

/-- `Row`: its fields. -/
structure Row where
  fields : List Field
  deriving DecidableEq

namespace Row

/-- `Row::ROW_MAGIC_NUM`. -/
def ROW_MAGIC_NUM : Nat := 0x12345678

/-- `1 << i`. The machine takes the count of a shift modulo 32. -/
def nullBit (i : Nat) : BitVec 32 := 1#32 <<< (i % 32)

/-- The loop of `SerializeTo` that sets the bits of the null fields, from the field `i` on. -/
def nullBitmap : Nat → List Field → BitVec 32 → BitVec 32
  | _, [], bitmap => bitmap
  | i, field :: fields, bitmap =>
    nullBitmap (i + 1) fields (if field.isNull then bitmap ||| nullBit i else bitmap)

/-- `Row::SerializeTo`. -/
def serializeTo (row : Row) (schema : Schema) (buf : Bytes) (start : Nat) : Option (Bytes × Nat) :=
  if schema.getColumnCount ≠ row.fields.length then none
  else
    let buf := buf.set32 start ROW_MAGIC_NUM
    let p := start + 4
    let fieldCount := uint32 row.fields.length
    let buf := buf.set32 p fieldCount
    let p := p + 4
    let buf := buf.set32 p (nullBitmap 0 row.fields 0).toNat
    let p := p + 4
    let (buf, p) := writeAll Field.serializeTo row.fields buf p
    some (buf, uint32 (p - start))

/-- One turn of the loop of `DeserializeFrom`, for the field `i`. -/
def readField (schema : Schema) (bitmap : BitVec 32) (i : Nat) (buf : Bytes) (p : Nat) :
    Option (Field × Nat) :=
  match schema.columns[i]? with
  | none => none
  | some column => Field.deserializeFrom column.type ((bitmap &&& nullBit i) != 0) buf p

/-- `Row::DeserializeFrom`. -/
def deserializeFrom (schema : Schema) (buf : Bytes) (start : Nat) : Option (Row × Nat) :=
  if buf.get32 start ≠ ROW_MAGIC_NUM then none
  else
    let p := start + 4
    let fieldCount := buf.get32 p
    let p := p + 4
    let bitmap := BitVec.ofNat 32 (buf.get32 p)
    let p := p + 4
    match readAll (readField schema bitmap) (List.range fieldCount) buf p with
    | none => none
    | some (fields, p) => some (⟨fields⟩, uint32 (p - start))

/-- `Row::GetSerializedSize`. -/
def getSerializedSize (row : Row) (schema : Schema) : Option Nat :=
  if schema.getColumnCount ≠ row.fields.length then none
  else some (row.fields.foldl (fun size field => uint32 (size + field.getSerializedSize)) (4 * 3))

end Row

end DisMiniSql.MiniSql.Record
