import DisMiniSql.Lib.Codec

/-!
# `DisMiniSql.MiniSql.Record.Column`: `Column` and `Schema`, with their bytes

`record/column.cpp` and `record/schema.cpp`. A `SerializeTo` writes at an address and answers how
many bytes it wrote, a `DeserializeFrom` reads at an address and answers how many bytes it took.
`none` is an `ASSERT` that fails.

A `std::string` is its bytes. `is_manage_` of a schema only says who deletes the columns, and is
left out.
-/

set_option autoImplicit false

namespace DisMiniSql.MiniSql.Record

open DisMiniSql.Lib (Bytes writeAll readAll)

/-- The conversion to `uint32_t`. -/
def uint32 (n : Nat) : Nat := n % 2 ^ 32

/-- `TypeId`. -/
inductive TypeId
  | kTypeInvalid
  | kTypeInt
  | kTypeFloat
  | kTypeChar
  deriving DecidableEq, Repr

/-- `static_cast<uint32_t>(type_)`. -/
def TypeId.number : TypeId → Nat
  | .kTypeInvalid => 0
  | .kTypeInt => 1
  | .kTypeFloat => 2
  | .kTypeChar => 3

/-- `static_cast<TypeId>(n)`. No member has a larger number than 3. -/
def TypeId.ofNumber : Nat → Option TypeId
  | 0 => some .kTypeInvalid
  | 1 => some .kTypeInt
  | 2 => some .kTypeFloat
  | 3 => some .kTypeChar
  | _ => none

/-- The types and lengths that the constructors of `Column` admit. -/
def Column.Admits (type : TypeId) (len : UInt32) : Prop :=
  type = .kTypeChar ∨ (type = .kTypeInt ∨ type = .kTypeFloat) ∧ len = 4

/-- `Column`. -/
structure Column where
  name : List UInt8
  type : TypeId
  /-- The most bytes of a string, or the size of a number. -/
  len : UInt32
  tableInd : UInt32
  nullable : Bool
  unique : Bool
  admits : Column.Admits type len
  deriving DecidableEq

namespace Column

/-- `Column::COLUMN_MAGIC_NUM`. -/
def COLUMN_MAGIC_NUM : Nat := 210928

/-- The constructor of a column of numbers. -/
def newNumber (name : List UInt8) (type : TypeId) (index : UInt32) (nullable unique : Bool) :
    Option Column :=
  match type with
  | .kTypeInt => some ⟨name, .kTypeInt, 4, index, nullable, unique, .inr ⟨.inl rfl, rfl⟩⟩
  | .kTypeFloat => some ⟨name, .kTypeFloat, 4, index, nullable, unique, .inr ⟨.inr rfl, rfl⟩⟩
  | _ => none

/-- The constructor of a column of strings. -/
def newChar (name : List UInt8) (type : TypeId) (length index : UInt32) (nullable unique : Bool) :
    Option Column :=
  if h : type = .kTypeChar then some ⟨name, type, length, index, nullable, unique, .inl h⟩ else none

/-- `Column::SerializeTo`. -/
def serializeTo (column : Column) (buf : Bytes) (start : Nat) : Bytes × Nat :=
  let buf := buf.set32 start COLUMN_MAGIC_NUM
  let p := start + 4
  let nameLen := uint32 column.name.length
  let buf := buf.set32 p nameLen
  let p := p + 4
  let buf := buf.blit p column.name
  let p := p + nameLen
  let buf := buf.set32 p column.type.number
  let p := p + 4
  let buf := buf.set32 p column.len.toNat
  let p := p + 4
  let buf := buf.set32 p column.tableInd.toNat
  let p := p + 4
  let buf := buf.set32 p column.nullable.toNat
  let p := p + 4
  let buf := buf.set32 p column.unique.toNat
  let p := p + 4
  (buf, uint32 (p - start))

/-- `Column::GetSerializedSize`. -/
def getSerializedSize (column : Column) : Nat := uint32 (4 * 7 + column.name.length)

/-- `Column::DeserializeFrom`. -/
def deserializeFrom (buf : Bytes) (start : Nat) : Option (Column × Nat) :=
  if buf.get32 start ≠ COLUMN_MAGIC_NUM then none
  else
    let p := start + 4
    let nameLen := buf.get32 p
    let p := p + 4
    let columnName := buf.slice p nameLen
    let p := p + nameLen
    match TypeId.ofNumber (buf.get32 p) with
    | none => none
    | some type =>
      let p := p + 4
      let colLen := UInt32.ofNat (buf.get32 p)
      let p := p + 4
      let colInd := UInt32.ofNat (buf.get32 p)
      let p := p + 4
      let nullable := buf.get32 p != 0
      let p := p + 4
      let unique := buf.get32 p != 0
      let p := p + 4
      match
        if type = .kTypeChar then newChar columnName type colLen colInd nullable unique
        else newNumber columnName type colInd nullable unique with
      | none => none
      | some column => some (column, uint32 (p - start))

end Column

/-- `Schema`: its columns. -/
structure Schema where
  columns : List Column
  deriving DecidableEq

namespace Schema

/-- `Schema::SCHEMA_MAGIC_NUM`. -/
def SCHEMA_MAGIC_NUM : Nat := 200715

/-- `Schema::GetColumnCount`. -/
def getColumnCount (schema : Schema) : Nat := uint32 schema.columns.length

/-- `Schema::SerializeTo`. -/
def serializeTo (schema : Schema) (buf : Bytes) (start : Nat) : Bytes × Nat :=
  let buf := buf.set32 start SCHEMA_MAGIC_NUM
  let p := start + 4
  let buf := buf.set32 p (uint32 schema.columns.length)
  let p := p + 4
  let (buf, p) := writeAll Column.serializeTo schema.columns buf p
  (buf, uint32 (p - start))

/-- `Schema::GetSerializedSize`. -/
def getSerializedSize (schema : Schema) : Nat :=
  schema.columns.foldl (fun size column => uint32 (size + column.getSerializedSize)) (4 * 2)

/-- `Schema::DeserializeFrom`. -/
def deserializeFrom (buf : Bytes) (start : Nat) : Option (Schema × Nat) :=
  if buf.get32 start ≠ SCHEMA_MAGIC_NUM then none
  else
    let p := start + 4
    let columnCount := buf.get32 p
    let p := p + 4
    match readAll (fun _ => Column.deserializeFrom) (List.range columnCount) buf p with
    | none => none
    | some (columns, p) => some (⟨columns⟩, uint32 (p - start))

end Schema

end DisMiniSql.MiniSql.Record
