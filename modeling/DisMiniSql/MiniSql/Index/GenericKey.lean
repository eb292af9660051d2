import DisMiniSql.MiniSql.Record.Row
import DisMiniSql.MiniSql.Index.BPlusTreeIndex

/-!
# `DisMiniSql.MiniSql.Index.GenericKey`: keys of an index, byte by byte

`KeyManager` of `index/generic_key.h` writes a key row into a slot of fixed size and compares two
slots. `IndexInfo::CreateIndex` of `catalog/indexes.cpp` chooses the size. `none` is an `ASSERT`
that fails.

Two `float`s are compared by the relation `floatLt` on their bits, which the functions take as an
argument.
-/

set_option autoImplicit false

namespace DisMiniSql.MiniSql.Record

open DisMiniSql.Lib (Bytes)

/-! ## Comparison of fields -/

/-- `memcmp` of the bytes that both strings have. Only the sign of the result is read. -/
def memcmp : List UInt8 → List UInt8 → Int
  | a :: str1, b :: str2 => if a = b then memcmp str1 str2 else (a.toNat : Int) - b.toNat
  | _, _ => 0

/-- `CompareStrings`. -/
def compareStrings (str1 str2 : List UInt8) : Int :=
  let ret := memcmp str1 str2
  if ret = 0 ∧ str1.length ≠ str2.length then (str1.length : Int) - str2.length else ret

/-- A comparison of two fields of the same type. -/
def Field.compareBy (int : Int32 → Int32 → Bool) (float : UInt32 → UInt32 → Bool)
    (char : List UInt8 → List UInt8 → Bool) : Field → Field → Option CmpBool
  | .int l, .int r => some (compareFields int l r)
  | .float l, .float r => some (compareFields float l r)
  | .char l, .char r => some (compareFields char l r)
  | _, _ => none

/-- `Field::CompareLessThan`. -/
def Field.compareLessThan (floatLt : UInt32 → UInt32 → Bool) : Field → Field → Option CmpBool :=
  compareBy (fun l r => decide (l < r)) floatLt (fun l r => decide (compareStrings l r < 0))

/-- `Field::CompareGreaterThan`. -/
def Field.compareGreaterThan (floatLt : UInt32 → UInt32 → Bool) : Field → Field → Option CmpBool :=
  compareBy (fun l r => decide (l > r)) (fun l r => floatLt r l)
    (fun l r => decide (compareStrings l r > 0))

/-! ## `KeyManager` -/

/-- `KeyManager`. -/
structure KeyManager where
  keySize : Nat
  keySchema : Schema
  deriving DecidableEq

namespace KeyManager

/-- `KeyManager::SerializeFromKey`, into the slot at `keyBuf`. -/
def serializeFromKey (k : KeyManager) (buf : Bytes) (keyBuf : Nat) (key : Row) (schema : Schema) :
    Option Bytes :=
  match key.getSerializedSize schema with
  | none => none
  | some size =>
    if key.fields.length ≠ schema.getColumnCount then none
    else if ¬ size ≤ k.keySize then none
    else
      let buf := buf.blit keyBuf (List.replicate k.keySize 0)
      match key.serializeTo schema buf keyBuf with
      | none => none
      | some (buf, _) => some buf

/-- `KeyManager::DeserializeToKey`. -/
def deserializeToKey (k : KeyManager) (buf : Bytes) (keyBuf : Nat) (schema : Schema) :
    Option Row :=
  match Row.deserializeFrom schema buf keyBuf with
  | none => none
  | some (key, ofs) => if ¬ ofs ≤ k.keySize then none else some key

/-- The loop of `CompareKeys`, with as many columns left as the first number, from the column of the
second one on. -/
def compareLoop (floatLt : UInt32 → UInt32 → Bool) (lhs rhs : Row) : Nat → Nat → Option Int
  | 0, _ => some 0
  | n + 1, i =>
    match lhs.fields[i]?, rhs.fields[i]? with
    | some lhsValue, some rhsValue =>
      match lhsValue.compareLessThan floatLt rhsValue with
      | none => none
      | some .kTrue => some (-1)
      | some _ =>
        match lhsValue.compareGreaterThan floatLt rhsValue with
        | none => none
        | some .kTrue => some 1
        | some _ => compareLoop floatLt lhs rhs n (i + 1)
    | _, _ => none

/-- `KeyManager::CompareKeys`, of the slots at `lhs` and `rhs` in their memories. -/
def compareKeys (k : KeyManager) (floatLt : UInt32 → UInt32 → Bool) (lhsBuf : Bytes) (lhs : Nat)
    (rhsBuf : Bytes) (rhs : Nat) : Option Int :=
  match k.deserializeToKey lhsBuf lhs k.keySchema, k.deserializeToKey rhsBuf rhs k.keySchema with
  | some lhsKey, some rhsKey => compareLoop floatLt lhsKey rhsKey k.keySchema.getColumnCount 0
  | _, _ => none

end KeyManager

/-! ## `IndexInfo::CreateIndex` -/

/-- The size of the slots for keys whose columns have `maxSize` bytes together. -/
def slotSize (maxSize : Nat) : Option Nat :=
  if maxSize ≤ 8 then some 16
  else if maxSize ≤ 24 then some 32
  else if maxSize ≤ 56 then some 64
  else if maxSize ≤ 120 then some 128
  else if maxSize ≤ 248 then some 256
  else none

/-- The sum of `GetLength` over the columns. -/
def Schema.maxSize (schema : Schema) : Nat :=
  schema.columns.foldl (fun maxSize column => maxSize + column.len.toNat) 0

/-- `IndexInfo::CreateIndex`: the `KeyManager` of the index; `none` is the null pointer. -/
def createIndex (keySchema : Schema) (indexType : String) : Option KeyManager :=
  if indexType = "bptree" then
    match slotSize keySchema.maxSize with
    | none => none
    | some maxSize => some ⟨maxSize, keySchema⟩
  else none

end DisMiniSql.MiniSql.Record
