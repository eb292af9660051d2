import Mathlib.Data.List.Lex
import DisMiniSql.Lib.Comparison
import DisMiniSql.Proofs.Record.KeySlots

/-!
# `DisMiniSql.Proofs.Record.KeyOrder`: the order of the keys

`CompareKeys` reads both keys back and compares them column by column. The comparison of two fields
answers neither less nor greater when one of them is null, and so a null is equal to every value.
`key_order_iff` says that the comparison is an order exactly if no key has a null.

Without nulls the comparison is `lexCompare` of the fields (`compareKeys_eq`). The order of strings
is that of their bytes (`compareStrings_neg_iff`).
-/

set_option autoImplicit false

namespace DisMiniSql.MiniSql.Record

open DisMiniSql.Lib (Bytes lexCompare Comparable)

/-! ## Strings -/

/-- The other way round, the sign changes. -/
theorem memcmp_swap (str1 str2 : List UInt8) : memcmp str2 str1 = -memcmp str1 str2 := by
  induction str1 generalizing str2 with
  | nil => cases str2 <;> rfl
  | cons a str1 ih =>
    cases str2 with
    | nil => rfl
    | cons b str2 =>
      unfold memcmp
      by_cases heq : a = b
      · rw [if_pos heq.symm, if_pos heq]
        exact ih str2
      · rw [if_neg fun h => heq h.symm, if_neg heq]
        omega

/-- Exchanging the strings turns the sign around. -/
theorem compareStrings_swap (str1 str2 : List UInt8) :
    compareStrings str2 str1 = -compareStrings str1 str2 := by
  unfold compareStrings
  rw [memcmp_swap str1 str2]
  simp only [Int.neg_eq_zero, ne_comm (a := str2.length)]
  split
  · omega
  · rfl

/-- A column of equal bytes is passed over. -/
theorem compareStrings_cons (a : UInt8) (str1 str2 : List UInt8) :
    compareStrings (a :: str1) (a :: str2) = compareStrings str1 str2 := by
  have htail : memcmp (a :: str1) (a :: str2) = memcmp str1 str2 := if_pos rfl
  unfold compareStrings
  rw [htail]
  simp only [List.length_cons, ne_eq, Nat.add_right_cancel_iff]
  split
  · omega
  · rfl

/-- One string is before the other exactly if its bytes are. -/
theorem compareStrings_neg_iff (str1 str2 : List UInt8) :
    compareStrings str1 str2 < 0 ↔ str1.map UInt8.toNat < str2.map UInt8.toNat := by
  induction str1 generalizing str2 with
  | nil =>
    cases str2 with
    | nil => simp [compareStrings, memcmp]
    | cons b str2 =>
      refine iff_of_true ?_ (List.nil_lt_cons _ _)
      show (if (0 : Int) = 0 ∧ 0 ≠ str2.length + 1 then
        ((0 : Nat) : Int) - ((str2.length + 1 : Nat) : Int) else 0) < 0
      rw [if_pos ⟨rfl, (Nat.succ_ne_zero _).symm⟩]
      omega
  | cons a str1 ih =>
    cases str2 with
    | nil =>
      refine iff_of_false ?_ (List.not_lt_nil _)
      show ¬ (if (0 : Int) = 0 ∧ str1.length + 1 ≠ 0 then
        ((str1.length + 1 : Nat) : Int) - ((0 : Nat) : Int) else 0) < 0
      rw [if_pos ⟨rfl, Nat.succ_ne_zero _⟩]
      omega
    | cons b str2 =>
      rw [List.map_cons, List.map_cons, List.cons_lt_cons_iff]
      by_cases heq : a = b
      · subst heq
        rw [compareStrings_cons, ih]
        simp
      · have hne : a.toNat ≠ b.toNat := fun h => heq (UInt8.toNat_inj.mp h)
        have hcompare : compareStrings (a :: str1) (b :: str2) = (a.toNat : Int) - b.toNat := by
          unfold compareStrings memcmp
          rw [if_neg heq, if_neg]
          omega
        rw [hcompare]
        omega

/-- So greater one way is less the other way. -/
theorem compareStrings_pos_iff (str1 str2 : List UInt8) :
    compareStrings str1 str2 > 0 ↔ compareStrings str2 str1 < 0 := by
  rw [compareStrings_swap str1 str2]
  omega

/-! ## Fields -/

section CompareFields

variable {α : Type} {r r' : α → α → Bool}

/-- A comparison of fields with its operands exchanged. -/
theorem compareFields_flip (h : ∀ a b, r a b = r' b a) {lhs rhs : Option α} :
    compareFields r lhs rhs = compareFields r' rhs lhs := by
  cases lhs with
  | none => cases rhs <;> rfl
  | some a =>
    cases rhs with
    | none => rfl
    | some b =>
      show (if r a b = true then CmpBool.kTrue else .kFalse) =
        if r' b a = true then CmpBool.kTrue else .kFalse
      rw [h a b]

/-- Fields that are not NULL compare as their values. -/
theorem compareFields_kTrue (r : α → α → Bool) (a b : α) :
    (some (compareFields r (some a) (some b)) == some CmpBool.kTrue) = r a b := by
  show (some (if r a b = true then CmpBool.kTrue else .kFalse) == some CmpBool.kTrue) = r a b
  cases r a b <;> rfl

end CompareFields

namespace Field

/-- `CompareLessThan` answers `kTrue`. -/
def lt (floatLt : UInt32 → UInt32 → Bool) (l r : Field) : Bool :=
  l.compareLessThan floatLt r == some .kTrue

section Lt

variable (floatLt : UInt32 → UInt32 → Bool)

/-- `CompareGreaterThan` is `CompareLessThan` the other way round. -/
theorem compareGreaterThan_eq (l r : Field) :
    l.compareGreaterThan floatLt r = r.compareLessThan floatLt l := by
  cases l with
  | int l =>
    cases r with
    | int r => exact congrArg some (compareFields_flip fun _ _ => rfl)
    | float r => rfl
    | char r => rfl
  | float l =>
    cases r with
    | int r => rfl
    | float r => exact congrArg some (compareFields_flip fun _ _ => rfl)
    | char r => rfl
  | char l =>
    cases r with
    | int r => rfl
    | float r => rfl
    | char r =>
      refine congrArg some (compareFields_flip fun a b => ?_)
      rw [decide_eq_decide]
      exact compareStrings_pos_iff a b

/-- Fields of the same type can be compared. -/
theorem compareLessThan_of_type {l r : Field} (h : l.getTypeId = r.getTypeId) :
    ∃ result, l.compareLessThan floatLt r = some result := by
  cases l <;> cases r <;> first | exact ⟨_, rfl⟩ | cases h

/-- The order of two integers. -/
theorem lt_int (l r : Int32) : lt floatLt (.int (some l)) (.int (some r)) = decide (l < r) :=
  compareFields_kTrue (fun l r : Int32 => decide (l < r)) l r

/-- The order of two floats, whatever the comparison of floats is. -/
theorem lt_float (l r : UInt32) : lt floatLt (.float (some l)) (.float (some r)) = floatLt l r :=
  compareFields_kTrue floatLt l r

/-- The order of two strings, by their bytes. -/
theorem lt_char (l r : List UInt8) : lt floatLt (.char (some l)) (.char (some r)) =
    decide (l.map UInt8.toNat < r.map UInt8.toNat) := by
  refine (compareFields_kTrue (fun l r => decide (compareStrings l r < 0)) l r).trans ?_
  rw [decide_eq_decide]
  exact compareStrings_neg_iff l r

/-- Only fields of the same type that are not null are one less than the other. -/
theorem cases_of_lt {l r : Field} (h : lt floatLt l r = true) :
    (∃ a b, l = .int (some a) ∧ r = .int (some b) ∧ a < b) ∨
      (∃ a b, l = .float (some a) ∧ r = .float (some b) ∧ floatLt a b = true) ∨
      ∃ a b, l = .char (some a) ∧ r = .char (some b) ∧
        a.map UInt8.toNat < b.map UInt8.toNat := by
  match l, r with
  | .int (some a), .int (some b) =>
    rw [lt_int] at h
    exact .inl ⟨a, b, rfl, rfl, of_decide_eq_true h⟩
  | .float (some a), .float (some b) =>
    rw [lt_float] at h
    exact .inr (.inl ⟨a, b, rfl, rfl, h⟩)
  | .char (some a), .char (some b) =>
    rw [lt_char] at h
    exact .inr (.inr ⟨a, b, rfl, rfl, of_decide_eq_true h⟩)
  | .int none, r => cases r <;> exact nomatch h
  | .float none, r => cases r <;> exact nomatch h
  | .char none, r => cases r <;> exact nomatch h
  | .int (some _), .int none | .int (some _), .float _ | .int (some _), .char _ => exact nomatch h
  | .float (some _), .float none | .float (some _), .int _ | .float (some _), .char _ =>
    exact nomatch h
  | .char (some _), .char none | .char (some _), .int _ | .char (some _), .float _ =>
    exact nomatch h

end Lt

section Order

variable {floatLt : UInt32 → UInt32 → Bool}
  [IsStrictTotalOrder UInt32 fun l r => floatLt l r = true]

/-- The order of fields is asymmetric. -/
theorem lt_asymm (l r : Field) (h : lt floatLt l r = true) : lt floatLt r l = false := by
  rw [Bool.eq_false_iff]
  intro hrev
  rcases cases_of_lt floatLt h with ⟨a, b, rfl, rfl, hab⟩ | ⟨a, b, rfl, rfl, hab⟩ |
    ⟨a, b, rfl, rfl, hab⟩
  · rw [lt_int, decide_eq_true_iff] at hrev
    exact Int32.lt_irrefl (Int32.lt_trans hab hrev)
  · rw [lt_float] at hrev
    exact Std.Asymm.asymm (r := fun l r => floatLt l r = true) a b hab hrev
  · rw [lt_char, decide_eq_true_iff] at hrev
    exact hab.asymm hrev

/-- And transitive; three fields related in a row are of one type and none is NULL. -/
theorem lt_trans (l m r : Field) (h₁ : lt floatLt l m = true) (h₂ : lt floatLt m r = true) :
    lt floatLt l r = true := by
  rcases cases_of_lt floatLt h₁ with ⟨a, b, rfl, rfl, hab⟩ | ⟨a, b, rfl, rfl, hab⟩ |
    ⟨a, b, rfl, rfl, hab⟩
  · rcases cases_of_lt floatLt h₂ with ⟨_, c, heq, rfl, hbc⟩ | ⟨_, _, heq, -, -⟩ |
      ⟨_, _, heq, -, -⟩ <;> cases heq
    rw [lt_int, decide_eq_true_iff]
    exact Int32.lt_trans hab hbc
  · rcases cases_of_lt floatLt h₂ with ⟨_, _, heq, -, -⟩ | ⟨_, c, heq, rfl, hbc⟩ |
      ⟨_, _, heq, -, -⟩ <;> cases heq
    rw [lt_float]
    exact IsTrans.trans (r := fun l r => floatLt l r = true) a b c hab hbc
  · rcases cases_of_lt floatLt h₂ with ⟨_, _, heq, -, -⟩ | ⟨_, _, heq, -, -⟩ |
      ⟨_, c, heq, rfl, hbc⟩ <;> cases heq
    rw [lt_char, decide_eq_true_iff]
    exact hab.trans hbc

/-- Of two different fields that are not null one is less than the other. -/
theorem comparable {l r : Field} (h : l.getTypeId = r.getTypeId) (hl : l.isNull = false)
    (hr : r.isNull = false) : Comparable (lt floatLt) l r := by
  intro hlt hgt
  match l, r with
  | .int (some a), .int (some b) =>
    rw [lt_int, decide_eq_false_iff_not] at hlt hgt
    rw [Int32.le_antisymm (Int32.not_lt.mp hgt) (Int32.not_lt.mp hlt)]
  | .float (some a), .float (some b) =>
    rw [lt_float] at hlt hgt
    rw [Std.Trichotomous.trichotomous (r := fun l r => floatLt l r = true) a b
      (Bool.eq_false_iff.mp hlt) (Bool.eq_false_iff.mp hgt)]
  | .char (some a), .char (some b) =>
    rw [lt_char, decide_eq_false_iff_not] at hlt hgt
    rw [List.map_injective_iff.mpr (fun _ _ => UInt8.toNat_inj.mp)
      (le_antisymm (not_lt.mp hgt) (not_lt.mp hlt))]

end Order

end Field

/-! ## Keys -/

/-- The fields that are null are among those that `null` tells. -/
def Row.NullOnly (row : Row) (null : Nat → Bool) : Prop :=
  ∀ (i : Nat) (field : Field), row.fields[i]? = some field → field.isNull = true → null i = true

namespace KeyManager

/-- The slot at `p` holds a key row that `SerializeFromKey` wrote, with nulls only where `null`
tells. -/
def Serialized (k : KeyManager) (null : Nat → Bool) (row : Row) (m : Bytes) (p : Nat) : Prop :=
  row.Of k.keySchema ∧ row.NullOnly null ∧ (∀ field ∈ row.fields, field.Short) ∧
    ∃ m₀, k.serializeFromKey m₀ p row k.keySchema = some m

/-- `CompareKeys` is an order on the keys that have nulls only where `null` tells. -/
structure Orders (k : KeyManager) (floatLt : UInt32 → UInt32 → Bool) (null : Nat → Bool) :
    Prop where
  antisymmetric : ∀ a b ma mb pa pb, k.Serialized null a ma pa → k.Serialized null b mb pb →
    ∃ result, k.compareKeys floatLt ma pa mb pb = some result ∧
      k.compareKeys floatLt mb pb ma pa = some (-result)
  transitive : ∀ a b c ma mb mc pa pb pc, k.Serialized null a ma pa → k.Serialized null b mb pb →
    k.Serialized null c mc pc → ∀ ab bc, k.compareKeys floatLt ma pa mb pb = some ab →
      k.compareKeys floatLt mb pb mc pc = some bc → ab ≤ 0 → bc ≤ 0 →
        ∃ ac, k.compareKeys floatLt ma pa mc pc = some ac ∧ ac ≤ 0
  eq_of_zero : ∀ a b ma mb pa pb, k.Serialized null a ma pa → k.Serialized null b mb pb →
    k.compareKeys floatLt ma pa mb pb = some 0 → a = b

variable {k : KeyManager} {floatLt : UInt32 → UInt32 → Bool} {null : Nat → Bool}

/-- A key that has been written has fewer than 2^32 fields, and is not longer than a slot. -/
theorem Serialized.bounds {row : Row} {m : Bytes} {p : Nat} (h : k.Serialized null row m p) :
    row.fields.length < 2 ^ 32 ∧ uint32 row.layout.length ≤ k.keySize := by
  obtain ⟨hof, -, hshort, m₀, hwrite⟩ := h
  unfold serializeFromKey at hwrite
  cases hsize : row.getSerializedSize k.keySchema with
  | none =>
    rw [hsize] at hwrite
    exact nomatch hwrite
  | some size =>
    have hfew : row.fields.length < 2 ^ 32 := by
      unfold Row.getSerializedSize at hsize
      split at hsize
      · exact nomatch hsize
      · next hcount =>
        rw [not_not] at hcount
        rw [← hcount]
        exact Nat.mod_lt _ (by decide)
    have hle : size ≤ k.keySize := by
      rw [hsize] at hwrite
      by_contra hnot
      simp [hnot] at hwrite
    rw [Row.getSerializedSize_eq hof hfew hshort, Option.some.injEq] at hsize
    rw [hsize]
    exact ⟨hfew, hle⟩

/-- A key without nulls is read back. -/
theorem Serialized.deserializeToKey {row : Row} {m : Bytes} {p : Nat}
    (h : k.Serialized null row m p) (hcodable : row.Codable) :
    k.deserializeToKey m p k.keySchema = some row := by
  obtain ⟨hfew, hsize⟩ := h.bounds
  obtain ⟨hof, -, hshort, m₀, hwrite⟩ := h
  unfold KeyManager.deserializeToKey
  rw [Row.deserializeFrom_eq hof hcodable (holds_of_serializeFromKey hof hfew hshort hsize hwrite)]
  exact if_neg (not_not.mpr hsize)

/-- The loop is the comparison of the fields from the column `i` on. -/
theorem compareLoop_eq {lhs rhs : Row}
    (htypes : List.Forall₂ (fun l r => Field.getTypeId l = Field.getTypeId r) lhs.fields rhs.fields)
    (n i : Nat) (hn : i + n = lhs.fields.length) :
    compareLoop floatLt lhs rhs n i =
      some (lexCompare (Field.lt floatLt) (lhs.fields.drop i) (rhs.fields.drop i)) := by
  induction n generalizing i with
  | zero =>
    have hend : lhs.fields.drop i = [] := List.drop_of_length_le (Nat.le_of_eq hn.symm)
    rw [hend]
    rfl
  | succ n ih =>
    have hi : i < lhs.fields.length := by omega
    have hi' : i < rhs.fields.length := by rw [← htypes.length_eq]; exact hi
    obtain ⟨less, hless⟩ := Field.compareLessThan_of_type floatLt (htypes.get hi hi')
    obtain ⟨greater, hgreater⟩ := Field.compareLessThan_of_type floatLt (htypes.get hi hi').symm
    rw [List.drop_eq_getElem_cons hi, List.drop_eq_getElem_cons hi', lexCompare, compareLoop,
      List.getElem?_eq_getElem hi, List.getElem?_eq_getElem hi']
    simp only [List.get_eq_getElem] at hless hgreater
    simp only [Field.compareGreaterThan_eq, Field.lt, hless, hgreater]
    cases less with
    | kTrue => rfl
    | kFalse | kNull =>
      cases greater with
      | kTrue => rfl
      | kFalse | kNull => exact ih (i + 1) (by omega)

/-- Fields of the columns' types have the types of each other. -/
theorem types_eq {a b : Row} {schema : Schema} (ha : a.Of schema) (hb : b.Of schema) :
    List.Forall₂ (fun l r => Field.getTypeId l = Field.getTypeId r) a.fields b.fields := by
  unfold Row.Of at ha hb
  generalize a.fields = as, b.fields = bs at ha hb
  generalize schema.columns = columns at ha hb
  induction ha generalizing bs with
  | nil =>
    cases hb
    exact .nil
  | cons h _ ih =>
    cases hb with
    | cons h' hb => exact .cons (h.trans h'.symm) (ih _ hb)

/-- Keys that are read back are compared by their fields. -/
theorem compareKeys_eq {a b : Row} {ma mb : Bytes} {pa pb : Nat} (ha : k.Serialized null a ma pa)
    (hb : k.Serialized null b mb pb) (hcodable : a.Codable) (hcodable' : b.Codable) :
    k.compareKeys floatLt ma pa mb pb =
      some (lexCompare (Field.lt floatLt) a.fields b.fields) := by
  unfold compareKeys
  rw [ha.deserializeToKey hcodable, hb.deserializeToKey hcodable',
    ha.1.getColumnCount_eq hcodable.few]
  exact compareLoop_eq (types_eq ha.1 hb.1) _ 0 (Nat.zero_add _)

/-! ## Keys without nulls -/

/-- A row without nulls is read back. -/
theorem codable_of_not_null {row : Row} (hfew : row.fields.length < 2 ^ 32)
    (hshort : ∀ field ∈ row.fields, field.Short)
    (hnull : ∀ field ∈ row.fields, field.isNull = false) : row.Codable where
  few := hfew
  nulls i j f g hf hg _ := by
    rw [hnull f (List.mem_of_getElem? hf), hnull g (List.mem_of_getElem? hg)]
  short := hshort

/-- Keys that have no column to be null in have no nulls. -/
theorem Serialized.not_null {row : Row} {m : Bytes} {p : Nat} (h : k.Serialized null row m p)
    (hnever : ∀ i < k.keySchema.columns.length, null i = false) :
    ∀ field ∈ row.fields, field.isNull = false := by
  intro field hmem
  obtain ⟨i, hi⟩ := List.getElem?_of_mem hmem
  rw [Bool.eq_false_iff]
  intro hnull
  have hlt : i < k.keySchema.columns.length := by
    rw [← h.1.length_eq]
    exact (List.getElem?_eq_some_iff.mp hi).1
  exact Bool.false_ne_true ((hnever i hlt).symm.trans (h.2.1 i field hi hnull))

section Order

variable [IsStrictTotalOrder UInt32 fun l r => floatLt l r = true]

/-- Rows of one schema without nulls can be compared in every column. -/
theorem forall_comparable {a b : Row} {schema : Schema} (ha : a.Of schema) (hb : b.Of schema)
    (hnull : ∀ field ∈ a.fields, field.isNull = false)
    (hnull' : ∀ field ∈ b.fields, field.isNull = false) :
    List.Forall₂ (Comparable (Field.lt floatLt)) a.fields b.fields := by
  have htypes := types_eq ha hb
  generalize a.fields = as, b.fields = bs at htypes hnull hnull'
  induction htypes with
  | nil => exact .nil
  | cons h _ ih =>
    refine .cons (Field.comparable h (hnull _ List.mem_cons_self) (hnull' _ List.mem_cons_self))
      (ih (fun f hf => hnull f (List.mem_cons_of_mem _ hf))
        fun f hf => hnull' f (List.mem_cons_of_mem _ hf))

/-- On keys without nulls the comparison is an order. -/
theorem orders_of_never_null (hnever : ∀ i < k.keySchema.columns.length, null i = false) :
    k.Orders floatLt null := by
  have hcodable {row : Row} {m : Bytes} {p : Nat} (h : k.Serialized null row m p) : row.Codable :=
    codable_of_not_null h.bounds.1 h.2.2.1 (h.not_null hnever)
  have hcomparable {a b : Row} {ma mb : Bytes} {pa pb : Nat} (ha : k.Serialized null a ma pa)
      (hb : k.Serialized null b mb pb) :
      List.Forall₂ (Comparable (Field.lt floatLt)) a.fields b.fields :=
    forall_comparable ha.1 hb.1 (ha.not_null hnever) (hb.not_null hnever)
  constructor
  · intro a b ma mb pa pb ha hb
    refine ⟨_, compareKeys_eq ha hb (hcodable ha) (hcodable hb), ?_⟩
    rw [compareKeys_eq hb ha (hcodable hb) (hcodable ha),
      DisMiniSql.Lib.lexCompare_swap Field.lt_asymm a.fields b.fields]
  · intro a b c ma mb mc pa pb pc ha hb hc ab bc hab hbc hle hle'
    rw [compareKeys_eq ha hb (hcodable ha) (hcodable hb), Option.some.injEq] at hab
    rw [compareKeys_eq hb hc (hcodable hb) (hcodable hc), Option.some.injEq] at hbc
    refine ⟨_, compareKeys_eq ha hc (hcodable ha) (hcodable hc), ?_⟩
    exact DisMiniSql.Lib.lexCompare_trans Field.lt_trans (hcomparable ha hb) (hcomparable hb hc)
      (hab ▸ hle) (hbc ▸ hle')
  · intro a b ma mb pa pb ha hb hzero
    rw [compareKeys_eq ha hb (hcodable ha) (hcodable hb), Option.some.injEq] at hzero
    have hfields := DisMiniSql.Lib.eq_of_lexCompare (hcomparable ha hb) hzero
    cases a
    cases b
    exact congrArg Row.mk hfields

/-! ## A key with a null -/

/-- A field is not less than the zero of its type if it is the zero or null, and the other way
round. -/
theorem zeroField_lt (type : TypeId) (isNull : Bool) :
    Field.lt floatLt (zeroField type isNull) (zeroField type false) = false ∧
      Field.lt floatLt (zeroField type false) (zeroField type isNull) = false := by
  cases isNull with
  | false =>
    have hirrefl : Field.lt floatLt (zeroField type false) (zeroField type false) = false := by
      rw [Bool.eq_false_iff]
      intro h
      exact Bool.false_ne_true ((Field.lt_asymm _ _ h).symm.trans h)
    exact ⟨hirrefl, hirrefl⟩
  | true => cases type <;> exact ⟨rfl, rfl⟩

/-- The row of zeros and a row of zeros with nulls have no difference. -/
theorem lexCompare_zeroRow (schema : Schema) (null : Nat → Bool) :
    lexCompare (Field.lt floatLt) (zeroRow schema null).fields
      (zeroRow schema fun _ => false).fields = 0 := by
  refine DisMiniSql.Lib.lexCompare_eq_zero (List.forall₂_iff_get.mpr ⟨?_, fun i hi hi' => ?_⟩)
  · rw [zeroRow_length, zeroRow_length]
  · have hcolumn : i < schema.columns.length := by rwa [zeroRow_length] at hi
    have hget (null : Nat → Bool) (h : i < (zeroRow schema null).fields.length) :
        (zeroRow schema null).fields.get ⟨i, h⟩ = zeroField schema.columns[i].type (null i) :=
      List.getElem_mapIdx
    rw [hget, hget]
    exact zeroField_lt _ _

/-- A row of zeros fits into so large a slot. -/
theorem length_zeroRow_le_slot (schema : Schema) (null : Nat → Bool) :
    (zeroRow schema null).layout.length ≤ 12 + 4 * schema.columns.length := by
  obtain ⟨n, hn, hzeros⟩ := zeroRow_zeros schema null
  rw [Row.length_layout, hzeros, List.length_replicate]
  omega

/-- The slots of a schema, large enough for its rows of zeros. -/
def zeroSlots (schema : Schema) : KeyManager := ⟨12 + 4 * schema.columns.length, schema⟩

/-- The row of zeros and NULLs is stored as its bitmap and zeros, in memory that was zero. -/
theorem serialized_zeroRow {schema : Schema} {null only : Nat → Bool} {m : Bytes}
    (honly : ∀ i, null i = true → only i = true)
    (hm : (zeroSlots schema).serializeFromKey (fun _ => 0) 0 (zeroRow schema null) schema =
      some m) :
    (zeroSlots schema).Serialized only (zeroRow schema null) m 0 := by
  refine ⟨(zeroRow_keyOf schema null).of, fun i field hfield hnull => ?_,
    zeroRow_short schema null, _, hm⟩
  rw [zeroRow_getElem? schema null hfield] at hnull
  exact honly i hnull

/-- Such a row passes the codec when columns that share a bit of the bitmap are NULL together. -/
theorem zeroRow_codable {schema : Schema} {null : Nat → Bool}
    (hfew : schema.columns.length < 2 ^ 32)
    (hmod : ∀ i j, i % 32 = j % 32 → null i = null j) : (zeroRow schema null).Codable where
  few := by rwa [zeroRow_length]
  nulls i j f g hf hg hij := by
    rw [zeroRow_getElem? schema null hf, zeroRow_getElem? schema null hg, hmod i j hij]
  short := zeroRow_short schema null

/-- If a column can be null, two different keys compare as equal. -/
theorem Orders.never_null {schema : Schema} {i : Nat} (hi : i < schema.columns.length)
    (hfew : schema.columns.length < 2 ^ 32) (h : (zeroSlots schema).Orders floatLt null) :
    null i = false := by
  rw [Bool.eq_false_iff]
  intro hnull
  have hwrite (null' : Nat → Bool) : ∃ m,
      (zeroSlots schema).serializeFromKey (fun _ => 0) 0 (zeroRow schema null') schema = some m :=
    ⟨_, serializeFromKey_zeroRow schema null' hfew (length_zeroRow_le_slot schema null') _ _⟩
  -- the bit of the null field stands for every 32nd field, and is read so
  obtain ⟨m, hm⟩ := hwrite fun j => decide (j = i)
  obtain ⟨m', hm'⟩ := hwrite fun _ => false
  have hsame : (zeroSlots schema).serializeFromKey (fun _ => 0) 0
      (zeroRow schema fun j => decide (j % 32 = i % 32)) schema = some m := by
    rw [← hm]
    refine serializeFromKey_zeroRow_congr hfew (length_zeroRow_le_slot schema _)
      (length_zeroRow_le_slot schema _) (fun b _ => ⟨?_, ?_⟩) _ _
    · rintro ⟨j, -, heq, rfl⟩
      exact ⟨i, hi, decide_eq_true rfl, (of_decide_eq_true heq).symm⟩
    · rintro ⟨j, hj, heq, rfl⟩
      refine ⟨j, hj, ?_, rfl⟩
      rw [of_decide_eq_true heq]
      exact decide_eq_true rfl
  have hzero : (zeroSlots schema).compareKeys floatLt m 0 m' 0 = some 0 := by
    rw [compareKeys_eq (@serialized_zeroRow schema _ (fun _ => true) m (fun _ _ => rfl) hsame)
      (serialized_zeroRow (fun _ _ => rfl) hm')
      (zeroRow_codable hfew fun j l hjl => by rw [hjl]) (zeroRow_codable hfew fun _ _ _ => rfl),
      lexCompare_zeroRow]
  have hrows := h.eq_of_zero _ _ m m' 0 0
    (serialized_zeroRow (fun j hj => by rw [of_decide_eq_true hj]; exact hnull) hm)
    (@serialized_zeroRow schema (fun _ => false) null m' (fun _ hj => absurd hj Bool.false_ne_true)
      hm') hzero
  -- but only one of the rows has a null in this column
  have hlt : i < (zeroRow schema fun j => decide (j = i)).fields.length := by rwa [zeroRow_length]
  obtain ⟨field, hfield⟩ : ∃ field, (zeroRow schema fun j => decide (j = i)).fields[i]? =
      some field := ⟨_, List.getElem?_eq_getElem hlt⟩
  have htrue := zeroRow_getElem? schema _ hfield
  rw [hrows] at hfield
  have hfalse := zeroRow_getElem? schema _ hfield
  rw [htrue, decide_eq_true rfl] at hfalse
  exact nomatch hfalse

end Order

end KeyManager

/-- The comparison of the keys of a schema is an order, in slots of every size, exactly if no key
has a null, or there are so many columns that no key can be written. -/
theorem key_order_iff (floatLt : UInt32 → UInt32 → Bool)
    [IsStrictTotalOrder UInt32 fun l r => floatLt l r = true] (schema : Schema)
    (null : Nat → Bool) :
    (∀ keySize, (KeyManager.mk keySize schema).Orders floatLt null) ↔
      (∀ i < schema.columns.length, null i = false) ∨ 2 ^ 32 ≤ schema.columns.length := by
  constructor
  · intro h
    by_cases hfew : schema.columns.length < 2 ^ 32
    · exact .inl fun i hi => (h _).never_null hi hfew
    · exact .inr (Nat.le_of_not_lt hfew)
  · rintro (hnever | hmany) keySize
    · exact KeyManager.orders_of_never_null hnever
    · have hnone {row : Row} {m : Bytes} {p : Nat}
          (h : (KeyManager.mk keySize schema).Serialized null row m p) : False := by
        have hfew := h.bounds.1
        rw [h.1.length_eq] at hfew
        exact Nat.not_lt_of_le hmany hfew
      exact ⟨fun _ _ _ _ _ _ ha => (hnone ha).elim, fun _ _ _ _ _ _ _ _ _ ha => (hnone ha).elim,
        fun _ _ _ _ _ _ ha => (hnone ha).elim⟩

/-- The order of the bits, which is that of the numbers for the `float`s that are not negative. -/
def bitsLt (l r : UInt32) : Bool := decide (l < r)

/-- Comparing the bits is a strict total order, so the hypothesis on floats has an instance. -/
theorem bitsLt_isStrictTotalOrder : IsStrictTotalOrder UInt32 fun l r => bitsLt l r = true where
  trichotomous _ _ hab hba :=
    UInt32.le_antisymm (UInt32.not_lt.mp fun h => hba (decide_eq_true h))
      (UInt32.not_lt.mp fun h => hab (decide_eq_true h))
  irrefl a h := UInt32.lt_irrefl a (of_decide_eq_true h)
  trans _ _ _ hab hbc :=
    decide_eq_true (UInt32.lt_trans (of_decide_eq_true hab) (of_decide_eq_true hbc))

/-- Keys of one column of integers. -/
theorem key_order_of_integers :
    (∀ keySize, (KeyManager.mk keySize ⟨[intColumn [105]]⟩).Orders bitsLt fun _ => false) ↔
      (∀ i < [intColumn [105]].length, (fun _ => false) i = false) ∨
        2 ^ 32 ≤ [intColumn [105]].length :=
  @key_order_iff bitsLt bitsLt_isStrictTotalOrder ⟨[intColumn [105]]⟩ fun _ => false

/-- The slots of keys of one column of integers. -/
def intKeys : KeyManager := ⟨16, ⟨[intColumn [105]]⟩⟩

/-- The slot of a key of one integer. -/
def intSlot (integer : Option Int32) : Bytes :=
  (Bytes.blit (fun _ => 0) 0 (List.replicate 16 0)).blit 0 (Row.mk [.int integer]).layout

/-- The null key compares as equal to 1 and to 2. -/
theorem null_key_is_no_order :
    (∀ integer, intKeys.serializeFromKey (fun _ => 0) 0 ⟨[.int integer]⟩ intKeys.keySchema =
        some (intSlot integer)) ∧
      intKeys.compareKeys bitsLt (intSlot (some 2)) 0 (intSlot none) 0 = some 0 ∧
      intKeys.compareKeys bitsLt (intSlot none) 0 (intSlot (some 1)) 0 = some 0 ∧
      intKeys.compareKeys bitsLt (intSlot (some 2)) 0 (intSlot (some 1)) 0 = some 1 ∧
      ¬ intKeys.Orders bitsLt fun _ => true := by
  have hshort : ∀ integer, ∀ field ∈ (Row.mk [.int integer]).fields, field.Short := by
    intro integer field hmem chars hchars
    cases List.mem_singleton.mp hmem
    cases hchars
  have hwrite : ∀ integer, intKeys.serializeFromKey (fun _ => 0) 0 ⟨[.int integer]⟩
      intKeys.keySchema = some (intSlot integer) := by
    intro integer
    refine KeyManager.serializeFromKey_eq (.cons rfl .nil) ?_ (hshort integer) ?_ _ 0
    · exact Nat.lt_of_lt_of_le (Nat.lt_succ_self 1) (by decide)
    · rw [Row.length_layout]
      cases integer with
      | none => decide
      | some integer => exact Nat.le_refl 16
  have hequal : intKeys.compareKeys bitsLt (intSlot (some 2)) 0 (intSlot none) 0 = some 0 := by
    decide +kernel
  have hserialized : ∀ integer, intKeys.Serialized (fun _ => true) ⟨[.int integer]⟩
      (intSlot integer) 0 := by
    intro integer
    exact ⟨.cons rfl .nil, fun _ _ _ _ => rfl, hshort integer, fun _ => 0, hwrite integer⟩
  refine ⟨hwrite, hequal, by decide +kernel, by decide +kernel, fun h => ?_⟩
  have hrows := h.eq_of_zero _ _ _ _ 0 0 (hserialized (some 2)) (hserialized none) hequal
  exact absurd hrows (by decide)

end DisMiniSql.MiniSql.Record
