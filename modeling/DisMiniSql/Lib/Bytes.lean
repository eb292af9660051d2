import Mathlib.Algebra.Group.Nat.Defs
import Mathlib.Data.List.Basic

/-!
# `DisMiniSql.Lib.Bytes`: bytes at addresses

A memory is a byte for every address. `blit` and `move` are `memcpy` and `memmove`, and `get32` and
`set32` are the four bytes of an unsigned number, the lowest first. A write leaves the bytes outside
its range alone, so what is read elsewhere stays (`get32_set32_of_disjoint`, `slice_congr`).
-/

set_option autoImplicit false

namespace DisMiniSql.Lib

/-- The byte at every address. -/
abbrev Bytes := Nat → UInt8

namespace Bytes

/-- The bytes `bs` are written from the address `a` on. -/
def blit (m : Bytes) (a : Nat) (bs : List UInt8) : Bytes :=
  fun i => if a ≤ i then (bs[i - a]?).getD (m i) else m i

/-- The `n` bytes from `src` on are copied to `dst`. The two ranges may overlap. -/
def move (m : Bytes) (dst src n : Nat) : Bytes :=
  fun i => if dst ≤ i ∧ i < dst + n then m (src + (i - dst)) else m i

/-- The `n` bytes from the address `a` on. -/
def slice (m : Bytes) (a n : Nat) : List UInt8 := (List.range n).map (fun i => m (a + i))

/-- The number whose four bytes begin at `a`. -/
def get32 (m : Bytes) (a : Nat) : Nat :=
  (m a).toNat + 2 ^ 8 * (m (a + 1)).toNat + 2 ^ 16 * (m (a + 2)).toNat + 2 ^ 24 * (m (a + 3)).toNat

/-- The four bytes of a number are written from the address `a` on. -/
def set32 (m : Bytes) (a v : Nat) : Bytes :=
  m.blit a [UInt8.ofNat v, UInt8.ofNat (v / 2 ^ 8), UInt8.ofNat (v / 2 ^ 16),
    UInt8.ofNat (v / 2 ^ 24)]

variable {m m' : Bytes} {a b i n : Nat} {bs : List UInt8}

/-- Bytes outside the copied range stay. -/
theorem blit_of_outside (h : i < a ∨ a + bs.length ≤ i) : m.blit a bs i = m i := by
  unfold blit
  split
  · rw [List.getElem?_eq_none (by omega), Option.getD_none]
  · rfl

/-- Bytes inside it are the copied ones. -/
theorem blit_of_inside (h : i < bs.length) : m.blit a bs (a + i) = bs[i] := by
  unfold blit
  rw [if_pos (Nat.le_add_right a i), Nat.add_sub_cancel_left, List.getElem?_eq_getElem h,
    Option.getD_some]

/-- Bytes outside the moved range stay. -/
theorem move_of_outside {dst src : Nat} (h : i < dst ∨ dst + n ≤ i) :
    m.move dst src n i = m i := by
  unfold move
  rw [if_neg (by omega)]

/-- Bytes inside it are those of the source, also where the two ranges overlap. -/
theorem move_of_inside {dst src : Nat} (hlow : dst ≤ i) (hhigh : i < dst + n) :
    m.move dst src n i = m (src + (i - dst)) := by
  unfold move
  rw [if_pos ⟨hlow, hhigh⟩]

/-- A slice has the length asked for. -/
@[simp] theorem length_slice : (m.slice a n).length = n := by
  simp [slice]

/-- A slice depends on its own bytes only. -/
theorem slice_congr (h : ∀ i < n, m (a + i) = m' (b + i)) : m.slice a n = m'.slice b n :=
  List.map_congr_left (fun i hi => h i (List.mem_range.mp hi))

/-- What was written is read back. -/
theorem slice_blit_self : (m.blit a bs).slice a bs.length = bs := by
  refine List.ext_getElem length_slice (fun i hi hi' => ?_)
  simp only [slice, List.getElem_map, List.getElem_range]
  exact blit_of_inside hi'

/-- Storing a number touches four bytes. -/
theorem set32_of_outside {v : Nat} (h : i < a ∨ a + 4 ≤ i) : m.set32 a v i = m i :=
  blit_of_outside h

/-- Reading one depends on four bytes. -/
theorem get32_congr (h : ∀ i < 4, m (a + i) = m' (b + i)) : m.get32 a = m'.get32 b := by
  have h0 : m a = m' b := h 0 (by omega)
  unfold get32
  rw [h0, h 1 (by omega), h 2 (by omega), h 3 (by omega)]

/-- Two numbers in different places do not disturb each other. -/
theorem get32_set32_of_disjoint {v : Nat} (h : a + 4 ≤ b ∨ b + 4 ≤ a) :
    (m.set32 a v).get32 b = m.get32 b :=
  get32_congr (fun _ _ => set32_of_outside (by omega))

/-- A number below 2^32 is read back. -/
theorem get32_set32_self {v : Nat} (hv : v < 2 ^ 32) : (m.set32 a v).get32 a = v := by
  have hbyte : ∀ k, (hk : k < 4) → m.set32 a v (a + k) =
      [UInt8.ofNat v, UInt8.ofNat (v / 2 ^ 8), UInt8.ofNat (v / 2 ^ 16),
        UInt8.ofNat (v / 2 ^ 24)][k] := fun k hk => blit_of_inside hk
  have h0 : m.set32 a v a = UInt8.ofNat v := hbyte 0 (by omega)
  unfold get32
  rw [h0, hbyte 1 (by omega), hbyte 2 (by omega), hbyte 3 (by omega)]
  simp only [List.getElem_cons_succ, List.getElem_cons_zero, UInt8.toNat_ofNat']
  omega

/-- What is read is always below 2^32. -/
theorem get32_lt (m : Bytes) (a : Nat) : m.get32 a < 2 ^ 32 := by
  have h0 := (m a).toNat_lt
  have h1 := (m (a + 1)).toNat_lt
  have h2 := (m (a + 2)).toNat_lt
  have h3 := (m (a + 3)).toNat_lt
  unfold get32
  omega

/-- What is there is written again. -/
theorem set32_get32_self : m.set32 a (m.get32 a) = m := by
  funext i
  by_cases h : i < a ∨ a + 4 ≤ i
  · exact set32_of_outside h
  · have hi : i = a ∨ i = a + 1 ∨ i = a + 2 ∨ i = a + 3 := by omega
    have hbyte : ∀ k, (hk : k < 4) → m.set32 a (m.get32 a) (a + k) =
        [UInt8.ofNat (m.get32 a), UInt8.ofNat (m.get32 a / 2 ^ 8),
          UInt8.ofNat (m.get32 a / 2 ^ 16), UInt8.ofNat (m.get32 a / 2 ^ 24)][k] :=
      fun k hk => blit_of_inside hk
    have h0 := (m a).toNat_lt
    have h1 := (m (a + 1)).toNat_lt
    have h2 := (m (a + 2)).toNat_lt
    have h3 := (m (a + 3)).toNat_lt
    have hv : m.get32 a = (m a).toNat + 2 ^ 8 * (m (a + 1)).toNat + 2 ^ 16 * (m (a + 2)).toNat
        + 2 ^ 24 * (m (a + 3)).toNat := by
      unfold get32
      omega
    rw [hv] at hbyte ⊢
    obtain rfl | rfl | rfl | rfl := hi
    · refine (hbyte 0 (by omega)).trans (UInt8.toNat_inj.mp ?_)
      simp only [List.getElem_cons_zero, UInt8.toNat_ofNat']
      omega
    · refine (hbyte 1 (by omega)).trans (UInt8.toNat_inj.mp ?_)
      simp only [List.getElem_cons_zero, List.getElem_cons_succ, UInt8.toNat_ofNat']
      omega
    · refine (hbyte 2 (by omega)).trans (UInt8.toNat_inj.mp ?_)
      simp only [List.getElem_cons_zero, List.getElem_cons_succ, UInt8.toNat_ofNat']
      omega
    · refine (hbyte 3 (by omega)).trans (UInt8.toNat_inj.mp ?_)
      simp only [List.getElem_cons_zero, List.getElem_cons_succ, UInt8.toNat_ofNat']
      omega

end Bytes

end DisMiniSql.Lib
