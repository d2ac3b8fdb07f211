import Mathlib.Data.Nat.Bitwise
import Mathlib.Tactic.Ring

/-!
# Bit fields of machine words

Shifts and masks of 32-bit and 64-bit words as arithmetic on their numbers, where the amounts
stay inside the word. A number is put together from a high part and a low part below a power of
two, and both are read back.
-/

namespace ServerCom

/-- A shift to the left that stays inside the word. -/
theorem toNat_shiftLeft {a k : UInt64} {n : Nat} (hk : k.toNat = n) (hn : n < 64)
    (ha : a.toNat * 2 ^ n < 2 ^ 64) : (a <<< k).toNat = a.toNat * 2 ^ n := by
  rw [UInt64.toNat_shiftLeft, hk, Nat.mod_eq_of_lt hn, Nat.shiftLeft_eq, Nat.mod_eq_of_lt ha]

/-- A shift to the right by less than the word. -/
theorem toNat_shiftRight {a k : UInt64} {n : Nat} (hk : k.toNat = n) (hn : n < 64) :
    (a >>> k).toNat = a.toNat / 2 ^ n := by
  rw [UInt64.toNat_shiftRight, hk, Nat.mod_eq_of_lt hn, Nat.shiftRight_eq_div_pow]

/-- A field and the lower ones do not overlap. -/
theorem toNat_or {a b : UInt64} {c n : Nat} (ha : a.toNat = c * 2 ^ n) (hb : b.toNat < 2 ^ n) :
    (a ||| b).toNat = c * 2 ^ n + b.toNat := by
  rw [UInt64.toNat_or, ha, Nat.mul_comm, Nat.two_pow_add_eq_or_of_lt hb]

/-- The mask of the lowest bits. -/
theorem toNat_mask {bits : UInt32} (h : bits.toNat < 32) :
    ((1 <<< bits) - 1 : UInt32).toNat = 2 ^ bits.toNat - 1 := by
  have hone : (1 : UInt32).toNat = 1 := rfl
  have hpos : 0 < 2 ^ bits.toNat := Nat.two_pow_pos _
  have hlt : 2 ^ bits.toNat < 2 ^ 32 := Nat.pow_lt_pow_right (by decide) h
  rw [UInt32.toNat_sub, UInt32.toNat_shiftLeft, hone, Nat.mod_eq_of_lt h, Nat.one_shiftLeft,
    Nat.mod_eq_of_lt hlt]
  omega

/-- A mask of low bits takes the remainder. -/
theorem toNat_and_mask {a m : UInt32} {n : Nat} (hm : m.toNat = 2 ^ n - 1) :
    (a &&& m).toNat = a.toNat % 2 ^ n := by
  rw [UInt32.toNat_and, hm, Nat.and_two_pow_sub_one_eq_mod]

/-- A field of at most 32 bits, read through the lower half of a word. -/
theorem toNat_field {a : UInt64} {m : UInt32} {n : Nat} (hm : m.toNat = 2 ^ n - 1) (hn : n ≤ 32) :
    (a.toUInt32 &&& m).toNat = a.toNat % 2 ^ n := by
  rw [toNat_and_mask hm, UInt64.toNat_toUInt32, Nat.mod_mod_of_dvd _ (Nat.pow_dvd_pow 2 hn)]

/-- The lowest field, masked before it is cut to 32 bits. -/
theorem toNat_lowField {a : UInt64} {m : UInt32} {n : Nat} (hm : m.toNat = 2 ^ n - 1) :
    (a &&& m.toUInt64).toUInt32.toNat = a.toNat % 2 ^ n := by
  have hlt : a.toNat % 2 ^ n < 2 ^ 32 := by
    have hpow : 2 ^ n - 1 < 2 ^ 32 := hm ▸ m.toNat_lt
    exact Nat.lt_of_le_of_lt (Nat.le_sub_one_of_lt (Nat.mod_lt _ (Nat.two_pow_pos n))) hpow
  rw [UInt64.toNat_toUInt32, UInt64.toNat_and, UInt32.toNat_toUInt64, hm,
    Nat.and_two_pow_sub_one_eq_mod, Nat.mod_eq_of_lt hlt]

/-- The low part of a number. -/
theorem low_part {c w n : Nat} (hw : w < 2 ^ n) : (c * 2 ^ n + w) % 2 ^ n = w := by
  rw [Nat.mul_comm, Nat.mul_add_mod, Nat.mod_eq_of_lt hw]

/-- The high part of a number. -/
theorem high_part {c w n : Nat} (hw : w < 2 ^ n) : (c * 2 ^ n + w) / 2 ^ n = c := by
  rw [Nat.mul_comm, Nat.mul_add_div (Nat.two_pow_pos n), Nat.div_eq_of_lt hw, Nat.add_zero]

/-- Two parts in range make a number in range. -/
theorem parts_lt {c w m n : Nat} (hc : c < 2 ^ m) (hw : w < 2 ^ n) :
    c * 2 ^ n + w < 2 ^ (m + n) :=
  calc c * 2 ^ n + w < c * 2 ^ n + 2 ^ n := Nat.add_lt_add_left hw _
    _ = (c + 1) * 2 ^ n := by ring
    _ ≤ 2 ^ m * 2 ^ n := Nat.mul_le_mul_right _ hc
    _ = 2 ^ (m + n) := (Nat.pow_add ..).symm

end ServerCom
