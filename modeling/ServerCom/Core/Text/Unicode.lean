import Mathlib.Data.List.Basic

/-!
# Characters in UTF-8 and UTF-16

The units of a character as numbers. A character has one unit or more, and the units of each
kind put together give the character back.
-/

namespace ServerCom.Unicode

variable {c : Char} {n : ℕ}

/-- A character in UTF-16. -/
def utf16 (c : Char) : List UInt16 :=
  let n := c.val.toNat
  if n ≤ 0xFFFF then [.ofNat n]
  else [.ofNat (0xD800 + (n - 0x10000) / 0x400), .ofNat (0xDC00 + (n - 0x10000) % 0x400)]

/-- A character is no surrogate and not above `10FFFF`. -/
theorem toNat_valid (c : Char) :
    c.val.toNat < 0xD800 ∨ 0xDFFF < c.val.toNat ∧ c.val.toNat < 0x110000 := c.valid

/-- Every other number is a character. -/
theorem exists_char (h : n < 0xD800 ∨ 0xDFFF < n ∧ n < 0x110000) : ∃ c : Char, c.val.toNat = n :=
  ⟨.ofNatAux n h, rfl⟩

/-- A byte is the one with its value. -/
theorem ofNat_eq (b : UInt8) (h : n = b.toNat) : UInt8.ofNat n = b := by
  rw [h, UInt8.ofNat_toNat]

/-- Every number below 256 is a byte. -/
theorem exists_byte (h : n < 256) : ∃ b : UInt8, UInt8.ofNat n = b ∧ b.toNat = n :=
  ⟨_, rfl, by rw [UInt8.toNat_ofNat', Nat.mod_eq_of_lt h]⟩

/-! ## UTF-8 -/

/-- The bytes of a character. -/
inductive Utf8 (c : Char) : List UInt8 → Prop where
  /-- One byte. -/
  | one {a : UInt8} (ha : a.toNat < 0x80) (hc : c.val.toNat = a.toNat) : Utf8 c [a]
  /-- Two bytes. -/
  | two {a b : UInt8} (ha : 0xC2 ≤ a.toNat ∧ a.toNat ≤ 0xDF) (hb : 0x80 ≤ b.toNat ∧ b.toNat ≤ 0xBF)
    (hc : c.val.toNat = (a.toNat - 0xC0) * 64 + (b.toNat - 0x80)) : Utf8 c [a, b]
  /-- Three bytes. -/
  | three {a b d : UInt8} (ha : 0xE0 ≤ a.toNat ∧ a.toNat ≤ 0xEF)
    (hb : 0x80 ≤ b.toNat ∧ b.toNat ≤ 0xBF) (hd : 0x80 ≤ d.toNat ∧ d.toNat ≤ 0xBF)
    (hc : c.val.toNat = (a.toNat - 0xE0) * 4096 + (b.toNat - 0x80) * 64 + (d.toNat - 0x80))
    (hlo : 0x800 ≤ c.val.toNat) : Utf8 c [a, b, d]
  /-- Four bytes. -/
  | four {a b d e : UInt8} (ha : 0xF0 ≤ a.toNat ∧ a.toNat ≤ 0xF4)
    (hb : 0x80 ≤ b.toNat ∧ b.toNat ≤ 0xBF) (hd : 0x80 ≤ d.toNat ∧ d.toNat ≤ 0xBF)
    (he : 0x80 ≤ e.toNat ∧ e.toNat ≤ 0xBF)
    (hc : c.val.toNat = (a.toNat - 0xF0) * 262144 + (b.toNat - 0x80) * 4096 +
      (d.toNat - 0x80) * 64 + (e.toNat - 0x80))
    (hlo : 0x10000 ≤ c.val.toNat) : Utf8 c [a, b, d, e]

/-- Bytes of one of the forms are the UTF-8 of their character. -/
theorem Utf8.eq {bytes : List UInt8} (h : Utf8 c bytes) : String.utf8EncodeChar c = bytes := by
  rw [String.utf8EncodeChar]
  cases h with
  | @one a ha hc => rw [if_pos (by omega), ofNat_eq a hc]
  | @two a b ha hb hc =>
    rw [if_neg (by omega), if_pos (by omega), ofNat_eq a (by omega), ofNat_eq b (by omega)]
  | @three a b d ha hb hd hc hlo =>
    rw [if_neg (by omega), if_neg (by omega), if_pos (by omega), ofNat_eq a (by omega),
      ofNat_eq b (by omega), ofNat_eq d (by omega)]
  | @four a b d e ha hb hd he hc hlo =>
    rw [if_neg (by omega), if_neg (by omega), if_neg (by omega), ofNat_eq a (by omega),
      ofNat_eq b (by omega), ofNat_eq d (by omega), ofNat_eq e (by omega)]

/-- The bytes of every character are of this kind. -/
theorem utf8 (c : Char) : Utf8 c (String.utf8EncodeChar c) := by
  have hvalid := toNat_valid c
  obtain ⟨b, hb, hb'⟩ := exists_byte (n := c.val.toNat % 0x40 + 0x80) (by omega)
  obtain ⟨d, hd, hd'⟩ := exists_byte (n := c.val.toNat / 64 % 0x40 + 0x80) (by omega)
  rw [String.utf8EncodeChar, hb, hd]
  split_ifs with h1 h2 h3
  · obtain ⟨a, ha, ha'⟩ := exists_byte (n := c.val.toNat) (by omega)
    rw [ha]
    exact .one (by omega) ha'.symm
  · obtain ⟨a, ha, ha'⟩ := exists_byte (n := c.val.toNat / 64 % 0x20 + 0xc0) (by omega)
    rw [ha]
    exact .two (by omega) (by omega) (by omega)
  · obtain ⟨a, ha, ha'⟩ := exists_byte (n := c.val.toNat / 4096 % 0x10 + 0xe0) (by omega)
    rw [ha]
    exact .three (by omega) (by omega) (by omega) (by omega) (by omega)
  · obtain ⟨a, ha, ha'⟩ := exists_byte (n := c.val.toNat / 262144 % 0x08 + 0xf0) (by omega)
    obtain ⟨e, he, he'⟩ := exists_byte (n := c.val.toNat / 4096 % 0x40 + 0x80) (by omega)
    rw [ha, he]
    exact .four (by omega) (by omega) (by omega) (by omega) (by omega) (by omega)

/-! ## UTF-16 -/

/-- The units of a character. -/
inductive Utf16 (c : Char) : List UInt16 → Prop where
  /-- One unit. -/
  | one {u : UInt16} (hu : u.toNat < 0xD800 ∨ 0xDFFF < u.toNat) (hc : c.val.toNat = u.toNat) :
    Utf16 c [u]
  /-- Two units. -/
  | two {u v : UInt16} (hu : 0xD800 ≤ u.toNat ∧ u.toNat ≤ 0xDBFF)
    (hv : 0xDC00 ≤ v.toNat ∧ v.toNat ≤ 0xDFFF)
    (hc : c.val.toNat = (u.toNat - 0xD800) * 0x400 + (v.toNat - 0xDC00) + 0x10000) :
    Utf16 c [u, v]

/-- Every number below 65536 is a unit. -/
theorem exists_unit (h : n < 65536) : ∃ u : UInt16, UInt16.ofNat n = u ∧ u.toNat = n :=
  ⟨_, rfl, by rw [UInt16.toNat_ofNat', Nat.mod_eq_of_lt h]⟩

/-- A unit is the one with its value. -/
theorem ofNat_eq_unit (u : UInt16) (h : n = u.toNat) : UInt16.ofNat n = u := by
  rw [h, UInt16.ofNat_toNat]

/-- Units of one of the forms are the UTF-16 of their character. -/
theorem Utf16.eq {units : List UInt16} (h : Utf16 c units) : utf16 c = units := by
  rw [utf16]
  cases h with
  | @one u hu hc =>
    have hlt := u.toNat_lt
    rw [if_pos (by omega), ofNat_eq_unit u hc]
  | @two u v hu hv hc =>
    rw [if_neg (by omega), ofNat_eq_unit u (by omega), ofNat_eq_unit v (by omega)]

/-- The units of every character are of this kind. -/
theorem utf16_units (c : Char) : Utf16 c (utf16 c) := by
  have hvalid := toNat_valid c
  rw [utf16]
  split_ifs with h
  · obtain ⟨u, hu, hu'⟩ := exists_unit (n := c.val.toNat) (by omega)
    rw [hu]
    exact .one (by omega) hu'.symm
  · obtain ⟨u, hu, hu'⟩ := exists_unit (n := 0xD800 + (c.val.toNat - 0x10000) / 0x400) (by omega)
    obtain ⟨v, hv, hv'⟩ := exists_unit (n := 0xDC00 + (c.val.toNat - 0x10000) % 0x400) (by omega)
    rw [hu, hv]
    exact .two (by omega) (by omega) (by omega)

/-- Every character has a unit. -/
theorem utf16_ne_nil (c : Char) : utf16 c ≠ [] := by
  rw [utf16]
  split_ifs <;> exact List.cons_ne_nil _ _

end ServerCom.Unicode
