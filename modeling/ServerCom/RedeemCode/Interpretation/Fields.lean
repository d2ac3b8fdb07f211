import ServerCom.RedeemCode.Interpretation.Layout

/-!
# The fields of a code

With the shipped layout a code number is the masked function id, the masked unique
code and the sign behind each other. The key of a unique code is chosen by its two
lowest bits, and the lowest bits of the four keys permute the residues, so the mask
can be undone.
-/

namespace ServerCom.RedeemCode

open RedeemCodeCfg

/-- The key for a residue, as a number. -/
def uniqueKey (r : Nat) : Nat := (uniqueCodeXorKey.getD r 0).toNat

/-- The masked unique code. -/
def mask (u : Nat) : Nat := (u ^^^ uniqueKey (u % 4)) % 2 ^ 22

/-- The residue whose key leads to a masked residue. -/
def unmaskResidue : Nat → Nat
  | 0 => 2
  | 1 => 3
  | 2 => 1
  | _ => 0

/-- The unique code behind a masked one. -/
def unmask (w : Nat) : Nat := (w ^^^ uniqueKey (unmaskResidue (w % 4))) % 2 ^ 22

/-- The sign of a masked unique code. -/
def signOf (w : Nat) : Nat := (w ^^^ shipped.signXorKey.toNat) % 2 ^ 10

/-- The lowest two bits of an exclusive or depend on the lowest two bits only. -/
theorem xor_mod_four (a b : Nat) : (a ^^^ b) % 2 ^ 22 % 4 = a % 4 ^^^ b % 4 := by
  rw [Nat.mod_mod_of_dvd _ (by decide)]
  exact Nat.xor_mod_two_pow (n := 2)

/-- Masking twice with one key gives the value back. -/
theorem xor_xor_mod {a : Nat} (k : Nat) (ha : a < 2 ^ 22) :
    ((a ^^^ k) % 2 ^ 22 ^^^ k) % 2 ^ 22 = a := by
  rw [Nat.xor_mod_two_pow, Nat.mod_mod, ← Nat.xor_mod_two_pow, Nat.xor_assoc, Nat.xor_self,
    Nat.xor_zero, Nat.mod_eq_of_lt ha]

/-- The keys permute the residues. -/
theorem unmaskResidue_mask (u : Nat) : unmaskResidue (mask u % 4) = u % 4 := by
  have hall : ∀ r : Fin 4, unmaskResidue (r.val ^^^ uniqueKey r % 4) = r := by decide
  rw [mask, xor_mod_four]
  exact hall ⟨u % 4, Nat.mod_lt _ (by decide)⟩

/-- The lowest two bits of the unmasked code, from which the mask is known. -/
theorem mod_four_unmask (w : Nat) : unmask w % 4 = unmaskResidue (w % 4) := by
  have hall : ∀ r : Fin 4, r.val ^^^ uniqueKey (unmaskResidue r) % 4 = unmaskResidue r := by
    decide
  rw [unmask, xor_mod_four]
  exact hall ⟨w % 4, Nat.mod_lt _ (by decide)⟩

/-- Unmasking undoes the mask on 22 bits. -/
theorem unmask_mask {u : Nat} (hu : u < 2 ^ 22) : unmask (mask u) = u := by
  rw [unmask, unmaskResidue_mask, mask, xor_xor_mod _ hu]

/-- Every 22-bit value is the mask of one. -/
theorem mask_unmask {w : Nat} (hw : w < 2 ^ 22) : mask (unmask w) = w := by
  rw [mask, mod_four_unmask, unmask, xor_xor_mod _ hw]

/-- The mask keeps to 22 bits. -/
theorem mask_lt (u : Nat) : mask u < 2 ^ 22 := Nat.mod_lt _ (by decide)

/-- Unmasking keeps to 22 bits. -/
theorem unmask_lt (w : Nat) : unmask w < 2 ^ 22 := Nat.mod_lt _ (by decide)

/-! ## The shipped layout -/

/-- The shipped layout fits. -/
theorem fits_shipped : shipped.Fits where
  len_le := by decide
  sign_pos := by decide
  sign_le := by decide
  funId_pos := by decide
  funId_le := by decide
  unique_pos := by decide
  unique_le := by decide

theorem toNat_signBitLen_shipped : shipped.signBitLen.toNat = 10 := rfl

theorem toNat_funIdBitLen_shipped : shipped.funIdBitLen.toNat = 8 := rfl

theorem toNat_uniqueCodeBitLen_shipped : shipped.uniqueCodeBitLen.toNat = 22 := rfl

/-- The number with these fields. -/
def fields (f w s : Nat) : Nat := f * 2 ^ 32 + w * 2 ^ 10 + s

variable {funId uniqueCode : UInt32}

/-- On the shipped layout the source masks as `mask` does. -/
theorem toNat_maskUniqueCode (uniqueCode : UInt32) :
    (maskUniqueCode shipped uniqueCode).toNat = mask uniqueCode.toNat := by
  rw [maskUniqueCode, toNat_and_mask (toNat_uniqueCodeMax fits_shipped), UInt32.toNat_xor,
    UInt32.toNat_mod, toNat_uniqueCodeBitLen_shipped]
  rfl

/-- On the shipped layout the source signs as `signOf` does. -/
theorem toNat_getSign (src : UInt32) : (getSign shipped src).toNat = signOf src.toNat := by
  rw [getSign, toNat_and_mask (toNat_signMax fits_shipped), UInt32.toNat_xor,
    toNat_signBitLen_shipped]
  rfl

/-- The sign only looks at the ten lowest bits. -/
theorem signOf_congr {a b : Nat} (h : a % 2 ^ 10 = b % 2 ^ 10) : signOf a = signOf b := by
  rw [signOf, signOf, Nat.xor_mod_two_pow, h, ← Nat.xor_mod_two_pow]

/-- A sign has at most 10 bits. -/
theorem signOf_lt (w : Nat) : signOf w < 2 ^ 10 := Nat.mod_lt _ (by decide)

/-- The sign of what stands above the sign of a number. -/
theorem toNat_getSign_shiftRight (v : UInt64) :
    (getSign shipped (v >>> shipped.signBitLen.toUInt64).toUInt32).toNat =
      signOf (v.toNat / 2 ^ 10) := by
  rw [toNat_getSign, UInt64.toNat_toUInt32, toNat_shiftRight (n := 10) rfl (by decide)]
  exact signOf_congr (by omega)

/-- A code number has the masked function id, the masked unique code and its sign. -/
theorem toNat_packCode (funId uniqueCode : UInt32) :
    (packCode shipped funId uniqueCode).toNat =
      fields ((mask uniqueCode.toNat ^^^ funId.toNat) % 2 ^ 8) (mask uniqueCode.toNat)
        (signOf (mask uniqueCode.toNat)) := by
  obtain ⟨hhigh, hlow⟩ := packCode_parts fits_shipped funId uniqueCode
  rw [toNat_getSign_shiftRight] at hlow
  rw [toNat_maskUniqueCode] at hhigh
  rw [toNat_signBitLen_shipped] at hhigh hlow
  rw [toNat_funIdBitLen_shipped, toNat_uniqueCodeBitLen_shipped] at hhigh
  have hsign : signOf ((packCode shipped funId uniqueCode).toNat / 2 ^ 10) =
      signOf (mask uniqueCode.toNat) := signOf_congr (by omega)
  rw [fields, ← hsign, ← hlow]
  omega

/-! ## Reading the fields -/

/-- Three fields within their lengths make a number of eight characters. -/
theorem fields_lt {f w s : Nat} (hf : f < 2 ^ 8) (hw : w < 2 ^ 22) (hs : s < 2 ^ 10) :
    fields f w s < 32 ^ 8 := by
  rw [fields]
  omega

/-- A string of the right length is accepted exactly when its number carries its sign. -/
theorem checkCodeValid_iff_sign {code : List UInt8} (hlen : code.length = 8) :
    checkCodeValid shipped code = true ↔
      (codeToUint64 shipped code).toNat % 2 ^ 10 =
        signOf ((codeToUint64 shipped code).toNat / 2 ^ 10) := by
  rw [checkCodeValid_iff fits_shipped hlen, toNat_getSign_shiftRight]
  rfl

end ServerCom.RedeemCode
