import ServerCom.RedeemCode.Interpretation.Fields

/-!
# The check of the constants

Of the three comparisons in `CheckCfg` the last can never fail, and the others look at no field
but the sign: constants pass that leave a field empty or whose length wraps, and, where a
compiler takes such a shift, constants with a field too long for its mask. Among the constants
that pass, those that fit are exactly the ones the code works with.
-/

namespace ServerCom.RedeemCode

namespace RedeemCodeCfg

variable {cfg : RedeemCodeCfg}

/-- `0x1 << bits` is computed in an `int`: neither is the amount out of range, nor does the
value overflow. -/
def IntShift (bits : UInt32) : Prop := bits.toNat < 32 ∧ 2 ^ bits.toNat ≤ 2 ^ 31 - 1

/-- What the rest of the code relies on. -/
structure Sound (cfg : RedeemCodeCfg) : Prop where
  /-- No field is empty. -/
  positive : 0 < cfg.signBitLen ∧ 0 < cfg.uniqueCodeBitLen ∧ 0 < cfg.funIdBitLen
  /-- The fields lie behind each other. -/
  disjoint : cfg.signBitStartIdx.toNat + cfg.signBitLen.toNat ≤ cfg.uniqueCodeBitStartIdx.toNat ∧
    cfg.uniqueCodeBitStartIdx.toNat + cfg.uniqueCodeBitLen.toNat ≤ cfg.funIdBitStartIdx.toNat ∧
    cfg.funIdBitStartIdx.toNat + cfg.funIdBitLen.toNat ≤ cfg.redeemCodeBitLen.toNat
  /-- They make up the code. -/
  total : cfg.funIdBitLen.toNat + cfg.uniqueCodeBitLen.toNat + cfg.signBitLen.toNat =
    cfg.redeemCodeBitLen.toNat
  /-- The mask of the sign. -/
  signMask : IntShift cfg.signBitLen ∧ cfg.signMax.toNat = 2 ^ cfg.signBitLen.toNat - 1
  /-- The mask of the unique code. -/
  uniqueCodeMask : IntShift cfg.uniqueCodeBitLen ∧
    cfg.uniqueCodeMax.toNat = 2 ^ cfg.uniqueCodeBitLen.toNat - 1
  /-- The mask of the function id. -/
  funIdMask : IntShift cfg.funIdBitLen ∧ cfg.funIdMax.toNat = 2 ^ cfg.funIdBitLen.toNat - 1
  /-- The shifts of the characters stay inside a word. -/
  shifts : ∀ i < cfg.redeemCodeLen, (charShift cfg i).toNat < 64
  /-- Codes are accepted. -/
  accepted : ∀ funId uniqueCode, funId ≤ cfg.funIdMax → uniqueCode ≤ cfg.uniqueCodeMax →
    checkCodeValid cfg (createRedeemCode cfg funId uniqueCode) = true
  /-- Codes carry their function id. -/
  readBack : ∀ funId uniqueCode, funId ≤ cfg.funIdMax → uniqueCode ≤ cfg.uniqueCodeMax →
    getFunId cfg (createRedeemCode cfg funId uniqueCode) = funId

/-- The start of the sign is zero whatever the lengths are. -/
theorem signBitStartIdx_eq_zero (cfg : RedeemCodeCfg) : cfg.signBitStartIdx = 0 := by
  apply UInt32.toNat.inj
  rw [signBitStartIdx, uniqueCodeBitStartIdx, funIdBitStartIdx, uniqueCodeBitLen,
    show (0 : UInt32).toNat = 0 from rfl]
  simp only [UInt32.toNat_sub]
  have hlen := cfg.redeemCodeBitLen.toNat_lt
  have hsign := cfg.signBitLen.toNat_lt
  have hfun := cfg.funIdBitLen.toNat_lt
  omega

/-- `CheckCfg` compares two numbers. -/
theorem checkCfg_iff (cfg : RedeemCodeCfg) :
    checkCfg cfg = true ↔
      cfg.signBitLen * 2 ≤ cfg.redeemCodeBitLen ∧ cfg.redeemCodeBitLen ≤ 64 := by
  have hstart : ¬ cfg.signBitStartIdx ≠ 0 := not_not.mpr (signBitStartIdx_eq_zero cfg)
  rw [checkCfg, if_neg hstart]
  split_ifs with hsign hlen
  · exact iff_of_false not_false fun h => absurd hsign (UInt32.not_lt.mpr h.1)
  · exact iff_of_false not_false fun h => absurd hlen (UInt32.not_lt.mpr h.2)
  · exact iff_of_true rfl ⟨UInt32.not_lt.mp hsign, UInt32.not_lt.mp hlen⟩

/-- A shift that an `int` can take, and whose mask it can hold, is by at most 30 bits. -/
theorem IntShift.le {bits : UInt32} (h : IntShift bits) : bits.toNat ≤ 30 := by
  by_contra hlt
  have hpow : 2 ^ 31 ≤ 2 ^ bits.toNat := Nat.pow_le_pow_right (by decide) (by omega)
  have hle := h.2
  omega

/-- A shift by at most 30 bits is one an `int` can take. -/
theorem intShift_of_le {bits : UInt32} (h : bits.toNat ≤ 30) : IntShift bits := by
  have hpow : 2 ^ bits.toNat ≤ 2 ^ 30 := Nat.pow_le_pow_right (by decide) h
  exact ⟨by omega, by omega⟩

/-- With more than twelve characters the code is too long or a shift leaves the word, also
where the length wraps. -/
theorem redeemCodeLen_le_of_shifts (hlen : cfg.redeemCodeBitLen ≤ 64)
    (hs : ∀ i < cfg.redeemCodeLen, (charShift cfg i).toNat < 64) :
    cfg.redeemCodeLen.toNat ≤ 12 := by
  have hfive : (5 : UInt32).toNat = 5 := rfl
  have hle : cfg.redeemCodeBitLen.toNat ≤ 64 := UInt32.le_iff_toNat_le.mp hlen
  have hlt := cfg.redeemCodeLen.toNat_lt
  rw [redeemCodeBitLen, UInt32.toNat_mul, hfive] at hle
  by_contra hlong
  have hmore : 14 ≤ cfg.redeemCodeLen.toNat := by omega
  -- the character with thirteen others behind it
  have hi : (UInt32.ofNat (cfg.redeemCodeLen.toNat - 14)).toNat = cfg.redeemCodeLen.toNat - 14 :=
    UInt32.toNat_ofNat_of_lt' (Nat.lt_of_le_of_lt (Nat.sub_le ..) hlt)
  have hshift := hs (.ofNat (cfg.redeemCodeLen.toNat - 14))
    (by rw [UInt32.lt_iff_toNat_lt, hi]; omega)
  rw [charShift, UInt32.toNat_sub, UInt32.toNat_sub, UInt32.toNat_mul, redeemCodeBitLen,
    UInt32.toNat_mul, hfive, hi] at hshift
  omega

/-- A sound layout of at most 64 bits fits. -/
theorem Sound.fits (h : cfg.Sound) (hlen : cfg.redeemCodeBitLen ≤ 64) : cfg.Fits := by
  have hle := redeemCodeLen_le_of_shifts hlen h.shifts
  have htotal := h.total
  obtain ⟨hsign, hunique, hfun⟩ := h.positive
  rw [UInt32.lt_iff_toNat_lt, show (0 : UInt32).toNat = 0 from rfl] at hsign hunique hfun
  have hmax := h.uniqueCodeMask.1.le
  rw [toNat_redeemCodeBitLen hle] at htotal
  exact ⟨hle, hsign, h.signMask.1.le, hfun, h.funIdMask.1.le, by omega, by omega⟩

/-- A layout that fits is sound. -/
theorem Fits.sound (h : cfg.Fits) : cfg.Sound where
  positive := by
    have hunique : 0 < cfg.uniqueCodeBitLen.toNat := by
      have hpos := h.unique_pos
      rw [toNat_uniqueCodeBitLen h]
      omega
    exact ⟨UInt32.lt_iff_toNat_lt.mpr h.sign_pos, UInt32.lt_iff_toNat_lt.mpr hunique,
      UInt32.lt_iff_toNat_lt.mpr h.funId_pos⟩
  disjoint := by
    have htotal := fields_length h
    rw [signBitStartIdx_eq_zero, toNat_uniqueCodeBitStartIdx h, toNat_funIdBitStartIdx h,
      toNat_redeemCodeBitLen h.len_le, show (0 : UInt32).toNat = 0 from rfl]
    omega
  total := by rw [fields_length h, toNat_redeemCodeBitLen h.len_le]
  signMask := ⟨intShift_of_le h.sign_le, toNat_signMax h⟩
  uniqueCodeMask := ⟨intShift_of_le (uniqueCodeBitLen_le h), toNat_uniqueCodeMax h⟩
  funIdMask := ⟨intShift_of_le h.funId_le, toNat_funIdMax h⟩
  shifts i hi := by
    have hlt := UInt32.lt_iff_toNat_lt.mp hi
    have hlen := h.len_le
    have hshift : (charShift cfg i).toUInt64.toNat = 5 * (cfg.redeemCodeLen.toNat - 1 - i.toNat) :=
      toNat_charShift hlen (by omega)
    rw [UInt32.toNat_toUInt64] at hshift
    omega
  accepted _ _ hf hu := checkCodeValid_createRedeemCode h hf hu
  readBack _ _ hf hu := getFunId_createRedeemCode_of_fits h hf hu

/-- Constants that pass `CheckCfg` are sound exactly when they fit. -/
theorem sound_iff_fits (cfg : RedeemCodeCfg) (h : checkCfg cfg = true) : cfg.Sound ↔ cfg.Fits :=
  ⟨fun hs => hs.fits ((checkCfg_iff cfg).mp h).2, Fits.sound⟩

/-- The constants as shipped are sound. -/
theorem sound_shipped : shipped.Sound := (sound_iff_fits shipped (by decide)).mpr fits_shipped

/-- A sign of 10 bits and a function id of 30 fill eight characters. The constants pass, and
no bit is left to the unique code. -/
theorem checkCfg_lets_empty_field_pass :
    checkCfg ⟨0x7f8a1231, 8, 10, 30⟩ = true ∧ ¬ Sound ⟨0x7f8a1231, 8, 10, 30⟩ :=
  ⟨by decide, fun h => absurd h.positive.2.1 (by decide)⟩

end RedeemCodeCfg

end ServerCom.RedeemCode
