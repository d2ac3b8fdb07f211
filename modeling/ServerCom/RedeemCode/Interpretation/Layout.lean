import ServerCom.Core.Word.BitField
import ServerCom.RedeemCode.Interpretation.Base32

/-!
# Layouts that fit

The lengths of a layout fit when each field has between one and thirty bits, so that no mask
overflows an `int`, and the fields fill at most twelve characters. The derived constants are
then what their names say, and the fields of a code are read back.
-/

namespace ServerCom.RedeemCode

namespace RedeemCodeCfg

/-- The lengths of a layout without a wrap and without an overflow. -/
structure Fits (cfg : RedeemCodeCfg) : Prop where
  /-- The code has at most sixty bits. -/
  len_le : cfg.redeemCodeLen.toNat ≤ 12
  /-- There is a sign. -/
  sign_pos : 0 < cfg.signBitLen.toNat
  /-- Its mask is an `int`. -/
  sign_le : cfg.signBitLen.toNat ≤ 30
  /-- There is a function id. -/
  funId_pos : 0 < cfg.funIdBitLen.toNat
  /-- Its mask is an `int`. -/
  funId_le : cfg.funIdBitLen.toNat ≤ 30
  /-- Something is left for the unique code. -/
  unique_pos : cfg.signBitLen.toNat + cfg.funIdBitLen.toNat < 5 * cfg.redeemCodeLen.toNat
  /-- Its mask is an `int`. -/
  unique_le : 5 * cfg.redeemCodeLen.toNat ≤ cfg.signBitLen.toNat + cfg.funIdBitLen.toNat + 30

end RedeemCodeCfg

variable {cfg : RedeemCodeCfg} {funId uniqueCode : UInt32} {code : List UInt8}

/-- With both ids within their limits the tool writes out the packed code. -/
theorem createRedeemCode_of_le (hf : funId ≤ cfg.funIdMax) (hu : uniqueCode ≤ cfg.uniqueCodeMax) :
    createRedeemCode cfg funId uniqueCode = uint64ToCode cfg (packCode cfg funId uniqueCode) := by
  rw [createRedeemCode, if_neg (UInt32.not_lt.mpr hf), if_neg (UInt32.not_lt.mpr hu)]

section layout

variable (h : cfg.Fits)

include h

/-! ## The derived constants -/

/-- The unique code has the bits that the sign and the function id leave. -/
theorem toNat_uniqueCodeBitLen : cfg.uniqueCodeBitLen.toNat =
    5 * cfg.redeemCodeLen.toNat - cfg.signBitLen.toNat - cfg.funIdBitLen.toNat := by
  have hpos := h.unique_pos
  have hlen := h.len_le
  rw [RedeemCodeCfg.uniqueCodeBitLen, UInt32.toNat_sub, UInt32.toNat_sub,
    toNat_redeemCodeBitLen hlen]
  omega

/-- The function id stands above the unique code and the sign. -/
theorem toNat_funIdBitStartIdx : cfg.funIdBitStartIdx.toNat =
    cfg.uniqueCodeBitLen.toNat + cfg.signBitLen.toNat := by
  have hpos := h.unique_pos
  have hlen := h.len_le
  rw [RedeemCodeCfg.funIdBitStartIdx, UInt32.toNat_sub, toNat_uniqueCodeBitLen h,
    toNat_redeemCodeBitLen hlen]
  omega

/-- The unique code stands above the sign. -/
theorem toNat_uniqueCodeBitStartIdx :
    cfg.uniqueCodeBitStartIdx.toNat = cfg.signBitLen.toNat := by
  have hsign := h.sign_le
  have hlen := h.len_le
  rw [RedeemCodeCfg.uniqueCodeBitStartIdx, UInt32.toNat_sub, toNat_funIdBitStartIdx h,
    toNat_uniqueCodeBitLen h]
  omega

/-- The unique code of a layout that fits has at most 30 bits. -/
theorem uniqueCodeBitLen_le : cfg.uniqueCodeBitLen.toNat ≤ 30 := by
  have hle := h.unique_le
  rw [toNat_uniqueCodeBitLen h]
  omega

theorem toNat_signMax : cfg.signMax.toNat = 2 ^ cfg.signBitLen.toNat - 1 :=
  toNat_mask (Nat.lt_of_le_of_lt h.sign_le (by decide))

theorem toNat_funIdMax : cfg.funIdMax.toNat = 2 ^ cfg.funIdBitLen.toNat - 1 :=
  toNat_mask (Nat.lt_of_le_of_lt h.funId_le (by decide))

theorem toNat_uniqueCodeMax : cfg.uniqueCodeMax.toNat = 2 ^ cfg.uniqueCodeBitLen.toNat - 1 :=
  toNat_mask (Nat.lt_of_le_of_lt (uniqueCodeBitLen_le h) (by decide))

/-- The three fields fill the code. -/
theorem fields_length : cfg.funIdBitLen.toNat + cfg.uniqueCodeBitLen.toNat +
    cfg.signBitLen.toNat = 5 * cfg.redeemCodeLen.toNat := by
  have hpos := h.unique_pos
  rw [toNat_uniqueCodeBitLen h]
  omega

/-! ## Packing -/

/-- A masked unique code keeps to its field. -/
theorem toNat_maskUniqueCode_lt (uniqueCode : UInt32) :
    (maskUniqueCode cfg uniqueCode).toNat < 2 ^ cfg.uniqueCodeBitLen.toNat := by
  rw [maskUniqueCode, toNat_and_mask (toNat_uniqueCodeMax h)]
  exact Nat.mod_lt _ (Nat.two_pow_pos _)

/-- A sign keeps to its field. -/
theorem toNat_getSign_lt (src : UInt32) :
    (getSign cfg src).toNat < 2 ^ cfg.signBitLen.toNat := by
  rw [getSign, toNat_and_mask (toNat_signMax h)]
  exact Nat.mod_lt _ (Nat.two_pow_pos _)

/-- The two upper fields stand above the sign. -/
theorem toNat_signSrcSeg {W : UInt32} {F : UInt64} (hw : W.toNat < 2 ^ cfg.uniqueCodeBitLen.toNat)
    (hf : F.toNat < 2 ^ cfg.funIdBitLen.toNat) :
    (F <<< cfg.funIdBitStartIdx.toUInt64 |||
      W.toUInt64 <<< cfg.uniqueCodeBitStartIdx.toUInt64).toNat =
        (F.toNat * 2 ^ cfg.uniqueCodeBitLen.toNat + W.toNat) * 2 ^ cfg.signBitLen.toNat := by
  have hstart := toNat_funIdBitStartIdx h
  have hlow := toNat_uniqueCodeBitStartIdx h
  have htotal := fields_length h
  have hlen := h.len_le
  rw [← UInt32.toNat_toUInt64] at hstart hlow
  generalize cfg.signBitLen.toNat = n at hstart hlow htotal ⊢
  generalize cfg.uniqueCodeBitLen.toNat = m at hw hstart htotal ⊢
  generalize cfg.funIdBitLen.toNat = k at hf htotal
  have hword : 2 ^ (k + m + n) ≤ 2 ^ 60 := Nat.pow_le_pow_right (by decide) (by omega)
  have hfseg : (F <<< cfg.funIdBitStartIdx.toUInt64).toNat = F.toNat * 2 ^ (m + n) := by
    refine toNat_shiftLeft hstart (by omega) ?_
    calc F.toNat * 2 ^ (m + n) < 2 ^ k * 2 ^ (m + n) :=
          Nat.mul_lt_mul_of_pos_right hf (Nat.two_pow_pos _)
      _ = 2 ^ (k + m + n) := by rw [← Nat.pow_add, Nat.add_assoc]
      _ < 2 ^ 64 := by omega
  have hwlt : W.toNat * 2 ^ n < 2 ^ (m + n) := by
    rw [Nat.pow_add]
    exact Nat.mul_lt_mul_of_pos_right hw (Nat.two_pow_pos _)
  have hwseg : (W.toUInt64 <<< cfg.uniqueCodeBitStartIdx.toUInt64).toNat = W.toNat * 2 ^ n := by
    have hle : 2 ^ (m + n) ≤ 2 ^ (k + m + n) := Nat.pow_le_pow_right (by decide) (by omega)
    rw [toNat_shiftLeft hlow (by omega) (by rw [UInt32.toNat_toUInt64]; omega),
      UInt32.toNat_toUInt64]
  rw [toNat_or hfseg (by rw [hwseg]; exact hwlt), hwseg]
  ring

/-- Above the sign stand the masked function id and the masked unique code, and the sign is
that of what stands above it. -/
theorem packCode_parts (funId uniqueCode : UInt32) :
    (packCode cfg funId uniqueCode).toNat / 2 ^ cfg.signBitLen.toNat =
        ((maskUniqueCode cfg uniqueCode).toNat ^^^ funId.toNat) % 2 ^ cfg.funIdBitLen.toNat *
          2 ^ cfg.uniqueCodeBitLen.toNat + (maskUniqueCode cfg uniqueCode).toNat ∧
      (packCode cfg funId uniqueCode).toNat % 2 ^ cfg.signBitLen.toNat =
        (getSign cfg
          (packCode cfg funId uniqueCode >>> cfg.signBitLen.toUInt64).toUInt32).toNat := by
  have hw := toNat_maskUniqueCode_lt h uniqueCode
  have hn : cfg.signBitLen.toUInt64.toNat = cfg.signBitLen.toNat := UInt32.toNat_toUInt64 _
  have hn64 : cfg.signBitLen.toNat < 64 := Nat.lt_of_le_of_lt h.sign_le (by decide)
  rw [packCode]
  generalize maskUniqueCode cfg uniqueCode = W at hw ⊢
  have hf : ((W ^^^ funId) &&& cfg.funIdMax).toUInt64.toNat =
      (W.toNat ^^^ funId.toNat) % 2 ^ cfg.funIdBitLen.toNat := by
    rw [UInt32.toNat_toUInt64, toNat_and_mask (toNat_funIdMax h), UInt32.toNat_xor]
  have hseg := toNat_signSrcSeg h hw (hf ▸ Nat.mod_lt _ (Nat.two_pow_pos _))
  rw [hf] at hseg
  generalize ((W ^^^ funId) &&& cfg.funIdMax).toUInt64 <<< cfg.funIdBitStartIdx.toUInt64 |||
    W.toUInt64 <<< cfg.uniqueCodeBitStartIdx.toUInt64 = S at hseg ⊢
  generalize (W.toNat ^^^ funId.toNat) % 2 ^ cfg.funIdBitLen.toNat *
    2 ^ cfg.uniqueCodeBitLen.toNat + W.toNat = c at hseg ⊢
  have hsign := toNat_getSign_lt h (S >>> cfg.signBitLen.toUInt64).toUInt32
  rw [← UInt32.toNat_toUInt64] at hsign
  have hcode := toNat_or hseg hsign
  -- the sign does not reach what it is the sign of
  have hsame : (S ||| (getSign cfg (S >>> cfg.signBitLen.toUInt64).toUInt32).toUInt64) >>>
      cfg.signBitLen.toUInt64 = S >>> cfg.signBitLen.toUInt64 := by
    apply UInt64.toNat.inj
    rw [toNat_shiftRight hn hn64, toNat_shiftRight hn hn64, hcode, hseg, high_part hsign,
      Nat.mul_div_cancel _ (Nat.two_pow_pos _)]
  refine ⟨?_, ?_⟩
  · rw [hcode, high_part hsign]
  · rw [hsame, hcode, low_part hsign, UInt32.toNat_toUInt64]

/-- A packed code can be written with the configured length. -/
theorem packCode_lt (funId uniqueCode : UInt32) :
    (packCode cfg funId uniqueCode).toNat < 32 ^ cfg.redeemCodeLen.toNat := by
  have hhigh : (packCode cfg funId uniqueCode).toNat / 2 ^ cfg.signBitLen.toNat <
      2 ^ (cfg.funIdBitLen.toNat + cfg.uniqueCodeBitLen.toNat) := by
    rw [(packCode_parts h funId uniqueCode).1]
    exact parts_lt (Nat.mod_lt _ (Nat.two_pow_pos _)) (toNat_maskUniqueCode_lt h uniqueCode)
  rw [Nat.div_lt_iff_lt_mul (Nat.two_pow_pos _), ← Nat.pow_add, fields_length h,
    Nat.pow_mul] at hhigh
  exact hhigh

/-! ## Reading -/

/-- A string of the right length is accepted exactly when its number carries its sign. -/
theorem checkCodeValid_iff (hlen : code.length = cfg.redeemCodeLen.toNat) :
    checkCodeValid cfg code = true ↔
      (codeToUint64 cfg code).toNat % 2 ^ cfg.signBitLen.toNat =
        (getSign cfg (codeToUint64 cfg code >>> cfg.signBitLen.toUInt64).toUInt32).toNat := by
  rw [checkCodeValid, if_neg (not_not.mpr hlen), ← toNat_lowField (toNat_signMax h), beq_iff_eq]
  exact UInt32.toNat_inj.symm

/-- The function id a number carries. -/
theorem toNat_getFunId_of_fits (code : List UInt8) :
    (getFunId cfg code).toNat =
      ((codeToUint64 cfg code).toNat / 2 ^ cfg.signBitLen.toNat % 2 ^ cfg.uniqueCodeBitLen.toNat ^^^
        (codeToUint64 cfg code).toNat / 2 ^ cfg.signBitLen.toNat /
          2 ^ cfg.uniqueCodeBitLen.toNat % 2 ^ cfg.funIdBitLen.toNat) %
        2 ^ cfg.funIdBitLen.toNat := by
  have hstart := toNat_funIdBitStartIdx h
  have hlow := toNat_uniqueCodeBitStartIdx h
  have htotal := fields_length h
  have hlen := h.len_le
  have hsl := h.sign_le
  have hul := uniqueCodeBitLen_le h
  have hfl := h.funId_le
  rw [← UInt32.toNat_toUInt64] at hstart hlow
  rw [getFunId, toNat_and_mask (toNat_funIdMax h), UInt32.toNat_xor,
    toNat_field (toNat_uniqueCodeMax h) (by omega), toNat_field (toNat_funIdMax h) (by omega),
    toNat_shiftRight hlow (by omega), toNat_shiftRight hstart (by omega), Nat.div_div_eq_div_mul,
    ← Nat.pow_add, Nat.add_comm]

/-! ## Codes -/

/-- Codes for arguments in range are accepted. -/
theorem checkCodeValid_createRedeemCode (hf : funId ≤ cfg.funIdMax)
    (hu : uniqueCode ≤ cfg.uniqueCodeMax) :
    checkCodeValid cfg (createRedeemCode cfg funId uniqueCode) = true := by
  rw [createRedeemCode_of_le hf hu, checkCodeValid_iff h (length_uint64ToCode h.len_le _),
    codeToUint64_uint64ToCode h.len_le (packCode_lt h funId uniqueCode)]
  exact (packCode_parts h funId uniqueCode).2

/-- Codes for arguments in range carry their function id. -/
theorem getFunId_createRedeemCode_of_fits (hf : funId ≤ cfg.funIdMax)
    (hu : uniqueCode ≤ cfg.uniqueCodeMax) :
    getFunId cfg (createRedeemCode cfg funId uniqueCode) = funId := by
  have hlt : funId.toNat < 2 ^ cfg.funIdBitLen.toNat := by
    have hle := UInt32.le_iff_toNat_le.mp hf
    have hpos := Nat.two_pow_pos cfg.funIdBitLen.toNat
    rw [toNat_funIdMax h] at hle
    omega
  have hw := toNat_maskUniqueCode_lt h uniqueCode
  apply UInt32.toNat.inj
  rw [toNat_getFunId_of_fits h, createRedeemCode_of_le hf hu,
    codeToUint64_uint64ToCode h.len_le (packCode_lt h funId uniqueCode),
    (packCode_parts h funId uniqueCode).1, low_part hw, high_part hw, Nat.mod_mod,
    Nat.xor_mod_two_pow, Nat.mod_mod, ← Nat.xor_mod_two_pow, Nat.xor_xor_cancel_left,
    Nat.mod_eq_of_lt hlt]

end layout

end ServerCom.RedeemCode
