import Mathlib.Data.List.GetD
import ServerCom.Core.Word.Digits
import ServerCom.RedeemCode.Native.Code

/-!
# The base 32 text of a number

While the bit length fits a 64-bit number, the two loops write and read exactly the
base 32 digits, most significant first. Legal strings and numbers in range are in
bijection, and a string with an illegal character reads as zero.
-/

namespace ServerCom.RedeemCode

/-- The alphabet contains the character. -/
def Legal (c : UInt8) : Prop := convertBase32CharToNum c < 32

instance (c : UInt8) : Decidable (Legal c) := inferInstanceAs (Decidable (_ < _))

/-- The character of a digit. -/
def base32Char (d : Nat) : UInt8 := base32Alphabet.getD d 0

/-- The digit of a character. -/
def base32Digit (c : UInt8) : Nat := (convertBase32CharToNum c).toNat

/-- The alphabet has no `I`, `O`, `0` and `1`. -/
theorem base32Alphabet_eq : base32Alphabet = [65, 66, 67, 68, 69, 70, 71, 72, 74, 75, 76, 77, 78,
    80, 81, 82, 83, 84, 85, 86, 87, 88, 89, 90, 50, 51, 52, 53, 54, 55, 56, 57] := rfl

/-- A digit's character reads as the digit. -/
theorem base32Digit_base32Char {d : Nat} (h : d < 32) : base32Digit (base32Char d) = d := by
  have hall : ∀ d : Fin 32, base32Digit (base32Char d) = d := by
    unfold base32Char
    rw [base32Alphabet_eq]
    decide +kernel
  exact hall ⟨d, h⟩

/-- A legal character is the character of its digit. -/
theorem base32Char_base32Digit {c : UInt8} (h : Legal c) : base32Char (base32Digit c) = c := by
  have hall : ∀ i : Fin 256, Legal (.ofFin i) → base32Char (base32Digit (.ofFin i)) = .ofFin i := by
    unfold base32Char
    rw [base32Alphabet_eq]
    decide +kernel
  exact hall c.toFin h

/-- A character is legal exactly when its digit is below 32. -/
theorem legal_iff {c : UInt8} : Legal c ↔ base32Digit c < 32 := UInt64.lt_iff_toNat_lt

variable {cfg : RedeemCodeCfg} {code : List UInt8} {n : Nat} {i : UInt32} {src v : UInt64}

/-- A code has five bits for each of its characters. -/
theorem toNat_redeemCodeBitLen (hcfg : cfg.redeemCodeLen.toNat ≤ 12) :
    cfg.redeemCodeBitLen.toNat = 5 * cfg.redeemCodeLen.toNat := by
  rw [RedeemCodeCfg.redeemCodeBitLen, UInt32.toNat_mul, show (5 : UInt32).toNat = 5 from rfl]
  omega

/-- The shift of the character with `n` characters behind it. -/
theorem toNat_charShift (hcfg : cfg.redeemCodeLen.toNat ≤ 12)
    (hi : i.toNat + (n + 1) = cfg.redeemCodeLen.toNat) :
    (charShift cfg i).toUInt64.toNat = 5 * n := by
  rw [UInt32.toNat_toUInt64, charShift, UInt32.toNat_sub, UInt32.toNat_sub, UInt32.toNat_mul,
    toNat_redeemCodeBitLen hcfg, show (5 : UInt32).toNat = 5 from rfl]
  omega

/-- Below twelve characters the loop counter does not wrap. -/
theorem toNat_succ (h : i.toNat + (n + 1) ≤ 12) : (i + 1).toNat = i.toNat + 1 := by
  rw [UInt32.toNat_add, show (1 : UInt32).toNat = 1 from rfl]
  omega

/-- `Uint64ToCode` appends the digits from the most significant one on. -/
theorem uint64Loop_eq (hcfg : cfg.redeemCodeLen.toNat ≤ 12)
    (hi : i.toNat + n = cfg.redeemCodeLen.toNat) (ret : List UInt8) :
    uint64Loop cfg v n i ret = ret ++ (digitsLE 32 n v.toNat).reverse.map base32Char := by
  induction n generalizing i ret with
  | zero => simp [uint64Loop]
  | succ n ih =>
    have hidx : ((v >>> (charShift cfg i).toUInt64) &&& 0x1F).toUInt32.toNat =
        v.toNat / 32 ^ n % 32 := by
      have hmod : 5 * n % 64 = 5 * n := Nat.mod_eq_of_lt (by omega)
      have hlt : v.toNat / 2 ^ (5 * n) % 2 ^ 5 < 2 ^ 32 := by omega
      rw [UInt64.toNat_toUInt32, UInt64.toNat_and, UInt64.toNat_shiftRight,
        toNat_charShift hcfg hi, hmod, Nat.shiftRight_eq_div_pow,
        show (0x1F : UInt64).toNat = 2 ^ 5 - 1 from rfl, Nat.and_two_pow_sub_one_eq_mod,
        Nat.mod_eq_of_lt hlt, pow_mul]
      rfl
    have hi' : (i + 1).toNat + n = cfg.redeemCodeLen.toNat := by
      rw [toNat_succ (n := n) (by omega)]
      omega
    rw [uint64Loop, ih hi', hidx, digitsLE_succ_last,
      List.reverse_append, List.append_assoc]
    rfl

/-- The code is written with the lowest five bits last. -/
theorem uint64ToCode_eq (hcfg : cfg.redeemCodeLen.toNat ≤ 12) (v : UInt64) :
    uint64ToCode cfg v =
      (digitsLE 32 cfg.redeemCodeLen.toNat v.toNat).reverse.map base32Char := by
  rw [uint64ToCode, uint64Loop_eq hcfg (Nat.zero_add _), List.nil_append]

/-- The number of a string of base 32 digits, most significant first. -/
def base32Value (code : List UInt8) : Nat := Nat.ofDigits 32 (code.reverse.map base32Digit)

@[simp] theorem base32Value_nil : base32Value [] = 0 := rfl

/-- The first character is the highest digit. -/
theorem base32Value_cons (c : UInt8) (code : List UInt8) :
    base32Value (c :: code) = base32Digit c * 32 ^ code.length + base32Value code := by
  rw [base32Value, List.reverse_cons, List.map_append, Nat.ofDigits_append, List.map_singleton,
    Nat.ofDigits_singleton, List.length_map, List.length_reverse, base32Value]
  ring

/-- A code of legal characters stands for a number its length can hold. -/
theorem base32Value_lt (h : ∀ c ∈ code, Legal c) : base32Value code < 32 ^ code.length := by
  have hl := Nat.ofDigits_lt_base_pow_length (b := 32) (l := code.reverse.map base32Digit)
    (by decide) (by
      intro d hd
      obtain ⟨c, hc, rfl⟩ := List.mem_map.mp hd
      exact legal_iff.mp (h c (List.mem_reverse.mp hc)))
  rwa [List.length_map, List.length_reverse] at hl

/-- The loop reads the next character. -/
theorem drop_eq_cons (hcfg : cfg.redeemCodeLen.toNat ≤ 12)
    (hlen : code.length = cfg.redeemCodeLen.toNat)
    (hi : i.toNat + (n + 1) = cfg.redeemCodeLen.toNat) :
    code.drop i.toNat = code.getD i.toNat 0 :: code.drop (i + 1).toNat := by
  have hlt : i.toNat < code.length := by omega
  rw [toNat_succ (n := n) (by omega), List.getD_eq_getElem _ _ hlt, List.drop_eq_getElem_cons hlt]

/-- On legal characters `CodeToUint64` adds the number of the string. -/
theorem codeLoop_legal (hcfg : cfg.redeemCodeLen.toNat ≤ 12)
    (hlen : code.length = cfg.redeemCodeLen.toNat)
    (hi : i.toNat + n = cfg.redeemCodeLen.toNat) (h : ∀ c ∈ code.drop i.toNat, Legal c)
    (hsrc : src.toNat + 32 ^ n ≤ 2 ^ 60) :
    (codeLoop cfg code n i src).toNat = src.toNat + base32Value (code.drop i.toNat) := by
  induction n generalizing i src with
  | zero =>
    rw [codeLoop, List.drop_of_length_le (by omega), base32Value_nil, Nat.add_zero]
  | succ n ih =>
    have hdrop := drop_eq_cons hcfg hlen hi
    have hshift := toNat_charShift hcfg hi
    have hi' : (i + 1).toNat + n = cfg.redeemCodeLen.toNat := by
      rw [toNat_succ (n := n) (by omega)]
      omega
    have hrest : (code.drop (i + 1).toNat).length = n := by rw [List.length_drop]; omega
    rw [hdrop] at h ⊢
    rw [codeLoop]
    generalize code.getD i.toNat 0 = c at h ⊢
    have hc : Legal c := h c (List.mem_cons_self ..)
    have hd : base32Digit c < 32 := legal_iff.mp hc
    have hle : base32Digit c * 32 ^ n ≤ 31 * 32 ^ n := Nat.mul_le_mul_right _ (by omega)
    have hterm : (convertBase32CharToNum c <<< (charShift cfg i).toUInt64).toNat =
        base32Digit c * 32 ^ n := by
      rw [UInt64.toNat_shiftLeft, hshift, Nat.mod_eq_of_lt (show 5 * n < 64 by omega),
        Nat.shiftLeft_eq, pow_mul]
      exact Nat.mod_eq_of_lt (by rw [pow_succ] at hsrc; change base32Digit c * 32 ^ n < _; omega)
    have hsum : (src + (convertBase32CharToNum c <<< (charShift cfg i).toUInt64)).toNat =
        src.toNat + base32Digit c * 32 ^ n := by
      rw [UInt64.toNat_add, hterm]
      exact Nat.mod_eq_of_lt (by rw [pow_succ] at hsrc; omega)
    rw [if_neg (UInt64.not_le.mpr hc), ih hi' (fun c hc => h c (List.mem_cons_of_mem _ hc))
      (by rw [hsum]; rw [pow_succ] at hsrc; omega), hsum, base32Value_cons, hrest, Nat.add_assoc]

/-- An illegal character makes the whole number zero. -/
theorem codeLoop_illegal (hcfg : cfg.redeemCodeLen.toNat ≤ 12)
    (hlen : code.length = cfg.redeemCodeLen.toNat)
    (hi : i.toNat + n = cfg.redeemCodeLen.toNat) (h : ∃ c ∈ code.drop i.toNat, ¬ Legal c) :
    codeLoop cfg code n i src = 0 := by
  induction n generalizing i src with
  | zero =>
    obtain ⟨c, hc, -⟩ := h
    rw [List.drop_of_length_le (by omega)] at hc
    exact absurd hc List.not_mem_nil
  | succ n ih =>
    have hi' : (i + 1).toNat + n = cfg.redeemCodeLen.toNat := by
      rw [toNat_succ (n := n) (by omega)]
      omega
    rw [drop_eq_cons hcfg hlen hi] at h
    rw [codeLoop]
    generalize code.getD i.toNat 0 = c at h ⊢
    split_ifs with hc
    · rfl
    · obtain ⟨d, hd, hill⟩ := h
      rcases List.mem_cons.mp hd with rfl | hd
      · exact absurd (UInt64.not_le.mp hc) hill
      · exact ih hi' ⟨d, hd, hill⟩

section codec

variable (hcfg : cfg.redeemCodeLen.toNat ≤ 12)

include hcfg

/-- A code of legal characters is read as the number it stands for. -/
theorem toNat_codeToUint64 (hlen : code.length = cfg.redeemCodeLen.toNat)
    (h : ∀ c ∈ code, Legal c) : (codeToUint64 cfg code).toNat = base32Value code := by
  have hpow : 32 ^ cfg.redeemCodeLen.toNat ≤ 32 ^ 12 := Nat.pow_le_pow_right (by decide) hcfg
  have hz : (0 : UInt64).toNat = 0 := rfl
  rw [codeToUint64, codeLoop_legal (i := 0) hcfg hlen (Nat.zero_add _) h (by rw [hz]; omega), hz,
    Nat.zero_add]
  rfl

/-- A code with an illegal character is read as `0`. -/
theorem codeToUint64_illegal (hlen : code.length = cfg.redeemCodeLen.toNat)
    (h : ∃ c ∈ code, ¬ Legal c) : codeToUint64 cfg code = 0 :=
  codeLoop_illegal (i := 0) hcfg hlen (Nat.zero_add _) h

/-- Every code written has the configured length. -/
theorem length_uint64ToCode (v : UInt64) :
    (uint64ToCode cfg v).length = cfg.redeemCodeLen.toNat := by
  rw [uint64ToCode_eq hcfg, List.length_map, List.length_reverse, length_digitsLE]

/-- Every character written is legal. -/
theorem legal_uint64ToCode {v : UInt64} {c : UInt8} (hc : c ∈ uint64ToCode cfg v) : Legal c := by
  rw [uint64ToCode_eq hcfg] at hc
  obtain ⟨d, hd, rfl⟩ := List.mem_map.mp hc
  have hlt : d < 32 := digitsLE_lt (by decide) (List.mem_reverse.mp hd)
  exact legal_iff.mpr ((base32Digit_base32Char hlt).trans_lt hlt)

/-- A number in range is read back from its text. -/
theorem codeToUint64_uint64ToCode {v : UInt64} (hv : v.toNat < 32 ^ cfg.redeemCodeLen.toNat) :
    codeToUint64 cfg (uint64ToCode cfg v) = v := by
  have hdigits : ((digitsLE 32 cfg.redeemCodeLen.toNat v.toNat).map base32Char).map base32Digit =
      digitsLE 32 cfg.redeemCodeLen.toNat v.toNat := by
    rw [List.map_map]
    refine (List.map_congr_left fun d hd => ?_).trans (List.map_id _)
    exact base32Digit_base32Char (digitsLE_lt (by decide) hd)
  apply UInt64.toNat.inj
  rw [toNat_codeToUint64 hcfg (length_uint64ToCode hcfg v) fun c hc => legal_uint64ToCode hcfg hc,
    uint64ToCode_eq hcfg, base32Value, ← List.map_reverse, List.reverse_reverse, hdigits,
    ofDigits_digitsLE, Nat.mod_eq_of_lt hv]

/-- A legal string is the text of its number. -/
theorem uint64ToCode_codeToUint64 (hlen : code.length = cfg.redeemCodeLen.toNat)
    (h : ∀ c ∈ code, Legal c) : uint64ToCode cfg (codeToUint64 cfg code) = code := by
  have hdigits := digitsLE_ofDigits (b := 32) (l := code.reverse.map base32Digit) (by
    intro d hd
    obtain ⟨c, hc, rfl⟩ := List.mem_map.mp hd
    exact legal_iff.mp (h c (List.mem_reverse.mp hc)))
  have hchars : (code.map base32Digit).map base32Char = code := by
    rw [List.map_map]
    exact (List.map_congr_left fun c hc => base32Char_base32Digit (h c hc)).trans (List.map_id _)
  rw [List.length_map, List.length_reverse, hlen] at hdigits
  rw [uint64ToCode_eq hcfg, toNat_codeToUint64 hcfg hlen h, base32Value, hdigits,
    ← List.map_reverse, List.reverse_reverse, hchars]

end codec

end ServerCom.RedeemCode
