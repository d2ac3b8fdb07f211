import ServerCom.RedeemCode.Interpretation.Fields

/-!
# The image of the generator

Codes are injective in their arguments and carry their function id, and the checker
accepts exactly the strings the generator can produce.
-/

namespace ServerCom.RedeemCode

open RedeemCodeCfg

variable {funId uniqueCode : UInt32} {code : List UInt8}

/-- The shipped layout has codes of at most twelve characters. -/
theorem shipped_len : shipped.redeemCodeLen.toNat ≤ 12 := by decide

/-- The input side reads exactly the characters that the output side writes. -/
theorem mem_base32Alphabet_iff {c : UInt8} : c ∈ base32Alphabet ↔ Legal c := by
  have hlen : base32Alphabet.length = 32 := rfl
  constructor
  · intro h
    obtain ⟨i, hi, rfl⟩ := List.mem_iff_getElem.mp h
    have hdigit := base32Digit_base32Char (hlen ▸ hi)
    rw [base32Char, List.getD_eq_getElem _ _ hi] at hdigit
    rw [legal_iff, hdigit, ← hlen]
    exact hi
  · intro h
    have hi : base32Digit c < base32Alphabet.length := hlen ▸ legal_iff.mp h
    rw [← base32Char_base32Digit h, base32Char, List.getD_eq_getElem _ _ hi]
    exact List.getElem_mem hi

/-- Texts of eight characters of the alphabet and numbers of forty bits are in bijection, and
one character outside the alphabet makes the number zero. -/
theorem base32_bijection :
    (∀ v : UInt64, v.toNat < 2 ^ 40 → codeToUint64 shipped (uint64ToCode shipped v) = v) ∧
    (∀ code : List UInt8, code.length = 8 → (∀ c ∈ code, c ∈ base32Alphabet) →
      uint64ToCode shipped (codeToUint64 shipped code) = code) ∧
    ∀ code : List UInt8, code.length = 8 → (∃ c ∈ code, c ∉ base32Alphabet) →
      codeToUint64 shipped code = 0 := by
  simp only [mem_base32Alphabet_iff]
  refine ⟨fun v hv => ?_, fun code hlen hlegal => ?_, fun code hlen hill => ?_⟩
  · exact codeToUint64_uint64ToCode shipped_len hv
  · exact uint64ToCode_codeToUint64 shipped_len hlen hlegal
  · exact codeToUint64_illegal shipped_len hlen hill

/-- The number of a text with a zero in it. -/
theorem codeToUint64_with_zero :
    codeToUint64 shipped (uint64ToCode shipped 1) = 1 ∧
      uint64ToCode shipped (codeToUint64 shipped (List.replicate 8 57)) = List.replicate 8 57 ∧
      codeToUint64 shipped [57, 57, 57, 57, 57, 57, 57, 48] = 0 :=
  ⟨base32_bijection.1 1 (by decide),
    base32_bijection.2.1 _ rfl fun _ hc => List.eq_of_mem_replicate hc ▸ by decide,
    base32_bijection.2.2 _ rfl ⟨48, by decide, by decide⟩⟩

/-- Arguments the generator accepts. -/
def InRange (funId uniqueCode : UInt32) : Prop :=
  funId ≤ shipped.funIdMax ∧ uniqueCode ≤ shipped.uniqueCodeMax

instance (funId uniqueCode : UInt32) : Decidable (InRange funId uniqueCode) :=
  inferInstanceAs (Decidable (_ ∧ _))

/-- A unique code in range has at most 22 bits. -/
theorem InRange.uniqueCode_lt (h : InRange funId uniqueCode) : uniqueCode.toNat < 2 ^ 22 := by
  have hle := UInt32.le_iff_toNat_le.mp h.2
  rw [show shipped.uniqueCodeMax.toNat = 2 ^ 22 - 1 from rfl] at hle
  omega

/-- In range the tool writes out the packed code. -/
theorem createRedeemCode_inRange (h : InRange funId uniqueCode) :
    createRedeemCode shipped funId uniqueCode =
      uint64ToCode shipped (packCode shipped funId uniqueCode) :=
  createRedeemCode_of_le h.1 h.2

/-- Out of range the tool gives the empty string. -/
theorem createRedeemCode_outOfRange (h : ¬ InRange funId uniqueCode) :
    createRedeemCode shipped funId uniqueCode = [] := by
  rw [createRedeemCode]
  split_ifs with hf hu
  · rfl
  · rfl
  · exact absurd ⟨UInt32.not_lt.mp hf, UInt32.not_lt.mp hu⟩ h

/-- The number of a code is read back from its text. -/
theorem codeToUint64_createRedeemCode (h : InRange funId uniqueCode) :
    (codeToUint64 shipped (createRedeemCode shipped funId uniqueCode)).toNat =
      fields ((mask uniqueCode.toNat ^^^ funId.toNat) % 2 ^ 8) (mask uniqueCode.toNat)
        (signOf (mask uniqueCode.toNat)) := by
  have hlt := fields_lt (Nat.mod_lt (mask uniqueCode.toNat ^^^ funId.toNat) (by decide))
    (mask_lt uniqueCode.toNat) (signOf_lt (mask uniqueCode.toNat))
  rw [← toNat_packCode] at hlt ⊢
  rw [createRedeemCode_inRange h, codeToUint64_uint64ToCode shipped_len hlt]

/-- A code is eight characters long exactly when its arguments are in range. -/
theorem length_createRedeemCode (h : InRange funId uniqueCode) :
    (createRedeemCode shipped funId uniqueCode).length = 8 := by
  rw [createRedeemCode_inRange h, length_uint64ToCode shipped_len]
  rfl

/-- The function id is read back. -/
theorem getFunId_createRedeemCode (h : InRange funId uniqueCode) :
    getFunId shipped (createRedeemCode shipped funId uniqueCode) = funId :=
  getFunId_createRedeemCode_of_fits fits_shipped h.1 h.2

/-- Codes of different arguments differ. -/
theorem createRedeemCode_inj {funId' uniqueCode' : UInt32} (h : InRange funId uniqueCode)
    (h' : InRange funId' uniqueCode')
    (he : createRedeemCode shipped funId uniqueCode =
      createRedeemCode shipped funId' uniqueCode') :
    funId = funId' ∧ uniqueCode = uniqueCode' := by
  have hfun : funId = funId' := by
    rw [← getFunId_createRedeemCode h, he, getFunId_createRedeemCode h']
  have hnum := congrArg (fun s => (codeToUint64 shipped s).toNat) he
  simp only [codeToUint64_createRedeemCode h, codeToUint64_createRedeemCode h', fields] at hnum
  have hw := mask_lt uniqueCode.toNat
  have hw' := mask_lt uniqueCode'.toNat
  have hs := signOf_lt (mask uniqueCode.toNat)
  have hs' := signOf_lt (mask uniqueCode'.toNat)
  have hmask : mask uniqueCode.toNat = mask uniqueCode'.toNat := by omega
  refine ⟨hfun, UInt32.toNat.inj ?_⟩
  rw [← unmask_mask h.uniqueCode_lt, hmask, unmask_mask h'.uniqueCode_lt]

/-! ## The checker -/

/-- An accepted string consists of legal characters, for the sign of zero is not zero. -/
theorem legal_of_checkCodeValid (hlen : code.length = 8)
    (h : checkCodeValid shipped code = true) : ∀ c ∈ code, Legal c := by
  by_contra hill
  have hzero := codeToUint64_illegal shipped_len hlen (by simpa using hill)
  rw [checkCodeValid_iff_sign hlen, hzero] at h
  exact absurd h (by decide)

/-- Every number that carries its sign is the number of a code. -/
theorem exists_packCode {v : UInt64} (hv : v.toNat < 32 ^ 8)
    (h : v.toNat % 2 ^ 10 = signOf (v.toNat / 2 ^ 10)) :
    ∃ funId uniqueCode, InRange funId uniqueCode ∧ packCode shipped funId uniqueCode = v := by
  obtain ⟨w, hw⟩ : ∃ w, w = v.toNat / 2 ^ 10 % 2 ^ 22 := ⟨_, rfl⟩
  obtain ⟨f, hf⟩ : ∃ f, f = (w ^^^ v.toNat / 2 ^ 32) % 2 ^ 8 := ⟨_, rfl⟩
  have hwl : w < 2 ^ 22 := hw.trans_lt (Nat.mod_lt _ (by decide))
  have hfl : f < 2 ^ 8 := hf.trans_lt (Nat.mod_lt _ (by decide))
  have hul := unmask_lt w
  have hfn : (UInt32.ofNat f).toNat = f := UInt32.toNat_ofNat_of_lt' (hfl.trans (by decide))
  have hun : (UInt32.ofNat (unmask w)).toNat = unmask w :=
    UInt32.toNat_ofNat_of_lt' (hul.trans (by decide))
  refine ⟨.ofNat f, .ofNat (unmask w), ⟨?_, ?_⟩, ?_⟩
  · rw [UInt32.le_iff_toNat_le, hfn, show shipped.funIdMax.toNat = 255 from rfl]
    omega
  · rw [UInt32.le_iff_toNat_le, hun, show shipped.uniqueCodeMax.toNat = 2 ^ 22 - 1 from rfl]
    omega
  · have hback : (w ^^^ f) % 2 ^ 8 = v.toNat / 2 ^ 32 := by
      rw [hf, Nat.xor_mod_two_pow, Nat.mod_mod, ← Nat.xor_mod_two_pow, Nat.xor_xor_cancel_left]
      exact Nat.mod_eq_of_lt (by omega)
    have hsign : signOf (v.toNat / 2 ^ 10) = signOf w := signOf_congr (by omega)
    apply UInt64.toNat.inj
    rw [toNat_packCode, hfn, hun, mask_unmask hwl, hback, ← hsign, ← h, fields]
    omega

/-- The checker accepts exactly the strings the generator can produce. -/
theorem checkCodeValid_iff_exists (code : List UInt8) :
    checkCodeValid shipped code = true ↔
      ∃ funId uniqueCode, funId ≤ shipped.funIdMax ∧ uniqueCode ≤ shipped.uniqueCodeMax ∧
        createRedeemCode shipped funId uniqueCode = code := by
  constructor
  · intro h
    have hlen : code.length = 8 := by
      by_contra hne
      have hne' : code.length ≠ shipped.redeemCodeLen.toNat := hne
      rw [checkCodeValid, if_pos hne'] at h
      exact absurd h Bool.false_ne_true
    have hlegal := legal_of_checkCodeValid hlen h
    have hv : (codeToUint64 shipped code).toNat < 32 ^ 8 := by
      rw [toNat_codeToUint64 shipped_len hlen hlegal, ← hlen]
      exact base32Value_lt hlegal
    obtain ⟨funId, uniqueCode, hr, hpack⟩ :=
      exists_packCode hv ((checkCodeValid_iff_sign hlen).mp h)
    refine ⟨funId, uniqueCode, hr.1, hr.2, ?_⟩
    rw [createRedeemCode_inRange hr, hpack, uint64ToCode_codeToUint64 shipped_len hlen hlegal]
  · rintro ⟨funId, uniqueCode, hf, hu, rfl⟩
    exact checkCodeValid_createRedeemCode fits_shipped hf hu

/-- Codes exist exactly for arguments in range, are eight characters long, carry their
function id, and never collide. -/
theorem createRedeemCode_faithful :
    (∀ funId uniqueCode : UInt32,
      (createRedeemCode shipped funId uniqueCode).length = 8 ∧
          createRedeemCode shipped funId uniqueCode ≠ [] ↔
        funId ≤ shipped.funIdMax ∧ uniqueCode ≤ shipped.uniqueCodeMax) ∧
    (∀ funId uniqueCode : UInt32,
      funId ≤ shipped.funIdMax → uniqueCode ≤ shipped.uniqueCodeMax →
        getFunId shipped (createRedeemCode shipped funId uniqueCode) = funId) ∧
    ∀ funId uniqueCode funId' uniqueCode' : UInt32,
      funId ≤ shipped.funIdMax → uniqueCode ≤ shipped.uniqueCodeMax →
      funId' ≤ shipped.funIdMax → uniqueCode' ≤ shipped.uniqueCodeMax →
      createRedeemCode shipped funId uniqueCode = createRedeemCode shipped funId' uniqueCode' →
        funId = funId' ∧ uniqueCode = uniqueCode' := by
  refine ⟨fun funId uniqueCode => ⟨?_, ?_⟩, ?_, ?_⟩
  · rintro ⟨-, hne⟩
    by_contra hr
    exact hne (createRedeemCode_outOfRange hr)
  · intro hr
    have hin : InRange funId uniqueCode := hr
    have hlen := length_createRedeemCode hin
    exact ⟨hlen, List.ne_nil_of_length_pos (by omega)⟩
  · intro funId uniqueCode hf hu
    exact getFunId_createRedeemCode ⟨hf, hu⟩
  · intro funId uniqueCode funId' uniqueCode' hf hu hf' hu' he
    exact createRedeemCode_inj ⟨hf, hu⟩ ⟨hf', hu'⟩ he

/-- The first code of the first function. -/
theorem getFunId_first : getFunId shipped (createRedeemCode shipped 1 0) = 1 :=
  createRedeemCode_faithful.2.1 1 0 (by decide) (by decide)

end ServerCom.RedeemCode
