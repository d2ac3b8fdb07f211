import ServerCom.RedeemCode.Correctness.Image

/-!
# The sign and the function id

The sign is meant to cover the function id and the unique code. Its source holds both,
but the mask of the sign leaves only the ten lowest bits of it, which all belong to the
unique code: whoever changes the function id of a code keeps its sign.
-/

namespace ServerCom.RedeemCode

open RedeemCodeCfg

variable {funId uniqueCode : UInt32} {code : List UInt8}

/-- The number of `code` is that of `genuine` with other bits for the function id. -/
def ChangesFunId (genuine code : List UInt8) : Prop :=
  ∃ f < 2 ^ shipped.funIdBitLen.toNat,
    f ≠ (codeToUint64 shipped genuine).toNat / 2 ^ shipped.funIdBitStartIdx.toNat ∧
    (codeToUint64 shipped code).toNat = f * 2 ^ shipped.funIdBitStartIdx.toNat +
      (codeToUint64 shipped genuine).toNat % 2 ^ shipped.funIdBitStartIdx.toNat

/-- Bits for the function id that differ stand before the same unique code and sign. -/
theorem ChangesFunId.fields (hr : InRange funId uniqueCode)
    (h : ChangesFunId (createRedeemCode shipped funId uniqueCode) code) :
    ∃ f < 2 ^ 8, (codeToUint64 shipped code).toNat =
      fields f (mask uniqueCode.toNat) (signOf (mask uniqueCode.toNat)) := by
  obtain ⟨f, hf, -, hnum⟩ := h
  refine ⟨f, hf, ?_⟩
  have hw := mask_lt uniqueCode.toNat
  have hs := signOf_lt (mask uniqueCode.toNat)
  rw [codeToUint64_createRedeemCode hr, show shipped.funIdBitStartIdx.toNat = 32 from rfl] at hnum
  rw [hnum, RedeemCode.fields, RedeemCode.fields]
  omega

/-- A number keeps its sign whatever stands in the bits of the function id. -/
theorem signOf_fields (f w : Nat) :
    fields f w (signOf w) % 2 ^ 10 = signOf (fields f w (signOf w) / 2 ^ 10) := by
  have hs := signOf_lt w
  have hsign : signOf (fields f w (signOf w) / 2 ^ 10) = signOf w := by
    apply signOf_congr
    rw [fields]
    omega
  rw [hsign, fields]
  omega

/-- A code with another function id is rejected only where it has not eight characters. -/
theorem changedFunId_rejected_iff (funId uniqueCode : UInt32) (code : List UInt8)
    (hf : funId ≤ shipped.funIdMax) (hu : uniqueCode ≤ shipped.uniqueCodeMax)
    (h : ChangesFunId (createRedeemCode shipped funId uniqueCode) code) :
    checkCodeValid shipped code = false ↔ code.length ≠ 8 := by
  constructor
  · intro hrej hlen
    obtain ⟨f, -, hnum⟩ := h.fields ⟨hf, hu⟩
    have hacc : checkCodeValid shipped code = true := by
      rw [checkCodeValid_iff_sign hlen, hnum]
      apply signOf_fields
    exact absurd (hrej.symm.trans hacc) Bool.false_ne_true
  · intro hlen
    have hlen' : code.length ≠ shipped.redeemCodeLen.toNat := hlen
    rw [checkCodeValid, if_pos hlen']

/-- The codes of one unique code for two functions differ in the function id alone. -/
theorem changesFunId_createRedeemCode {funId' : UInt32} (hr : InRange funId uniqueCode)
    (hr' : InRange funId' uniqueCode) (hne : funId ≠ funId') :
    ChangesFunId (createRedeemCode shipped funId uniqueCode)
      (createRedeemCode shipped funId' uniqueCode) := by
  have hw := mask_lt uniqueCode.toNat
  have hs := signOf_lt (mask uniqueCode.toNat)
  have hnum := codeToUint64_createRedeemCode hr
  have hnum' := codeToUint64_createRedeemCode hr'
  refine ⟨(mask uniqueCode.toNat ^^^ funId'.toNat) % 2 ^ 8, Nat.mod_lt _ (by decide), ?_, ?_⟩
  · intro hf
    have hsame : codeToUint64 shipped (createRedeemCode shipped funId uniqueCode) =
        codeToUint64 shipped (createRedeemCode shipped funId' uniqueCode) := by
      apply UInt64.toNat.inj
      rw [hnum, show shipped.funIdBitStartIdx.toNat = 32 from rfl, fields] at hf
      rw [hnum, hnum', fields, fields]
      omega
    apply hne
    rw [← getFunId_createRedeemCode hr, getFunId, hsame]
    exact getFunId_createRedeemCode hr'
  · rw [hnum, hnum', show shipped.funIdBitStartIdx.toNat = 32 from rfl, fields, fields]
    omega

/-- The first code of the first function turns into one of the second. -/
theorem changedFunId_rejected_first :
    checkCodeValid shipped (createRedeemCode shipped 2 0) = false ↔
      (createRedeemCode shipped 2 0).length ≠ 8 :=
  changedFunId_rejected_iff 1 0 _ (by decide) (by decide)
    (changesFunId_createRedeemCode (by decide) (by decide) (by decide))

/-- The second function's code is accepted, though it is the first's with other bits. -/
theorem changedFunId_accepted :
    ¬ ∀ (funId uniqueCode : UInt32) (code : List UInt8),
      funId ≤ shipped.funIdMax → uniqueCode ≤ shipped.uniqueCodeMax →
      ChangesFunId (createRedeemCode shipped funId uniqueCode) code →
        checkCodeValid shipped code = false := by
  intro hrejected
  have hr : InRange 2 0 := by decide
  have hrej := hrejected 1 0 (createRedeemCode shipped 2 0) (by decide) (by decide)
    (changesFunId_createRedeemCode (by decide) hr (by decide))
  have hacc := (checkCodeValid_iff_exists _).mpr ⟨2, 0, hr.1, hr.2, rfl⟩
  exact absurd (hrej.symm.trans hacc) Bool.false_ne_true

end ServerCom.RedeemCode
