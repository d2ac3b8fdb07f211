import ServerCom.RedeemCode.Interpretation.Served

/-!
# The stock of codes

The code files hold a stock of codes, and the history counts the serials issued. A
serial can be stocked without being counted, and counted without being stocked.
-/

namespace ServerCom.RedeemCode

open RedeemCodeCfg RedeemCodeTool Text

/-- The lines of a code file; none when it does not exist. -/
def fileLines (d : Disk) (name : List UInt8) : List (List UInt8) :=
  ((d.codeFiles name).map lines).getD []

/-- The code of a serial is a line of some code file. -/
def Stocked (d : Disk) (funId uniqueCode : UInt32) : Prop :=
  ∃ name, createRedeemCode shipped funId uniqueCode ∈ fileLines d name

/-- A call for the function starts behind the serial; the start value of `last_idx`
counts nothing. -/
def Counted (history : List UInt8) (funId uniqueCode : UInt32) : Prop :=
  ∃ h ∈ readHistory funId history, uniqueCode.toNat < (h.lastIdx + 1).toNat

instance (history : List UInt8) (funId uniqueCode : UInt32) :
    Decidable (Counted history funId uniqueCode) :=
  inferInstanceAs (Decidable (∃ h ∈ readHistory funId history, _))

variable {d : Disk} {name : List UInt8} {funId uniqueCode uinCodeIdx createNum : UInt32}

/-- No code has a line break inside. -/
theorem newline_notMem_createRedeemCode (funId uniqueCode : UInt32) :
    newline ∉ createRedeemCode shipped funId uniqueCode := by
  by_cases h : InRange funId uniqueCode
  · rw [createRedeemCode_inRange h]
    intro hmem
    exact absurd (legal_uint64ToCode shipped_len hmem) (by decide)
  · rw [createRedeemCode_outOfRange h]
    exact List.not_mem_nil

/-- No code of a run has a line break inside. -/
theorem newline_notMem_nextCodes {n : Nat} :
    ∀ code ∈ nextCodes funId uinCodeIdx n, newline ∉ code := by
  intro code hcode
  obtain ⟨i, -, rfl⟩ := List.mem_map.mp hcode
  exact newline_notMem_createRedeemCode _ _

/-- The codes of the next serials, and no others, are among them. -/
theorem mem_nextCodes {funId' : UInt32} (h : Creatable funId' uinCodeIdx createNum)
    (hin : InRange funId uniqueCode) :
    createRedeemCode shipped funId uniqueCode ∈ nextCodes funId' uinCodeIdx createNum.toNat ↔
      funId = funId' ∧ uinCodeIdx.toNat ≤ uniqueCode.toNat ∧
        uniqueCode.toNat < uinCodeIdx.toNat + createNum.toNat := by
  constructor
  · intro hmem
    obtain ⟨i, hi, hcode⟩ := List.mem_map.mp hmem
    rw [List.mem_range] at hi
    obtain ⟨hin', hcap⟩ := h.inRange hi
    obtain ⟨rfl, rfl⟩ := createRedeemCode_inj hin' hin hcode
    rw [UInt32.toNat_ofNat_of_lt' (hcap.trans (by decide))]
    exact ⟨rfl, Nat.le_add_right .., Nat.add_lt_add_left hi _⟩
  · rintro ⟨rfl, hle, hlt⟩
    refine List.mem_map.mpr ⟨uniqueCode.toNat - uinCodeIdx.toNat, ?_, ?_⟩
    · rw [List.mem_range]
      omega
    · rw [Nat.add_sub_of_le hle, UInt32.ofNat_toNat]

/-- The lines of a code file just written are its codes, and those of the others are as before. -/
theorem fileLines_withCodeFile {codes : List (List UInt8)} (h : ∀ code ∈ codes, newline ∉ code)
    (n : List UInt8) :
    fileLines (withCodeFile d name codes) n = if n = name then codes else fileLines d n := by
  rw [fileLines, codeFiles_withCodeFile]
  split_ifs
  · exact lines_unlines h
  · rfl

/-- Writing a code file adds its codes and drops those it held. -/
theorem stocked_withCodeFile {codes : List (List UInt8)} (h : ∀ code ∈ codes, newline ∉ code) :
    Stocked (withCodeFile d name codes) funId uniqueCode ↔
      createRedeemCode shipped funId uniqueCode ∈ codes ∨
        ∃ n, n ≠ name ∧ createRedeemCode shipped funId uniqueCode ∈ fileLines d n := by
  constructor
  · rintro ⟨n, hn⟩
    rw [fileLines_withCodeFile h] at hn
    split_ifs at hn with hname
    · exact .inl hn
    · exact .inr ⟨n, hname, hn⟩
  · rintro (hmem | ⟨n, hname, hmem⟩)
    · refine ⟨name, ?_⟩
      rwa [fileLines_withCodeFile h, if_pos rfl]
    · refine ⟨n, ?_⟩
      rwa [fileLines_withCodeFile h, if_neg hname]

end ServerCom.RedeemCode
