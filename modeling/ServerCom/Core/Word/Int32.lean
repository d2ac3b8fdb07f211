import ServerCom.Core.Word.Digits
import Mathlib.Tactic.Linarith

/-!
# 32-bit two's complement integers

A C `int` is carried as the mathematical integer it denotes; `int32` is the
reduction an assignment or an arithmetic operation makes. `bytesOfInt` and
`intOfBytes` are the little-endian object representation, and `swap32` is the
byte swap that converts to and from network order.
-/

namespace ServerCom

/-- Reduction to the 32-bit two's complement range. -/
def int32 (x : Int) : Int := x.bmod (2 ^ 32)

/-- The values a 32-bit integer can hold. -/
def InInt32 (x : Int) : Prop := -2 ^ 31 ≤ x ∧ x < 2 ^ 31

instance (x : Int) : Decidable (InInt32 x) := inferInstanceAs (Decidable (_ ∧ _))

/-- A reduced value is in range. -/
theorem int32_inInt32 (x : Int) : InInt32 (int32 x) := by
  have hl := Int.le_bmod (x := x) (m := 2 ^ 32) (by decide)
  have hu := Int.bmod_lt (x := x) (m := 2 ^ 32) (by decide)
  unfold InInt32 int32
  omega

/-- An in-range value is not changed by the reduction. -/
theorem int32_eq_self {x : Int} (h : InInt32 x) : int32 x = x := by
  unfold InInt32 at h
  exact Int.bmod_eq_of_le (by omega) (by omega)

@[simp] theorem int32_natCast {n : Nat} (h : n < 2 ^ 31) : int32 (n : Int) = n :=
  int32_eq_self (by unfold InInt32; omega)

/-- A reduced count is not larger than the count. -/
theorem toNat_int32_le (n : Nat) : (int32 n).toNat ≤ n := by
  unfold int32
  rw [Int.bmod_def]
  split_ifs <;> omega

/-- One turn below the range wraps to the top. -/
theorem int32_eq_add {x : Int} (hl : -2 ^ 32 ≤ x) (hu : x < -2 ^ 31) :
    int32 x = x + 2 ^ 32 := by
  have h : int32 (x + 2 ^ 32) = x + 2 ^ 32 := int32_eq_self (by unfold InInt32; omega)
  rw [← h, int32, int32]
  exact (Int.add_bmod_right x (2 ^ 32)).symm

/-- One turn above the range wraps to the bottom. -/
theorem int32_eq_sub {x : Int} (hl : 2 ^ 31 ≤ x) (hu : x < 2 ^ 32) :
    int32 x = x - 2 ^ 32 := by
  have h : int32 (x - 2 ^ 32) = x - 2 ^ 32 := int32_eq_self (by unfold InInt32; omega)
  rw [← h, int32, int32]
  exact (Int.sub_bmod_right x (2 ^ 32)).symm

/-- The reduction keeps the low 32 bits. -/
theorem int32_emod (x : Int) : int32 x % 2 ^ 32 = x % 2 ^ 32 :=
  Int.bmod_emod

/-! ## Object representation and byte order -/

/-- The four bytes of an integer as a little-endian host stores it. -/
def bytesOfInt (x : Int) : List UInt8 := bytesLE 4 (x % 2 ^ 32).toNat

/-- The integer a little-endian host reads from four bytes. -/
def intOfBytes (l : List UInt8) : Int := int32 (natLE l)

/-- `htonl` and `ntohl` on a little-endian host. -/
def swap32 (x : Int) : Int := intOfBytes (bytesOfInt x).reverse

@[simp] theorem length_bytesOfInt (x : Int) : (bytesOfInt x).length = 4 := length_bytesLE ..

/-- What is read from bytes is in range. -/
theorem intOfBytes_inInt32 (l : List UInt8) : InInt32 (intOfBytes l) := int32_inInt32 _

/-- An integer in range is read back from its bytes. -/
theorem intOfBytes_bytesOfInt {x : Int} (h : InInt32 x) : intOfBytes (bytesOfInt x) = x := by
  have hx : 0 ≤ x % 2 ^ 32 := Int.emod_nonneg _ (by decide)
  have hlt : (x % 2 ^ 32).toNat < 256 ^ 4 := by
    have := Int.emod_lt_of_pos x (b := 2 ^ 32) (by decide)
    omega
  rw [intOfBytes, bytesOfInt, natLE_bytesLE, Nat.mod_eq_of_lt hlt, Int.toNat_of_nonneg hx, int32]
  exact (Int.emod_bmod x (2 ^ 32)).trans (int32_eq_self h)

/-- Four bytes are written again as they were read. -/
theorem bytesOfInt_intOfBytes {l : List UInt8} (h : l.length = 4) :
    bytesOfInt (intOfBytes l) = l := by
  have hlt : natLE l < 256 ^ 4 := h ▸ natLE_lt l
  have he : (intOfBytes l % 2 ^ 32).toNat = natLE l := by
    rw [intOfBytes, int32_emod]
    omega
  rw [bytesOfInt, he, ← h, bytesLE_natLE]

/-- The byte swap reads the stored bytes in the opposite order. -/
theorem swap32_intOfBytes {l : List UInt8} (h : l.length = 4) :
    swap32 (intOfBytes l) = intOfBytes l.reverse := by
  rw [swap32, bytesOfInt_intOfBytes h]

/-- A swapped value is in range. -/
theorem swap32_inInt32 (x : Int) : InInt32 (swap32 x) := intOfBytes_inInt32 _

/-- The swap turns the bytes around. -/
theorem bytesOfInt_swap32 (x : Int) : bytesOfInt (swap32 x) = (bytesOfInt x).reverse :=
  bytesOfInt_intOfBytes (by simp)

/-- A 16-bit value is swapped into the two high bytes. -/
theorem swap32_natCast {n : Nat} (hn : n < 2 ^ 16) :
    swap32 n = int32 ((n / 256 * 2 ^ 16 + n % 256 * 2 ^ 24 : Nat) : Int) := by
  have hmod : ((n : Int) % 2 ^ 32).toNat = n := by omega
  have hd : digitsLE 256 4 n = [n % 256, n / 256, 0, 0] := by
    simp only [digitsLE_succ, digitsLE_zero]
    rw [show n / 256 % 256 = n / 256 by omega, show n / 256 / 256 = 0 by omega]
  have hv : natLE (bytesLE 4 n).reverse = n / 256 * 2 ^ 16 + n % 256 * 2 ^ 24 := by
    rw [natLE, List.map_reverse, map_toNat_bytesLE, hd]
    simp only [List.reverse_cons, List.reverse_nil, List.nil_append, List.cons_append,
      Nat.ofDigits_cons, Nat.ofDigits_nil]
    omega
  rw [swap32, intOfBytes, bytesOfInt, hmod, hv]

/-- Converting twice gives the value back: the swap is its own inverse. -/
theorem swap32_swap32 {x : Int} (h : InInt32 x) : swap32 (swap32 x) = x := by
  rw [swap32, bytesOfInt_swap32, List.reverse_reverse, intOfBytes_bytesOfInt h]

-- Unfolding the reduction in a failing unification runs through the numeral `2 ^ 32`.
attribute [irreducible] int32

end ServerCom
