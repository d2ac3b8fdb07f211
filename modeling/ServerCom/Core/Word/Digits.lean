import Mathlib.Data.Nat.Digits.Lemmas

/-!
# Fixed-width digit strings

`digitsLE b n v` lists exactly `n` digits of `v` in base `b`, least significant
first, so unlike `Nat.digits` it keeps leading zeros. `Nat.ofDigits` reads such
a string back. The two are inverse on strings of in-range digits and on numbers
below `b ^ n`. Byte strings are the case `b = 256`.
-/

namespace ServerCom

/-- The `n` lowest base-`b` digits of `v`, least significant first. -/
def digitsLE (b : Nat) : Nat → Nat → List Nat
  | 0, _ => []
  | n + 1, v => v % b :: digitsLE b n (v / b)

@[simp] theorem digitsLE_zero (b v : Nat) : digitsLE b 0 v = [] := rfl

@[simp] theorem digitsLE_succ (b n v : Nat) :
    digitsLE b (n + 1) v = v % b :: digitsLE b n (v / b) := rfl

@[simp] theorem length_digitsLE (b n v : Nat) : (digitsLE b n v).length = n := by
  induction n generalizing v with
  | zero => rfl
  | succ n ih => simp [ih]

/-- Every listed digit is in range. -/
theorem digitsLE_lt {b n v d : Nat} (hb : 0 < b) (hd : d ∈ digitsLE b n v) : d < b := by
  induction n generalizing v with
  | zero => simp at hd
  | succ n ih =>
    rcases List.mem_cons.mp hd with rfl | hd
    · exact Nat.mod_lt _ hb
    · exact ih hd

/-- Reading the digits back keeps the number modulo the width. -/
theorem ofDigits_digitsLE (b n v : Nat) : Nat.ofDigits b (digitsLE b n v) = v % b ^ n := by
  induction n generalizing v with
  | zero => simp [Nat.mod_one]
  | succ n ih => rw [digitsLE_succ, Nat.ofDigits_cons, ih, pow_succ', Nat.mod_mul]

/-- An in-range digit string is exactly the digit string of its value. -/
theorem digitsLE_ofDigits {b : Nat} {l : List Nat} (hl : ∀ d ∈ l, d < b) :
    digitsLE b l.length (Nat.ofDigits b l) = l := by
  induction l with
  | nil => rfl
  | cons d l ih =>
    have hd : d < b := hl d (List.mem_cons_self ..)
    have hb : 0 < b := by omega
    rw [List.length_cons, digitsLE_succ, Nat.ofDigits_cons, Nat.add_mul_mod_self_left,
      Nat.mod_eq_of_lt hd, Nat.add_mul_div_left _ _ hb, Nat.div_eq_of_lt hd, Nat.zero_add,
      ih fun x hx => hl x (List.mem_cons_of_mem _ hx)]

/-- The most significant digit stands last. -/
theorem digitsLE_succ_last (b n v : Nat) :
    digitsLE b (n + 1) v = digitsLE b n v ++ [v / b ^ n % b] := by
  induction n generalizing v with
  | zero => simp
  | succ n ih =>
    rw [digitsLE_succ, ih, digitsLE_succ, List.cons_append, Nat.div_div_eq_div_mul, pow_succ']

/-! ## Byte strings -/

/-- The `n` lowest bytes of `v`, least significant first. -/
def bytesLE (n v : Nat) : List UInt8 := (digitsLE 256 n v).map UInt8.ofNat

/-- The number whose bytes are listed least significant first. -/
def natLE (l : List UInt8) : Nat := Nat.ofDigits 256 (l.map UInt8.toNat)

@[simp] theorem length_bytesLE (n v : Nat) : (bytesLE n v).length = n := by simp [bytesLE]

/-- The bytes of a number are its digits to the base 256. -/
theorem map_toNat_bytesLE (n v : Nat) : (bytesLE n v).map UInt8.toNat = digitsLE 256 n v := by
  rw [bytesLE, List.map_map]
  calc (digitsLE 256 n v).map (UInt8.toNat ∘ UInt8.ofNat)
      = (digitsLE 256 n v).map id :=
        List.map_congr_left fun d hd => Nat.mod_eq_of_lt (digitsLE_lt (by decide) hd)
    _ = digitsLE 256 n v := List.map_id _

/-- Some bytes of a number are read as its remainder. -/
theorem natLE_bytesLE (n v : Nat) : natLE (bytesLE n v) = v % 256 ^ n := by
  rw [natLE, map_toNat_bytesLE, ofDigits_digitsLE]

/-- Bytes are written again as they were read. -/
theorem bytesLE_natLE (l : List UInt8) : bytesLE l.length (natLE l) = l := by
  have h := digitsLE_ofDigits (b := 256) (l := l.map UInt8.toNat) (by
    intro d hd
    obtain ⟨x, _, rfl⟩ := List.mem_map.mp hd
    exact x.toNat_lt)
  rw [List.length_map] at h
  rw [bytesLE, natLE, h, List.map_map]
  exact List.map_id'' (fun x => UInt8.ofNat_toNat) l

/-- The value of some bytes is bounded by their number. -/
theorem natLE_lt (l : List UInt8) : natLE l < 256 ^ l.length := by
  have h := natLE_bytesLE l.length (natLE l)
  rw [bytesLE_natLE] at h
  rw [h]
  exact Nat.mod_lt _ (by positivity)

end ServerCom
