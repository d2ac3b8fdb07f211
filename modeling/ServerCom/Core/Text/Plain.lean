import Mathlib.Data.List.Basic

/-!
# Plain text

Text is the list of its bytes. A file is cut into lines as `getline` does, and
numbers are written in decimal. Both are read back.
-/

namespace ServerCom.Text

/-- The bytes of a string literal. -/
def literal (s : String) : List UInt8 := s.toList.map Char.toUInt8

/-- The byte that ends a line. -/
def newline : UInt8 := 10

/-- The lines of a file; the last one needs no newline. -/
def lines : List UInt8 → List (List UInt8)
  | [] => []
  | c :: cs =>
    if c = newline then [] :: lines cs
    else match lines cs with
      | [] => [[c]]
      | l :: ls => (c :: l) :: ls

/-- The file of some lines, each ended by a newline. -/
def unlines (ls : List (List UInt8)) : List UInt8 := ls.flatMap (· ++ [newline])

/-- A line ends at its newline. -/
theorem lines_append {l : List UInt8} (h : newline ∉ l) (rest : List UInt8) :
    lines (l ++ newline :: rest) = l :: lines rest := by
  induction l with
  | nil => simp [lines]
  | cons c l ih =>
    obtain ⟨hc, hl⟩ := not_or.mp (mt List.mem_cons.mpr h)
    rw [List.cons_append, lines, if_neg (Ne.symm hc), ih hl]

/-- Lines are read back from their file. -/
theorem lines_unlines {ls : List (List UInt8)} (h : ∀ l ∈ ls, newline ∉ l) :
    lines (unlines ls) = ls := by
  induction ls with
  | nil => rfl
  | cons l ls ih =>
    obtain ⟨hl, hls⟩ := List.forall_mem_cons.mp h
    have hsplit : unlines (l :: ls) = l ++ newline :: unlines ls := by simp [unlines]
    rw [hsplit, lines_append hl, ih hls]

/-! ## Decimal numbers -/

/-- Decimal digits. -/
def isDigit (c : UInt8) : Bool := 48 ≤ c && c ≤ 57

/-- The number a string of digits denotes. -/
def digitsValue (ds : List UInt8) : Nat := ds.foldl (fun v c => 10 * v + (c.toNat - 48)) 0

/-- A number in decimal without leading zeros. -/
def decimal (n : Nat) : List UInt8 := (Nat.toDigits 10 n).map Char.toUInt8

/-- A number in decimal, filled with zeros to a width. -/
def decimalPadded (width n : Nat) : List UInt8 :=
  List.replicate (width - (decimal n).length) 48 ++ decimal n

/-- The byte of a digit. -/
theorem toNat_toUInt8_of_isDigit {c : Char} (h : c.isDigit = true) :
    c.toUInt8.toNat = c.toNat ∧ 48 ≤ c.toNat ∧ c.toNat ≤ 57 := by
  obtain ⟨hlo, hhi⟩ : 48 ≤ c.toNat ∧ c.toNat ≤ 57 := Char.isDigit_iff_toNat.mp h
  refine ⟨?_, hlo, hhi⟩
  have hlt : c.toNat < 256 := by omega
  exact Nat.mod_eq_of_lt hlt

/-- Every number has a digit. -/
theorem decimal_ne_nil (n : Nat) : decimal n ≠ [] := by
  rw [decimal, Ne, List.map_eq_nil_iff]
  exact Nat.toDigits_ne_nil

/-- Numbers are written in digits. -/
theorem isDigit_of_mem_decimal {n : Nat} {c : UInt8} (h : c ∈ decimal n) : isDigit c = true := by
  obtain ⟨d, hd, rfl⟩ := List.mem_map.mp h
  obtain ⟨hv, hlo, hhi⟩ :=
    toNat_toUInt8_of_isDigit (Nat.isDigit_of_mem_toDigits (by decide) (by decide) hd)
  rw [isDigit, Bool.and_eq_true, decide_eq_true_eq, decide_eq_true_eq, UInt8.le_iff_toNat_le,
    UInt8.le_iff_toNat_le, hv]
  exact ⟨hlo, hhi⟩

/-- Numbers are read back from their digits. -/
theorem digitsValue_decimal (n : Nat) : digitsValue (decimal n) = n := by
  conv_rhs => rw [← Nat.ofDigitChars_ten_toDigits (n := n)]
  rw [digitsValue, decimal, List.foldl_map, Nat.ofDigitChars_eq_foldl]
  refine List.foldl_ext _ _ _ fun v d hd => ?_
  rw [(toNat_toUInt8_of_isDigit (Nat.isDigit_of_mem_toDigits (by decide) (by decide) hd)).1]
  rfl

/-- Digits end at the first other character. -/
theorem span_digits {ds rest : List UInt8} (hall : ∀ c ∈ ds, isDigit c = true)
    (h : ∀ c ∈ rest.head?, isDigit c = false) :
    (ds ++ rest).takeWhile isDigit = ds ∧ (ds ++ rest).dropWhile isDigit = rest := by
  rw [List.takeWhile_append_of_pos hall, List.dropWhile_append_of_pos hall]
  cases rest with
  | nil => simp
  | cons c rest =>
    have hc : ¬ isDigit c = true := by simpa using h c rfl
    rw [List.takeWhile_cons_of_neg hc, List.dropWhile_cons_of_neg hc, List.append_nil]
    exact ⟨rfl, rfl⟩

end ServerCom.Text
