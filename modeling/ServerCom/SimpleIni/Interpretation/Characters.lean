import Mathlib.Data.List.GetD
import Mathlib.Data.Nat.Bitwise
import ServerCom.Core.Text.Unicode
import ServerCom.SimpleIni.Native.ConvertUtf

/-!
# How characters are read and written

`readUTF8` reads exactly the bytes of characters, and two kinds of sequences beside them:
behind `ED` and behind `F4` the second byte may be below `80`. These too stand for characters,
which have other bytes of their own. `readUTF16` reads the units of characters, and when it is
lenient also surrogates that stand alone.
-/

namespace ServerCom.SimpleIni

open Unicode

/-- The bytes that are read as a character. -/
inductive Sequence : List UInt8 → Char → Prop where
  /-- Its own bytes. -/
  | own (c : Char) : Sequence (String.utf8EncodeChar c) c
  /-- Three bytes, with a second byte that is too low. -/
  | ed {c : Char} {b d : UInt8} (hb : b.toNat < 0x80) (hd : 0x80 ≤ d.toNat ∧ d.toNat ≤ 0xBF)
    (hc : c.val.toNat = 0xAF80 + b.toNat * 64 + d.toNat) : Sequence [0xED, b, d] c
  /-- Four bytes, with a second byte that is too low. -/
  | f4 {c : Char} {b d e : UInt8} (hb : b.toNat < 0x80) (hd : 0x80 ≤ d.toNat ∧ d.toNat ≤ 0xBF)
    (he : 0x80 ≤ e.toNat ∧ e.toNat ≤ 0xBF)
    (hc : c.val.toNat = 0x7DF80 + b.toNat * 4096 + d.toNat * 64 + e.toNat) :
    Sequence [0xF4, b, d, e] c

/-! ## Reading UTF-8 -/

/-- The table of trailing bytes, by the ranges of the first byte. -/
theorem trailingBytesForUTF8_eq (byte : UInt8) : trailingBytesForUTF8 byte =
    if byte.toNat < 192 then 0 else if byte.toNat < 224 then 1 else if byte.toNat < 240 then 2
    else if byte.toNat < 248 then 3 else if byte.toNat < 252 then 4 else 5 := by
  have htable : ∀ n < 256, (List.replicate 192 0 ++ .replicate 32 1 ++ .replicate 16 2 ++
      .replicate 8 3 ++ .replicate 4 4 ++ .replicate 4 5).getD n 0 =
      if n < 192 then 0 else if n < 224 then 1 else if n < 240 then 2
      else if n < 248 then 3 else if n < 252 then 4 else 5 := by decide +kernel
  exact htable byte.toNat byte.toNat_lt

/-- A byte more is read. -/
theorem toNat_readBytes (bytes : List UInt8) (h : (readBytes bytes).toNat < 0x1000000)
    (byte : UInt8) :
    (readBytes (bytes ++ [byte])).toNat = (readBytes bytes).toNat * 64 + byte.toNat := by
  have hbyte := byte.toNat_lt
  rw [readBytes, List.foldl_append]
  change ((readBytes bytes <<< 6) + byte.toUInt32).toNat = _
  simp only [UInt32.toNat_add, UInt32.toNat_shiftLeft, UInt8.toNat_toUInt32, Nat.shiftLeft_eq,
    UInt32.reduceToNat, Nat.reduceMod, Nat.reducePow]
  omega

/-- One byte is read as it is. -/
theorem toNat_readBytes_one (a : UInt8) : (readBytes [a]).toNat = a.toNat :=
  (toNat_readBytes [] (by decide) a).trans (Nat.zero_add _)

theorem toNat_readBytes_two (a b : UInt8) :
    (readBytes [a, b]).toNat = a.toNat * 64 + b.toNat := by
  have ha := a.toNat_lt
  have hone := toNat_readBytes_one a
  rw [← hone]
  exact toNat_readBytes [a] (by omega) b

theorem toNat_readBytes_three (a b d : UInt8) :
    (readBytes [a, b, d]).toNat = (a.toNat * 64 + b.toNat) * 64 + d.toNat := by
  have ha := a.toNat_lt
  have hb := b.toNat_lt
  have htwo := toNat_readBytes_two a b
  rw [← htwo]
  exact toNat_readBytes [a, b] (by omega) d

theorem toNat_readBytes_four (a b d e : UInt8) :
    (readBytes [a, b, d, e]).toNat =
      ((a.toNat * 64 + b.toNat) * 64 + d.toNat) * 64 + e.toNat := by
  have ha := a.toNat_lt
  have hb := b.toNat_lt
  have hd := d.toNat_lt
  have hthree := toNat_readBytes_three a b d
  rw [← hthree]
  exact toNat_readBytes [a, b, d] (by omega) e

/-- Bytes whose offset is subtracted are a character. -/
theorem readBytes_sub {bytes : List UInt8} {c : Char} {offset : UInt32}
    (h : (readBytes bytes).toNat = c.val.toNat + offset.toNat) :
    readBytes bytes - offset = c.val := by
  rw [← UInt32.toNat_inj, UInt32.toNat_sub_of_le _ _ (UInt32.le_iff_toNat_le.mpr (by omega))]
  omega

/-- No byte behind the length is looked at. -/
theorem isLegalUTF8_append {source : List UInt8} {length : ℕ} (h : length ≤ source.length)
    (more : List UInt8) : isLegalUTF8 (source ++ more) length = isLegalUTF8 source length := by
  have hget : ∀ i < length, (source ++ more).getD i 0 = source.getD i 0 :=
    fun i hi => List.getD_append _ _ _ _ (Nat.lt_of_lt_of_le hi h)
  unfold isLegalUTF8
  rcases length with _ | _ | _ | _ | length
  · rfl
  · rw [hget 0 (by omega)]
    rfl
  · rw [hget 0 (by omega), hget 1 (by omega)]
    rfl
  · rw [hget 0 (by omega), hget 1 (by omega), hget 2 (by omega)]
    rfl
  · rw [hget 0 (by omega), hget 1 (by omega), hget 2 (by omega), hget 3 (by omega)]

/-- The first of several bytes tells how many there are; the others are read behind it. -/
theorem readUTF8_append {a : UInt8} {w : List UInt8} {c : Char}
    (htrailing : trailingBytesForUTF8 a = w.length)
    (hlegal : isLegalUTF8 (a :: w) (w.length + 1) = true)
    (hread : (readBytes (a :: w)).toNat = c.val.toNat + (offsetsFromUTF8 w.length).toNat)
    (more : List UInt8) : readUTF8 a (w ++ more) = .ok (c.val, w.length) := by
  have hlegal' : isLegalUTF8 (a :: (w ++ more)) (w.length + 1) = true :=
    (isLegalUTF8_append (Nat.le_refl (a :: w).length) more).trans hlegal
  rw [readUTF8, htrailing, if_neg (by rw [List.length_append]; omega), hlegal', Bool.not_true,
    if_neg Bool.false_ne_true, List.take_left, readBytes_sub hread]

/-- More than four bytes are never legal. -/
theorem isLegalUTF8_long {length : ℕ} (h : 4 < length) (source : List UInt8) :
    isLegalUTF8 source length = false := by
  simp only [isLegalUTF8, decide_eq_false (Nat.not_le.mpr h), Bool.and_false, Bool.false_and]

/-- Which single bytes the check lets pass: more than ASCII, since the length is the caller's. -/
theorem isLegalUTF8_one (a : UInt8) :
    isLegalUTF8 [a] 1 = true ↔ a.toNat < 0x80 ∨ 0xC2 ≤ a.toNat ∧ a.toNat ≤ 0xF4 := by
  simp [isLegalUTF8, UInt8.le_iff_toNat_le, UInt8.lt_iff_toNat_lt]
  omega

/-- Which pairs of bytes are legal. -/
theorem isLegalUTF8_two {a b : UInt8} (ha : 0xC0 ≤ a.toNat ∧ a.toNat < 0xE0) :
    isLegalUTF8 [a, b] 2 = true ↔ 0xC2 ≤ a.toNat ∧ 0x80 ≤ b.toNat ∧ b.toNat ≤ 0xBF := by
  simp [isLegalUTF8, UInt8.le_iff_toNat_le, UInt8.lt_iff_toNat_lt, ← UInt8.toNat_inj]
  split_ifs <;> omega

/-- Which triples are legal; behind `ED` the second byte has an upper bound only. -/
theorem isLegalUTF8_three {a b d : UInt8} (ha : 0xE0 ≤ a.toNat ∧ a.toNat < 0xF0) :
    isLegalUTF8 [a, b, d] 3 = true ↔ b.toNat ≤ 0xBF ∧ (a.toNat = 0xE0 → 0xA0 ≤ b.toNat) ∧
      (a.toNat = 0xED → b.toNat ≤ 0x9F) ∧ (a.toNat ≠ 0xED → 0x80 ≤ b.toNat) ∧
      0x80 ≤ d.toNat ∧ d.toNat ≤ 0xBF := by
  simp [isLegalUTF8, UInt8.le_iff_toNat_le, UInt8.lt_iff_toNat_lt, ← UInt8.toNat_inj]
  split_ifs <;> omega

/-- Which sequences of four are legal; behind `F4` the second byte has an upper bound only. -/
theorem isLegalUTF8_four {a b d e : UInt8} (ha : 0xF0 ≤ a.toNat ∧ a.toNat < 0xF8) :
    isLegalUTF8 [a, b, d, e] 4 = true ↔ a.toNat ≤ 0xF4 ∧ b.toNat ≤ 0xBF ∧
      (a.toNat = 0xF0 → 0x90 ≤ b.toNat) ∧ (a.toNat = 0xF4 → b.toNat ≤ 0x8F) ∧
      (a.toNat ≠ 0xF4 → 0x80 ≤ b.toNat) ∧ 0x80 ≤ d.toNat ∧ d.toNat ≤ 0xBF ∧
      0x80 ≤ e.toNat ∧ e.toNat ≤ 0xBF := by
  simp [isLegalUTF8, UInt8.le_iff_toNat_le, UInt8.lt_iff_toNat_lt, ← UInt8.toNat_inj]
  split_ifs <;> omega

section lengths

variable {a b d e : UInt8} {c : Char}

/-- An ASCII byte is read as its character. -/
theorem readUTF8_one (ha : a.toNat < 0x80) (hc : c.val.toNat = a.toNat) (more : List UInt8) :
    readUTF8 a more = .ok (c.val, 0) := by
  have htrailing : trailingBytesForUTF8 a = 0 := by
    rw [trailingBytesForUTF8_eq, if_pos (by omega)]
  refine readUTF8_append htrailing ((isLegalUTF8_one a).mpr (.inl ha)) ?_ more
  rw [toNat_readBytes_one, ← hc]
  rfl

theorem readUTF8_two (ha : 0xC2 ≤ a.toNat ∧ a.toNat ≤ 0xDF) (hb : 0x80 ≤ b.toNat ∧ b.toNat ≤ 0xBF)
    (hc : c.val.toNat + 0x3080 = a.toNat * 64 + b.toNat) (more : List UInt8) :
    readUTF8 a (b :: more) = .ok (c.val, 1) := by
  have htrailing : trailingBytesForUTF8 a = 1 := by
    rw [trailingBytesForUTF8_eq, if_neg (by omega), if_pos (by omega)]
  have hlegal := (isLegalUTF8_two (b := b) ⟨by omega, by omega⟩).mpr ⟨ha.1, hb⟩
  refine readUTF8_append (w := [b]) htrailing hlegal ?_ more
  rw [toNat_readBytes_two, ← hc]
  rfl

theorem readUTF8_three (ha : 0xE0 ≤ a.toNat ∧ a.toNat ≤ 0xEF)
    (hlegal : isLegalUTF8 [a, b, d] 3 = true)
    (hc : c.val.toNat + 0xE2080 = (a.toNat * 64 + b.toNat) * 64 + d.toNat) (more : List UInt8) :
    readUTF8 a (b :: d :: more) = .ok (c.val, 2) := by
  have htrailing : trailingBytesForUTF8 a = 2 := by
    rw [trailingBytesForUTF8_eq, if_neg (by omega), if_neg (by omega), if_pos (by omega)]
  refine readUTF8_append (w := [b, d]) htrailing hlegal ?_ more
  rw [toNat_readBytes_three, ← hc]
  rfl

theorem readUTF8_four (ha : 0xF0 ≤ a.toNat ∧ a.toNat ≤ 0xF4)
    (hlegal : isLegalUTF8 [a, b, d, e] 4 = true)
    (hc : c.val.toNat + 0x3C82080 =
      ((a.toNat * 64 + b.toNat) * 64 + d.toNat) * 64 + e.toNat) (more : List UInt8) :
    readUTF8 a (b :: d :: e :: more) = .ok (c.val, 3) := by
  have htrailing : trailingBytesForUTF8 a = 3 := by
    rw [trailingBytesForUTF8_eq, if_neg (by omega), if_neg (by omega), if_neg (by omega),
      if_pos (by omega)]
  refine readUTF8_append (w := [b, d, e]) htrailing hlegal ?_ more
  rw [toNat_readBytes_four, ← hc]
  rfl

end lengths

/-- The bytes of a sequence are read as its character. -/
theorem Sequence.read {a : UInt8} {w : List UInt8} {c : Char} (h : Sequence (a :: w) c)
    (more : List UInt8) : readUTF8 a (w ++ more) = .ok (c.val, w.length) := by
  have hvalid := toNat_valid c
  generalize hbytes : a :: w = bytes at h
  cases h with
  | own =>
    have hown := utf8 c
    rw [← hbytes] at hown
    cases hown with
    | one ha hc => exact readUTF8_one ha hc more
    | two ha hb hc => exact readUTF8_two ha hb (by omega) more
    | three ha hb hd hc hlo =>
      refine readUTF8_three ha ((isLegalUTF8_three ⟨ha.1, by omega⟩).mpr ?_) (by omega) more
      omega
    | four ha hb hd he hc hlo =>
      refine readUTF8_four ha ((isLegalUTF8_four ⟨ha.1, by omega⟩).mpr ?_) (by omega) more
      omega
  | ed hb hd hc =>
    cases hbytes
    refine readUTF8_three (by decide) ((isLegalUTF8_three (by decide)).mpr ?_) ?_ more
    · change _ ∧ (237 = _ → _) ∧ (237 = _ → _) ∧ (237 ≠ _ → _) ∧ _
      omega
    · change _ = (237 * 64 + _) * 64 + _
      omega
  | f4 hb hd he hc =>
    cases hbytes
    refine readUTF8_four (by decide) ((isLegalUTF8_four (by decide)).mpr ?_) ?_ more
    · change 244 ≤ _ ∧ _ ∧ (244 = _ → _) ∧ (244 = _ → _) ∧ (244 ≠ _ → _) ∧ _
      omega
    · change _ = ((244 * 64 + _) * 64 + _) * 64 + _
      omega

theorem exists_sequence_two {a b : UInt8} (ha : 0xC0 ≤ a.toNat ∧ a.toNat < 0xE0)
    (hlegal : isLegalUTF8 [a, b] 2 = true) : ∃ c, Sequence [a, b] c := by
  obtain ⟨hlo, hb⟩ := (isLegalUTF8_two ha).mp hlegal
  obtain ⟨c, hc⟩ := exists_char (n := (a.toNat - 0xC0) * 64 + (b.toNat - 0x80)) (by omega)
  have hown : Utf8 c [a, b] := .two (by omega) hb hc
  exact ⟨c, hown.eq ▸ .own c⟩

theorem exists_sequence_three {a b d : UInt8} (ha : 0xE0 ≤ a.toNat ∧ a.toNat < 0xF0)
    (hlegal : isLegalUTF8 [a, b, d] 3 = true) : ∃ c, Sequence [a, b, d] c := by
  have hlegal := (isLegalUTF8_three ha).mp hlegal
  by_cases hlow : b.toNat < 0x80
  · obtain ⟨c, hc⟩ := exists_char (n := 0xAF80 + b.toNat * 64 + d.toNat) (by omega)
    obtain rfl : a = 0xED := UInt8.toNat_inj.mp (by change _ = 237; omega)
    exact ⟨c, .ed hlow (by omega) hc⟩
  · obtain ⟨c, hc⟩ := exists_char
      (n := (a.toNat - 0xE0) * 4096 + (b.toNat - 0x80) * 64 + (d.toNat - 0x80)) (by omega)
    have hown : Utf8 c [a, b, d] := .three (by omega) (by omega) (by omega) hc (by omega)
    exact ⟨c, hown.eq ▸ .own c⟩

theorem exists_sequence_four {a b d e : UInt8} (ha : 0xF0 ≤ a.toNat ∧ a.toNat < 0xF8)
    (hlegal : isLegalUTF8 [a, b, d, e] 4 = true) : ∃ c, Sequence [a, b, d, e] c := by
  have hlegal := (isLegalUTF8_four ha).mp hlegal
  by_cases hlow : b.toNat < 0x80
  · obtain ⟨c, hc⟩ := exists_char (n := 0x7DF80 + b.toNat * 4096 + d.toNat * 64 + e.toNat)
      (by omega)
    obtain rfl : a = 0xF4 := UInt8.toNat_inj.mp (by change _ = 244; omega)
    exact ⟨c, .f4 hlow (by omega) (by omega) hc⟩
  · obtain ⟨c, hc⟩ := exists_char (n := (a.toNat - 0xF0) * 262144 + (b.toNat - 0x80) * 4096 +
      (d.toNat - 0x80) * 64 + (e.toNat - 0x80)) (by omega)
    have hown : Utf8 c [a, b, d, e] :=
      .four (by omega) (by omega) (by omega) (by omega) hc (by omega)
    exact ⟨c, hown.eq ▸ .own c⟩

/-- Legal bytes are a sequence. -/
theorem exists_sequence {a : UInt8} {w : List UInt8} (htrailing : trailingBytesForUTF8 a = w.length)
    (hlegal : isLegalUTF8 (a :: w) (w.length + 1) = true) : ∃ c, Sequence (a :: w) c := by
  rw [trailingBytesForUTF8_eq] at htrailing
  match w with
  | [] =>
    have ha : a.toNat < 192 := by
      rw [List.length_nil] at htrailing
      split_ifs at htrailing
      assumption
    have hlo := (isLegalUTF8_one a).mp hlegal
    obtain ⟨c, hc⟩ := exists_char (n := a.toNat) (by omega)
    have hown : Utf8 c [a] := .one (by omega) hc
    exact ⟨c, hown.eq ▸ .own c⟩
  | [b] =>
    rw [List.length_singleton] at htrailing
    exact exists_sequence_two (by split_ifs at htrailing <;> omega) hlegal
  | [b, d] =>
    simp only [List.length_cons, List.length_nil] at htrailing
    exact exists_sequence_three (by split_ifs at htrailing <;> omega) hlegal
  | [b, d, e] =>
    simp only [List.length_cons, List.length_nil] at htrailing
    exact exists_sequence_four (by split_ifs at htrailing <;> omega) hlegal
  | b :: d :: e :: f :: w =>
    rw [isLegalUTF8_long (by simp only [List.length_cons]; omega)] at hlegal
    exact absurd hlegal Bool.false_ne_true

/-- What is at the head of a source. -/
theorem readUTF8_cases (a : UInt8) (source : List UInt8) :
    source.length < trailingBytesForUTF8 a ∧ readUTF8 a source = .error .sourceExhausted ∨
    trailingBytesForUTF8 a ≤ source.length ∧ readUTF8 a source = .error .sourceIllegal ∨
    ∃ w more c, source = w ++ more ∧ Sequence (a :: w) c := by
  by_cases hshort : source.length < trailingBytesForUTF8 a
  · exact .inl ⟨hshort, if_pos hshort⟩
  · have hle := Nat.le_of_not_lt hshort
    cases hlegal : isLegalUTF8 (a :: source) (trailingBytesForUTF8 a + 1) with
    | false =>
      refine .inr (.inl ⟨hle, ?_⟩)
      rw [readUTF8, if_neg hshort, hlegal]
      rfl
    | true =>
      have hlen : (source.take (trailingBytesForUTF8 a)).length = trailingBytesForUTF8 a :=
        List.length_take_of_le hle
      have hle' : trailingBytesForUTF8 a + 1 ≤ (a :: source.take (trailingBytesForUTF8 a)).length :=
        Nat.succ_le_succ (Nat.le_of_eq hlen.symm)
      have happend := isLegalUTF8_append hle' (source.drop (trailingBytesForUTF8 a))
      rw [List.cons_append, List.take_append_drop, hlegal] at happend
      obtain ⟨c, hc⟩ := exists_sequence hlen.symm (by rw [hlen]; exact happend.symm)
      exact .inr (.inr ⟨_, _, c, (List.take_append_drop _ _).symm, hc⟩)

/-! ## Writing UTF-8 -/

section lengths

variable {ch : UInt32} {a b d e : UInt8}

/-- A byte behind the first one has six bits of the character. -/
theorem trailingByte_eq (h : b.toNat = 0x80 + ch.toNat % 64) :
    ((ch ||| 0x80) &&& 0xBF).toUInt8 = b := by
  have hbits : ∀ m < 256, (m ||| 128) &&& 191 = 128 + m % 64 := by decide +kernel
  rw [← UInt8.toNat_inj, UInt32.toNat_toUInt8, UInt32.toNat_and, UInt32.toNat_or, h]
  change ((ch.toNat ||| 128) &&& 191) % 2 ^ 8 = _
  rw [Nat.and_mod_two_pow, Nat.or_mod_two_pow]
  exact (hbits (ch.toNat % 2 ^ 8) (Nat.mod_lt _ (by decide))).trans (by omega)

/-- The first byte has the mark of the length and the highest bits. -/
theorem firstByte_eq {mark : UInt32} {k : ℕ} (hmark : mark.toNat % 2 ^ k = 0)
    (hlt : ch.toNat < 2 ^ k) (h : a.toNat = mark.toNat + ch.toNat) : (ch ||| mark).toUInt8 = a := by
  have ha := a.toNat_lt
  have hmark' : mark.toNat = 2 ^ k * (mark.toNat / 2 ^ k) :=
    (Nat.mul_div_cancel' (Nat.dvd_of_mod_eq_zero hmark)).symm
  rw [← UInt8.toNat_inj, UInt32.toNat_toUInt8, UInt32.toNat_or, Nat.or_comm, hmark',
    ← Nat.two_pow_add_eq_or_of_lt hlt, ← hmark', ← h, Nat.mod_eq_of_lt ha]

/-- The writing loop takes off six bits at a time. -/
theorem toNat_shift (ch : UInt32) : (ch >>> 6).toNat = ch.toNat / 64 := by
  rw [UInt32.toNat_shiftRight, Nat.shiftRight_eq_div_pow]
  rfl

/-- A single byte is written as it is. -/
theorem writeBytes_one (ha : a.toNat < 0x80) (hch : ch.toNat = a.toNat) :
    writeBytes ch 1 = [a] := by
  change [(ch ||| 0).toUInt8] = [a]
  rw [firstByte_eq (a := a) (k := 7) rfl (by omega) (by change _ = 0 + _; omega)]

theorem writeBytes_two (ha : 0xC0 ≤ a.toNat ∧ a.toNat ≤ 0xDF)
    (hb : 0x80 ≤ b.toNat ∧ b.toNat ≤ 0xBF)
    (hch : ch.toNat = (a.toNat - 0xC0) * 64 + (b.toNat - 0x80)) : writeBytes ch 2 = [a, b] := by
  have h6 := toNat_shift ch
  change [(ch >>> 6 ||| 0xC0).toUInt8, ((ch ||| 0x80) &&& 0xBF).toUInt8] = [a, b]
  rw [trailingByte_eq (b := b) (by omega),
    firstByte_eq (a := a) (k := 5) rfl (by omega) (by change _ = 192 + _; omega)]

theorem writeBytes_three (ha : 0xE0 ≤ a.toNat ∧ a.toNat ≤ 0xEF)
    (hb : 0x80 ≤ b.toNat ∧ b.toNat ≤ 0xBF) (hd : 0x80 ≤ d.toNat ∧ d.toNat ≤ 0xBF)
    (hch : ch.toNat = (a.toNat - 0xE0) * 4096 + (b.toNat - 0x80) * 64 + (d.toNat - 0x80)) :
    writeBytes ch 3 = [a, b, d] := by
  have h6 := toNat_shift ch
  have h12 := toNat_shift (ch >>> 6)
  change [(ch >>> 6 >>> 6 ||| 0xE0).toUInt8, ((ch >>> 6 ||| 0x80) &&& 0xBF).toUInt8,
    ((ch ||| 0x80) &&& 0xBF).toUInt8] = [a, b, d]
  rw [trailingByte_eq (b := b) (by omega), trailingByte_eq (b := d) (by omega),
    firstByte_eq (a := a) (k := 4) rfl (by omega) (by change _ = 224 + _; omega)]

theorem writeBytes_four (ha : 0xF0 ≤ a.toNat ∧ a.toNat ≤ 0xF7)
    (hb : 0x80 ≤ b.toNat ∧ b.toNat ≤ 0xBF) (hd : 0x80 ≤ d.toNat ∧ d.toNat ≤ 0xBF)
    (he : 0x80 ≤ e.toNat ∧ e.toNat ≤ 0xBF)
    (hch : ch.toNat = (a.toNat - 0xF0) * 262144 + (b.toNat - 0x80) * 4096 +
      (d.toNat - 0x80) * 64 + (e.toNat - 0x80)) : writeBytes ch 4 = [a, b, d, e] := by
  have h6 := toNat_shift ch
  have h12 := toNat_shift (ch >>> 6)
  have h18 := toNat_shift (ch >>> 6 >>> 6)
  change [(ch >>> 6 >>> 6 >>> 6 ||| 0xF0).toUInt8, ((ch >>> 6 >>> 6 ||| 0x80) &&& 0xBF).toUInt8,
    ((ch >>> 6 ||| 0x80) &&& 0xBF).toUInt8, ((ch ||| 0x80) &&& 0xBF).toUInt8] = [a, b, d, e]
  rw [trailingByte_eq (b := b) (by omega), trailingByte_eq (b := d) (by omega),
    trailingByte_eq (b := e) (by omega),
    firstByte_eq (a := a) (k := 3) rfl (by omega) (by change _ = 240 + _; omega)]

end lengths

/-- How many bytes a code point takes, by its range. -/
theorem bytesToWrite_eq (ch : UInt32) : bytesToWrite ch = if ch.toNat < 0x80 then 1
    else if ch.toNat < 0x800 then 2 else if ch.toNat < 0x10000 then 3 else 4 := rfl

/-- A character is written in its own bytes. -/
theorem writeBytes_val (c : Char) :
    writeBytes c.val (bytesToWrite c.val) = String.utf8EncodeChar c := by
  have hown := utf8 c
  rw [bytesToWrite_eq]
  generalize String.utf8EncodeChar c = bytes at hown
  cases hown with
  | one ha hc =>
    rw [if_pos (by omega)]
    exact writeBytes_one ha hc
  | two ha hb hc =>
    rw [if_neg (by omega), if_pos (by omega)]
    exact writeBytes_two (by omega) hb hc
  | three ha hb hd hc hlo =>
    rw [if_neg (by omega), if_neg (by omega), if_pos (by omega)]
    exact writeBytes_three ha hb hd hc
  | four ha hb hd he hc hlo =>
    rw [if_neg (by omega), if_neg (by omega), if_neg (by omega)]
    exact writeBytes_four (by omega) hb hd he hc

/-! ## Reading and writing UTF-16 -/

theorem isSurHigh_iff {ch : UInt32} :
    isSurHigh ch = true ↔ 0xD800 ≤ ch.toNat ∧ ch.toNat ≤ 0xDBFF := by
  simp [isSurHigh, UInt32.le_iff_toNat_le]

theorem isSurLow_iff {ch : UInt32} :
    isSurLow ch = true ↔ 0xDC00 ≤ ch.toNat ∧ ch.toNat ≤ 0xDFFF := by
  simp [isSurLow, UInt32.le_iff_toNat_le]

theorem isSurrogate_iff {ch : UInt32} :
    isSurrogate ch = true ↔ 0xD800 ≤ ch.toNat ∧ ch.toNat ≤ 0xDFFF := by
  simp [isSurrogate, UInt32.le_iff_toNat_le]

/-- No character is a surrogate. -/
theorem isSurrogate_val (c : Char) : isSurrogate c.val = false := by
  have hvalid := toNat_valid c
  rw [Bool.eq_false_iff, Ne, isSurrogate_iff]
  omega

/-- Two surrogates are put together. -/
theorem toNat_pair {u v : UInt32} (hu : 0xD800 ≤ u.toNat ∧ u.toNat ≤ 0xDBFF)
    (hv : 0xDC00 ≤ v.toNat ∧ v.toNat ≤ 0xDFFF) :
    (((u - 0xD800) <<< 10) + (v - 0xDC00) + 0x10000).toNat =
      (u.toNat - 0xD800) * 0x400 + (v.toNat - 0xDC00) + 0x10000 := by
  have hu' : (u - 0xD800).toNat = u.toNat - 0xD800 :=
    UInt32.toNat_sub_of_le _ _ (UInt32.le_iff_toNat_le.mpr hu.1)
  have hv' : (v - 0xDC00).toNat = v.toNat - 0xDC00 :=
    UInt32.toNat_sub_of_le _ _ (UInt32.le_iff_toNat_le.mpr hv.1)
  simp only [UInt32.toNat_add, UInt32.toNat_shiftLeft, hu', hv', Nat.shiftLeft_eq,
    UInt32.reduceToNat, Nat.reduceMod, Nat.reducePow]
  omega

/-- A unit outside the surrogates is read alone. -/
theorem readUTF16_one (flags : ConversionFlags) {u : UInt16}
    (hu : u.toNat < 0xD800 ∨ 0xDFFF < u.toNat) (more : List UInt16) :
    readUTF16 flags u more = .ok (u.toUInt32, 0) := by
  have hhigh : ¬ isSurHigh u.toUInt32 = true := by
    rw [isSurHigh_iff, UInt16.toNat_toUInt32]
    omega
  have hlow : isSurLow u.toUInt32 = false := by
    rw [Bool.eq_false_iff, Ne, isSurLow_iff, UInt16.toNat_toUInt32]
    omega
  unfold readUTF16
  dsimp only
  rw [if_neg hhigh, hlow, Bool.and_false, if_neg Bool.false_ne_true]

/-- A high surrogate with a low one behind it is read as a pair. -/
theorem readUTF16_two (flags : ConversionFlags) {u v : UInt16}
    (hu : 0xD800 ≤ u.toNat ∧ u.toNat ≤ 0xDBFF) (hv : 0xDC00 ≤ v.toNat ∧ v.toNat ≤ 0xDFFF)
    (more : List UInt16) : readUTF16 flags u (v :: more) =
      .ok (((u.toUInt32 - 0xD800) <<< 10) + (v.toUInt32 - 0xDC00) + 0x10000, 1) := by
  have hhigh : isSurHigh u.toUInt32 = true := by
    rw [isSurHigh_iff, UInt16.toNat_toUInt32]
    exact hu
  have hlow : isSurLow v.toUInt32 = true := by
    rw [isSurLow_iff, UInt16.toNat_toUInt32]
    exact hv
  unfold readUTF16
  dsimp only
  rw [if_pos hhigh, if_pos hlow]

/-- The units of a character are read as this character. -/
theorem readUTF16_append (flags : ConversionFlags) {c : Char} {u : UInt16} {w : List UInt16}
    (h : utf16 c = u :: w) (more : List UInt16) :
    readUTF16 flags u (w ++ more) = .ok (c.val, w.length) := by
  have hunits := utf16_units c
  rw [h] at hunits
  cases hunits with
  | one hu hc =>
    have hval : u.toUInt32 = c.val := by rw [← UInt32.toNat_inj, UInt16.toNat_toUInt32, hc]
    rw [← hval]
    exact readUTF16_one flags hu more
  | @two _ v hu hv hc =>
    have hval : ((u.toUInt32 - 0xD800) <<< 10) + (v.toUInt32 - 0xDC00) + 0x10000 = c.val := by
      rw [← UInt32.toNat_inj, toNat_pair, UInt16.toNat_toUInt32, UInt16.toNat_toUInt32, hc]
      · rw [UInt16.toNat_toUInt32]
        exact hu
      · rw [UInt16.toNat_toUInt32]
        exact hv
    rw [← hval]
    exact readUTF16_two flags hu hv more

/-- What is at the head of a source. -/
theorem readUTF16_cases (u : UInt16) (source : List UInt16) :
    isSurHigh u.toUInt32 = true ∧ source = [] ∧
      readUTF16 .strictConversion u source = .error .sourceExhausted ∨
    ¬ (isSurHigh u.toUInt32 = true ∧ source = []) ∧
      readUTF16 .strictConversion u source = .error .sourceIllegal ∨
    ∃ w more c, source = w ++ more ∧ utf16 c = u :: w := by
  by_cases hhigh : isSurHigh u.toUInt32 = true
  · have hu := isSurHigh_iff.mp hhigh
    rw [UInt16.toNat_toUInt32] at hu
    cases source with
    | nil =>
      refine .inl ⟨hhigh, rfl, ?_⟩
      unfold readUTF16
      exact if_pos hhigh
    | cons v source =>
      by_cases hlow : isSurLow v.toUInt32 = true
      · have hv := isSurLow_iff.mp hlow
        rw [UInt16.toNat_toUInt32] at hv
        obtain ⟨c, hc⟩ := exists_char
          (n := (u.toNat - 0xD800) * 0x400 + (v.toNat - 0xDC00) + 0x10000) (by omega)
        have hunits : Utf16 c [u, v] := .two hu hv hc
        exact .inr (.inr ⟨[v], source, c, rfl, hunits.eq⟩)
      · refine .inr (.inl ⟨fun hboth => List.cons_ne_nil _ _ hboth.2, ?_⟩)
        unfold readUTF16
        dsimp only
        rw [if_pos hhigh, if_neg hlow, if_pos rfl]
  · by_cases hlow : isSurLow u.toUInt32 = true
    · refine .inr (.inl ⟨fun hboth => hhigh hboth.1, ?_⟩)
      unfold readUTF16
      dsimp only
      rw [if_neg hhigh, hlow]
      rfl
    · have hvalid : u.toNat < 0xD800 ∨ 0xDFFF < u.toNat := by
        rw [isSurHigh_iff, UInt16.toNat_toUInt32] at hhigh
        rw [isSurLow_iff, UInt16.toNat_toUInt32] at hlow
        omega
      have hlt := u.toNat_lt
      obtain ⟨c, hc⟩ := exists_char (n := u.toNat) (by omega)
      have hunits : Utf16 c [u] := .one hvalid hc
      exact .inr (.inr ⟨[], source, c, rfl, hunits.eq⟩)

/-- The code points that take one UTF-16 unit. -/
theorem le_maxBmp_iff {ch : UInt32} : ch ≤ 0xFFFF ↔ ch.toNat ≤ 0xFFFF := UInt32.le_iff_toNat_le

/-- A character up to `UNI_MAX_BMP` is written in one unit. -/
theorem utf16_low {c : Char} (h : c.val ≤ 0xFFFF) : [c.val.toUInt16] = utf16 c := by
  rw [utf16, if_pos (le_maxBmp_iff.mp h)]
  rfl

/-- A character above it is written in two units. -/
theorem utf16_high {c : Char} (h : ¬ c.val ≤ 0xFFFF) : writeSurrogates c.val = utf16 c := by
  rw [le_maxBmp_iff] at h
  have hvalid := toNat_valid c
  have hsub : (c.val - 0x10000).toNat = c.val.toNat - 0x10000 :=
    UInt32.toNat_sub_of_le _ _ (UInt32.le_iff_toNat_le.mpr (Nat.not_le.mp h))
  have hhigh : (((c.val - 0x10000) >>> 10) + 0xD800).toUInt16 =
      .ofNat (0xD800 + (c.val.toNat - 0x10000) / 0x400) := by
    rw [← UInt16.toNat_inj]
    simp only [UInt32.toNat_toUInt16, UInt32.toNat_add, UInt32.toNat_shiftRight, hsub,
      Nat.shiftRight_eq_div_pow, UInt32.reduceToNat, Nat.reduceMod, Nat.reducePow,
      UInt16.toNat_ofNat']
    omega
  have hlow : (((c.val - 0x10000) &&& 0x3FF) + 0xDC00).toUInt16 =
      .ofNat (0xDC00 + (c.val.toNat - 0x10000) % 0x400) := by
    have hand : ((c.val - 0x10000) &&& 0x3FF).toNat = (c.val.toNat - 0x10000) % 0x400 := by
      rw [UInt32.toNat_and, hsub]
      exact Nat.and_two_pow_sub_one_eq_mod _ 10
    rw [← UInt16.toNat_inj]
    simp only [UInt32.toNat_toUInt16, UInt32.toNat_add, hand, UInt32.reduceToNat, Nat.reducePow,
      UInt16.toNat_ofNat']
    omega
  rw [utf16, if_neg h, ← hhigh, ← hlow]
  rfl

end ServerCom.SimpleIni
