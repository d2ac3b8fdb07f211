import ServerCom.SimpleIni.Interpretation.Conversions

/-!
# What the functions read

Which words the six functions find in a source, and what they write for a character. A UTF-8
source is read whatever the flags are. A UTF-16 source is read strictly or leniently; the
characters of a text are read in both ways.
-/

namespace ServerCom.SimpleIni

open Unicode

variable {α β : Type*} {flags : ConversionFlags}

/-! ## Words -/

/-- A character in UTF-32. -/
def utf32 (c : Char) : List UInt32 := [c.val]

/-- A UTF-8 source that ends before the last byte that its first one calls for. -/
def shortUTF8 (byte : UInt8) (source : List UInt8) : Bool :=
  source.length < trailingBytesForUTF8 byte

/-- A UTF-16 source that ends behind a high surrogate. -/
def shortUTF16 (unit : UInt16) (source : List UInt16) : Bool :=
  isSurHigh unit.toUInt32 && source.isEmpty

/-- No character has an empty sequence. -/
theorem Sequence.ne_nil {w : List UInt8} {c : Char} (h : Sequence w c) : w ≠ [] := by
  cases h with
  | own => exact String.utf8EncodeChar_ne_nil
  | ed => exact List.cons_ne_nil _ _
  | f4 => exact List.cons_ne_nil _ _

/-- A sequence cut off by the end of the source is reported as exhausted. -/
theorem readUTF8_short {byte : UInt8} {source : List UInt8} (h : shortUTF8 byte source = true) :
    readUTF8 byte source = .error .sourceExhausted := if_pos (of_decide_eq_true h)

/-- Bytes that are neither a character nor cut off are illegal. -/
theorem readUTF8_refused {byte : UInt8} {source : List UInt8}
    (hnone : ∀ w c, Sequence w c → ¬ w <+: byte :: source)
    (hshort : shortUTF8 byte source = false) :
    readUTF8 byte source = .error .sourceIllegal := by
  rcases readUTF8_cases byte source with ⟨hlt, -⟩ | ⟨-, hread⟩ | ⟨w, more, c, hsource, hw⟩
  · exact absurd hlt (of_decide_eq_false hshort)
  · exact hread
  · exact absurd ⟨more, by rw [hsource, List.cons_append]⟩ (hnone _ c hw)

/-- A source is cut off only behind a high surrogate. -/
theorem shortUTF16_iff {unit : UInt16} {source : List UInt16} :
    shortUTF16 unit source = true ↔ isSurHigh unit.toUInt32 = true ∧ source = [] := by
  rw [shortUTF16, Bool.and_eq_true, List.isEmpty_iff]

/-- A high surrogate at the end of the source is reported as exhausted. -/
theorem readUTF16_short {unit : UInt16} {source : List UInt16}
    (h : shortUTF16 unit source = true) :
    readUTF16 flags unit source = .error .sourceExhausted := by
  obtain ⟨hhigh, rfl⟩ := shortUTF16_iff.mp h
  unfold readUTF16
  exact if_pos hhigh

/-- Units that are neither a character nor cut off are illegal when strict. -/
theorem readUTF16_refused {unit : UInt16} {source : List UInt16}
    (hnone : ∀ w c, utf16 c = w → ¬ w <+: unit :: source)
    (hshort : shortUTF16 unit source = false) :
    readUTF16 .strictConversion unit source = .error .sourceIllegal := by
  rcases readUTF16_cases unit source with ⟨hhigh, hnil, -⟩ | ⟨-, hread⟩ | ⟨w, more, c, hsource, hw⟩
  · exact absurd (shortUTF16_iff.mpr ⟨hhigh, hnil⟩) (Bool.eq_false_iff.mp hshort)
  · exact hread
  · exact absurd ⟨more, by rw [hsource, List.cons_append]⟩ (hnone _ c hw)

/-! ## Writing a character -/

theorem Round.write_of_le {extra room : ℕ} {units : List β} {illegal : Bool}
    (h : units.length ≤ room) :
    Round.write extra units illegal room = .next extra units illegal := if_neg (Nat.not_lt.mpr h)

theorem Round.write_of_lt {extra room : ℕ} {units : List β} {illegal : Bool}
    (h : room < units.length) :
    Round.write extra units illegal room = .leave .targetExhausted := if_pos h

/-- Every character takes a UTF-16 unit. -/
theorem length_utf16_pos (c : Char) : 0 < (utf16 c).length :=
  List.length_pos_of_ne_nil (utf16_ne_nil c)

/-- No character is above the Unicode range. -/
theorem val_le (c : Char) : c.val ≤ 0x10FFFF := by
  have hvalid := toNat_valid c
  rw [UInt32.le_iff_toNat_le]
  change c.val.toNat ≤ 0x10FFFF
  omega

/-- A character read from UTF-8 is written as UTF-16. -/
theorem round8to16 {byte : UInt8} {source : List UInt8} {c : Char} {extra : ℕ}
    (h : readUTF8 byte source = .ok (c.val, extra)) (room : ℕ) :
    roundUTF8toUTF16 flags byte source room = .write extra (utf16 c) false room := by
  unfold roundUTF8toUTF16
  rw [h]
  dsimp only
  by_cases hroom : room = 0
  · rw [if_pos hroom, Round.write_of_lt (hroom ▸ length_utf16_pos c)]
  · rw [if_neg hroom]
    by_cases hlow : c.val ≤ 0xFFFF
    · rw [if_pos hlow, isSurrogate_val, if_neg Bool.false_ne_true, utf16_low hlow,
        Round.write_of_le (by rw [← utf16_low hlow, List.length_singleton]; omega)]
    · rw [if_neg hlow, if_neg (UInt32.not_lt.mpr (val_le c)), utf16_high hlow]

/-- A character read from UTF-8 is written as UTF-32. -/
theorem round8to32 {byte : UInt8} {source : List UInt8} {c : Char} {extra : ℕ}
    (h : readUTF8 byte source = .ok (c.val, extra)) (room : ℕ) :
    roundUTF8toUTF32 flags byte source room = .write extra (utf32 c) false room := by
  unfold roundUTF8toUTF32
  rw [h]
  dsimp only
  by_cases hroom : room = 0
  · rw [if_pos hroom, Round.write_of_lt (hroom ▸ Nat.one_pos)]
  · rw [if_neg hroom, if_pos (val_le c), isSurrogate_val, if_neg Bool.false_ne_true,
      Round.write_of_le (Nat.one_le_iff_ne_zero.mpr hroom)]
    rfl

/-- A character read from UTF-16 is written as UTF-8. -/
theorem round16to8 {unit : UInt16} {source : List UInt16} {c : Char} {extra : ℕ}
    (h : readUTF16 flags unit source = .ok (c.val, extra)) (room : ℕ) :
    roundUTF16toUTF8 flags unit source room =
      .write extra (String.utf8EncodeChar c) false room := by
  have hlt : c.val < 0x110000 := by
    have hvalid := toNat_valid c
    rw [UInt32.lt_iff_toNat_lt]
    change c.val.toNat < 0x110000
    omega
  unfold roundUTF16toUTF8
  rw [h]
  dsimp only
  rw [if_pos hlt, writeBytes_val]

/-- A character read from UTF-16 is written as UTF-32. -/
theorem round16to32 {unit : UInt16} {source : List UInt16} {c : Char} {extra : ℕ}
    (h : readUTF16 flags unit source = .ok (c.val, extra)) (room : ℕ) :
    roundUTF16toUTF32 flags unit source room = .write extra (utf32 c) false room := by
  unfold roundUTF16toUTF32
  rw [h]
  rfl

/-- A character is written from UTF-32 as UTF-8. -/
theorem round32to8 (c : Char) (source : List UInt32) (room : ℕ) :
    roundUTF32toUTF8 flags c.val source room =
      .write 0 (String.utf8EncodeChar c) false room := by
  unfold roundUTF32toUTF8
  rw [isSurrogate_val, Bool.and_false, if_neg Bool.false_ne_true, if_pos (val_le c),
    writeBytes_val]

/-- A character is written from UTF-32 as UTF-16. -/
theorem round32to16 (c : Char) (source : List UInt32) (room : ℕ) :
    roundUTF32toUTF16 flags c.val source room = .write 0 (utf16 c) false room := by
  unfold roundUTF32toUTF16
  by_cases hroom : room = 0
  · rw [if_pos hroom, Round.write_of_lt (hroom ▸ length_utf16_pos c)]
  · rw [if_neg hroom]
    by_cases hlow : c.val ≤ 0xFFFF
    · rw [if_pos hlow, isSurrogate_val, if_neg Bool.false_ne_true, utf16_low hlow,
        Round.write_of_le (by rw [← utf16_low hlow, List.length_singleton]; omega)]
    · rw [if_neg hlow, if_neg (UInt32.not_lt.mpr (val_le c)), utf16_high hlow]

/-! ## Rounds read words -/

/-- UTF-8 to UTF-16, any flags. -/
theorem converts8to16 (flags : ConversionFlags) :
    Converts Sequence shortUTF8 utf16 (roundUTF8toUTF16 flags) where
  ne_nil := Sequence.ne_nil
  word h more room := round8to16 (h.read more) room
  exhausted h _ := by rw [roundUTF8toUTF16, readUTF8_short h]
  refused hnone hshort _ := by rw [roundUTF8toUTF16, readUTF8_refused hnone hshort]

/-- UTF-8 to UTF-32, any flags. -/
theorem converts8to32 (flags : ConversionFlags) :
    Converts Sequence shortUTF8 utf32 (roundUTF8toUTF32 flags) where
  ne_nil := Sequence.ne_nil
  word h more room := round8to32 (h.read more) room
  exhausted h _ := by rw [roundUTF8toUTF32, readUTF8_short h]
  refused hnone hshort _ := by rw [roundUTF8toUTF32, readUTF8_refused hnone hshort]

theorem writes16to8 (flags : ConversionFlags) :
    Writes (fun w c => utf16 c = w) String.utf8EncodeChar (roundUTF16toUTF8 flags) where
  ne_nil {_ c} h := h ▸ utf16_ne_nil c
  word h more room := round16to8 (readUTF16_append flags h more) room

theorem writes16to32 (flags : ConversionFlags) :
    Writes (fun w c => utf16 c = w) utf32 (roundUTF16toUTF32 flags) where
  ne_nil {_ c} h := h ▸ utf16_ne_nil c
  word h more room := round16to32 (readUTF16_append flags h more) room

/-- UTF-16 to UTF-8 when strict, with what is refused. -/
theorem converts16to8 :
    Converts (fun w c => utf16 c = w) shortUTF16 String.utf8EncodeChar
      (roundUTF16toUTF8 .strictConversion) where
  toWrites := writes16to8 .strictConversion
  exhausted h _ := by rw [roundUTF16toUTF8, readUTF16_short h]
  refused hnone hshort _ := by rw [roundUTF16toUTF8, readUTF16_refused hnone hshort]

/-- UTF-16 to UTF-32 when strict, with what is refused. -/
theorem converts16to32 :
    Converts (fun w c => utf16 c = w) shortUTF16 utf32
      (roundUTF16toUTF32 .strictConversion) where
  toWrites := writes16to32 .strictConversion
  exhausted h _ := by rw [roundUTF16toUTF32, readUTF16_short h]
  refused hnone hshort _ := by rw [roundUTF16toUTF32, readUTF16_refused hnone hshort]

theorem writes32to8 (flags : ConversionFlags) :
    Writes (fun w c => utf32 c = w) String.utf8EncodeChar (roundUTF32toUTF8 flags) where
  ne_nil h := h ▸ List.cons_ne_nil _ _
  word {_ _ c} h more room := by
    obtain ⟨rfl, rfl⟩ := List.cons.inj h
    exact round32to8 c more room

theorem writes32to16 (flags : ConversionFlags) :
    Writes (fun w c => utf32 c = w) utf16 (roundUTF32toUTF16 flags) where
  ne_nil h := h ▸ List.cons_ne_nil _ _
  word {_ _ c} h more room := by
    obtain ⟨rfl, rfl⟩ := List.cons.inj h
    exact round32to16 c more room

end ServerCom.SimpleIni
