import Mathlib.Data.List.Basic

/-!
# Conversions between Unicode encodings

`ConvertUTF.c`. Each of its functions is a loop over the source, whose rounds read a character
and write it, or leave the loop where the character begins.
-/

namespace ServerCom.SimpleIni

/-- `ConversionResult`. -/
inductive ConversionResult where
  /-- All of the source was converted. -/
  | conversionOK
  /-- The source ends in a character. -/
  | sourceExhausted
  /-- The next character has no room in the target. -/
  | targetExhausted
  /-- The source has no next character. -/
  | sourceIllegal
  deriving DecidableEq, Repr

/-- `ConversionFlags`. -/
inductive ConversionFlags where
  /-- A value that is no character is an error. -/
  | strictConversion
  /-- It is converted as it is, or replaced. -/
  | lenientConversion
  deriving DecidableEq, Repr

/-- What a conversion returns, and where it leaves the pointers. -/
structure Conversion (α β : Type*) where
  /-- The result. -/
  result : ConversionResult
  /-- The source behind `*sourceStart`. -/
  source : List α
  /-- What was written up to `*targetStart`. -/
  target : List β
  deriving DecidableEq, Repr

/-- What a round of a loop does. -/
inductive Round (β : Type*) where
  /-- It leaves the loop, with `source` at the head of the round. -/
  | leave (result : ConversionResult)
  /-- It has read so many units behind the first one, and has written these. The result may have
  become `sourceIllegal`. -/
  | next (extra : ℕ) (units : List β) (illegal : Bool)

/-- The loop of a conversion, into a target with room for so many units. -/
def convert {α β : Type*} (round : α → List α → ℕ → Round β) (result : ConversionResult)
    (room : ℕ) : List α → Conversion α β
  | [] => ⟨result, [], []⟩
  | ch :: source => match round ch source room with
    | .leave result => ⟨result, ch :: source, []⟩
    | .next extra units illegal =>
      let rest := convert round (if illegal then .sourceIllegal else result)
        (room - units.length) (source.drop extra)
      { rest with target := units ++ rest.target }
termination_by source => source.length
decreasing_by
  rw [List.length_drop, List.length_cons]
  omega

/-! ## Characters -/

/-- `UNI_REPLACEMENT_CHAR`. -/
def replacementChar : UInt32 := 0xFFFD

/-- From `UNI_SUR_HIGH_START` to `UNI_SUR_HIGH_END`. -/
def isSurHigh (ch : UInt32) : Bool := 0xD800 ≤ ch && ch ≤ 0xDBFF

/-- From `UNI_SUR_LOW_START` to `UNI_SUR_LOW_END`. -/
def isSurLow (ch : UInt32) : Bool := 0xDC00 ≤ ch && ch ≤ 0xDFFF

/-- From `UNI_SUR_HIGH_START` to `UNI_SUR_LOW_END`. -/
def isSurrogate (ch : UInt32) : Bool := 0xD800 ≤ ch && ch ≤ 0xDFFF

/-- `trailingBytesForUTF8`. -/
def trailingBytesForUTF8 (byte : UInt8) : ℕ :=
  (List.replicate 192 0 ++ .replicate 32 1 ++ .replicate 16 2 ++ .replicate 8 3 ++
    .replicate 4 4 ++ .replicate 4 5).getD byte.toNat 0

/-- `offsetsFromUTF8`. -/
def offsetsFromUTF8 (extraBytesToRead : ℕ) : UInt32 :=
  [0x00000000, 0x00003080, 0x000E2080, 0x03C82080, 0xFA082080, 0x82082080].getD
    extraBytesToRead 0

/-- `firstByteMark`. -/
def firstByteMark (bytesToWrite : ℕ) : UInt32 :=
  [0x00, 0x00, 0xC0, 0xE0, 0xF0, 0xF8, 0xFC].getD bytesToWrite 0

/-- `isLegalUTF8`, on a source of at least this length. -/
def isLegalUTF8 (source : List UInt8) (length : ℕ) : Bool :=
  let first := source.getD 0 0
  let tail (a : UInt8) : Bool := 0x80 ≤ a && a ≤ 0xBF
  let second (a : UInt8) : Bool := a ≤ 0xBF &&
    if first = 0xE0 then 0xA0 ≤ a
    else if first = 0xED then a ≤ 0x9F
    else if first = 0xF0 then 0x90 ≤ a
    else if first = 0xF4 then a ≤ 0x8F
    else 0x80 ≤ a
  1 ≤ length && length ≤ 4 && (length < 4 || tail (source.getD 3 0)) &&
    (length < 3 || tail (source.getD 2 0)) && (length < 2 || second (source.getD 1 0)) &&
    !(0x80 ≤ first && first < 0xC2) && first ≤ 0xF4

/-- The switch over `extraBytesToRead`, before the offset is subtracted. -/
def readBytes (bytes : List UInt8) : UInt32 :=
  bytes.foldl (fun ch byte => (ch <<< 6) + byte.toUInt32) 0

/-- The number of bytes of a character. -/
def bytesToWrite (ch : UInt32) : ℕ :=
  if ch < 0x80 then 1 else if ch < 0x800 then 2 else if ch < 0x10000 then 3 else 4

/-- The switch over `bytesToWrite`, which writes the last byte first, up to the first byte. -/
def writeTrailing : ℕ → UInt32 → List UInt8 → UInt32 × List UInt8
  | 0, ch, target => (ch, target)
  | n + 1, ch, target => writeTrailing n (ch >>> 6) (((ch ||| 0x80) &&& 0xBF).toUInt8 :: target)

/-- The switch over `bytesToWrite`. -/
def writeBytes (ch : UInt32) (bytesToWrite : ℕ) : List UInt8 :=
  let (ch, target) := writeTrailing (bytesToWrite - 1) ch []
  (ch ||| firstByteMark bytesToWrite).toUInt8 :: target

/-- The two units of a character above `UNI_MAX_BMP`. -/
def writeSurrogates (ch : UInt32) : List UInt16 :=
  let ch := ch - 0x10000
  [((ch >>> 10) + 0xD800).toUInt16, ((ch &&& 0x3FF) + 0xDC00).toUInt16]

/-- The character at the head of a UTF-8 source and the number of bytes behind its first one, or
how the loop ends. -/
def readUTF8 (byte : UInt8) (source : List UInt8) : Except ConversionResult (UInt32 × ℕ) :=
  let extraBytesToRead := trailingBytesForUTF8 byte
  if source.length < extraBytesToRead then .error .sourceExhausted
  else if !isLegalUTF8 (byte :: source) (extraBytesToRead + 1) then .error .sourceIllegal
  else .ok (readBytes (byte :: source.take extraBytesToRead) - offsetsFromUTF8 extraBytesToRead,
    extraBytesToRead)

/-- The character at the head of a UTF-16 source and the number of units behind its first one,
or how the loop ends. -/
def readUTF16 (flags : ConversionFlags) (unit : UInt16) (source : List UInt16) :
    Except ConversionResult (UInt32 × ℕ) :=
  let ch := unit.toUInt32
  if isSurHigh ch then match source with
    | [] => .error .sourceExhausted
    | next :: _ =>
      let ch2 := next.toUInt32
      if isSurLow ch2 then .ok (((ch - 0xD800) <<< 10) + (ch2 - 0xDC00) + 0x10000, 1)
      else if flags = .strictConversion then .error .sourceIllegal
      else .ok (ch, 0)
  else if flags = .strictConversion && isSurLow ch then .error .sourceIllegal
  else .ok (ch, 0)

/-! ## Conversions -/

/-- Units are written if there is room for them. -/
def Round.write {β : Type*} (extra : ℕ) (units : List β) (illegal : Bool) (room : ℕ) : Round β :=
  if room < units.length then .leave .targetExhausted else .next extra units illegal

/-- A round of `ConvertUTF32toUTF16`. -/
def roundUTF32toUTF16 (flags : ConversionFlags) (ch : UInt32) (_ : List UInt32) (room : ℕ) :
    Round UInt16 :=
  if room = 0 then .leave .targetExhausted
  else if ch ≤ 0xFFFF then
    if isSurrogate ch then
      if flags = .strictConversion then .leave .sourceIllegal
      else .next 0 [replacementChar.toUInt16] false
    else .next 0 [ch.toUInt16] false
  else if 0x10FFFF < ch then
    if flags = .strictConversion then .next 0 [] true
    else .next 0 [replacementChar.toUInt16] false
  else .write 0 (writeSurrogates ch) false room

/-- `ConvertUTF32toUTF16`. -/
def convertUTF32toUTF16 (source : List UInt32) (room : ℕ) (flags : ConversionFlags) :
    Conversion UInt32 UInt16 :=
  convert (roundUTF32toUTF16 flags) .conversionOK room source

/-- A round of `ConvertUTF16toUTF32`. -/
def roundUTF16toUTF32 (flags : ConversionFlags) (unit : UInt16) (source : List UInt16) (room : ℕ) :
    Round UInt32 :=
  match readUTF16 flags unit source with
  | .error result => .leave result
  | .ok (ch, extra) => .write extra [ch] false room

/-- `ConvertUTF16toUTF32`. -/
def convertUTF16toUTF32 (source : List UInt16) (room : ℕ) (flags : ConversionFlags) :
    Conversion UInt16 UInt32 :=
  convert (roundUTF16toUTF32 flags) .conversionOK room source

/-- A round of `ConvertUTF16toUTF8`. -/
def roundUTF16toUTF8 (flags : ConversionFlags) (unit : UInt16) (source : List UInt16) (room : ℕ) :
    Round UInt8 :=
  match readUTF16 flags unit source with
  | .error result => .leave result
  | .ok (ch, extra) =>
    if ch < 0x110000 then .write extra (writeBytes ch (bytesToWrite ch)) false room
    else .write extra (writeBytes replacementChar 3) false room

/-- `ConvertUTF16toUTF8`. -/
def convertUTF16toUTF8 (source : List UInt16) (room : ℕ) (flags : ConversionFlags) :
    Conversion UInt16 UInt8 :=
  convert (roundUTF16toUTF8 flags) .conversionOK room source

/-- A round of `ConvertUTF8toUTF16`. -/
def roundUTF8toUTF16 (flags : ConversionFlags) (byte : UInt8) (source : List UInt8) (room : ℕ) :
    Round UInt16 :=
  match readUTF8 byte source with
  | .error result => .leave result
  | .ok (ch, extra) =>
    if room = 0 then .leave .targetExhausted
    else if ch ≤ 0xFFFF then
      if isSurrogate ch then
        if flags = .strictConversion then .leave .sourceIllegal
        else .next extra [replacementChar.toUInt16] false
      else .next extra [ch.toUInt16] false
    else if 0x10FFFF < ch then
      if flags = .strictConversion then .leave .sourceIllegal
      else .next extra [replacementChar.toUInt16] false
    else .write extra (writeSurrogates ch) false room

/-- `ConvertUTF8toUTF16`. -/
def convertUTF8toUTF16 (source : List UInt8) (room : ℕ) (flags : ConversionFlags) :
    Conversion UInt8 UInt16 :=
  convert (roundUTF8toUTF16 flags) .conversionOK room source

/-- A round of `ConvertUTF32toUTF8`. -/
def roundUTF32toUTF8 (flags : ConversionFlags) (ch : UInt32) (_ : List UInt32) (room : ℕ) :
    Round UInt8 :=
  if flags = .strictConversion && isSurrogate ch then .leave .sourceIllegal
  else if ch ≤ 0x10FFFF then .write 0 (writeBytes ch (bytesToWrite ch)) false room
  else .write 0 (writeBytes replacementChar 3) true room

/-- `ConvertUTF32toUTF8`. -/
def convertUTF32toUTF8 (source : List UInt32) (room : ℕ) (flags : ConversionFlags) :
    Conversion UInt32 UInt8 :=
  convert (roundUTF32toUTF8 flags) .conversionOK room source

/-- A round of `ConvertUTF8toUTF32`. -/
def roundUTF8toUTF32 (flags : ConversionFlags) (byte : UInt8) (source : List UInt8) (room : ℕ) :
    Round UInt32 :=
  match readUTF8 byte source with
  | .error result => .leave result
  | .ok (ch, extra) =>
    if room = 0 then .leave .targetExhausted
    else if ch ≤ 0x10FFFF then
      if isSurrogate ch then
        if flags = .strictConversion then .leave .sourceIllegal
        else .next extra [replacementChar] false
      else .next extra [ch] false
    else .next extra [replacementChar] true

/-- `ConvertUTF8toUTF32`. -/
def convertUTF8toUTF32 (source : List UInt8) (room : ℕ) (flags : ConversionFlags) :
    Conversion UInt8 UInt32 :=
  convert (roundUTF8toUTF32 flags) .conversionOK room source

end ServerCom.SimpleIni
