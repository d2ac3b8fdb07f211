import ServerCom.SimpleIni.Correctness.Encodings
import ServerCom.SimpleIni.Native.ConvertW

/-!
# Wide strings come back from the store

The sizes that are asked for always suffice. A string that is stored and loaded again is the same
if it is a text; with a surrogate in it, it is stored but not loaded. What is loaded from a store
is stored again as the bytes of its characters.
-/

namespace ServerCom.SimpleIni

open Unicode

variable {units : List UInt32} {ch : UInt32} {n room : ℕ} {result : ConversionResult}
  {parts : List (List UInt8 × Char)}

/-! ## Storing -/

/-- What is stored for a unit. -/
def storedBytes (ch : UInt32) : List UInt8 :=
  if ch ≤ 0x10FFFF then writeBytes ch (bytesToWrite ch) else writeBytes replacementChar 3

/-- The result behind these units. -/
def storedResult (result : ConversionResult) (units : List UInt32) : ConversionResult :=
  if units.all (· ≤ 0x10FFFF) then result else .sourceIllegal

/-- The loop writes the trailing bytes it is asked for. -/
theorem length_writeTrailing (n : ℕ) (ch : UInt32) (target : List UInt8) :
    (writeTrailing n ch target).2.length = n + target.length := by
  induction n generalizing ch target with
  | zero => exact (Nat.zero_add _).symm
  | succ n ih =>
    rw [writeTrailing, ih, List.length_cons]
    omega

/-- A unit is stored in at most four bytes. -/
theorem length_storedBytes_le (ch : UInt32) : (storedBytes ch).length ≤ 4 := by
  have hlen : ∀ ch n, (writeBytes ch n).length = n - 1 + 1 := by
    intro ch n
    rw [writeBytes, List.length_cons, length_writeTrailing, List.length_nil, Nat.add_zero]
  rw [storedBytes]
  split_ifs
  · rw [hlen, bytesToWrite_eq]
    split_ifs <;> omega
  · rw [hlen]
    omega

/-- The size asked for, six bytes a unit, always has room. -/
theorem length_stored_le (units : List UInt32) :
    ((units ++ [0]).flatMap storedBytes).length ≤ 6 * units.length + 1 := by
  induction units with
  | nil => decide
  | cons ch units ih =>
    have hle := length_storedBytes_le ch
    rw [List.cons_append, List.flatMap_cons, List.length_append, List.length_cons]
    omega

/-- An illegal unit is remembered to the end and does not stop the conversion. -/
theorem storedResult_cons (result : ConversionResult) (ch : UInt32) (units : List UInt32) :
    storedResult (if !decide (ch ≤ 0x10FFFF) then .sourceIllegal else result) units =
      storedResult result (ch :: units) := by
  rw [storedResult, storedResult, List.all_cons]
  cases decide (ch ≤ 0x10FFFF) with
  | true => rw [Bool.not_true, if_neg Bool.false_ne_true, Bool.true_and]
  | false => rw [Bool.not_false, if_pos rfl, Bool.false_and, if_neg Bool.false_ne_true, ite_self]

/-- A round of storing writes the bytes of its unit, legal or not. -/
theorem roundStore (ch : UInt32) (source : List UInt32) (room : ℕ) :
    roundUTF32toUTF8 .lenientConversion ch source room =
      .write 0 (storedBytes ch) (!decide (ch ≤ 0x10FFFF)) room := by
  unfold roundUTF32toUTF8 storedBytes
  rw [decide_eq_false (by decide), Bool.false_and, if_neg Bool.false_ne_true]
  split_ifs with h
  · rw [decide_eq_true h]
    rfl
  · rw [decide_eq_false h]
    rfl

/-- With enough room every unit is stored. -/
theorem convert_store (h : (units.flatMap storedBytes).length ≤ room) :
    convert (roundUTF32toUTF8 .lenientConversion) result room units =
      ⟨storedResult result units, [], units.flatMap storedBytes⟩ := by
  induction units generalizing room result with
  | nil => exact convert_nil
  | cons ch units ih =>
    rw [List.flatMap_cons, List.length_append] at h
    have hround := roundStore ch units room
    rw [Round.write_of_le (by omega)] at hround
    rw [convert_next hround, List.drop_zero, ih (by omega), storedResult_cons, List.flatMap_cons]

/-- With the size it asks for, storing converts every unit and reports whether all were legal. -/
theorem convertToStore_eq (data : WStr) : convertToStore data (sizeToStore data) =
    (data.units.all (· ≤ 0x10FFFF), data.units.flatMap storedBytes ++ [0]) := by
  have hall : ∀ units : List UInt32, decide (storedResult .conversionOK (units ++ [0]) =
      .conversionOK) = units.all (· ≤ 0x10FFFF) := by
    intro units
    rw [storedResult, List.all_append]
    cases units.all (· ≤ 0x10FFFF) <;> rfl
  unfold convertToStore convertUTF32toUTF8
  rw [sizeToStore, convert_store (length_stored_le data.units)]
  dsimp only
  rw [hall, List.flatMap_append]
  rfl

/-! ## Loading -/

/-- A character is stored as its UTF-8. -/
theorem storedBytes_val (c : Char) : storedBytes c.val = String.utf8EncodeChar c := by
  rw [storedBytes, if_pos (val_le c), writeBytes_val]

/-- A surrogate is stored in three bytes, which are not read. -/
theorem readUTF8_surrogate (h : isSurrogate ch = true) : ∃ a w, storedBytes ch = a :: w ∧
    ∀ more, readUTF8 a (w ++ more) = .error .sourceIllegal := by
  have hch := isSurrogate_iff.mp h
  obtain ⟨b, -, hb⟩ := exists_byte (n := 0x80 + ch.toNat / 64 % 64) (by omega)
  obtain ⟨d, -, hd⟩ := exists_byte (n := 0x80 + ch.toNat % 64) (by omega)
  have hbytes : storedBytes ch = [0xED, b, d] := by
    have hle : ch ≤ 0x10FFFF := by
      rw [UInt32.le_iff_toNat_le]
      change ch.toNat ≤ 0x10FFFF
      omega
    rw [storedBytes, if_pos hle, bytesToWrite_eq, if_neg (by omega), if_neg (by omega),
      if_pos (by omega)]
    have ha : (0xED : UInt8).toNat = 237 := rfl
    exact writeBytes_three (by omega) (by omega) (by omega) (by omega)
  refine ⟨0xED, [b, d], hbytes, fun more => ?_⟩
  have hlegal : isLegalUTF8 [0xED, b, d] 3 = false := by
    rw [Bool.eq_false_iff, Ne, isLegalUTF8_three (by decide)]
    rintro ⟨-, -, hed, -⟩
    have hle := hed (by decide)
    omega
  have hlen : 3 ≤ [0xED, b, d].length := Nat.le_refl 3
  have happend := isLegalUTF8_append hlen more
  rw [hlegal] at happend
  have htrailing : trailingBytesForUTF8 0xED = 2 := by
    rw [trailingBytesForUTF8_eq]
    rfl
  rw [readUTF8, htrailing, if_neg (by simp only [List.length_append, List.length_cons]; omega),
    ← List.cons_append, happend]
  rfl

/-- The units of a text have room where its bytes are. -/
theorem length_written_le (hparts : ∀ p ∈ parts, Sequence p.1 p.2) :
    (written utf32 parts).length ≤ (unread parts).length := by
  induction parts with
  | nil => exact Nat.le_refl 0
  | cons p parts ih =>
    obtain ⟨hp, hparts⟩ := List.forall_mem_cons.mp hparts
    have hpos := List.length_pos_of_ne_nil hp.ne_nil
    have hle := ih hparts
    rw [written_cons, unread_cons, List.length_append, List.length_append, utf32,
      List.length_singleton]
    omega

/-- At the end of the input the conversion is complete. -/
theorem convertStore_nil (room : ℕ) :
    convert (roundUTF8toUTF32 .lenientConversion) .conversionOK room [] =
      ⟨.conversionOK, [], []⟩ := convert_nil

/-- Sequences are loaded up to a place where the loop ends. -/
theorem convertFromStore_parts (hparts : ∀ p ∈ parts, Sequence p.1 p.2) {rest : List UInt8}
    (hrest : ∀ room, convert (roundUTF8toUTF32 .lenientConversion) .conversionOK room rest =
      ⟨result, rest, []⟩) :
    convertFromStore (unread parts ++ rest) (sizeFromStore (unread parts ++ rest)) =
      (decide (result = .conversionOK), written utf32 parts) := by
  have hroom : (written utf32 parts).length ≤ sizeFromStore (unread parts ++ rest) := by
    have hle := length_written_le hparts
    rw [sizeFromStore, List.length_append]
    omega
  unfold convertFromStore convertUTF8toUTF32
  rw [(converts8to32 .lenientConversion).convert_parts hparts hroom, hrest]
  dsimp only
  rw [List.append_nil]

/-- The bytes of a text are loaded up to a place where the loop ends. -/
theorem convertFromStore_text (text : List Char) {rest : List UInt8}
    (hrest : ∀ room, convert (roundUTF8toUTF32 .lenientConversion) .conversionOK room rest =
      ⟨result, rest, []⟩) :
    convertFromStore (text.flatMap String.utf8EncodeChar ++ rest)
        (sizeFromStore (text.flatMap String.utf8EncodeChar ++ rest)) =
      (decide (result = .conversionOK), text.flatMap utf32) := by
  have hparts : ∀ p ∈ ofText String.utf8EncodeChar text, Sequence p.1 p.2 := by
    intro p hp
    obtain ⟨c, -, rfl⟩ := List.mem_map.mp hp
    exact .own c
  rw [← unread_ofText, ← written_ofText]
  exact convertFromStore_parts hparts hrest

/-- Units that can be stored are a text, or one up to a surrogate. -/
theorem text_or_surrogate (h : units.all (· ≤ 0x10FFFF) = true) :
    (∃ text : List Char, units = text.flatMap utf32) ∨
    ∃ (text : List Char) (ch : UInt32) (back : List UInt32),
      units = text.flatMap utf32 ++ ch :: back ∧ isSurrogate ch = true := by
  induction units with
  | nil => exact .inl ⟨[], rfl⟩
  | cons ch units ih =>
    rw [List.all_cons, Bool.and_eq_true, decide_eq_true_eq, UInt32.le_iff_toNat_le] at h
    obtain ⟨hle, hall⟩ := h
    by_cases hsur : isSurrogate ch = true
    · exact .inr ⟨[], ch, units, rfl, hsur⟩
    · have hvalid : ch.toNat < 0xD800 ∨ 0xDFFF < ch.toNat ∧ ch.toNat < 0x110000 := by
        rw [isSurrogate_iff] at hsur
        change ch.toNat ≤ 1114111 at hle
        omega
      obtain ⟨c, hc⟩ := exists_char hvalid
      obtain rfl := UInt32.toNat_inj.mp hc
      rcases ih hall with ⟨text, rfl⟩ | ⟨text, ch, back, rfl, hch⟩
      · exact .inl ⟨c :: text, rfl⟩
      · exact .inr ⟨c :: text, ch, back, rfl, hch⟩

/-- No surrogate is among the units of a text. -/
theorem notMem_surrogate (text : List Char) (h : isSurrogate ch = true) :
    ch ∉ text.flatMap utf32 := by
  intro hmem
  obtain ⟨c, -, hc⟩ := List.mem_flatMap.mp hmem
  obtain rfl := List.mem_singleton.mp hc
  rw [isSurrogate_val] at h
  exact Bool.false_ne_true h

/-- A text is stored as its UTF-8. -/
theorem storedBytes_text (text : List Char) :
    (text.flatMap utf32).flatMap storedBytes = text.flatMap String.utf8EncodeChar := by
  induction text with
  | nil => rfl
  | cons c text ih =>
    rw [List.flatMap_cons, List.flatMap_append, ih, utf32, List.flatMap_singleton,
      storedBytes_val, List.flatMap_cons]

/-- All units of a text are legal. -/
theorem text_all_le (text : List Char) : (text.flatMap utf32).all (· ≤ 0x10FFFF) = true := by
  rw [List.all_eq_true]
  intro ch hch
  obtain ⟨c, -, hc⟩ := List.mem_flatMap.mp hch
  obtain rfl := List.mem_singleton.mp hc
  exact decide_eq_true (val_le c)

/-- The stored bytes of a text are read back as the text. -/
theorem load_text (text : List Char) :
    convertFromStore (text.flatMap String.utf8EncodeChar ++ [0])
        (sizeFromStore (text.flatMap String.utf8EncodeChar ++ [0])) =
      (true, text.flatMap utf32 ++ [0]) := by
  have hload := convertFromStore_text (text ++ [Char.ofNat 0]) convertStore_nil
  rw [List.append_nil, List.flatMap_append, List.flatMap_append] at hload
  exact hload

/-- A surrogate ends the loop. -/
theorem load_surrogate (text : List Char) (h : isSurrogate ch = true) (more : List UInt8) :
    (convertFromStore (text.flatMap String.utf8EncodeChar ++ (storedBytes ch ++ more))
      (sizeFromStore (text.flatMap String.utf8EncodeChar ++ (storedBytes ch ++ more)))).1 =
      false := by
  obtain ⟨a, w, hbytes, hread⟩ := readUTF8_surrogate h
  rw [hbytes]
  have hround : ∀ room, roundUTF8toUTF32 .lenientConversion a (w ++ more) room =
      .leave .sourceIllegal := by
    intro room
    rw [roundUTF8toUTF32, hread]
  rw [List.cons_append, convertFromStore_text text fun room => convert_leave (hround room)]
  rfl

/-! ## There and back -/

/-- A string is stored if its units are small enough. It is loaded again if it has no surrogates,
and then it is the same. -/
theorem stored_loaded (data : WStr) :
    let stored := convertToStore data (sizeToStore data)
    let loaded := convertFromStore stored.2 (sizeFromStore stored.2)
    (stored.1 = true ↔ ∀ ch ∈ data.units, ch ≤ 0x10FFFF) ∧
    (stored.1 = true ∧ loaded.1 = true ↔
      ∀ ch ∈ data.units, ch ≤ 0x10FFFF ∧ isSurrogate ch = false) ∧
    (stored.1 = true ∧ loaded = (true, data.units ++ [0]) ↔
      ∀ ch ∈ data.units, ch ≤ 0x10FFFF ∧ isSurrogate ch = false) := by
  intro stored loaded
  have hstored : stored = _ := convertToStore_eq data
  have hloaded : loaded = convertFromStore stored.2 (sizeFromStore stored.2) := rfl
  clear_value stored loaded
  subst hstored
  dsimp only at hloaded ⊢
  have hle : data.units.all (· ≤ 0x10FFFF) = true ↔ ∀ ch ∈ data.units, ch ≤ 0x10FFFF := by
    rw [List.all_eq_true]
    exact forall₂_congr fun _ _ => decide_eq_true_iff
  refine ⟨hle, ?_⟩
  by_cases hall : data.units.all (· ≤ 0x10FFFF) = true
  · rcases text_or_surrogate hall with ⟨text, htext⟩ | ⟨text, ch, back, hunits, hch⟩
    · have hsame : ∀ ch ∈ data.units, ch ≤ 0x10FFFF ∧ isSurrogate ch = false := by
        intro ch hmem
        refine ⟨hle.mp hall ch hmem, Bool.eq_false_iff.mpr fun hsur => ?_⟩
        exact notMem_surrogate text hsur (htext ▸ hmem)
      rw [htext, storedBytes_text, load_text, ← htext] at hloaded
      rw [hloaded]
      exact ⟨iff_of_true ⟨hall, rfl⟩ hsame, iff_of_true ⟨hall, rfl⟩ hsame⟩
    · have hdiffers : ¬ ∀ ch ∈ data.units, ch ≤ 0x10FFFF ∧ isSurrogate ch = false := by
        intro hsame
        have hmem : ch ∈ data.units := by
          rw [hunits]
          exact List.mem_append_right _ List.mem_cons_self
        exact Bool.false_ne_true ((hsame ch hmem).2.symm.trans hch)
      rw [hunits, List.flatMap_append, storedBytes_text, List.flatMap_cons, List.append_assoc,
        List.append_assoc] at hloaded
      have hfalse : loaded.1 = false := hloaded ▸ load_surrogate text hch _
      refine ⟨iff_of_false ?_ hdiffers, iff_of_false ?_ hdiffers⟩
      · rintro ⟨-, htrue⟩
        exact Bool.false_ne_true (hfalse.symm.trans htrue)
      · rintro ⟨-, htrue⟩
        exact Bool.false_ne_true (hfalse.symm.trans (congrArg Prod.fst htrue))
  · have hdiffers : ¬ ∀ ch ∈ data.units, ch ≤ 0x10FFFF ∧ isSurrogate ch = false :=
      fun hsame => hall (hle.mpr fun ch hmem => (hsame ch hmem).1)
    exact ⟨iff_of_false (fun h => hall h.1) hdiffers, iff_of_false (fun h => hall h.1) hdiffers⟩

/-- What is loaded from a store is the text of its sequences, and is stored as the bytes of this
text. -/
theorem loaded_stored (source : List UInt8) (data : WStr) :
    convertFromStore source (sizeFromStore source) = (true, data.units) ↔
      ∃ parts : List (List UInt8 × Char), (∀ p ∈ parts, Sequence p.1 p.2) ∧
        source = unread parts ∧ data.units = written utf32 parts ∧
        convertToStore data (sizeToStore data) =
          (true, written String.utf8EncodeChar parts ++ [0]) := by
  constructor
  · intro hload
    obtain ⟨parts, rest, hparts, rfl, hnone⟩ :=
      (converts8to32 .lenientConversion).exists_parts source
    rw [convertFromStore_parts hparts
      ((converts8to32 .lenientConversion).convert_rest hnone)] at hload
    obtain ⟨hend, hunits⟩ := Prod.mk.inj hload
    have hrest : rest = [] := by
      cases rest with
      | nil => rfl
      | cons u rest =>
        rw [ending] at hend
        split_ifs at hend <;> exact absurd (of_decide_eq_true hend) (by decide)
    refine ⟨parts, hparts, by rw [hrest, List.append_nil], hunits.symm, ?_⟩
    have htext : written utf32 parts = (parts.map Prod.snd).flatMap utf32 := by
      rw [written, List.flatMap_map]
    have hbytes : written String.utf8EncodeChar parts =
        (parts.map Prod.snd).flatMap String.utf8EncodeChar := by
      rw [written, List.flatMap_map]
    rw [convertToStore_eq, ← hunits, htext, text_all_le, storedBytes_text, hbytes]
  · rintro ⟨parts, hparts, rfl, hunits, -⟩
    have hload := convertFromStore_parts hparts convertStore_nil
    rw [List.append_nil] at hload
    rw [hload, hunits]
    rfl

end ServerCom.SimpleIni
