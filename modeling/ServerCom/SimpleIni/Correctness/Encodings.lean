import ServerCom.Core.Machine.Guarded
import ServerCom.SimpleIni.Interpretation.Encodings

/-!
# The conversions are right

A text is converted between all three encodings, as far as it has room. Every UTF-8 source has
the same characters in both of the functions that read it, and so has every UTF-16 source that
is read strictly. A source may be converted in pieces, as it arrives and as there is room.
-/

namespace ServerCom.SimpleIni

open Unicode

variable {α β : Type*} {round : α → List α → ℕ → Round β} {Word : List α → Char → Prop}
  {enc : Char → List β} {src : Char → List α} {short : α → List α → Bool}

/-! ## Texts -/

/-- A text is converted from one encoding to another: all of it, or up to the first character
that has no room. -/
def Transcodes (src : Char → List α) (tgt : Char → List β)
    (conversion : List α → ℕ → Conversion α β) : Prop :=
  ∀ (text : List Char) (room : ℕ),
    (text.flatMap tgt).length ≤ room ∧
      conversion (text.flatMap src) room = ⟨.conversionOK, [], text.flatMap tgt⟩ ∨
    ∃ front c back, text = front ++ c :: back ∧ (front.flatMap tgt).length ≤ room ∧
      room < (front.flatMap tgt).length + (tgt c).length ∧
      conversion (text.flatMap src) room =
        ⟨.targetExhausted, (c :: back).flatMap src, front.flatMap tgt⟩

/-- The words of a text. -/
def ofText (src : Char → List α) (text : List Char) : List (List α × Char) :=
  text.map fun c => (src c, c)

/-- A text cut by characters is the whole of its source. -/
theorem unread_ofText (text : List Char) : unread (ofText src text) = text.flatMap src := by
  rw [unread, ofText, List.flatMap_map]

/-- A text cut by characters is converted as a whole. -/
theorem written_ofText (text : List Char) :
    written enc (ofText src text) = text.flatMap enc := by
  rw [written, ofText, List.flatMap_map]

/-- A round that writes each character transcodes every text. -/
theorem Writes.transcodes (h : Writes Word enc round) (hsrc : ∀ c, Word (src c) c) :
    Transcodes src enc fun source room => convert round .conversionOK room source := by
  intro text room
  have hparts : ∀ p ∈ ofText src text, Word p.1 p.2 := by
    intro p hp
    obtain ⟨c, -, rfl⟩ := List.mem_map.mp hp
    exact hsrc c
  have hnil : ∀ room, convert round .conversionOK room [] = ⟨.conversionOK, [], []⟩ :=
    fun _ => convert_nil
  have hreads := h.reads hparts hnil room
  rw [List.append_nil, unread_ofText, written_ofText] at hreads
  rcases hreads with hall | ⟨front, p, back, heq, hfits, hfull, hconvert⟩
  · exact .inl hall
  · obtain ⟨front, back, rfl, rfl, hback⟩ := List.map_eq_append_iff.mp heq
    obtain ⟨c, back, rfl, rfl, rfl⟩ := List.map_eq_cons_iff.mp hback
    have hunread : unread (ofText src (c :: back)) = (c :: back).flatMap src := unread_ofText _
    have hwritten : written enc (ofText src front) = front.flatMap enc := written_ofText _
    rw [List.append_nil] at hconvert
    refine .inr ⟨front, c, back, rfl, ?_, ?_, ?_⟩
    · rw [← hwritten]
      exact hfits
    · rw [← hwritten]
      exact hfull
    · rw [← hwritten, ← hunread]
      exact hconvert

/-- All six functions convert every text. -/
theorem texts_converted (flags : ConversionFlags) :
    Transcodes String.utf8EncodeChar utf16 (convertUTF8toUTF16 · · flags) ∧
    Transcodes String.utf8EncodeChar utf32 (convertUTF8toUTF32 · · flags) ∧
    Transcodes utf16 String.utf8EncodeChar (convertUTF16toUTF8 · · flags) ∧
    Transcodes utf16 utf32 (convertUTF16toUTF32 · · flags) ∧
    Transcodes utf32 String.utf8EncodeChar (convertUTF32toUTF8 · · flags) ∧
    Transcodes utf32 utf16 (convertUTF32toUTF16 · · flags) :=
  ⟨(converts8to16 flags).transcodes .own, (converts8to32 flags).transcodes .own,
    (writes16to8 flags).transcodes fun _ => rfl, (writes16to32 flags).transcodes fun _ => rfl,
    (writes32to8 flags).transcodes fun _ => rfl, (writes32to16 flags).transcodes fun _ => rfl⟩

/-! ## Sources -/

/-- Every UTF-8 source is a row of sequences, behind which no sequence begins. Whatever the flags
are, both functions read these as far as there is room, and then tell whether the source ends, is
too short, or is illegal. -/
theorem utf8_read (source : List UInt8) : ∃ parts rest, (∀ p ∈ parts, Sequence p.1 p.2) ∧
    source = unread parts ++ rest ∧ (∀ w c, Sequence w c → ¬ w <+: rest) ∧
    ∀ flags,
      Reads utf16 parts rest (ending shortUTF8 rest) (convertUTF8toUTF16 source · flags) ∧
      Reads utf32 parts rest (ending shortUTF8 rest) (convertUTF8toUTF32 source · flags) := by
  obtain ⟨parts, rest, hparts, rfl, hnone⟩ := (converts8to16 .strictConversion).exists_parts source
  exact ⟨parts, rest, hparts, rfl, hnone, fun flags =>
    ⟨(converts8to16 flags).reads hparts hnone, (converts8to32 flags).reads hparts hnone⟩⟩

/-- Every UTF-16 source is a text, behind which no character begins; both functions read it when
they are strict. -/
theorem utf16_read (source : List UInt16) : ∃ parts rest, (∀ p ∈ parts, utf16 p.2 = p.1) ∧
    source = unread parts ++ rest ∧ (∀ w c, utf16 c = w → ¬ w <+: rest) ∧
    Reads String.utf8EncodeChar parts rest (ending shortUTF16 rest)
      (convertUTF16toUTF8 source · .strictConversion) ∧
    Reads utf32 parts rest (ending shortUTF16 rest)
      (convertUTF16toUTF32 source · .strictConversion) := by
  obtain ⟨parts, rest, hparts, rfl, hnone⟩ := converts16to8.exists_parts source
  exact ⟨parts, rest, hparts, rfl, hnone, converts16to8.reads hparts hnone,
    converts16to32.reads hparts hnone⟩

/-! ## Pieces -/

/-- A source that arrives in pieces. -/
structure Pieces (α β : Type*) where
  /-- All that has arrived. -/
  received : List α
  /-- What was not converted yet. -/
  pending : List α
  /-- What was written. -/
  target : List β

/-- What can happen. -/
inductive Pieces.Move (α : Type*) where
  /-- A piece arrives. -/
  | arrive (piece : List α)
  /-- The pending units are converted, into so much room. -/
  | call (room : ℕ)

/-- A move, of which `*sourceStart` and `*targetStart` keep track. -/
def Pieces.step (conversion : List α → ℕ → Conversion α β) (s : Pieces α β) :
    Pieces.Move α → Pieces α β
  | .arrive piece => { s with received := s.received ++ piece, pending := s.pending ++ piece }
  | .call room =>
    let done := conversion s.pending room
    { s with pending := done.source, target := s.target ++ done.target }

/-- What was converted and what is pending make up what was received. -/
def Pieces.Kept (conversion : List α → ℕ → Conversion α β) (s : Pieces α β) : Prop :=
  ∀ more room, conversion (s.received ++ more) (s.target.length + room) =
    let rest := conversion (s.pending ++ more) room
    { rest with target := s.target ++ rest.target }

/-- A call may be taken up where it has ended. -/
def Resumes (conversion : List α → ℕ → Conversion α β) : Prop :=
  ∀ source room more room',
    conversion (source ++ more) ((conversion source room).target.length + room') =
    let rest := conversion ((conversion source room).source ++ more) room'
    { rest with target := (conversion source room).target ++ rest.target }

/-- An arriving piece or a call keeps the account of what was converted and what is pending. -/
theorem Pieces.Kept.step {conversion : List α → ℕ → Conversion α β} (h : Resumes conversion)
    {s : Pieces α β} (hs : s.Kept conversion) (move : Pieces.Move α) :
    (s.step conversion move).Kept conversion := by
  intro more room
  cases move with
  | arrive piece =>
    rw [Pieces.step]
    dsimp only
    rw [List.append_assoc, List.append_assoc, hs]
  | call room₁ =>
    rw [Pieces.step]
    dsimp only
    rw [List.length_append, Nat.add_assoc, hs, h s.pending room₁]
    dsimp only
    rw [List.append_assoc]

/-- A call that has ended may be taken up again, behind whatever it has left. -/
theorem Converts.resumes (h : Converts Word short enc round) :
    Resumes fun source room => convert round .conversionOK room source := by
  intro source room more room'
  obtain ⟨parts, rest, hparts, rfl, hnone⟩ := h.exists_parts source
  beta_reduce
  rcases h.reads hparts hnone room with
    ⟨hfits, hconvert⟩ | ⟨front, p, back, rfl, hfits, -, hconvert⟩
  · beta_reduce at hconvert
    rw [hconvert]
    dsimp only
    rw [List.append_assoc, h.convert_parts hparts (by omega), Nat.add_sub_cancel_left]
  · have hfront := (List.forall_mem_append.mp hparts).1
    beta_reduce at hconvert
    rw [hconvert]
    dsimp only
    rw [unread_append, List.append_assoc, List.append_assoc, h.convert_parts hfront (by omega),
      Nat.add_sub_cancel_left, List.append_assoc]

/-- After any pieces and calls, converting all that was received into a room writes what was
written, and then what converting the pending units into the rest of the room writes; it leaves
the same source, with the same result. -/
def InPieces (conversion : List α → ℕ → Conversion α β) : Prop :=
  ∀ (moves : List (Pieces.Move α)) (room : ℕ),
    let s := moves.foldl (Pieces.step conversion) ⟨[], [], []⟩
    conversion s.received (s.target.length + room) =
      { conversion s.pending room with target := s.target ++ (conversion s.pending room).target }

/-- Calls that may be taken up again convert any pieces as one. -/
theorem Resumes.inPieces {conversion : List α → ℕ → Conversion α β} (h : Resumes conversion) :
    InPieces conversion := by
  intro moves room
  have hstart : Pieces.Kept conversion ⟨[], [], []⟩ := by
    intro more room
    dsimp only [List.length_nil]
    rw [Nat.zero_add]
    rfl
  have hstep : ∀ (s : Pieces α β) (move : Pieces.Move α), s.Kept conversion →
      (s.step conversion move).Kept conversion := fun _ move hs => hs.step h move
  have hkept := Machine.forall_scanl hstep hstart moves _ (Machine.foldl_mem_scanl _ _)
  have hnow := hkept [] room
  rw [List.append_nil, List.append_nil] at hnow
  exact hnow

/-- UTF-8 may be converted in pieces, and UTF-16 strictly. -/
theorem converted_inPieces (flags : ConversionFlags) :
    InPieces (convertUTF8toUTF16 · · flags) ∧ InPieces (convertUTF8toUTF32 · · flags) ∧
    InPieces (convertUTF16toUTF8 · · .strictConversion) ∧
    InPieces (convertUTF16toUTF32 · · .strictConversion) :=
  ⟨(converts8to16 flags).resumes.inPieces, (converts8to32 flags).resumes.inPieces,
    converts16to8.resumes.inPieces, converts16to32.resumes.inPieces⟩

end ServerCom.SimpleIni
