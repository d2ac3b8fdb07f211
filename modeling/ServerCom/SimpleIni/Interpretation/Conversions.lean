import ServerCom.SimpleIni.Interpretation.Characters

/-!
# What the loop of a conversion does

A source is made of words, each of which is read as a character. The loop reads one word after
another while their characters have room, and the result tells what it has found behind them.
-/

namespace ServerCom.SimpleIni

open Unicode

variable {α β : Type*} {round : α → List α → ℕ → Round β} {result res : ConversionResult}
  {u : α} {source more w rest : List α} {room extra : ℕ} {units : List β} {illegal : Bool}

/-! ## Rounds -/

/-- At the end of the source the conversion reports what it has found so far. -/
theorem convert_nil : convert round result room [] = ⟨result, [], []⟩ := by rw [convert]

/-- A round that leaves stops the conversion before its unit. -/
theorem convert_leave (h : round u source room = .leave res) :
    convert round result room (u :: source) = ⟨res, u :: source, []⟩ := by
  rw [convert, h]

/-- A round that goes on takes its units and leaves the room that is left. -/
theorem convert_next (h : round u source room = .next extra units illegal) :
    convert round result room (u :: source) =
      let rest := convert round (if illegal then .sourceIllegal else result)
        (room - units.length) (source.drop extra)
      { rest with target := units ++ rest.target } := by
  rw [convert, h]

/-- Words are read as characters and written in another encoding. -/
structure Writes (Word : List α → Char → Prop) (enc : Char → List β)
    (round : α → List α → ℕ → Round β) : Prop where
  /-- A word has a unit. -/
  ne_nil : ∀ {w c}, Word w c → w ≠ []
  /-- It is read whatever stands behind it, and written if there is room. -/
  word : ∀ {u w c}, Word (u :: w) c → ∀ more room,
    round u (w ++ more) room = .write w.length (enc c) false room

/-- Nothing else is read. -/
structure Converts (Word : List α → Char → Prop) (short : α → List α → Bool)
    (enc : Char → List β) (round : α → List α → ℕ → Round β) : Prop extends
    Writes Word enc round where
  /-- Where the source is too short for a word, the loop ends. -/
  exhausted : ∀ {u source}, short u source = true →
    ∀ room, round u source room = .leave .sourceExhausted
  /-- So it does where there is no word. -/
  refused : ∀ {u source}, (∀ w c, Word w c → ¬ w <+: u :: source) → short u source = false →
    ∀ room, round u source room = .leave .sourceIllegal

/-- The result where no word begins. -/
def ending (short : α → List α → Bool) : List α → ConversionResult
  | [] => .conversionOK
  | u :: source => if short u source then .sourceExhausted else .sourceIllegal

variable {Word : List α → Char → Prop} {short : α → List α → Bool} {enc : Char → List β}
  {c : Char} {parts : List (List α × Char)}

/-- A character that there is room for is written and the rest is converted. -/
theorem Writes.convert_write (h : Writes Word enc round) (hw : Word w c)
    (hroom : (enc c).length ≤ room) :
    convert round result room (w ++ more) =
      let rest := convert round result (room - (enc c).length) more
      { rest with target := enc c ++ rest.target } := by
  cases w with
  | nil => exact absurd rfl (h.ne_nil hw)
  | cons u w =>
    have hround := h.word hw more room
    rw [Round.write, if_neg (by omega)] at hround
    rw [List.cons_append, convert_next hround, List.drop_left, if_neg Bool.false_ne_true]

/-- A character that there is no room for stays unread. -/
theorem Writes.convert_full (h : Writes Word enc round) (hw : Word w c)
    (hroom : room < (enc c).length) :
    convert round result room (w ++ more) = ⟨.targetExhausted, w ++ more, []⟩ := by
  cases w with
  | nil => exact absurd rfl (h.ne_nil hw)
  | cons u w =>
    have hround := h.word hw more room
    rw [Round.write, if_pos hroom] at hround
    exact convert_leave hround

/-- A rest that starts with no character is left where it stands, as short or illegal. -/
theorem Converts.convert_rest (h : Converts Word short enc round)
    (hnone : ∀ w c, Word w c → ¬ w <+: rest) (room : ℕ) :
    convert round .conversionOK room rest = ⟨ending short rest, rest, []⟩ := by
  cases rest with
  | nil => exact convert_nil
  | cons u source =>
    rw [ending]
    cases hshort : short u source with
    | true =>
      rw [if_pos rfl]
      exact convert_leave (h.exhausted hshort room)
    | false =>
      rw [if_neg Bool.false_ne_true]
      exact convert_leave (h.refused hnone hshort room)

/-! ## Words one behind the other -/

/-- The units of the words. -/
def unread (parts : List (List α × Char)) : List α := parts.flatMap Prod.fst

/-- The characters of the words. -/
def written (enc : Char → List β) (parts : List (List α × Char)) : List β :=
  parts.flatMap fun p => enc p.2

/-- The source of one character more. -/
theorem unread_cons (p : List α × Char) (parts : List (List α × Char)) :
    unread (p :: parts) = p.1 ++ unread parts := rfl

/-- The target of one character more. -/
theorem written_cons (p : List α × Char) (parts : List (List α × Char)) :
    written enc (p :: parts) = enc p.2 ++ written enc parts := rfl

/-- The source of two texts is one behind the other. -/
theorem unread_append (front back : List (List α × Char)) :
    unread (front ++ back) = unread front ++ unread back := List.flatMap_append

/-- Every source begins with words, and behind them with no word. -/
theorem Writes.exists_parts (h : Writes Word enc round) (source : List α) :
    ∃ parts rest, (∀ p ∈ parts, Word p.1 p.2) ∧ source = unread parts ++ rest ∧
      ∀ w c, Word w c → ¬ w <+: rest := by
  induction hn : source.length using Nat.strongRecOn generalizing source with
  | ind n ih =>
    subst hn
    by_cases hword : ∃ w c, Word w c ∧ w <+: source
    · obtain ⟨w, c, hw, more, rfl⟩ := hword
      have hlt : more.length < (w ++ more).length := by
        have hpos := List.length_pos_of_ne_nil (h.ne_nil hw)
        rw [List.length_append]
        omega
      obtain ⟨parts, rest, hparts, hsource, hnone⟩ := ih _ hlt more rfl
      refine ⟨(w, c) :: parts, rest, List.forall_mem_cons.mpr ⟨hw, hparts⟩, ?_, hnone⟩
      rw [unread_cons, List.append_assoc, ← hsource]
    · exact ⟨[], source, fun _ hp => absurd hp List.not_mem_nil, rfl,
        fun w c hw hfront => hword ⟨w, c, hw, hfront⟩⟩

/-- Words that have room are read, and what stands behind them is converted. -/
theorem Writes.convert_parts (h : Writes Word enc round) (hparts : ∀ p ∈ parts, Word p.1 p.2)
    (hroom : (written enc parts).length ≤ room) :
    convert round result room (unread parts ++ more) =
      let rest := convert round result (room - (written enc parts).length) more
      { rest with target := written enc parts ++ rest.target } := by
  induction parts generalizing room with
  | nil => rfl
  | cons p parts ih =>
    obtain ⟨hp, hparts⟩ := List.forall_mem_cons.mp hparts
    rw [written_cons, List.length_append] at hroom
    rw [unread_cons, List.append_assoc, h.convert_write hp (by omega), ih hparts (by omega),
      written_cons, List.length_append, Nat.sub_add_eq]
    dsimp only
    rw [List.append_assoc]

/-- The words that have room. -/
theorem exists_fitting (enc : Char → List β) (parts : List (List α × Char)) (room : ℕ) :
    (written enc parts).length ≤ room ∨ ∃ front p back, parts = front ++ p :: back ∧
      (written enc front).length ≤ room ∧
      room < (written enc front).length + (enc p.2).length := by
  induction parts generalizing room with
  | nil => exact .inl (Nat.zero_le _)
  | cons p parts ih =>
    by_cases hp : (enc p.2).length ≤ room
    · rcases ih (room - (enc p.2).length) with hall | ⟨front, q, back, rfl, hfits, hfull⟩
      · refine .inl ?_
        rw [written_cons, List.length_append]
        omega
      · refine .inr ⟨p :: front, q, back, rfl, ?_, ?_⟩
        · rw [written_cons, List.length_append]
          omega
        · rw [written_cons, List.length_append]
          omega
    · have hfull : room < 0 + (enc p.2).length := by omega
      exact .inr ⟨[], p, parts, rfl, Nat.zero_le _, hfull⟩

/-- What a conversion does in any room: it writes all the words and ends where there is no other,
or it ends at the first word that has no room. -/
def Reads (enc : Char → List β) (parts : List (List α × Char)) (rest : List α)
    (result : ConversionResult) (conversion : ℕ → Conversion α β) : Prop :=
  ∀ room,
    (written enc parts).length ≤ room ∧
      conversion room = ⟨result, rest, written enc parts⟩ ∨
    ∃ front p back, parts = front ++ p :: back ∧ (written enc front).length ≤ room ∧
      room < (written enc front).length + (enc p.2).length ∧
      conversion room = ⟨.targetExhausted, unread (p :: back) ++ rest, written enc front⟩

/-- Characters are converted in order until the rest or the end of the room. -/
theorem Writes.reads (h : Writes Word enc round) (hparts : ∀ p ∈ parts, Word p.1 p.2)
    (hrest : ∀ room, convert round .conversionOK room rest = ⟨result, rest, []⟩) :
    Reads enc parts rest result
      (convert round .conversionOK · (unread parts ++ rest)) := by
  intro room
  rcases exists_fitting enc parts room with hall | ⟨front, p, back, rfl, hfits, hfull⟩
  · refine .inl ⟨hall, ?_⟩
    beta_reduce
    rw [h.convert_parts hparts hall, hrest]
    dsimp only
    rw [List.append_nil]
  · refine .inr ⟨front, p, back, rfl, hfits, hfull, ?_⟩
    obtain ⟨hfront, hback⟩ := List.forall_mem_append.mp hparts
    have hp := (List.forall_mem_cons.mp hback).1
    beta_reduce
    rw [unread_append, List.append_assoc, h.convert_parts hfront hfits, unread_cons,
      List.append_assoc, h.convert_full hp (by omega)]
    dsimp only
    rw [List.append_nil]

/-- The same for a rest that starts with no character: its end is known. -/
theorem Converts.reads (h : Converts Word short enc round) (hparts : ∀ p ∈ parts, Word p.1 p.2)
    (hnone : ∀ w c, Word w c → ¬ w <+: rest) :
    Reads enc parts rest (ending short rest)
      (convert round .conversionOK · (unread parts ++ rest)) :=
  h.toWrites.reads hparts (h.convert_rest hnone)

end ServerCom.SimpleIni
