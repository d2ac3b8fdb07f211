import ServerCom.RedeemCode.Correctness.Failure
import ServerCom.RedeemCode.Interpretation.Ledger

/-!
# Damaged histories

The numbers of a line are preset to zero and their conversion is not looked at, so every line
reads as a record or is passed over. A history with a line that is neither the header, nor
empty, nor a complete record is used and rewritten all the same, unless an id comes twice in it.
-/

namespace ServerCom.RedeemCode

open RedeemCodeCfg RedeemCodeTool Text

/-- A line of an undamaged history, and the record it holds. -/
inductive HistoryLine : List UInt8 → Option (UInt32 × UInt32) → Prop where
  /-- The header. -/
  | header : HistoryLine historyHeader none
  /-- An empty line. -/
  | empty : HistoryLine [] none
  /-- Two decimal numbers of 32 bits between blanks, the first of them not zero. -/
  | record {lead gap trail id idx : List UInt8}
      (blanks : ∀ c ∈ lead ++ gap ++ trail, isSpace c = true) (split : gap ≠ [])
      (digits : ∀ c ∈ id ++ idx, isDigit c = true) (idGiven : id ≠ []) (idxGiven : idx ≠ [])
      (idPositive : 0 < digitsValue id) (idFits : digitsValue id < 2 ^ 32)
      (idxFits : digitsValue idx < 2 ^ 32) :
      HistoryLine (lead ++ (id ++ (gap ++ (idx ++ trail))))
        (some (.ofNat (digitsValue id), .ofNat (digitsValue idx)))

/-- Take up the record of a line. -/
def HistoryRead.takeUp (funId : UInt32) (h : HistoryRead) :
    Option (UInt32 × UInt32) → Option HistoryRead
  | none => some h
  | some e =>
    if (h.id2idx.find? e.1).isSome then none
    else some ⟨h.id2idx.insert e.1 e.2, if e.1 = funId then e.2 else h.lastIdx⟩

/-- The reading loop takes a line for what it is. -/
def Understood (line : List UInt8) : Prop :=
  ∃ r, HistoryLine line r ∧ ∀ funId h, HistoryRead.readLine funId h line = h.takeUp funId r

/-- Every call with this history understands all of its lines, or returns false and leaves the
history as it is. -/
def NoSilentLoss (history : List UInt8) : Prop :=
  ∀ c : Call,
    ((run shipped c history).returned = true → ∀ line ∈ lines history, Understood line) ∧
    ((run shipped c history).returned = false →
      ∀ d : Disk, d.history = history → (step shipped d c).history = history)

/-- The ids other than zero that are read, in order. -/
def idsRead (ls : List (List UInt8)) : List UInt32 :=
  (ls.map fun line => (scanRecord line).1).filter (· ≠ 0)

/-! ## Undamaged lines -/

/-- White space is not the byte `0` that ends a string. -/
theorem ne_zero_of_isSpace {c : UInt8} (h : isSpace c = true) : c ≠ 0 := by
  rintro rfl
  exact absurd h (by decide)

/-- White space is no digit. -/
theorem isDigit_eq_false_of_isSpace {c : UInt8} (h : isSpace c = true) : isDigit c = false := by
  by_contra hd
  rw [(ne_of_isDigit (by simpa using hd)).1] at h
  exact Bool.false_ne_true h

/-- Both numbers of a complete record are read. -/
theorem scanRecord_record {lead gap trail id idx : List UInt8}
    (blanks : ∀ c ∈ lead ++ gap ++ trail, isSpace c = true) (split : gap ≠ [])
    (digits : ∀ c ∈ id ++ idx, isDigit c = true) (idGiven : id ≠ []) (idxGiven : idx ≠ [])
    (idFits : digitsValue id < 2 ^ 32) (idxFits : digitsValue idx < 2 ^ 32) :
    scanRecord (lead ++ (id ++ (gap ++ (idx ++ trail)))) =
      (.ofNat (digitsValue id), .ofNat (digitsValue idx)) := by
  simp only [List.forall_mem_append] at blanks digits
  obtain ⟨⟨hlead, hgap⟩, htrail⟩ := blanks
  obtain ⟨hid, hidx⟩ := digits
  have hline : (lead ++ (id ++ (gap ++ (idx ++ trail)))).takeWhile (· ≠ 0) =
      lead ++ (id ++ (gap ++ (idx ++ trail))) := by
    refine List.takeWhile_eq_self_iff.mpr ?_
    simp only [List.forall_mem_append, decide_eq_true_eq]
    have hdigit : ∀ c, isDigit c = true → c ≠ 0 := fun c hc => (ne_of_isDigit hc).2.2.2.1
    exact ⟨fun c hc => ne_zero_of_isSpace (hlead c hc), fun c hc => hdigit c (hid c hc),
      fun c hc => ne_zero_of_isSpace (hgap c hc), fun c hc => hdigit c (hidx c hc),
      fun c hc => ne_zero_of_isSpace (htrail c hc)⟩
  have hidEnd : ∀ c ∈ (gap ++ (idx ++ trail)).head?, isDigit c = false := by
    obtain ⟨c, tl, rfl⟩ := List.exists_cons_of_ne_nil split
    rintro d ⟨⟩
    exact isDigit_eq_false_of_isSpace (hgap _ (List.mem_cons_self ..))
  have hfst := scanUnsigned_digits hlead idGiven hid idFits hidEnd
  have hskip : (gap ++ (idx ++ trail)).dropWhile isSpace = idx ++ trail := by
    obtain ⟨c, tl, hcons⟩ := List.exists_cons_of_ne_nil idxGiven
    have hc : isSpace c = false := (ne_of_isDigit (hidx c (hcons ▸ List.mem_cons_self ..))).1
    rw [List.dropWhile_append_of_pos hgap, hcons, List.cons_append,
      List.dropWhile_cons_of_neg (by simp [hc])]
  have hidxEnd : ∀ c ∈ trail.head?, isDigit c = false := by
    cases trail with
    | nil => rintro d ⟨⟩
    | cons c tl =>
      rintro d ⟨⟩
      exact isDigit_eq_false_of_isSpace (htrail _ (List.mem_cons_self ..))
  have hsnd := scanUnsigned_digits (List.forall_mem_nil (isSpace · = true)) idxGiven hidx idxFits
    hidxEnd
  rw [scanRecord, hline, hfst]
  simp only [hskip]
  rw [List.nil_append] at hsnd
  rw [hsnd]

/-- A line of an undamaged history is understood. -/
theorem HistoryLine.understood {line : List UInt8} {r : Option (UInt32 × UInt32)}
    (hl : HistoryLine line r) : Understood line := by
  refine ⟨r, hl, fun funId h => ?_⟩
  cases hl with
  | header => exact readLine_zero h (by decide +kernel)
  | empty => exact readLine_zero h (by decide +kernel)
  | record blanks split digits idGiven idxGiven idPositive idFits idxFits =>
    have hscan := scanRecord_record blanks split digits idGiven idxGiven idFits idxFits
    rename_i id idx
    have hne : ¬ (0 : UInt32) = .ofNat (digitsValue id) := by
      intro hz
      have hval := congrArg UInt32.toNat hz
      rw [UInt32.toNat_ofNat_of_lt' idFits] at hval
      exact absurd hval (Nat.ne_of_lt idPositive)
    rw [HistoryRead.readLine, hscan]
    simp only [if_neg hne]
    rfl

/-! ## Repeated ids -/

/-- The ids read from a history, line by line: a line whose record has the id `0` gives none. -/
theorem idsRead_cons (line : List UInt8) (ls : List (List UInt8)) :
    idsRead (line :: ls) =
      if (scanRecord line).1 = 0 then idsRead ls else (scanRecord line).1 :: idsRead ls := by
  rw [idsRead, List.map_cons, List.filter_cons]
  by_cases hz : (scanRecord line).1 = 0 <;> simp [hz, idsRead]

/-- The reading loop succeeds exactly when no id comes twice. -/
theorem isSome_foldlM_readLine (funId : UInt32) (ls : List (List UInt8)) (h : HistoryRead) :
    (ls.foldlM (HistoryRead.readLine funId) h).isSome = true ↔
      (idsRead ls).Nodup ∧ ∀ i ∈ idsRead ls, h.id2idx.find? i = none := by
  induction ls generalizing h with
  | nil => exact iff_of_true rfl ⟨List.nodup_nil, fun _ hi => absurd hi List.not_mem_nil⟩
  | cons line ls ih =>
    rw [List.foldlM_cons, idsRead_cons]
    by_cases hz : (scanRecord line).1 = 0
    · rw [readLine_zero h hz, if_pos hz]
      exact ih h
    · have hread : HistoryRead.readLine funId h line =
          h.takeUp funId (some (scanRecord line)) := if_neg (Ne.symm hz)
      rw [hread, HistoryRead.takeUp, if_neg hz, List.nodup_cons, List.forall_mem_cons]
      cases hfind : h.id2idx.find? (scanRecord line).1 with
      | some idx => exact iff_of_false (by simp) fun hn => absurd hn.2.1 (by simp)
      | none =>
        refine (ih _).trans ⟨?_, ?_⟩
        · rintro ⟨hnodup, hnew⟩
          have hnotin : (scanRecord line).1 ∉ idsRead ls := by
            intro hmem
            have hnone := hnew _ hmem
            rw [SortedMap.find?_insert, if_pos rfl] at hnone
            exact absurd hnone (by simp)
          refine ⟨⟨hnotin, hnodup⟩, rfl, fun i hi => ?_⟩
          have hnone := hnew i hi
          rwa [SortedMap.find?_insert, if_neg (ne_of_mem_of_not_mem hi hnotin)] at hnone
        · rintro ⟨⟨hnotin, hnodup⟩, -, hnew⟩
          refine ⟨hnodup, fun i hi => ?_⟩
          rw [SortedMap.find?_insert, if_neg (ne_of_mem_of_not_mem hi hnotin)]
          exact hnew i hi

/-- The history is read to its end exactly when no id stands in it twice. -/
theorem isSome_readHistory (funId : UInt32) (history : List UInt8) :
    (readHistory funId history).isSome = true ↔ (idsRead (lines history)).Nodup := by
  rw [readHistory, isSome_foldlM_readLine]
  exact and_iff_left fun i _ => SortedMap.find?_empty i

/-! ## Calls -/

/-- A call that returns false leaves the history as it is, also where the code file is
written. -/
theorem history_step_of_failed {d : Disk} {c : Call}
    (hret : (run shipped c d.history).returned = false) :
    (step shipped d c).history = d.history := by
  by_cases hs : ∃ h, Served c d.history h
  · obtain ⟨h, hs⟩ := hs
    rw [step, run_served hs]
    rw [run_served hs] at hret
    split_ifs at hret ⊢
    rw [foldl_codeSteps]
    rfl
  · rw [step, run_not_served (not_exists.mp hs)]
    rfl

/-- A history is never lost silently exactly when each line is the header, empty or a complete
record, or an id is read twice. -/
theorem noSilentLoss_iff (history : List UInt8) :
    NoSilentLoss history ↔
      (∀ line ∈ lines history, ∃ r, HistoryLine line r) ∨ ¬ (idsRead (lines history)).Nodup := by
  have hfailed : ∀ c, (run shipped c history).returned = false →
      ∀ d : Disk, d.history = history → (step shipped d c).history = history := by
    rintro c hret d rfl
    exact history_step_of_failed hret
  constructor
  · intro hall
    rw [or_iff_not_imp_right, not_not]
    intro hnodup line hline
    obtain ⟨h, hread⟩ :=
      Option.isSome_iff_exists.mp ((isSome_readHistory 1 history).mpr hnodup)
    have hserved : Served (callAtNoon 1 0) history h := ⟨rfl, hread, .inl rfl, rfl⟩
    have hret : (run shipped (callAtNoon 1 0) history).returned = true := by
      rw [run_served hserved]
      rfl
    obtain ⟨r, hr, -⟩ := (hall (callAtNoon 1 0)).1 hret line hline
    exact ⟨r, hr⟩
  · rintro (hgood | hdup) c
    · refine ⟨fun _ line hline => ?_, hfailed c⟩
      obtain ⟨r, hr⟩ := hgood line hline
      exact hr.understood
    · refine ⟨fun hret => ?_, hfailed c⟩
      have hnone : ∀ h, ¬ Served c history h := by
        intro h hs
        exact hdup ((isSome_readHistory c.funId history).mp (by rw [hs.read]; rfl))
      rw [run_not_served hnone] at hret
      exact absurd hret Bool.false_ne_true

/-- A record that has lost its index, and one with a damaged id. -/
def damagedHistory : List UInt8 := unlines [historyHeader, [55], [120, 32, 53]]

/-- The first record is taken for the index zero, and the second one is dropped. -/
theorem damagedHistory_used :
    (run shipped (callAtNoon 7 1) damagedHistory).returned = true ∧
      (run shipped (callAtNoon 7 1) damagedHistory).codes = [createRedeemCode shipped 7 1] ∧
      (step shipped ⟨damagedHistory, fun _ => none⟩ (callAtNoon 7 1)).history =
        unlines [historyHeader, recordLine (7, 1)] := by
  decide +kernel

end ServerCom.RedeemCode
