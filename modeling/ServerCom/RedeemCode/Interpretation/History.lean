import Mathlib.Data.List.TakeWhile
import ServerCom.RedeemCode.Native.History

/-!
# The history is read back

A rewritten history is read back with every record but one: the reader knows the
header line by its id zero, and so it also passes over the record of function zero.
-/

namespace ServerCom.RedeemCode

open Text

/-- A digit is nothing that `sscanf` skips or stops at: no space, no sign, no end of string or
line. -/
theorem ne_of_isDigit {c : UInt8} (h : isDigit c = true) :
    isSpace c = false ∧ c ≠ 45 ∧ c ≠ 43 ∧ c ≠ 0 ∧ c ≠ newline := by
  rw [isDigit, Bool.and_eq_true, decide_eq_true_eq, decide_eq_true_eq, UInt8.le_iff_toNat_le,
    UInt8.le_iff_toNat_le] at h
  obtain ⟨hlo, hhi⟩ : 48 ≤ c.toNat ∧ c.toNat ≤ 57 := h
  have hne : ∀ d : UInt8, d.toNat < 48 → c ≠ d := by
    rintro d hd rfl
    omega
  refine ⟨?_, hne _ (by decide), hne _ (by decide), hne _ (by decide), hne _ (by decide)⟩
  have hle : ¬ c ≤ 13 := by
    rw [UInt8.le_iff_toNat_le]
    intro h13
    exact absurd (le_trans hlo h13) (by decide)
  simp [isSpace, hne 32 (by decide), hle]

/-- `%u` reads digits behind blanks. -/
theorem scanUnsigned_digits {blanks ds rest : List UInt8} (hblanks : ∀ c ∈ blanks, isSpace c = true)
    (hne : ds ≠ []) (hds : ∀ c ∈ ds, isDigit c = true) (hval : digitsValue ds < 2 ^ 32)
    (hrest : ∀ c ∈ rest.head?, isDigit c = false) :
    scanUnsigned (blanks ++ (ds ++ rest)) = some (.ofNat (digitsValue ds), rest) := by
  obtain ⟨htake, hdrop⟩ := span_digits hds hrest
  obtain ⟨c, tl, hcons⟩ := List.exists_cons_of_ne_nil hne
  obtain ⟨hspace, hminus, hplus, -⟩ := ne_of_isDigit (hds c (hcons ▸ List.mem_cons_self ..))
  have hskip : (blanks ++ (ds ++ rest)).dropWhile isSpace = ds ++ rest := by
    rw [List.dropWhile_append_of_pos hblanks, hcons, List.cons_append,
      List.dropWhile_cons_of_neg (by simp [hspace])]
  have hsign : scanSign (ds ++ rest) = (false, ds ++ rest) := by
    rw [hcons, List.cons_append, scanSign]
    · rintro s ⟨⟩
      exact hminus rfl
    · rintro s ⟨⟩
      exact hplus rfl
  have hvalue : (strtoul false ds).toUInt32 = .ofNat (digitsValue ds) := by
    rw [strtoul, if_neg (by omega), if_neg Bool.false_ne_true]
    apply UInt32.toNat.inj
    rw [UInt64.toNat_toUInt32, UInt64.toNat_ofNat_of_lt' (hval.trans (by decide)),
      UInt32.toNat_ofNat']
  rw [scanUnsigned, hskip, hsign]
  simp only [htake, hdrop, hvalue, if_neg hne]

/-- `%u` reads a decimal number back. -/
theorem scanUnsigned_decimal (n : UInt32) {rest : List UInt8}
    (h : ∀ c ∈ rest.head?, isDigit c = false) :
    scanUnsigned (decimal n.toNat ++ rest) = some (n, rest) := by
  have hscan := scanUnsigned_digits (List.forall_mem_nil (isSpace · = true))
    (decimal_ne_nil n.toNat) (fun _ => isDigit_of_mem_decimal)
    (by rw [digitsValue_decimal]; exact n.toNat_lt) h
  rwa [digitsValue_decimal, UInt32.ofNat_toNat] at hscan

/-- A record is read back from its line. -/
theorem scanRecord_recordLine (e : UInt32 × UInt32) : scanRecord (recordLine e) = e := by
  have hdigit : ∀ (k : Nat) (c : UInt8), c ∈ decimal k → c ≠ 0 :=
    fun k c hc => (ne_of_isDigit (isDigit_of_mem_decimal hc)).2.2.2.1
  have hline : (recordLine e).takeWhile (· ≠ 0) = recordLine e := by
    refine List.takeWhile_eq_self_iff.mpr fun c hc => ?_
    rw [decide_eq_true_eq]
    rcases List.mem_append.mp hc with hc | hc
    · exact hdigit _ c hc
    · rcases List.mem_cons.mp hc with rfl | hc
      · decide
      · exact hdigit _ c hc
  obtain ⟨c, ds, hds⟩ := List.exists_cons_of_ne_nil (decimal_ne_nil e.2.toNat)
  have hc : isDigit c = true := isDigit_of_mem_decimal (hds ▸ List.mem_cons_self ..)
  have hblank : (32 :: decimal e.2.toNat).dropWhile isSpace = decimal e.2.toNat := by
    rw [List.dropWhile_cons_of_pos (by decide), hds,
      List.dropWhile_cons_of_neg (by simp [(ne_of_isDigit hc).1])]
  have hfst : scanUnsigned (recordLine e) = some (e.1, 32 :: decimal e.2.toNat) :=
    scanUnsigned_decimal e.1 (by simp; decide)
  have hsnd : scanUnsigned (decimal e.2.toNat) = some (e.2, []) := by
    have hend : ∀ c ∈ ([] : List UInt8).head?, isDigit c = false := by simp
    rw [← scanUnsigned_decimal e.2 hend, List.append_nil]
  rw [scanRecord, hline, hfst]
  simp only [hblank, hsnd]

/-- No line written to the history has a line break inside. -/
theorem newline_notMem_historyLines (m : FunId2Idx) : ∀ l ∈ historyLines m, newline ∉ l := by
  have hdigit : ∀ k : Nat, newline ∉ decimal k :=
    fun k hk => (ne_of_isDigit (isDigit_of_mem_decimal hk)).2.2.2.2 rfl
  intro l hl
  rcases List.mem_cons.mp hl with rfl | hl
  · decide
  · obtain ⟨e, -, rfl⟩ := List.mem_map.mp hl
    intro hmem
    rcases List.mem_append.mp hmem with hmem | hmem
    · exact hdigit _ hmem
    · rcases List.mem_cons.mp hmem with hmem | hmem
      · exact absurd hmem (by decide)
      · exact hdigit _ hmem

/-! ## Reading a rewritten history -/

variable {funId : UInt32}

/-- A line with the id zero is passed over. -/
theorem readLine_zero (h : HistoryRead) {line : List UInt8} (hz : (scanRecord line).1 = 0) :
    h.readLine funId line = some h := if_pos hz.symm

/-- A record of a new id is taken up. -/
theorem readLine_recordLine {h : HistoryRead} {e : UInt32 × UInt32} (hz : e.1 ≠ 0)
    (hnone : h.id2idx.find? e.1 = none) :
    h.readLine funId (recordLine e) =
      some ⟨h.id2idx.insert e.1 e.2, if e.1 = funId then e.2 else h.lastIdx⟩ := by
  rw [HistoryRead.readLine, scanRecord_recordLine]
  simp [Ne.symm hz, hnone]

/-- Records of distinct new ids are all taken up, but for the id zero. -/
theorem foldlM_readLine (funId : UInt32) {l : List (UInt32 × UInt32)}
    (hl : l.Pairwise fun a b => a.1 < b.1)
    (h : HistoryRead) (hnew : ∀ e ∈ l, h.id2idx.find? e.1 = none) :
    ∃ h', (l.map recordLine).foldlM (HistoryRead.readLine funId) h = some h' ∧
      (∀ k, h'.id2idx.find? k =
        if k = 0 then h.id2idx.find? k else (l.lookup k).or (h.id2idx.find? k)) ∧
      h'.lastIdx = if funId = 0 then h.lastIdx else (l.lookup funId).getD h.lastIdx := by
  induction l generalizing h with
  | nil => exact ⟨h, rfl, by simp, by simp⟩
  | cons e l ih =>
    obtain ⟨he, hl⟩ := List.pairwise_cons.mp hl
    obtain ⟨hnone, hrest⟩ := List.forall_mem_cons.mp hnew
    have hlook := SortedMap.lookup_cons_eq (d := e) (l := l)
    by_cases hz : e.1 = 0
    · obtain ⟨h', hfold, hfind, hlast⟩ := ih hl h hrest
      refine ⟨h', ?_, fun k => ?_, ?_⟩
      · rw [List.map_cons, List.foldlM_cons, readLine_zero h (by rwa [scanRecord_recordLine])]
        exact hfold
      · rw [hfind, hlook]
        split_ifs with hk hke
        · rfl
        · exact absurd (hke.trans hz) hk
        · rfl
      · rw [hlast, hlook]
        split_ifs with hf hfe
        · rfl
        · exact absurd (hfe.trans hz) hf
        · rfl
    · obtain ⟨h', hfold, hfind, hlast⟩ := ih hl
        ⟨h.id2idx.insert e.1 e.2, if e.1 = funId then e.2 else h.lastIdx⟩ (by
          intro d hd
          rw [SortedMap.find?_insert, if_neg (ne_of_gt (he d hd)), hrest d hd])
      have hnotin : l.lookup e.1 = none := by
        rw [Option.eq_none_iff_forall_ne_some]
        intro v hv
        exact lt_irrefl _ (he (e.1, v) ((SortedMap.mem_iff_lookup hl).mpr hv))
      refine ⟨h', ?_, fun k => ?_, ?_⟩
      · rw [List.map_cons, List.foldlM_cons, readLine_recordLine hz hnone]
        exact hfold
      · rw [hfind, hlook, SortedMap.find?_insert]
        split_ifs with hk hke hke
        · exact absurd (hke.symm.trans hk) hz
        · rfl
        · rw [hke, hnotin]
          rfl
        · rfl
      · rw [hlast, hlook]
        by_cases hef : funId = e.1
        · subst hef
          rw [if_neg hz, if_neg hz, hnotin]
          simp
        · rw [if_neg hef]
          simp [Ne.symm hef]

/-- A rewritten history is read back but for function zero. -/
theorem readHistory_historyLines (funId : UInt32) (m : FunId2Idx) :
    readHistory funId (unlines (historyLines m)) =
      some ⟨m.erase 0, ((m.erase 0).find? funId).getD (0 - 1)⟩ := by
  obtain ⟨h, hfold, hfind, hlast⟩ := foldlM_readLine funId m.sorted .start
    (fun e _ => SortedMap.find?_empty e.1)
  have hmap : h.id2idx = m.erase 0 := by
    refine SortedMap.ext_find? fun k => ?_
    rw [hfind, SortedMap.find?_erase]
    split_ifs
    · rfl
    · exact Option.or_none
  have hidx : h.lastIdx = ((m.erase 0).find? funId).getD (0 - 1) := by
    rw [hlast, SortedMap.find?_erase]
    split_ifs
    · rfl
    · rfl
  have hheader : HistoryRead.readLine funId .start historyHeader = some .start :=
    readLine_zero .start (by decide +kernel)
  rw [readHistory, lines_unlines (newline_notMem_historyLines m), historyLines, List.foldlM_cons,
    hheader, ← hidx, ← hmap]
  exact hfold

/-- A history without records is read as empty. -/
theorem readHistory_noRecords (funId : UInt32) {history : List UInt8}
    (h : ∀ line ∈ lines history, (scanRecord line).1 = 0) :
    readHistory funId history = some .start := by
  rw [readHistory]
  generalize lines history = ls at h ⊢
  induction ls with
  | nil => rfl
  | cons line ls ih =>
    obtain ⟨hline, hls⟩ := List.forall_mem_cons.mp h
    rw [List.foldlM_cons, readLine_zero .start hline]
    exact ih hls

end ServerCom.RedeemCode
