import ServerCom.Core.Machine.Guarded
import ServerCom.RedeemCode.Interpretation.Ledger
import ServerCom.RedeemCode.Interpretation.Stock

/-!
# Stopped calls

A call may be stopped between any two of its file steps. A stop is harmless before the
first code is written, and behind the records of all functions that have codes in the
code files. Between the two the history counts less than what is stocked.
-/

namespace ServerCom.RedeemCode

open Machine RedeemCodeCfg RedeemCodeTool Text

/-- A call for a function other than zero, stopped after some file steps. -/
structure Stopped where
  /-- The call. -/
  call : Call
  /-- It is not for function zero. -/
  funId_ne : call.funId ≠ 0
  /-- The number of file steps it gets through; a complete call gets through all. -/
  stop : Nat

/-- The disk a stopped call leaves. -/
def stopStep (d : Disk) (s : Stopped) : Disk :=
  ((run shipped s.call d.history).steps.take s.stop).foldl Disk.apply d

/-- Every code stocked is counted. -/
def CountsStock (d : Disk) : Prop :=
  ∀ f u, InRange f u → Stocked d f u → Counted d.history f u

/-- The function has codes in code files when the codes of a call are written. -/
def StockedWith (d : Disk) (c : Call) (f : UInt32) : Prop :=
  (f = c.funId ∧ c.createNum ≠ 0) ∨
    ∃ u, InRange f u ∧ ∃ n, n ≠ codeFileName c.tm ∧ createRedeemCode shipped f u ∈ fileLines d n

/-- A stop that does no harm: before the first code, or behind the records of all functions
that have codes. -/
def StopsSafely (d : Disk) (s : Stopped) : Prop :=
  ∀ h, Served s.call d.history h →
    s.stop ≤ 1 ∨ (s.call.createNum = 0 ∧ s.call.historyReopens = false) ∨
      (s.call.historyReopens = true ∧ s.call.createNum.toNat + 2 ≤ s.stop ∧
        ∀ f, StockedWith d s.call f →
          f ∈ ((h.saved s.call).entries.take (s.stop - (s.call.createNum.toNat + 3))).map Prod.fst)

/-- The history is read alike for every function, and has no record of function zero. -/
def Readable (history : List UInt8) : Prop :=
  ∃ m : FunId2Idx, m.find? 0 = none ∧
    ∀ f, readHistory f history = some ⟨m, (m.find? f).getD (0 - 1)⟩

variable {d : Disk} {c : Call} {h : HistoryRead} {m : FunId2Idx} {f u : UInt32}

/-! ## Histories cut short -/

/-- Behind `n` lines of the rewriting, the records of all lines but the header are read. -/
theorem readHistory_take (m : FunId2Idx) (n : Nat) (f : UInt32) :
    readHistory f (unlines ((historyLines m).take n)) =
      some ⟨(m.take (n - 1)).erase 0, (((m.take (n - 1)).erase 0).find? f).getD (0 - 1)⟩ := by
  cases n with
  | zero => rfl
  | succ i =>
    have hlines : (historyLines m).take (i + 1) = historyLines (m.take i) := by
      rw [historyLines, List.take_succ_cons, ← List.map_take]
      rfl
    rw [hlines]
    exact readHistory_historyLines f (m.take i)

/-- No index is found for the function id `0` once it is erased. -/
theorem find?_erase_zero (m : FunId2Idx) : (m.erase 0).find? 0 = none := by
  rw [SortedMap.find?_erase, if_pos rfl]

/-- Read off the map the history gives, a code is counted when its unique code is at most the
function's last index. -/
theorem counted_iff (hread : readHistory f d.history = some ⟨m, (m.find? f).getD (0 - 1)⟩) :
    Counted d.history f u ↔ u.toNat < ((m.find? f).getD (0 - 1) + 1).toNat := by
  rw [Counted, hread]
  simp

/-- A function without a record counts nothing. -/
theorem isSome_of_lt (h : u.toNat < ((m.find? f).getD (0 - 1) + 1).toNat) :
    m.find? f ≠ none := by
  intro hnone
  rw [hnone] at h
  exact absurd h (Nat.not_lt_zero _)

/-! ## The disk of a stopped call -/

/-- The codes of a served call. -/
theorem length_codes (h : HistoryRead) (c : Call) : (h.codes c).length = c.createNum.toNat := by
  rw [HistoryRead.codes, nextCodes, List.length_map, List.length_range]

/-- Stopped while the codes are written, the run has left the first codes in its file and nothing
else. -/
theorem foldl_take_codeSteps (d : Disk) (name : List UInt8) (codes : List (List UInt8)) (j : Nat) :
    ((codeSteps name codes).take (j + 1)).foldl Disk.apply d =
      withCodeFile d name (codes.take j) := by
  rw [codeSteps, List.take_succ_cons, ← List.map_take]
  exact foldl_codeSteps d name (codes.take j)

/-- Stopped while the history is written, the run has left the first lines of the new one. -/
theorem foldl_take_historySteps (d : Disk) (m : FunId2Idx) (j : Nat) :
    ((historySteps m).take (j + 1)).foldl Disk.apply d =
      { d with history := unlines ((historyLines m).take j) } := by
  rw [historySteps, List.take_succ_cons, ← List.map_take, List.foldl_cons, foldl_historyLines]
  rfl

/-- The codes of a served call in its code file, and none of those the file held. -/
theorem stocked_codes_iff (hs : Served c d.history h) (hin : InRange f u) :
    Stocked (withCodeFile d (codeFileName c.tm) (h.codes c)) f u ↔
      (f = c.funId ∧ (h.lastIdx + 1).toNat ≤ u.toNat ∧
        u.toNat < (h.lastIdx + 1).toNat + c.createNum.toNat) ∨
      ∃ n, n ≠ codeFileName c.tm ∧ createRedeemCode shipped f u ∈ fileLines d n := by
  rw [HistoryRead.codes, stocked_withCodeFile newline_notMem_nextCodes,
    mem_nextCodes hs.creatable hin]

/-- A stop in the code file does no harm exactly when no code is written. -/
theorem countsStock_take_codes (hd : CountsStock d) (hs : Served c d.history h) (j : Nat) :
    CountsStock (withCodeFile d (codeFileName c.tm) ((h.codes c).take j)) ↔
      j = 0 ∨ c.createNum = 0 := by
  have hlines : ∀ code ∈ (h.codes c).take j, newline ∉ code :=
    fun code hcode => newline_notMem_nextCodes code (List.mem_of_mem_take hcode)
  constructor
  · intro hafter
    by_contra hne
    obtain ⟨hj, hn⟩ := not_or.mp hne
    have hpos : 0 < c.createNum.toNat := Nat.pos_of_ne_zero fun hz => hn (UInt32.toNat.inj hz)
    have hin : InRange c.funId (h.lastIdx + 1) := hs.creatable.inRange_first hn
    have hmem : createRedeemCode shipped c.funId (h.lastIdx + 1) ∈ (h.codes c).take j := by
      rw [HistoryRead.codes, nextCodes, ← List.map_take, List.take_range]
      refine List.mem_map.mpr ⟨0, List.mem_range.mpr (by omega), ?_⟩
      rw [Nat.add_zero, UInt32.ofNat_toNat]
    obtain ⟨r, hr, hlt⟩ := hafter _ _ hin ((stocked_withCodeFile hlines).mpr (.inl hmem))
    obtain rfl := Option.some.inj (hs.read.symm.trans hr)
    exact lt_irrefl _ hlt
  · intro hnone f u hin hst
    have hnil : (h.codes c).take j = [] := by
      rcases hnone with rfl | hz
      · exact List.take_zero
      · have hcodes : h.codes c = [] :=
          List.eq_nil_of_length_eq_zero (by rw [length_codes, hz]; rfl)
        rw [hcodes, List.take_nil]
    rw [hnil] at hst
    obtain hmem | ⟨n, -, hmem⟩ := (stocked_withCodeFile fun _ h => absurd h List.not_mem_nil).mp hst
    · exact absurd hmem List.not_mem_nil
    · exact hd f u hin ⟨n, hmem⟩

/-- A stop in the history does no harm exactly when the records of all functions that have
codes are written. -/
theorem countsStock_take_history (hd : CountsStock d) (hr : Readable d.history)
    (hs : Served c d.history h) (hc : c.funId ≠ 0) (j : Nat) :
    CountsStock { withCodeFile d (codeFileName c.tm) (h.codes c) with
        history := unlines ((historyLines (h.saved c)).take j) } ↔
      ∀ f, StockedWith d c f → f ∈ ((h.saved c).entries.take (j - 1)).map Prod.fst := by
  obtain ⟨m, hzero, hm⟩ := hr
  obtain rfl := Option.some.inj ((hm c.funId).symm.trans hs.read)
  generalize hlast : (m.find? c.funId).getD (0 - 1) = lastIdx at hs ⊢
  have hcounted : ∀ f u, Counted d.history f u ↔
      u.toNat < ((m.find? f).getD (0 - 1) + 1).toNat := fun f u => counted_iff (hm f)
  generalize hsaved : HistoryRead.saved ⟨m, lastIdx⟩ c = s
  have hfind : ∀ f,
      s.find? f = if f = c.funId then some (lastIdx + c.createNum) else m.find? f := by
    intro f
    rw [← hsaved]
    exact SortedMap.find?_insert ..
  have hstocked := fun {f u} (hin : InRange f u) => stocked_codes_iff hs hin
  constructor
  · intro hafter f hf
    obtain ⟨u, hin, hst⟩ : ∃ u, InRange f u ∧
        Stocked (withCodeFile d (codeFileName c.tm) (HistoryRead.codes ⟨m, lastIdx⟩ c)) f u := by
      rcases hf with ⟨rfl, hn⟩ | ⟨u, hin, hmem⟩
      · have hpos : 0 < c.createNum.toNat := Nat.pos_of_ne_zero fun hz => hn (UInt32.toNat.inj hz)
        have hin : InRange c.funId (lastIdx + 1) := hs.creatable.inRange_first hn
        exact ⟨_, hin, (hstocked hin).mpr (.inl ⟨rfl, le_rfl, Nat.lt_add_of_pos_right hpos⟩)⟩
      · exact ⟨u, hin, (hstocked hin).mpr (.inr hmem)⟩
    have hcount := (counted_iff (readHistory_take s j f)).mp (hafter f u hin hst)
    have hsome := isSome_of_lt hcount
    rw [SortedMap.find?_erase, SortedMap.find?_take] at hsome
    by_contra hnot
    rw [if_neg hnot, ite_self] at hsome
    exact hsome rfl
  · intro hrecords f u hin hst
    refine (counted_iff (readHistory_take s j f)).mpr ?_
    have hgoal : ∀ hf : StockedWith d c f, f ≠ 0 →
        u.toNat < ((s.find? f).getD (0 - 1) + 1).toNat →
        u.toNat < ((((s.take (j - 1)).erase 0).find? f).getD (0 - 1) + 1).toNat := by
      intro hf hne hlt
      rwa [SortedMap.find?_erase, if_neg hne, SortedMap.find?_take, if_pos (hrecords f hf)]
    rcases (hstocked hin).mp hst with ⟨rfl, hle, hlt⟩ | hbeside
    · have hn : c.createNum ≠ 0 := by
        intro hn
        rw [hn] at hlt
        exact absurd hlt (Nat.not_lt.mpr hle)
      refine hgoal (.inl ⟨rfl, hn⟩) hc ?_
      rw [hfind, if_pos rfl, Option.getD_some, hs.creatable.toNat_next]
      exact hlt
    · obtain ⟨n, hn, hmem⟩ := hbeside
      have hold := (hcounted f u).mp (hd f u hin ⟨n, hmem⟩)
      refine hgoal (.inr ⟨u, hin, n, hn, hmem⟩) ?_ ?_
      · rintro rfl
        exact isSome_of_lt hold hzero
      · rw [hfind]
        split_ifs with hf
        · subst hf
          rw [Option.getD_some, hs.creatable.toNat_next]
          rw [hlast] at hold
          exact Nat.lt_of_lt_of_le hold (Nat.le_add_right ..)
        · exact hold

/-! ## Runs of stopped calls -/

variable {s : Stopped}

/-- A stopped call leaves the disk alone, or some codes in the code file, or all of them and
some lines of the history. -/
theorem stopStep_cases (hs : Served s.call d.history h) :
    (s.stop = 0 ∧ stopStep d s = d) ∨
    (∃ j, s.stop = j + 1 ∧ (j ≤ s.call.createNum.toNat ∨ s.call.historyReopens = false) ∧
      stopStep d s = withCodeFile d (codeFileName s.call.tm) ((h.codes s.call).take j)) ∨
    ∃ j, s.stop = s.call.createNum.toNat + 2 + j ∧ s.call.historyReopens = true ∧
      stopStep d s = { withCodeFile d (codeFileName s.call.tm) (h.codes s.call) with
        history := unlines ((historyLines (h.saved s.call)).take j) } := by
  have hrun := run_served hs
  have hlen : (codeSteps (codeFileName s.call.tm) (h.codes s.call)).length =
      s.call.createNum.toNat + 1 := by
    rw [codeSteps, List.length_cons, List.length_map, length_codes]
  rw [stopStep]
  cases hre : s.call.historyReopens with
  | false =>
    rw [hre, if_neg Bool.false_ne_true] at hrun
    rw [hrun]
    cases s.stop with
    | zero => exact .inl ⟨rfl, rfl⟩
    | succ j => exact .inr (.inl ⟨j, rfl, .inr rfl, foldl_take_codeSteps ..⟩)
  | true =>
    rw [if_pos hre] at hrun
    rw [hrun]
    rcases Nat.lt_or_ge s.stop (s.call.createNum.toNat + 2) with hlt | hge
    · have htake : (codeSteps (codeFileName s.call.tm) (h.codes s.call) ++
          historySteps (h.saved s.call)).take s.stop =
            (codeSteps (codeFileName s.call.tm) (h.codes s.call)).take s.stop :=
        List.take_append_of_le_length (by omega)
      rw [htake]
      cases hstop : s.stop with
      | zero => exact .inl ⟨rfl, rfl⟩
      | succ j => exact .inr (.inl ⟨j, rfl, .inl (by omega), foldl_take_codeSteps ..⟩)
    · obtain ⟨j, hj⟩ := Nat.exists_eq_add_of_le hge
      refine .inr (.inr ⟨j, hj, rfl, ?_⟩)
      have htake : (codeSteps (codeFileName s.call.tm) (h.codes s.call) ++
          historySteps (h.saved s.call)).take s.stop =
            codeSteps (codeFileName s.call.tm) (h.codes s.call) ++
              (historySteps (h.saved s.call)).take (j + 1) := by
        rw [List.take_append, List.take_of_length_le (by omega), hlen]
        congr 2
        omega
      rw [htake, List.foldl_append, foldl_codeSteps, foldl_take_historySteps]

/-- A run that is not served has no step to be stopped behind: the disk is as before. -/
theorem stopStep_not_served (hs : ∀ h, ¬ Served s.call d.history h) : stopStep d s = d := by
  rw [stopStep, run_not_served hs, List.take_nil]
  rfl

/-- Every history a stopped call leaves can be read. -/
theorem readable_stopStep (hr : Readable d.history) (s : Stopped) :
    Readable (stopStep d s).history := by
  by_cases hs : ∃ h, Served s.call d.history h
  · obtain ⟨h, hs⟩ := hs
    obtain ⟨-, hstep⟩ | ⟨j, -, -, hstep⟩ | ⟨j, -, -, hstep⟩ := stopStep_cases hs
    · rwa [hstep]
    · rwa [hstep]
    · rw [hstep]
      exact ⟨_, find?_erase_zero _, readHistory_take (h.saved s.call) j⟩
  · rwa [stopStep_not_served (not_exists.mp hs)]

/-- A stop keeps every stocked code counted exactly when it does no harm. -/
theorem countsStock_stopStep_iff (s : Stopped) (hr : Readable d.history) (hd : CountsStock d) :
    CountsStock (stopStep d s) ↔ StopsSafely d s := by
  by_cases hs : ∃ h, Served s.call d.history h
  · obtain ⟨h, hs⟩ := hs
    have hunique : StopsSafely d s ↔
        s.stop ≤ 1 ∨ (s.call.createNum = 0 ∧ s.call.historyReopens = false) ∨
          (s.call.historyReopens = true ∧ s.call.createNum.toNat + 2 ≤ s.stop ∧
            ∀ f, StockedWith d s.call f → f ∈ ((h.saved s.call).entries.take
              (s.stop - (s.call.createNum.toNat + 3))).map Prod.fst) := by
      constructor
      · exact fun hsafe => hsafe h hs
      · intro hsafe h' hs'
        obtain rfl := Option.some.inj (hs.read.symm.trans hs'.read)
        exact hsafe
    have hzero : s.call.createNum.toNat = 0 ↔ s.call.createNum = 0 :=
      ⟨fun hz => UInt32.toNat.inj hz, fun hz => hz ▸ rfl⟩
    rw [hunique]
    obtain ⟨hstop, hstep⟩ | ⟨j, hstop, hj, hstep⟩ | ⟨j, hstop, hre, hstep⟩ := stopStep_cases hs
    · rw [hstep]
      exact iff_of_true hd (.inl (by omega))
    · rw [hstep, countsStock_take_codes hd hs j, ← hzero]
      constructor
      · rintro (rfl | hz)
        · exact .inl (by omega)
        · rcases hj with hj | hre
          · exact .inl (by omega)
          · exact .inr (.inl ⟨hz, hre⟩)
      · rintro (hle | ⟨hz, -⟩ | ⟨hre, hle, -⟩)
        · exact .inl (by omega)
        · exact .inr hz
        · rcases hj with hj | hre'
          · omega
          · exact absurd (hre.symm.trans hre') (by decide)
    · rw [hstep, countsStock_take_history hd hr hs s.funId_ne j]
      have hsub : s.stop - (s.call.createNum.toNat + 3) = j - 1 := by omega
      rw [hsub]
      constructor
      · exact fun hrecords => .inr (.inr ⟨hre, by omega, hrecords⟩)
      · rintro (hle | ⟨-, hre'⟩ | ⟨-, -, hrecords⟩)
        · omega
        · exact absurd (hre.symm.trans hre') (by decide)
        · exact hrecords
  · rw [stopStep_not_served (not_exists.mp hs)]
    exact iff_of_true hd fun h hserved => absurd ⟨h, hserved⟩ hs

/-- A complete call does no harm. -/
theorem stopsSafely_complete (hr : Readable d.history) (hd : CountsStock d)
    (hre : s.call.historyReopens = true)
    (hstop : (run shipped s.call d.history).steps.length ≤ s.stop) : StopsSafely d s := by
  intro h hs
  obtain ⟨m, -, hm⟩ := hr
  have hlen : (run shipped s.call d.history).steps.length =
      s.call.createNum.toNat + 3 + (h.saved s.call).entries.length := by
    rw [run_served hs, if_pos hre]
    simp only [codeSteps, historySteps, historyLines, List.length_append, List.length_cons,
      List.length_map, length_codes]
    omega
  refine .inr (.inr ⟨hre, by omega, fun f hf => ?_⟩)
  rw [List.take_of_length_le (by omega)]
  have hsome : (h.saved s.call).find? f ≠ none := by
    rw [HistoryRead.saved, SortedMap.find?_insert]
    split_ifs with hfun
    · exact Option.some_ne_none _
    · rcases hf with ⟨hfun', -⟩ | ⟨u, hin, n, -, hmem⟩
      · exact absurd hfun' hfun
      · obtain rfl := Option.some.inj ((hm s.call.funId).symm.trans hs.read)
        exact isSome_of_lt ((counted_iff (hm f)).mp (hd f u hin ⟨n, hmem⟩))
  obtain ⟨v, hv⟩ := Option.ne_none_iff_exists'.mp hsome
  exact List.mem_map.mpr ⟨(f, v), SortedMap.mem_entries_iff.mpr hv, rfl⟩

/-- A code that is counted is not issued by the next call. -/
theorem Counted.notMem_codes (hcount : Counted d.history f u) (hin : InRange f u)
    (hs : Served c d.history h) : createRedeemCode shipped f u ∉ h.codes c := by
  intro hmem
  obtain ⟨rfl, hle, -⟩ := (mem_nextCodes hs.creatable hin).mp hmem
  obtain ⟨r, hr, hlt⟩ := hcount
  obtain rfl := Option.some.inj (hs.read.symm.trans hr)
  exact absurd hlt (Nat.not_lt.mpr hle)

/-- A history without a record is readable. -/
theorem readable_of_noRecords {history : List UInt8}
    (hd : ∀ line ∈ lines history, (scanRecord line).1 = 0) : Readable history :=
  ⟨∅, rfl, fun f => readHistory_noRecords f hd⟩

/-- From a history without records and no code files, every code stocked is counted behind
every stop of a run exactly when every stop does no harm. -/
theorem countsStock_iff (hd : ∀ line ∈ lines d.history, (scanRecord line).1 = 0)
    (hfiles : ∀ name, d.codeFiles name = none) (ss : List Stopped) :
    (∀ t ∈ ss.scanl stopStep d, CountsStock t) ↔ Along stopStep StopsSafely d ss := by
  have hstart : CountsStock d := by
    rintro f u - ⟨n, hn⟩
    rw [fileLines, hfiles] at hn
    exact absurd hn List.not_mem_nil
  have hkeep : ∀ (t : Disk) (s : Stopped), Readable t.history → Readable (stopStep t s).history :=
    fun _ s hr => readable_stopStep hr s
  exact forall_scanl_iff_along_of hkeep (fun _ s => countsStock_stopStep_iff s)
    (readable_of_noRecords hd) hstart ss

/-- A call for function seven that issues one code and gets through some of its five file
steps. -/
def oneCode (stop : Nat) : Stopped := ⟨callAtNoon 7 1, by decide, stop⟩

/-- A call stopped behind its first code leaves it uncounted. -/
theorem stop_behind_code :
    (∀ line ∈ lines Disk.blank.history, (scanRecord line).1 = 0) ∧
      ¬ ∀ t ∈ [oneCode 5, oneCode 2].scanl stopStep .blank, CountsStock t := by
  refine ⟨by decide, fun h => ?_⟩
  have hlast := h ([oneCode 5, oneCode 2].foldl stopStep .blank) (by simp) 7 1 (by decide)
    ⟨codeFileName ⟨2024, 1, 1, 12, 0, 0⟩, by decide +kernel⟩
  exact absurd hlast (by decide +kernel)

/-- A complete call, and one stopped before its first code. -/
theorem countsStock_early_stop :
    (∀ t ∈ [oneCode 5, oneCode 1].scanl stopStep .blank, CountsStock t) ↔
      Along stopStep StopsSafely .blank [oneCode 5, oneCode 1] :=
  countsStock_iff (by decide) (fun _ => rfl) _

end ServerCom.RedeemCode
