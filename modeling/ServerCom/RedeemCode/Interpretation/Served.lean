import ServerCom.RedeemCode.Correctness.Image
import ServerCom.RedeemCode.Native.Tool

/-!
# Served calls

A call is served when the history can be read and every code asked for can be
created. Only then the disk is touched: the code file is written first and the history
is rewritten behind it. The file steps of a served call are listed here for every
content of the history.
-/

namespace ServerCom.RedeemCode

open RedeemCodeCfg Text

/-- The serials a function has. -/
def capacity : Nat := shipped.uniqueCodeMax.toNat + 1

/-- A function has `2 ^ 22` unique codes. -/
theorem capacity_eq : capacity = 2 ^ 22 := rfl

variable {funId uinCodeIdx createNum : UInt32}

/-- All codes asked for can be created. -/
def Creatable (funId uinCodeIdx createNum : UInt32) : Prop :=
  createNum = 0 ∨ funId ≤ shipped.funIdMax ∧ uinCodeIdx.toNat + createNum.toNat ≤ capacity

instance (funId uinCodeIdx createNum : UInt32) :
    Decidable (Creatable funId uinCodeIdx createNum) :=
  inferInstanceAs (Decidable (_ ∨ _ ∧ _))

/-- The codes of the next serials. -/
def nextCodes (funId uinCodeIdx : UInt32) (n : Nat) : List (List UInt8) :=
  (List.range n).map fun i => createRedeemCode shipped funId (.ofNat (uinCodeIdx.toNat + i))

/-- Serials of creatable codes are in range, without wrapping around. -/
theorem Creatable.inRange (h : Creatable funId uinCodeIdx createNum) {i : Nat}
    (hi : i < createNum.toNat) :
    InRange funId (.ofNat (uinCodeIdx.toNat + i)) ∧ uinCodeIdx.toNat + i < capacity := by
  rcases h with hz | ⟨hf, hsum⟩
  · rw [hz] at hi
    exact absurd hi (Nat.not_lt_zero i)
  · have hlt : uinCodeIdx.toNat + i < capacity := by omega
    refine ⟨⟨hf, ?_⟩, hlt⟩
    rw [UInt32.le_iff_toNat_le, UInt32.toNat_ofNat_of_lt' (hlt.trans (by decide))]
    exact Nat.le_of_lt_succ hlt

/-- The first code of a run that can be served is in range. -/
theorem Creatable.inRange_first (h : Creatable funId uinCodeIdx createNum)
    (hn : createNum ≠ 0) : InRange funId uinCodeIdx := by
  have hin := (h.inRange (Nat.pos_of_ne_zero fun hz => hn (UInt32.toNat.inj hz))).1
  rwa [Nat.add_zero, UInt32.ofNat_toNat] at hin

/-- The counter behind creatable codes does not wrap around. -/
theorem Creatable.toNat_next {lastIdx : UInt32} (h : Creatable funId (lastIdx + 1) createNum) :
    (lastIdx + createNum + 1).toNat = (lastIdx + 1).toNat + createNum.toNat := by
  have hsum : (lastIdx + 1).toNat + createNum.toNat < 2 ^ 32 := by
    have hlt := (lastIdx + 1).toNat_lt
    rcases h with hz | ⟨-, hsum⟩
    · rw [hz]
      exact hlt
    · exact hsum.trans_lt (by decide)
  rw [show lastIdx + createNum + 1 = lastIdx + 1 + createNum by
    rw [UInt32.add_assoc, UInt32.add_comm createNum, ← UInt32.add_assoc]]
  rw [UInt32.toNat_add, Nat.mod_eq_of_lt hsum]

/-- The call gets as far as writing its code file, having read this history. -/
structure Served (c : Call) (history : List UInt8) (h : HistoryRead) : Prop where
  /-- The history can be opened. -/
  opens : c.historyOpens = true
  /-- The history has no repeated function. -/
  read : readHistory c.funId history = some h
  /-- Every code can be created. -/
  creatable : Creatable c.funId (h.lastIdx + 1) c.createNum
  /-- The code file can be opened. -/
  codeOpens : c.codeOpens = true

/-- The codes of a served call. -/
def HistoryRead.codes (h : HistoryRead) (c : Call) : List (List UInt8) :=
  nextCodes c.funId (h.lastIdx + 1) c.createNum.toNat

/-- The records a served call rewrites the history with. -/
def HistoryRead.saved (h : HistoryRead) (c : Call) : FunId2Idx :=
  h.id2idx.insert c.funId (h.lastIdx + c.createNum)

/-- Writing the code file. -/
def codeSteps (name : List UInt8) (codes : List (List UInt8)) : List FileStep :=
  .createCodeFile name :: codes.map (.codeLine name)

/-- Rewriting the history. -/
def historySteps (id2idx : FunId2Idx) : List FileStep :=
  .truncateHistory :: (historyLines id2idx).map .historyLine

namespace RedeemCodeTool

/-- Counting on from the next index. -/
theorem succ_add_ofNat (i : UInt32) (j : Nat) : i + 1 + .ofNat j = i + .ofNat (j + 1) := by
  rw [UInt32.add_assoc, UInt32.add_comm 1, UInt32.ofNat_add]
  rfl

/-- The loop succeeds when every serial is in range. -/
theorem createCodes_inRange {n : Nat} {i : UInt32} (vecStr : List (List UInt8))
    (h : ∀ j < n, InRange funId (uinCodeIdx + (i + .ofNat j))) :
    createCodes shipped funId uinCodeIdx n i vecStr =
      some (vecStr ++ (List.range n).map fun j =>
        createRedeemCode shipped funId (uinCodeIdx + (i + .ofNat j))) := by
  induction n generalizing i vecStr with
  | zero => simp [createCodes]
  | succ n ih =>
    have hfirst : InRange funId (uinCodeIdx + i) := by simpa using h 0 (Nat.succ_pos n)
    have hne : createRedeemCode shipped funId (uinCodeIdx + i) ≠ [] :=
      List.ne_nil_of_length_pos (by rw [length_createRedeemCode hfirst]; decide)
    have hrest : ∀ j < n, InRange funId (uinCodeIdx + (i + 1 + .ofNat j)) := by
      intro j hj
      rw [succ_add_ofNat]
      exact h (j + 1) (Nat.succ_lt_succ hj)
    rw [createCodes]
    simp only [if_neg hne]
    rw [ih _ hrest, List.range_succ_eq_map]
    simp [succ_add_ofNat]

/-- The loop fails at a serial out of range. -/
theorem createCodes_outOfRange {n j : Nat} {i : UInt32} (vecStr : List (List UInt8)) (hj : j < n)
    (h : ¬ InRange funId (uinCodeIdx + (i + .ofNat j))) :
    createCodes shipped funId uinCodeIdx n i vecStr = none := by
  induction n generalizing i j vecStr with
  | zero => exact absurd hj (Nat.not_lt_zero j)
  | succ n ih =>
    rw [createCodes]
    split_ifs with hret
    · rfl
    · cases j with
      | zero =>
        have h0 : ¬ InRange funId (uinCodeIdx + i) := by simpa using h
        exact absurd (createRedeemCode_outOfRange h0) hret
      | succ j =>
        refine ih _ (Nat.lt_of_succ_lt_succ hj) ?_
        rw [succ_add_ofNat]
        exact h

/-- The loop generates the next codes, or fails. -/
theorem createCodes_eq_nextCodes (funId uinCodeIdx createNum : UInt32) :
    createCodes shipped funId uinCodeIdx createNum.toNat 0 [] =
      if Creatable funId uinCodeIdx createNum then
        some (nextCodes funId uinCodeIdx createNum.toNat) else none := by
  have hidx : ∀ j : Nat, uinCodeIdx + (0 + .ofNat j) = .ofNat (uinCodeIdx.toNat + j) := by
    intro j
    rw [UInt32.zero_add, UInt32.ofNat_add, UInt32.ofNat_toNat]
  split_ifs with h
  · have hrange : ∀ j < createNum.toNat, InRange funId (uinCodeIdx + (0 + .ofNat j)) := by
      intro j hj
      rw [hidx]
      exact (h.inRange hj).1
    rw [createCodes_inRange [] hrange, List.nil_append]
    simp only [hidx]
    rfl
  · obtain ⟨hne, hbad⟩ := not_or.mp h
    have hpos : 0 < createNum.toNat :=
      Nat.pos_of_ne_zero fun hz => hne (UInt32.toNat.inj hz)
    by_cases hf : funId ≤ shipped.funIdMax
    · have hsum : capacity < uinCodeIdx.toNat + createNum.toNat := by
        by_contra hsum
        exact hbad ⟨hf, Nat.le_of_not_lt hsum⟩
      -- The first serial that is too big: either the very first, or the one behind the capacity.
      refine createCodes_outOfRange (j := capacity - uinCodeIdx.toNat) [] (by omega) ?_
      rw [hidx]
      rintro ⟨-, hin⟩
      have hlt := uinCodeIdx.toNat_lt
      have hcap := capacity_eq
      rw [UInt32.le_iff_toNat_le, UInt32.toNat_ofNat_of_lt' (by rw [UInt32.size]; omega)] at hin
      have hmax : shipped.uniqueCodeMax.toNat + 1 = capacity := rfl
      omega
    · refine createCodes_outOfRange (j := 0) [] hpos ?_
      rintro ⟨hin, -⟩
      exact hf hin

variable {c : Call} {history : List UInt8} {h : HistoryRead}

/-- A served call writes the code file, and then the history if it can be opened again. -/
theorem run_served (hs : Served c history h) :
    run shipped c history =
      if c.historyReopens then
        ⟨true, codeSteps (codeFileName c.tm) (h.codes c) ++ historySteps (h.saved c)⟩
      else ⟨false, codeSteps (codeFileName c.tm) (h.codes c)⟩ := by
  have hcodes := createCodes_eq_nextCodes c.funId (h.lastIdx + 1) c.createNum
  rw [if_pos hs.creatable] at hcodes
  rw [run]
  cases hre : c.historyReopens <;>
    simp [hs.opens, hs.read, hs.codeOpens, runFrom, hcodes, codeSteps, historySteps,
      HistoryRead.codes, HistoryRead.saved]

/-- A call that is not served returns false and does nothing. -/
theorem run_not_served (hs : ∀ h, ¬ Served c history h) :
    run shipped c history = ⟨false, []⟩ := by
  rw [run]
  cases hopen : c.historyOpens with
  | false => rfl
  | true =>
    cases hread : readHistory c.funId history with
    | none => rfl
    | some h =>
      have hcodes := createCodes_eq_nextCodes c.funId (h.lastIdx + 1) c.createNum
      by_cases hcan : Creatable c.funId (h.lastIdx + 1) c.createNum
      · have hcode : c.codeOpens = false := by
          by_contra hcode
          exact hs h ⟨hopen, hread, hcan, by simpa using hcode⟩
        rw [if_pos hcan] at hcodes
        simp [runFrom, hcodes, hcode]
      · rw [if_neg hcan] at hcodes
        simp [runFrom, hcodes]

/-! ## What the file steps do -/

/-- The disk with this code file. -/
def withCodeFile (d : Disk) (name : List UInt8) (codes : List (List UInt8)) : Disk :=
  { d with codeFiles := fun n => if n = name then some (unlines codes) else d.codeFiles n }

/-- Writing one code file changes no other. -/
theorem codeFiles_withCodeFile (d : Disk) (name : List UInt8) (codes : List (List UInt8))
    (n : List UInt8) : (withCodeFile d name codes).codeFiles n =
      if n = name then some (unlines codes) else d.codeFiles n := rfl

/-- Lines of codes are appended to the file of the run. -/
theorem foldl_codeLines (d : Disk) (name : List UInt8) (pre codes : List (List UInt8)) :
    (codes.map (FileStep.codeLine name)).foldl Disk.apply (withCodeFile d name pre) =
      withCodeFile d name (pre ++ codes) := by
  induction codes generalizing pre with
  | nil => simp
  | cons code codes ih =>
    have hline : (withCodeFile d name pre).apply (.codeLine name code) =
        withCodeFile d name (pre ++ [code]) := by
      rw [withCodeFile, withCodeFile, Disk.apply]
      congr
      funext n
      by_cases hn : n = name <;> simp [hn, unlines]
    rw [List.map_cons, List.foldl_cons, hline, ih, List.append_assoc]
    rfl

/-- All the steps for a code file leave the file with all the codes. -/
theorem foldl_codeSteps (d : Disk) (name : List UInt8) (codes : List (List UInt8)) :
    (codeSteps name codes).foldl Disk.apply d = withCodeFile d name codes :=
  foldl_codeLines d name [] codes

/-- Lines of the history are appended to it. -/
theorem foldl_historyLines (d : Disk) (ls : List (List UInt8)) :
    (ls.map FileStep.historyLine).foldl Disk.apply d =
      { d with history := d.history ++ unlines ls } := by
  induction ls generalizing d with
  | nil => simp [unlines]
  | cons l ls ih =>
    rw [List.map_cons, List.foldl_cons, ih]
    simp [Disk.apply, unlines]

/-- All the steps for the history leave it with all the lines of the map. -/
theorem foldl_historySteps (d : Disk) (id2idx : FunId2Idx) :
    (historySteps id2idx).foldl Disk.apply d =
      { d with history := unlines (historyLines id2idx) } := by
  rw [historySteps, List.foldl_cons, foldl_historyLines]
  rfl

end RedeemCodeTool

end ServerCom.RedeemCode
