import Mathlib.Logic.Function.Basic
import ServerCom.RedeemCode.Interpretation.History
import ServerCom.RedeemCode.Interpretation.Served

/-!
# The ledger

What the tool is for: every function has a number of serials issued so far, and a
call issues the next ones if the capacity allows it. The history file represents such
a ledger, except that nothing is remembered for function zero.
-/

namespace ServerCom.RedeemCode

open RedeemCodeCfg Text

/-- How many serials are issued for every function. -/
structure Ledger where
  /-- The serials below this number are issued. -/
  issued : UInt32 → Nat
  /-- No function is over its capacity. -/
  issued_le : ∀ f, issued f ≤ capacity
  /-- Function zero is not kept. -/
  issued_zero : issued 0 = 0

namespace Ledger

variable {L : Ledger} {c : Call}

/-- Nothing is issued. -/
def empty : Ledger := ⟨fun _ => 0, fun _ => Nat.zero_le _, rfl⟩

/-- A call that can be served. -/
def Fits (L : Ledger) (c : Call) : Prop :=
  c.createNum = 0 ∨
    c.funId ≤ shipped.funIdMax ∧ L.issued c.funId + c.createNum.toNat ≤ capacity

instance (L : Ledger) (c : Call) : Decidable (L.Fits c) :=
  inferInstanceAs (Decidable (_ ∨ _ ∧ _))

/-- A call that fits stays within the function's capacity. -/
theorem Fits.le_capacity (h : L.Fits c) : L.issued c.funId + c.createNum.toNat ≤ capacity := by
  rcases h with h | h
  · rw [h]
    exact L.issued_le c.funId
  · exact h.2

/-- The serials a call issues. -/
def issue (L : Ledger) (c : Call) : List (UInt32 × Nat) :=
  if L.Fits c then (List.range c.createNum.toNat).map fun i => (c.funId, L.issued c.funId + i)
  else []

/-- The ledger after a call. -/
def next (L : Ledger) (c : Call) : Ledger :=
  if h : L.Fits c ∧ c.funId ≠ 0 then
    { issued := Function.update L.issued c.funId (L.issued c.funId + c.createNum.toNat)
      issued_le := by
        intro f
        rw [Function.update_apply]
        split_ifs
        · exact h.1.le_capacity
        · exact L.issued_le f
      issued_zero := by
        rw [Function.update_of_ne h.2.symm]
        exact L.issued_zero }
  else L

/-- The serials a sequence of calls issues. -/
def emitted : Ledger → List Call → List (UInt32 × Nat)
  | _, [] => []
  | L, c :: cs => L.issue c ++ emitted (L.next c) cs

/-- A call gives out the serials behind those already issued, when it fits. -/
theorem mem_issue {e : UInt32 × Nat} :
    e ∈ L.issue c ↔ L.Fits c ∧ e.1 = c.funId ∧ L.issued c.funId ≤ e.2 ∧
      e.2 < L.issued c.funId + c.createNum.toNat := by
  rw [issue]
  split_ifs with h
  · simp only [List.mem_map, List.mem_range, h, true_and]
    constructor
    · rintro ⟨i, hi, rfl⟩
      exact ⟨rfl, Nat.le_add_right .., Nat.add_lt_add_left hi _⟩
    · rintro ⟨hf, hle, hlt⟩
      refine ⟨e.2 - L.issued c.funId, by omega, Prod.ext hf.symm ?_⟩
      exact Nat.add_sub_of_le hle
  · simp [h]

/-- Another function's serials are as before. -/
theorem issued_next_of_ne {f : UInt32} (h : f ≠ c.funId) : (L.next c).issued f = L.issued f := by
  rw [next]
  split_ifs
  · exact Function.update_of_ne h _ _
  · rfl

/-- The function's own serials go up by the number asked for, except for the function id `0`. -/
theorem issued_next_self (h : L.Fits c) (hz : c.funId ≠ 0) :
    (L.next c).issued c.funId = L.issued c.funId + c.createNum.toNat := by
  rw [next, dif_pos ⟨h, hz⟩]
  exact Function.update_self ..

/-- A call that does not fit changes nothing. -/
theorem next_of_not_fits (h : ¬ L.Fits c) : L.next c = L := dif_neg fun hf => h hf.1

/-- No call takes back what a function has been given. -/
theorem issued_le_next (f : UInt32) : L.issued f ≤ (L.next c).issued f := by
  by_cases hf : f = c.funId
  · by_cases h : L.Fits c ∧ c.funId ≠ 0
    · rw [hf, issued_next_self h.1 h.2]
      exact Nat.le_add_right ..
    · rw [next, dif_neg h]
  · exact (issued_next_of_ne hf).ge

end Ledger

/-! ## Generated codes -/

/-- The code of a serial. -/
def encode (e : UInt32 × Nat) : List UInt8 := createRedeemCode shipped e.1 (.ofNat e.2)

namespace RedeemCodeTool

variable {funId uinCodeIdx : UInt32}

/-- Where the index in the code stands for the ledger's, the ledger's test is the code's. -/
theorem fits_iff_creatable {L : Ledger} {c : Call} (h : uinCodeIdx.toNat = L.issued c.funId) :
    L.Fits c ↔ Creatable c.funId uinCodeIdx c.createNum := by
  rw [Creatable, h]
  rfl

/-- The next codes are those of the serials a call issues. -/
theorem nextCodes_eq {L : Ledger} {c : Call} (h : uinCodeIdx.toNat = L.issued c.funId)
    (hfits : L.Fits c) :
    nextCodes c.funId uinCodeIdx c.createNum.toNat = (L.issue c).map encode := by
  rw [nextCodes, Ledger.issue, if_pos hfits, List.map_map, h]
  rfl

end RedeemCodeTool

/-! ## The history represents a ledger -/

/-- Every reader of the history finds the last serial issued. -/
def Represents (history : List UInt8) (L : Ledger) : Prop :=
  ∃ m : FunId2Idx, ∀ f,
    readHistory f history = some ⟨m, (m.find? f).getD (0 - 1)⟩ ∧
      ((m.find? f).getD (0 - 1) + 1).toNat = L.issued f

/-- A history without a record stands for the empty ledger. -/
theorem represents_empty {history : List UInt8}
    (h : ∀ line ∈ lines history, (scanRecord line).1 = 0) : Represents history .empty :=
  ⟨∅, fun f => ⟨readHistory_noRecords f h, by rw [SortedMap.find?_empty]; rfl⟩⟩

namespace RedeemCodeTool

/-- Every file operation of a call succeeds. -/
def Succeeds (c : Call) : Prop :=
  c.historyOpens = true ∧ c.codeOpens = true ∧ c.historyReopens = true

instance (c : Call) : Decidable (Succeeds c) := inferInstanceAs (Decidable (_ ∧ _ ∧ _))

/-- A call at noon whose file operations all succeed. -/
def callAtNoon (funId createNum : UInt32) : Call :=
  ⟨funId, createNum, true, true, true, ⟨2024, 1, 1, 12, 0, 0⟩⟩

/-- The lines written to a code file are the codes of the run. -/
theorem filterMap_codeLines (name : List UInt8) (codes : List (List UInt8)) :
    (codes.map (FileStep.codeLine name)).filterMap FileStep.code? = codes := by
  induction codes with
  | nil => rfl
  | cons code codes ih => exact congrArg (code :: ·) ih

/-- The lines written to the history are none of its codes. -/
theorem filterMap_historyLines (ls : List (List UInt8)) :
    (ls.map FileStep.historyLine).filterMap FileStep.code? = [] := by
  induction ls with
  | nil => rfl
  | cons l ls ih => exact ih

variable {d : Disk} {L : Ledger} {c : Call}

/-- Only calls that can be served are. -/
theorem fits_of_served {r : HistoryRead} (h : Represents d.history L)
    (hs : Served c d.history r) : L.Fits c := by
  obtain ⟨m, hm⟩ := h
  obtain ⟨hread, hidx⟩ := hm c.funId
  obtain rfl := Option.some.inj (hread.symm.trans hs.read)
  exact (fits_iff_creatable hidx).mpr hs.creatable

/-- A call that can be served returns true and issues the next serials. -/
theorem run_fits (h : Represents d.history L) (hc : Succeeds c) (hfits : L.Fits c) :
    (run shipped c d.history).returned = true ∧
      (run shipped c d.history).codes = (L.issue c).map encode ∧
      (step shipped d c).codeFiles =
        (withCodeFile d (codeFileName c.tm) ((L.issue c).map encode)).codeFiles ∧
      Represents (step shipped d c).history (L.next c) := by
  obtain ⟨m, hm⟩ := h
  obtain ⟨hread, hidx⟩ := hm c.funId
  generalize hlast : (m.find? c.funId).getD (0 - 1) = lastIdx at hread hidx
  have hs : Served c d.history ⟨m, lastIdx⟩ :=
    ⟨hc.1, hread, (fits_iff_creatable hidx).mp hfits, hc.2.1⟩
  have hcodes : HistoryRead.codes ⟨m, lastIdx⟩ c = (L.issue c).map encode :=
    nextCodes_eq hidx hfits
  have hrun := run_served hs
  rw [if_pos hc.2.2, hcodes] at hrun
  have hstep : step shipped d c =
      { withCodeFile d (codeFileName c.tm) ((L.issue c).map encode) with
        history := unlines (historyLines (m.insert c.funId (lastIdx + c.createNum))) } := by
    rw [step, hrun, List.foldl_append, foldl_codeSteps, foldl_historySteps]
    rfl
  refine ⟨by rw [hrun], ?_, by rw [hstep], ?_⟩
  · rw [hrun, RunResult.codes, codeSteps, historySteps, List.filterMap_append,
      List.filterMap_cons_none rfl, List.filterMap_cons_none rfl, filterMap_codeLines,
      filterMap_historyLines, List.append_nil]
  · refine ⟨(m.insert c.funId (lastIdx + c.createNum)).erase 0, fun f => ?_⟩
    rw [hstep]
    refine ⟨readHistory_historyLines f _, ?_⟩
    rw [SortedMap.find?_erase, SortedMap.find?_insert]
    split_ifs with hz hf
    · rw [hz, (L.next c).issued_zero]
      rfl
    · subst hf
      rw [Ledger.issued_next_self hfits hz, ← hidx, Option.getD_some]
      exact hs.creatable.toNat_next
    · rw [Ledger.issued_next_of_ne hf]
      exact (hm f).2

/-- A call that cannot be served returns false and does nothing. -/
theorem run_not_fits (h : Represents d.history L) (hfits : ¬ L.Fits c) :
    run shipped c d.history = ⟨false, []⟩ :=
  run_not_served fun _ hs => hfits (fits_of_served h hs)

/-- A call keeps the history in step with the ledger. -/
theorem represents_step (h : Represents d.history L) (hc : Succeeds c) :
    Represents (step shipped d c).history (L.next c) := by
  by_cases hfits : L.Fits c
  · exact (run_fits h hc hfits).2.2.2
  · rw [step, run_not_fits h hfits, Ledger.next_of_not_fits hfits]
    exact h

/-- The codes of the runs that return true. -/
def produced (rs : List RunResult) : List (List UInt8) :=
  (rs.filter (·.returned)).flatMap (·.codes)

/-- The codes produced are those of the serials the ledger issues. -/
theorem produced_results (h : Represents d.history L) {cs : List Call}
    (hcs : ∀ c ∈ cs, Succeeds c) :
    produced (results shipped d cs) = (L.emitted cs).map encode := by
  induction cs generalizing d L with
  | nil => rfl
  | cons c cs ih =>
    obtain ⟨hc, hcs⟩ := List.forall_mem_cons.mp hcs
    have hrest := ih (represents_step h hc) hcs
    rw [results, Ledger.emitted, List.map_append, ← hrest]
    by_cases hfits : L.Fits c
    · obtain ⟨htrue, hcodes, -, -⟩ := run_fits h hc hfits
      rw [produced, List.filter_cons_of_pos htrue, List.flatMap_cons, hcodes]
      rfl
    · have hfalse := run_not_fits h hfits
      rw [produced, List.filter_cons_of_neg (by simp [hfalse]), Ledger.issue, if_neg hfits]
      rfl

end RedeemCodeTool

end ServerCom.RedeemCode
