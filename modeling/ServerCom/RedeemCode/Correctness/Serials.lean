import ServerCom.RedeemCode.Interpretation.Ledger

/-!
# The serial counters

Over any sequence of calls for functions other than zero, a call succeeds exactly as
long as the capacity of its function lasts, and issues the serials that follow the ones
issued before without a gap. The counters of the other functions stay.
-/

namespace ServerCom.RedeemCode

open RedeemCodeCfg RedeemCodeTool Text

/-- A call for a function from one to `FUN_ID_MAX` whose file operations all succeed. -/
def Regular (c : Call) : Prop := Succeeds c ∧ c.funId ≠ 0 ∧ c.funId ≤ shipped.funIdMax

instance (c : Call) : Decidable (Regular c) := inferInstanceAs (Decidable (_ ∧ _ ∧ _))

/-- The sum of `create_num` over the calls for a function that returned true. -/
def issuedTo (f : UInt32) (d : Disk) (cs : List Call) : Nat :=
  (((cs.zip (results shipped d cs)).filter fun e => e.1.funId = f ∧ e.2.returned = true).map
    fun e => e.1.createNum.toNat).sum

/-- `last_idx` as a call for the function reads it. -/
def counter (f : UInt32) (history : List UInt8) : Option UInt32 :=
  (readHistory f history).map (·.lastIdx)

/-- A call on this disk, behind `n` serials of its function. -/
structure SerialsExact (d : Disk) (c : Call) (n : Nat) : Prop where
  /-- The call succeeds as long as the capacity lasts. -/
  returned_iff : (run shipped c d.history).returned = true ↔
    n + c.createNum.toNat ≤ shipped.uniqueCodeMax.toNat + 1
  /-- It emits the codes of the next serials, in order. -/
  codes : (run shipped c d.history).returned = true →
    (run shipped c d.history).codes =
      (List.range c.createNum.toNat).map fun i => createRedeemCode shipped c.funId (.ofNat (n + i))
  /-- These are the lines of its code file. -/
  codeFile : (run shipped c d.history).returned = true →
    (step shipped d c).codeFiles (codeFileName c.tm) =
      some (unlines (run shipped c d.history).codes)
  /-- The other counters stay. -/
  others : ∀ f, f ≠ c.funId → counter f (step shipped d c).history = counter f d.history
  /-- A call that fails changes nothing. -/
  failed : (run shipped c d.history).returned = false → step shipped d c = d

variable {d : Disk} {L : Ledger} {c : Call} {cs : List Call}

/-- The counter of a function is one behind the serials issued. -/
theorem Represents.counter_eq (h : Represents d.history L) (f : UInt32) :
    counter f d.history = some (.ofNat (L.issued f) - 1) := by
  obtain ⟨m, hm⟩ := h
  obtain ⟨hread, hidx⟩ := hm f
  rw [counter, hread, ← hidx, UInt32.ofNat_toNat, UInt32.add_sub_cancel]
  rfl

/-- A regular call fits as long as the function's capacity is not used up. -/
theorem Regular.fits_iff (hc : Regular c) :
    L.Fits c ↔ L.issued c.funId + c.createNum.toNat ≤ capacity := by
  constructor
  · exact Ledger.Fits.le_capacity
  · exact fun hsum => .inr ⟨hc.2.2, hsum⟩

/-- A run whose files open returns true exactly when its call fits the ledger that the history
stands for. -/
theorem returned_iff_fits (h : Represents d.history L) (hc : Succeeds c) :
    (run shipped c d.history).returned = true ↔ L.Fits c := by
  by_cases hfits : L.Fits c
  · exact iff_of_true (run_fits h hc hfits).1 hfits
  · rw [run_not_fits h hfits]
    exact iff_of_false Bool.false_ne_true hfits

/-- A sequence of calls keeps the history in step with the ledger. -/
theorem represents_foldl (h : Represents d.history L) (hcs : ∀ c ∈ cs, Succeeds c) :
    Represents (cs.foldl (step shipped) d).history (cs.foldl Ledger.next L) := by
  induction cs generalizing d L with
  | nil => exact h
  | cons c cs ih =>
    obtain ⟨hc, hcs⟩ := List.forall_mem_cons.mp hcs
    exact ih (represents_step h hc) hcs

/-- The ledger counts what the successful calls were asked for. -/
theorem issued_foldl (h : Represents d.history L) (hcs : ∀ c ∈ cs, Succeeds c) {f : UInt32}
    (hf : f ≠ 0) : (cs.foldl Ledger.next L).issued f = L.issued f + issuedTo f d cs := by
  induction cs generalizing d L with
  | nil => rfl
  | cons c cs ih =>
    obtain ⟨hc, hcs⟩ := List.forall_mem_cons.mp hcs
    have hret := returned_iff_fits h hc
    rw [List.foldl_cons, ih (represents_step h hc) hcs, issuedTo, issuedTo, results,
      List.zip_cons_cons]
    by_cases hcf : c.funId = f ∧ (run shipped c d.history).returned = true
    · obtain ⟨rfl, htrue⟩ := hcf
      rw [List.filter_cons_of_pos (by simpa using htrue), List.map_cons, List.sum_cons,
        Ledger.issued_next_self (hret.mp htrue) hf, Nat.add_assoc]
    · rw [List.filter_cons_of_neg (by simpa using hcf)]
      have hsame : (L.next c).issued f = L.issued f := by
        by_cases hne : f = c.funId
        · have hfits : ¬ L.Fits c := fun hfits => hcf ⟨hne.symm, hret.mpr hfits⟩
          rw [Ledger.next_of_not_fits hfits]
        · exact Ledger.issued_next_of_ne hne
      rw [hsame]

/-- The law of one call. -/
theorem serialsExact_of_represents (h : Represents d.history L) (hc : Regular c) :
    SerialsExact d c (L.issued c.funId) where
  returned_iff := (returned_iff_fits h hc.1).trans hc.fits_iff
  codes hret := by
    have hfits := (returned_iff_fits h hc.1).mp hret
    rw [(run_fits h hc.1 hfits).2.1, Ledger.issue, if_pos hfits, List.map_map]
    rfl
  codeFile hret := by
    have hfits := (returned_iff_fits h hc.1).mp hret
    obtain ⟨-, hcodes, hfiles, -⟩ := run_fits h hc.1 hfits
    rw [hfiles, hcodes, codeFiles_withCodeFile, if_pos rfl]
  others f hf := by
    rw [(represents_step h hc.1).counter_eq, h.counter_eq, Ledger.issued_next_of_ne hf]
  failed hret := by
    have hfits : ¬ L.Fits c := by
      rw [← returned_iff_fits h hc.1, hret]
      exact Bool.false_ne_true
    rw [step, run_not_fits h hfits]
    rfl

/-- From a history without records, every call obeys the law behind the serials of its
function issued by the calls before it. -/
theorem serials_exact (hd : ∀ line ∈ lines d.history, (scanRecord line).1 = 0)
    (hcs : ∀ c ∈ cs, Regular c) (hc : Regular c) :
    SerialsExact (cs.foldl (step shipped) d) c (issuedTo c.funId d cs) := by
  have hsucc : ∀ c ∈ cs, Succeeds c := fun c hc => (hcs c hc).1
  have hzero : Represents d.history .empty := represents_empty hd
  have hrep := represents_foldl hzero hsucc
  have hsum := issued_foldl hzero hsucc hc.2.1
  rw [show Ledger.empty.issued c.funId = 0 from rfl, Nat.zero_add] at hsum
  rw [← hsum]
  exact serialsExact_of_represents hrep hc

/-- An empty call, two codes, and a call behind them. -/
theorem serials_exact_third :
    SerialsExact ([callAtNoon 7 0, callAtNoon 9 2].foldl (step shipped) .blank) (callAtNoon 9 3)
      (issuedTo 9 .blank [callAtNoon 7 0, callAtNoon 9 2]) :=
  serials_exact (by decide) (by decide) (by decide)

end ServerCom.RedeemCode
