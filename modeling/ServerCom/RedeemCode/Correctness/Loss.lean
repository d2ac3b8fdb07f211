import ServerCom.Core.Machine.Guarded
import ServerCom.RedeemCode.Correctness.Serials
import ServerCom.RedeemCode.Correctness.Uniqueness
import ServerCom.RedeemCode.Interpretation.Stock

/-!
# Lost codes

The code file is named after the second it is written in and opened for output, so a
later run of the same second replaces it. The codes of a run are kept exactly when no
later run names its file again.
-/

namespace ServerCom.RedeemCode

open Machine RedeemCodeCfg RedeemCodeTool Text

namespace Ledger

variable {L : Ledger} {c : Call} {cs : List Call} {e : UInt32 × Nat}

/-- A serial issued by a call whose code file no later call names. -/
def Keeps (e : UInt32 × Nat) : Ledger → List Call → Prop
  | _, [] => False
  | L, c :: cs =>
    (e ∈ L.issue c ∧ ∀ c' ∈ cs, codeFileName c'.tm ≠ codeFileName c.tm) ∨ Keeps e (L.next c) cs

/-- What a sequence of calls keeps it has given out. -/
theorem mem_emitted_of_keeps (h : Keeps e L cs) : e ∈ L.emitted cs := by
  induction cs generalizing L with
  | nil => exact h.elim
  | cons c cs ih =>
    rcases h with ⟨hmem, -⟩ | h
    · exact mem_emitted_cons.mpr (.inl hmem)
    · exact mem_emitted_cons.mpr (.inr (ih h))

/-- No call takes back what a function has been given. -/
theorem issued_le_foldl (f : UInt32) : L.issued f ≤ (cs.foldl next L).issued f := by
  induction cs generalizing L with
  | nil => exact le_rfl
  | cons c cs ih => exact (issued_le_next f).trans ih

/-- For functions other than zero, the serials issued are those between the counters. -/
theorem mem_emitted_iff (hcs : ∀ c ∈ cs, c.funId ≠ 0) :
    e ∈ L.emitted cs ↔ L.issued e.1 ≤ e.2 ∧ e.2 < (cs.foldl next L).issued e.1 := by
  induction cs generalizing L with
  | nil =>
    refine iff_of_false List.not_mem_nil ?_
    rintro ⟨hle, hlt⟩
    exact absurd hlt (Nat.not_lt.mpr hle)
  | cons c cs ih =>
    obtain ⟨hz, hcs⟩ := List.forall_mem_cons.mp hcs
    rw [mem_emitted_cons, ih hcs, List.foldl_cons, mem_issue]
    have hmono : (L.next c).issued e.1 ≤ (cs.foldl next (L.next c)).issued e.1 :=
      issued_le_foldl e.1
    have hnext := issued_le_next (L := L) (c := c) e.1
    by_cases hserved : L.Fits c ∧ e.1 = c.funId
    · obtain ⟨hfits, hf⟩ := hserved
      have hself := issued_next_self hfits hz
      rw [← hf] at hself ⊢
      simp only [hfits, true_and]
      omega
    · have hsame : (L.next c).issued e.1 = L.issued e.1 := by
        by_cases hf : e.1 = c.funId
        · rw [next_of_not_fits fun hfits => hserved ⟨hfits, hf⟩]
        · exact issued_next_of_ne hf
      rw [hsame]
      constructor
      · rintro (⟨hfits, hf, -⟩ | h)
        · exact absurd ⟨hfits, hf⟩ hserved
        · exact h
      · exact .inr

/-- All serials issued are kept exactly when no file with codes is named again. -/
theorem keeps_iff (hz : ∀ c ∈ cs, c.funId ≠ 0) (hfits : Along next Fits L cs) :
    (∀ e ∈ L.emitted cs, Keeps e L cs) ↔
      cs.Pairwise fun c c' => c.createNum ≠ 0 → codeFileName c'.tm ≠ codeFileName c.tm := by
  induction cs generalizing L with
  | nil => exact iff_of_true (fun _ h => absurd h List.not_mem_nil) .nil
  | cons c cs ih =>
    obtain ⟨hcz, hz⟩ := List.forall_mem_cons.mp hz
    obtain ⟨hc, hfits⟩ := hfits
    have hdisj : ∀ e ∈ L.issue c, ∀ e' ∈ (L.next c).emitted cs, e ≠ e' :=
      disjoint_issue fun hzero => absurd hzero.1 hcz
    rw [List.pairwise_cons, ← ih hz hfits]
    constructor
    · intro h
      refine ⟨fun c' hc' hne => ?_, fun e he => ?_⟩
      · have hpos : 0 < c.createNum.toNat :=
          Nat.pos_of_ne_zero fun hzero => hne (UInt32.toNat.inj hzero)
        have hmem : (c.funId, L.issued c.funId) ∈ L.issue c :=
          mem_issue.mpr ⟨hc, rfl, le_rfl, Nat.lt_add_of_pos_right hpos⟩
        rcases h _ (mem_emitted_cons.mpr (.inl hmem)) with ⟨-, hnames⟩ | hkeeps
        · exact hnames c' hc'
        · exact absurd rfl (hdisj _ hmem _ (mem_emitted_of_keeps hkeeps))
      · rcases h e (mem_emitted_cons.mpr (.inr he)) with ⟨hmem, -⟩ | hkeeps
        · exact absurd rfl (hdisj _ hmem _ he)
        · exact hkeeps
    · rintro ⟨hnames, hrest⟩ e he
      rcases mem_emitted_cons.mp he with hmem | hmem
      · have hne : c.createNum ≠ 0 := by
          intro hzero
          obtain ⟨-, -, hle, hlt⟩ := mem_issue.mp hmem
          rw [hzero] at hlt
          exact absurd hlt (Nat.not_lt.mpr hle)
        exact .inl ⟨hmem, fun c' hc' => hnames c' hc' hne⟩
      · exact .inr (hrest e hmem)

end Ledger

variable {d : Disk} {L : Ledger} {c : Call} {cs : List Call} {f u : UInt32}

/-- A run that returns true has opened all its files. -/
theorem succeeds_of_returned (h : (run shipped c d.history).returned = true) : Succeeds c := by
  by_cases hs : ∃ r, Served c d.history r
  · obtain ⟨r, hs⟩ := hs
    rw [run_served hs] at h
    split_ifs at h with hre
    exact ⟨hs.opens, hs.codeOpens, hre⟩
  · rw [run_not_served (not_exists.mp hs)] at h
    exact Bool.noConfusion h

/-- Runs that return true are calls the ledger can serve. -/
theorem along_fits (h : Represents d.history L)
    (htrue : ∀ r ∈ results shipped d cs, r.returned = true) :
    (∀ c ∈ cs, Succeeds c) ∧ Along Ledger.next Ledger.Fits L cs := by
  induction cs generalizing d L with
  | nil => exact ⟨fun _ hc => absurd hc List.not_mem_nil, trivial⟩
  | cons c cs ih =>
    obtain ⟨hret, htrue⟩ := List.forall_mem_cons.mp htrue
    have hc := succeeds_of_returned hret
    have hfits : L.Fits c := by
      by_contra hfits
      rw [run_not_fits h hfits] at hret
      exact Bool.noConfusion hret
    obtain ⟨hcs, halong⟩ := ih (represents_step h hc) htrue
    exact ⟨List.forall_mem_cons.mpr ⟨hc, hcs⟩, hfits, halong⟩

/-- The history counts the serials of the ledger. -/
theorem Represents.counted_iff (h : Represents d.history L) :
    Counted d.history f u ↔ u.toNat < L.issued f := by
  obtain ⟨m, hm⟩ := h
  obtain ⟨hread, hidx⟩ := hm f
  rw [Counted, hread, ← hidx]
  simp

/-- The code of a pair whose second half is a 32-bit unique code. -/
theorem encode_toNat (f u : UInt32) : encode (f, u.toNat) = createRedeemCode shipped f u := by
  rw [encode, UInt32.ofNat_toNat]

/-- A pair in range is valid for the ledger. -/
theorem valid_of_inRange (hin : InRange f u) : Ledger.Valid (f, u.toNat) := by
  refine ⟨?_, Nat.lt_succ_of_le (UInt32.le_iff_toNat_le.mp hin.2)⟩
  rw [UInt32.ofNat_toNat]
  exact hin

/-- A code in range is among those of a call exactly when its pair is: no other pair has this
code. -/
theorem mem_map_encode_issue (hin : InRange f u) :
    createRedeemCode shipped f u ∈ (L.issue c).map encode ↔ (f, u.toNat) ∈ L.issue c := by
  rw [← encode_toNat]
  constructor
  · intro h
    obtain ⟨e, he, hcode⟩ := List.mem_map.mp h
    rwa [← encode_inj (Ledger.valid_of_mem_issue he) (valid_of_inRange hin) hcode]
  · exact List.mem_map_of_mem

/-- After runs that return true, a code is stocked that is kept, or was stocked before in a
file that none of them names. -/
theorem stocked_foldl (h : Represents d.history L)
    (htrue : ∀ r ∈ results shipped d cs, r.returned = true) (hin : InRange f u) :
    Stocked (cs.foldl (step shipped) d) f u ↔
      (∃ n, createRedeemCode shipped f u ∈ fileLines d n ∧ ∀ c ∈ cs, codeFileName c.tm ≠ n) ∨
        Ledger.Keeps (f, u.toNat) L cs := by
  induction cs generalizing d L with
  | nil => simp [Stocked, Ledger.Keeps]
  | cons c cs ih =>
    obtain ⟨hsucc, hfits, -⟩ := along_fits h htrue
    have hc := hsucc c (List.mem_cons_self ..)
    have hlines : ∀ n, fileLines (step shipped d c) n =
        if n = codeFileName c.tm then (L.issue c).map encode else fileLines d n := by
      intro n
      rw [fileLines, (run_fits h hc hfits).2.2.1]
      refine fileLines_withCodeFile (fun code hcode => ?_) n
      obtain ⟨e, -, rfl⟩ := List.mem_map.mp hcode
      exact newline_notMem_createRedeemCode _ _
    rw [List.foldl_cons, ih (represents_step h hc) (List.forall_mem_cons.mp htrue).2,
      Ledger.Keeps, ← mem_map_encode_issue hin, ← or_assoc]
    refine or_congr_left ?_
    constructor
    · rintro ⟨n, hn, hnames⟩
      rw [hlines] at hn
      split_ifs at hn with hname
      · refine .inr ⟨hn, fun c' hc' => ?_⟩
        rw [← hname]
        exact hnames c' hc'
      · exact .inl ⟨n, hn, List.forall_mem_cons.mpr ⟨Ne.symm hname, hnames⟩⟩
    · rintro (⟨n, hn, hnames⟩ | ⟨hmem, hnames⟩)
      · obtain ⟨hname, hnames⟩ := List.forall_mem_cons.mp hnames
        refine ⟨n, ?_, hnames⟩
        rwa [hlines, if_neg hname.symm]
      · refine ⟨codeFileName c.tm, ?_, hnames⟩
        rwa [hlines, if_pos rfl]

/-- From a history without records and no code files, every code counted behind runs that
all return true is stocked, exactly when no file with codes is named again. -/
theorem counted_stocked_iff (hd : ∀ line ∈ lines d.history, (scanRecord line).1 = 0)
    (hfiles : ∀ name, d.codeFiles name = none)
    (hcs : ∀ c ∈ cs, c.funId ≠ 0 ∧ c.funId ≤ shipped.funIdMax)
    (htrue : ∀ r ∈ results shipped d cs, r.returned = true) :
    (∀ f u, Counted (cs.foldl (step shipped) d).history f u →
        Stocked (cs.foldl (step shipped) d) f u) ↔
      cs.Pairwise fun c c' => c.createNum ≠ 0 → codeFileName c'.tm ≠ codeFileName c.tm := by
  have hzero : Represents d.history .empty := represents_empty hd
  obtain ⟨hsucc, hfits⟩ := along_fits hzero htrue
  have hz : ∀ c ∈ cs, c.funId ≠ 0 := fun c hc => (hcs c hc).1
  have hcounted : ∀ f u, Counted (cs.foldl (step shipped) d).history f u ↔
      (f, u.toNat) ∈ Ledger.empty.emitted cs := by
    intro f u
    rw [(represents_foldl hzero hsucc).counted_iff, Ledger.mem_emitted_iff hz]
    exact (and_iff_right (Nat.zero_le _)).symm
  have hstocked : ∀ f u, InRange f u → (Stocked (cs.foldl (step shipped) d) f u ↔
      Ledger.Keeps (f, u.toNat) .empty cs) := by
    intro f u hin
    rw [stocked_foldl hzero htrue hin]
    refine or_iff_right ?_
    rintro ⟨n, hn, -⟩
    rw [fileLines, hfiles] at hn
    exact absurd hn List.not_mem_nil
  rw [← Ledger.keeps_iff hz hfits]
  constructor
  · intro h e he
    have hvalid := Ledger.valid_of_mem_emitted he
    have hu : (UInt32.ofNat e.2).toNat = e.2 :=
      UInt32.toNat_ofNat_of_lt' (hvalid.2.trans (by decide))
    have hkeeps :=
      (hstocked e.1 (.ofNat e.2) hvalid.1).mp (h _ _ ((hcounted _ _).mpr (by rwa [hu])))
    rwa [hu] at hkeeps
  · intro h f u hcount
    have hmem := (hcounted f u).mp hcount
    have hvalid := (Ledger.valid_of_mem_emitted hmem).1
    rw [UInt32.ofNat_toNat] at hvalid
    exact (hstocked f u hvalid).mpr (h _ hmem)

/-- A second run of the same second replaces the codes of the first. -/
theorem same_second_loses :
    (∀ line ∈ lines Disk.blank.history, (scanRecord line).1 = 0) ∧
      (∀ r ∈ results shipped .blank [callAtNoon 7 1, callAtNoon 8 1], r.returned = true) ∧
      Counted ([callAtNoon 7 1, callAtNoon 8 1].foldl (step shipped) .blank).history 7 0 ∧
      ¬ Stocked ([callAtNoon 7 1, callAtNoon 8 1].foldl (step shipped) .blank) 7 0 := by
  have htrue : ∀ r ∈ results shipped .blank [callAtNoon 7 1, callAtNoon 8 1],
      r.returned = true := by decide +kernel
  refine ⟨by decide, htrue, by decide +kernel, ?_⟩
  rw [stocked_foldl (represents_empty (by decide)) htrue (by decide)]
  rintro (⟨n, hn, -⟩ | ⟨-, hnames⟩ | ⟨hmem, -⟩ | hnone)
  · exact absurd hn List.not_mem_nil
  · exact hnames _ (List.mem_singleton_self _) rfl
  · exact absurd (Ledger.mem_issue.mp hmem).2.1 (by decide)
  · exact hnone

/-- Three runs, the last two in one second. -/
def twoSeconds : List Call :=
  [⟨7, 2, true, true, true, ⟨2024, 1, 1, 12, 0, 0⟩⟩,
    ⟨8, 0, true, true, true, ⟨2024, 1, 1, 12, 0, 1⟩⟩,
    ⟨7, 1, true, true, true, ⟨2024, 1, 1, 12, 0, 1⟩⟩]

/-- Runs of different seconds, and one without codes that shares its second. -/
theorem different_seconds_keep :
    (∀ f u, Counted (twoSeconds.foldl (step shipped) .blank).history f u →
        Stocked (twoSeconds.foldl (step shipped) .blank) f u) ↔
      twoSeconds.Pairwise fun c c' => c.createNum ≠ 0 → codeFileName c'.tm ≠ codeFileName c.tm :=
  counted_stocked_iff (by decide) (fun _ => rfl) (by decide) (by decide +kernel)

end ServerCom.RedeemCode
