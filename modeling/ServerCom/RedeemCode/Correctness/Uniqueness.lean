import ServerCom.RedeemCode.Interpretation.Ledger

/-!
# No code twice

Over any sequence of calls the serials of every function but zero only move upwards,
so their codes are never repeated. Function zero starts over with every call, and two
calls that issue codes for it issue the same ones.
-/

namespace ServerCom.RedeemCode

open RedeemCodeTool Text

/-- A call that issues codes for function zero. -/
def IssuesZero (c : Call) : Prop :=
  c.funId = 0 ∧ 1 ≤ c.createNum.toNat ∧ c.createNum.toNat ≤ capacity

instance (c : Call) : Decidable (IssuesZero c) := inferInstanceAs (Decidable (_ ∧ _ ∧ _))

namespace Ledger

variable {L : Ledger} {c : Call} {cs : List Call} {e : UInt32 × Nat}

/-- One call gives out no pair twice. -/
theorem nodup_issue (L : Ledger) (c : Call) : (L.issue c).Nodup := by
  rw [issue]
  split_ifs
  · refine List.nodup_range.map fun i j hij => ?_
    exact Nat.add_left_cancel (congrArg Prod.snd hij)
  · exact List.nodup_nil

/-- Serials the generator accepts. -/
def Valid (e : UInt32 × Nat) : Prop := InRange e.1 (.ofNat e.2) ∧ e.2 < capacity

/-- Every pair given out is valid. -/
theorem valid_of_mem_issue (h : e ∈ L.issue c) : Valid e := by
  obtain ⟨hfits, hf, hle, hlt⟩ := mem_issue.mp h
  have hcap : e.2 < capacity := Nat.lt_of_lt_of_le hlt hfits.le_capacity
  rcases hfits with hz | ⟨hmax, -⟩
  · rw [hz] at hlt
    exact absurd hlt (Nat.not_lt.mpr hle)
  · refine ⟨⟨hf ▸ hmax, ?_⟩, hcap⟩
    rw [UInt32.le_iff_toNat_le, UInt32.toNat_ofNat_of_lt' (hcap.trans (by decide))]
    exact Nat.le_of_lt_succ hcap

/-- What a sequence of calls gives out comes from its first call or from the others behind it. -/
theorem mem_emitted_cons :
    e ∈ L.emitted (c :: cs) ↔ e ∈ L.issue c ∨ e ∈ (L.next c).emitted cs := List.mem_append

/-- Every pair given out by a sequence of calls is valid. -/
theorem valid_of_mem_emitted (h : e ∈ L.emitted cs) : Valid e := by
  induction cs generalizing L with
  | nil => exact absurd h List.not_mem_nil
  | cons c cs ih =>
    rcases mem_emitted_cons.mp h with h | h
    · exact valid_of_mem_issue h
    · exact ih h

/-- Serials issued later are not below the ones issued before. -/
theorem issued_le_of_mem_emitted (h : e ∈ L.emitted cs) : L.issued e.1 ≤ e.2 := by
  induction cs generalizing L with
  | nil => exact absurd h List.not_mem_nil
  | cons c cs ih =>
    rcases mem_emitted_cons.mp h with h | h
    · obtain ⟨-, hf, hle, -⟩ := mem_issue.mp h
      rw [hf]
      exact hle
    · exact (issued_le_next e.1).trans (ih h)

/-- A call that issues for the function id `0` starts with the pair `(0, 0)`, whatever came
before. -/
theorem zero_mem_issue (h : IssuesZero c) : ((0, 0) : UInt32 × Nat) ∈ L.issue c := by
  obtain ⟨hf, hpos, hle⟩ := h
  have hissued : L.issued c.funId = 0 := by
    rw [hf]
    exact L.issued_zero
  refine mem_issue.mpr ⟨.inr ⟨?_, ?_⟩, hf.symm, ?_, ?_⟩
  · rw [hf]
    decide
  · rwa [hissued, Nat.zero_add]
  · exact hissued.le
  · rw [hissued]
    exact Nat.lt_of_lt_of_le hpos (Nat.le_add_left ..)

/-- Only such a call gives out pairs of the function id `0`. -/
theorem issuesZero_of_mem_issue (h : e ∈ L.issue c) (hz : e.1 = 0) : IssuesZero c := by
  obtain ⟨hfits, hf, hle, hlt⟩ := mem_issue.mp h
  have hcap := hfits.le_capacity
  exact ⟨hf.symm.trans hz, by omega, by omega⟩

/-- A serial of function zero comes from a call that issues for it, and from each of
those the same first one comes. -/
theorem exists_issuesZero (h : e ∈ L.emitted cs) (hz : e.1 = 0) : ∃ c ∈ cs, IssuesZero c := by
  induction cs generalizing L with
  | nil => exact absurd h List.not_mem_nil
  | cons c cs ih =>
    rcases mem_emitted_cons.mp h with h | h
    · exact ⟨c, List.mem_cons_self .., issuesZero_of_mem_issue h hz⟩
    · obtain ⟨c', hc', hzero⟩ := ih h
      exact ⟨c', List.mem_cons_of_mem _ hc', hzero⟩

/-- A sequence with such a call in it gives out the pair `(0, 0)`. -/
theorem zero_mem_emitted (hc : c ∈ cs) (h : IssuesZero c) :
    ((0, 0) : UInt32 × Nat) ∈ L.emitted cs := by
  induction cs generalizing L with
  | nil => exact absurd hc List.not_mem_nil
  | cons c' cs ih =>
    rcases List.mem_cons.mp hc with rfl | hc
    · exact mem_emitted_cons.mpr (.inl (zero_mem_issue h))
    · exact mem_emitted_cons.mpr (.inr (ih hc))

/-- What a call issues is not issued again, unless both issues are for function zero. -/
theorem disjoint_issue (h : IssuesZero c → ∀ c' ∈ cs, ¬ IssuesZero c') :
    ∀ e ∈ L.issue c, ∀ e' ∈ (L.next c).emitted cs, e ≠ e' := by
  rintro e he e' he' rfl
  obtain ⟨hfits, hf, hle, hlt⟩ := mem_issue.mp he
  by_cases hz : e.1 = 0
  · obtain ⟨c', hc', hzero⟩ := exists_issuesZero he' hz
    exact h (issuesZero_of_mem_issue he hz) c' hc' hzero
  · have hlater := issued_le_of_mem_emitted he'
    rw [hf, issued_next_self hfits (hf ▸ hz)] at hlater
    exact absurd hlt (Nat.not_lt.mpr hlater)

/-- Serials are issued once exactly when at most one call issues for function zero. -/
theorem nodup_emitted_iff (L : Ledger) (cs : List Call) :
    (L.emitted cs).Nodup ↔ (cs.filter (IssuesZero ·)).length ≤ 1 := by
  induction cs generalizing L with
  | nil => simp [emitted]
  | cons c cs ih =>
    have hnone : (cs.filter (IssuesZero ·)).length = 0 ↔ ∀ c' ∈ cs, ¬ IssuesZero c' := by
      rw [List.length_eq_zero_iff, List.filter_eq_nil_iff]
      simp
    have hsucc : ∀ k : Nat, k + 1 ≤ 1 ↔ k = 0 := by
      intro k
      omega
    rw [emitted, List.nodup_append, ih]
    by_cases hc : IssuesZero c
    · rw [List.filter_cons_of_pos (by simpa using hc), List.length_cons, hsucc, hnone]
      constructor
      · rintro ⟨-, -, hdisj⟩ c' hc' hzero
        exact hdisj _ (zero_mem_issue hc) _ (zero_mem_emitted hc' hzero) rfl
      · intro h
        exact ⟨nodup_issue L c, (hnone.mpr h).le.trans (Nat.zero_le 1),
          disjoint_issue fun _ => h⟩
    · rw [List.filter_cons_of_neg (by simpa using hc)]
      constructor
      · exact fun h => h.2.1
      · intro h
        exact ⟨nodup_issue L c, h, disjoint_issue fun hzero => absurd hzero hc⟩

end Ledger

/-- Codes of different serials differ. -/
theorem encode_inj {e e' : UInt32 × Nat} (he : Ledger.Valid e) (he' : Ledger.Valid e')
    (h : encode e = encode e') : e = e' := by
  obtain ⟨hf, hu⟩ := createRedeemCode_inj he.1 he'.1 h
  have hlt : ∀ n < capacity, n < 2 ^ 32 := fun n hn => hn.trans (by decide)
  refine Prod.ext hf ?_
  have hnat := congrArg UInt32.toNat hu
  rwa [UInt32.toNat_ofNat_of_lt' (hlt _ he.2), UInt32.toNat_ofNat_of_lt' (hlt _ he'.2)] at hnat

/-- From a history without records, no code is produced twice exactly when at most one
call issues codes for function zero. -/
theorem produced_nodup_iff {d : Disk} (hd : ∀ line ∈ lines d.history, (scanRecord line).1 = 0)
    {cs : List Call} (hcs : ∀ c ∈ cs, Succeeds c) :
    (produced (results RedeemCodeCfg.shipped d cs)).Nodup ↔
      (cs.filter (IssuesZero ·)).length ≤ 1 := by
  rw [produced_results (represents_empty hd) hcs, ← Ledger.nodup_emitted_iff .empty]
  constructor
  · exact List.Nodup.of_map _
  · intro h
    refine h.map_on fun e he e' he' => ?_
    exact encode_inj (Ledger.valid_of_mem_emitted he) (Ledger.valid_of_mem_emitted he')

/-- Two runs for function zero produce one code twice. -/
theorem produced_zero_twice :
    (∀ line ∈ lines Disk.blank.history, (scanRecord line).1 = 0) ∧
      (∀ c ∈ [callAtNoon 0 1, callAtNoon 0 1],
        Succeeds c ∧ c.funId ≤ RedeemCodeCfg.shipped.funIdMax) ∧
      ¬ (produced (results RedeemCodeCfg.shipped .blank
        [callAtNoon 0 1, callAtNoon 0 1])).Nodup := by
  decide +kernel

/-- Runs for two functions, one of them zero, produce four codes. -/
theorem produced_two_functions :
    (∀ line ∈ lines Disk.blank.history, (scanRecord line).1 = 0) ∧
      (∀ c ∈ [callAtNoon 7 1, callAtNoon 0 2, callAtNoon 7 1], Succeeds c) ∧
      ((produced (results RedeemCodeCfg.shipped .blank
          [callAtNoon 7 1, callAtNoon 0 2, callAtNoon 7 1])).Nodup ↔
        ([callAtNoon 7 1, callAtNoon 0 2, callAtNoon 7 1].filter (IssuesZero ·)).length ≤ 1) :=
  ⟨by decide, by decide, produced_nodup_iff (by decide) (by decide)⟩

end ServerCom.RedeemCode
