import ServerCom.RedeemCode.Interpretation.Served

/-!
# Failed calls

A call that returns false is meant to change nothing. All its failing exits lie before
the first file step but one: when the history cannot be opened again, the code file is
already written.
-/

namespace ServerCom.RedeemCode

open RedeemCodeCfg RedeemCodeTool Text

variable {d : Disk} {c : Call}

/-- The history cannot be opened again, behind a code file whose content is new. -/
def FailsLate (d : Disk) (c : Call) : Prop :=
  c.historyReopens = false ∧
    ∃ h, Served c d.history h ∧ d.codeFiles (codeFileName c.tm) ≠ some (unlines (h.codes c))

/-- Writing the code file leaves the disk as it was only where the file already held these codes.
-/
theorem withCodeFile_eq_self_iff {name : List UInt8} {codes : List (List UInt8)} :
    withCodeFile d name codes = d ↔ d.codeFiles name = some (unlines codes) := by
  constructor
  · intro h
    rw [← h, codeFiles_withCodeFile, if_pos rfl]
  · intro h
    obtain ⟨history, codeFiles⟩ := d
    rw [withCodeFile]
    congr
    funext n
    by_cases hn : n = name
    · rw [if_pos hn, hn]
      exact h.symm
    · exact if_neg hn

/-- A call that returns false leaves the disk as it was, exactly when it does not fail late. -/
theorem failed_unchanged_iff (d : Disk) (c : Call) :
    ((run shipped c d.history).returned = false → step shipped d c = d) ↔ ¬ FailsLate d c := by
  by_cases hs : ∃ h, Served c d.history h
  · obtain ⟨h, hs⟩ := hs
    have hrun := run_served hs
    cases hre : c.historyReopens with
    | true =>
      rw [if_pos hre] at hrun
      refine iff_of_true (fun hret => ?_) fun hlate => ?_
      · rw [hrun] at hret
        exact Bool.noConfusion hret
      · exact absurd (hre.symm.trans hlate.1) (by decide)
    | false =>
      rw [hre, if_neg Bool.false_ne_true] at hrun
      have hstep : step shipped d c = withCodeFile d (codeFileName c.tm) (h.codes c) := by
        rw [step, hrun]
        exact foldl_codeSteps ..
      have hlate : FailsLate d c ↔
          d.codeFiles (codeFileName c.tm) ≠ some (unlines (h.codes c)) := by
        constructor
        · rintro ⟨-, h', hs', hne⟩
          obtain rfl := Option.some.inj (hs.read.symm.trans hs'.read)
          exact hne
        · exact fun hne => ⟨hre, h, hs, hne⟩
      rw [hlate, not_not, ← withCodeFile_eq_self_iff, hstep, hrun]
      exact forall_prop_of_true rfl
  · have hrun := run_not_served (not_exists.mp hs)
    refine iff_of_true (fun _ => ?_) fun hlate => ?_
    · rw [step, hrun]
      rfl
    · obtain ⟨-, h, hserved, -⟩ := hlate
      exact hs ⟨h, hserved⟩

/-- A call whose history cannot be opened again. -/
def callReopenFails : Call := ⟨7, 1, true, true, false, ⟨2024, 1, 1, 12, 0, 0⟩⟩

/-- The code file stays when the history cannot be opened again. -/
theorem failed_keeps_codeFile :
    (run shipped callReopenFails Disk.blank.history).returned = false ∧
      step shipped .blank callReopenFails ≠ .blank := by
  refine ⟨by decide +kernel, fun h => ?_⟩
  have hfile : (step shipped .blank callReopenFails).codeFiles (codeFileName callReopenFails.tm) =
      none := congrArg (fun d => d.codeFiles (codeFileName callReopenFails.tm)) h
  exact absurd hfile (by decide +kernel)

end ServerCom.RedeemCode
