import ServerCom.Core.Machine.Guarded
import ServerCom.SingleProgress.Native.FileLock

/-!
# One instance, and no starter that waits

The kernel keeps two holders apart in every interleaving. What keeps a starter from waiting
behind a holder is the test, and it answers for a moment only: a process that takes the lock
while another one has tested it leaves that one to wait in `F_LOCK`.
-/

namespace ServerCom.SingleProgress

open Machine

namespace Processes

variable {P : Type*} [DecidableEq P] {s : Processes P} {p q : P}

/-- The lock is held by the process that has passed `CheckSingle`. -/
def Locked (s : Processes P) : Prop := ∀ p, s.holder = some p ↔ s.progress p = .passed

/-- A single instance: the one that has passed is alone, and every other starter has ended or
will end at its test; nobody waits. -/
structure Single (s : Processes P) : Prop where
  /-- At most one living process has passed. -/
  exclusive : ∀ p q, s.progress p = .passed → s.progress q = .passed → p = q
  /-- Beside it, a process has not called, is about to fail its test, or has ended. -/
  refused : ∀ p q, p ≠ q → s.progress q = .passed → s.progress p = .start ∨
    s.progress p = .opened ∧ (s.step (.test p)).progress p = .exited ∨ s.progress p = .exited
  /-- Nobody waits in `F_LOCK`. -/
  unhung : ∀ p, s.progress p ≠ .waiting

/-- A process that takes the lock behind its test is the only one that has tested it. -/
def Guard (s : Processes P) : SysCall P → Prop
  | .lock p => s.progress p = .tested → ∀ q, q ≠ p → s.progress q ≠ .tested
  | _ => True

/-! ## The lock -/

omit [DecidableEq P] in
/-- Before any process has come, the lock is held by nobody. -/
theorem locked_start : (start : Processes P).Locked := fun _ => by simp [start]

omit [DecidableEq P] in
/-- Two processes that are both past the check are one: they hold the same lock. -/
theorem Locked.exclusive (h : s.Locked) (hp : s.progress p = .passed)
    (hq : s.progress q = .passed) : p = q :=
  Option.some.inj (((h p).mpr hp).symm.trans ((h q).mpr hq))

/-- A process that does not hold the lock goes on short of holding it. -/
theorem Locked.move (h : s.Locked) (hp : s.progress p ≠ .passed) {a : Progress}
    (ha : a ≠ .passed) : (s.move p a).Locked := by
  intro q
  rw [move_holder, h q]
  by_cases hq : q = p
  · subst hq
    simp [hp, ha]
  · rw [move_of_ne hq]

/-- With the process that holds it the lock is gone too. -/
theorem Locked.exit (h : s.Locked) (p : P) : (s.exit p).Locked := by
  intro q
  by_cases hq : q = p
  · subst hq
    simp only [exit_self, reduceCtorEq, iff_false]
    by_cases hheld : s.holder = some q <;> simp [Processes.exit, hheld]
  · rw [exit_of_ne hq, ← h q]
    by_cases hheld : s.holder = some p
    · simp [Processes.exit, hheld, Ne.symm hq]
    · simp [Processes.exit, hheld]

/-- A free lock that is acquired is held by the process that passes. -/
theorem Locked.acquire (h : s.Locked) (hfree : ¬ s.HeldByOther p) : (s.acquire p).Locked := by
  intro q
  by_cases hq : q = p
  · subst hq
    simp
  · rw [acquire_holder, acquire_of_ne hq, ← h q]
    constructor
    · intro hpq
      exact absurd (Option.some.inj hpq).symm hq
    · intro hheld
      exact absurd ⟨by simp [hheld], by simp [hheld, hq]⟩ hfree

/-- The lock is with the process that has passed, behind every system call. -/
theorem Locked.step (h : s.Locked) (c : SysCall P) : (s.step c).Locked := by
  cases c with
  | openFile p ok =>
    rw [Processes.step]
    split_ifs with hp hok
    · exact h.move (by simp [hp]) (by simp)
    · exact h.exit p
    · exact h
  | test p =>
    rw [Processes.step]
    split_ifs with hp hheld
    · exact h.exit p
    · exact h.move (by simp [hp]) (by simp)
    · exact h
  | lock p =>
    rw [Processes.step]
    split_ifs with hp hheld
    · exact h.move (by rcases hp with hp | hp <;> simp [hp]) (by simp)
    · exact h.acquire hheld
    · exact h
  | exit p => exact h.exit p

/-- Two living processes never both pass, in any interleaving. -/
theorem exclusive_of_run (cs : List (SysCall P)) :
    ∀ t ∈ cs.scanl step start, ∀ p q, t.progress p = .passed → t.progress q = .passed → p = q := by
  intro t ht p q
  exact (forall_scanl (fun _ c h => h.step c) locked_start cs t ht).exclusive

/-! ## The starters -/

/-- Before any process has come, none stands between the test and the lock. -/
theorem single_start : (start : Processes P).Single := by
  refine ⟨?_, ?_, ?_⟩ <;> simp [start]

/-- With another holder, the test ends the process. -/
theorem test_exits (hp : s.progress p = .opened) (hheld : s.HeldByOther p) :
    (s.step (.test p)).progress p = .exited := by
  rw [step, if_pos hp, if_pos hheld, exit_self]

/-- A lock held by another refuses everybody who has not tested it. -/
theorem Locked.single (h : s.Locked) (hunhung : ∀ p, s.progress p ≠ .waiting)
    (htested : ∀ p q, p ≠ q → s.progress q = .passed → s.progress p ≠ .tested) : s.Single := by
  refine ⟨fun _ _ => h.exclusive, fun p q hne hq => ?_, hunhung⟩
  have hheld : s.HeldByOther p := by
    rw [HeldByOther, (h q).mpr hq]
    exact ⟨by simp, fun hqp => hne (Option.some.inj hqp).symm⟩
  cases hp : s.progress p with
  | start => exact .inl rfl
  | opened => exact .inr (.inl ⟨rfl, test_exits hp hheld⟩)
  | tested => exact absurd hp (htested p q hne hq)
  | waiting => exact absurd hp (hunhung p)
  | passed => exact absurd (h.exclusive hp hq) hne
  | exited => exact .inr (.inr rfl)

/-- While a process is past the check, no other stands between the test and the lock. -/
theorem Single.not_tested (h : s.Single) (hne : p ≠ q) (hq : s.progress q = .passed) :
    s.progress p ≠ .tested := by
  intro hp
  have := h.refused p q hne hq
  simp [hp] at this

/-- A process that goes on short of its test, or ends, leaves a single instance. -/
theorem Single.quiet (h : s.Single) {t : Processes P} (ht : t.Locked) {a : Progress}
    (hself : t.progress p = a) (hother : ∀ q, q ≠ p → t.progress q = s.progress q)
    (ha : a = .opened ∨ a = .exited) : t.Single := by
  have hp : t.progress p ≠ .waiting ∧ t.progress p ≠ .tested ∧ t.progress p ≠ .passed := by
    rcases ha with rfl | rfl <;> simp [hself]
  refine ht.single (fun q => ?_) (fun q r hne hr => ?_)
  · by_cases hq : q = p
    · exact hq ▸ hp.1
    · rw [hother q hq]
      exact h.unhung q
  · by_cases hq : q = p
    · exact hq ▸ hp.2.1
    · have hrp : r ≠ p := fun hrp => hp.2.2 (hrp ▸ hr)
      rw [hother q hq]
      exact h.not_tested hne ((hother r hrp).symm.trans hr)

/-- A test succeeds only while nobody has passed. -/
theorem Single.tested (h : s.Single) (hl : s.Locked) (hp : s.progress p = .opened)
    (hfree : ¬ s.HeldByOther p) : (s.move p .tested).Single := by
  have hnobody : ∀ q, s.progress q ≠ .passed := by
    intro q hq
    have hne : q ≠ p := fun hqp => by simp [← hqp, hq] at hp
    exact hfree ⟨by simp [(hl q).mpr hq], by simp [(hl q).mpr hq, hne]⟩
  have hnobody' : ∀ q, (s.move p .tested).progress q ≠ .passed := by
    intro q
    by_cases hq : q = p
    · simp [hq]
    · rw [move_of_ne hq]
      exact hnobody q
  refine (hl.move (by simp [hp]) (by simp)).single (fun q => ?_) (fun _ r _ hr => ?_)
  · by_cases hq : q = p
    · simp [hq]
    · rw [move_of_ne hq]
      exact h.unhung q
  · exact absurd hr (hnobody' r)

/-- Behind its test, a process gets the lock, and is single exactly without another tester. -/
theorem Single.acquire_iff (h : s.Single) (hl : s.Locked) (hfree : ¬ s.HeldByOther p) :
    (s.acquire p).Single ↔ ∀ q, q ≠ p → s.progress q ≠ .tested := by
  constructor
  · intro hs q hq
    rw [← acquire_of_ne hq]
    exact hs.not_tested hq acquire_self
  · intro hg
    refine (hl.acquire hfree).single (fun q => ?_) (fun q r hne hr => ?_)
    · by_cases hq : q = p
      · simp [hq]
      · rw [acquire_of_ne hq]
        exact h.unhung q
    · by_cases hq : q = p
      · simp [hq]
      · rw [acquire_of_ne hq]
        exact hg q hq

/-- A process that has tested the lock finds it free while the instance is single. -/
theorem Single.not_heldByOther (h : s.Single) (hl : s.Locked) (hp : s.progress p = .tested) :
    ¬ s.HeldByOther p := by
  rintro ⟨hsome, hne⟩
  obtain ⟨q, hq⟩ := Option.ne_none_iff_exists'.mp hsome
  have hpq : p ≠ q := fun hpq => hne (hpq ▸ hq)
  exact h.not_tested hpq ((hl q).mp hq) hp

/-- A single instance stays one exactly while no lock is taken beside another tester. -/
theorem Single.step_iff (h : s.Single) (hl : s.Locked) (c : SysCall P) :
    (s.step c).Single ↔ s.Guard c := by
  have hexit : ∀ p, (s.exit p).Single := fun p =>
    h.quiet (hl.exit p) exit_self (fun _ => exit_of_ne) (.inr rfl)
  cases c with
  | openFile p ok =>
    refine iff_of_true ?_ trivial
    rw [step]
    split_ifs with hp hok
    · exact h.quiet (hl.move (by simp [hp]) (by simp)) move_self (fun _ => move_of_ne) (.inl rfl)
    · exact hexit p
    · exact h
  | test p =>
    refine iff_of_true ?_ trivial
    rw [step]
    split_ifs with hp hheld
    · exact hexit p
    · exact h.tested hl hp hheld
    · exact h
  | lock p =>
    rw [step, Guard]
    by_cases hp : s.progress p = .tested
    · have hfree := h.not_heldByOther hl hp
      rw [if_pos (.inl hp), if_neg hfree, h.acquire_iff hl hfree]
      exact ⟨fun hg _ => hg, fun hg => hg hp⟩
    · rw [if_neg (not_or.mpr ⟨hp, h.unhung p⟩)]
      exact iff_of_true h fun hp' => absurd hp' hp
  | exit p => exact iff_of_true (hexit p) trivial

/-- In a run of any processes, the instance is single at every moment, and every other starter
ends instead of waiting, exactly when no process takes the lock while another one is between
its test and its lock. -/
theorem single_iff (cs : List (SysCall P)) :
    (∀ t ∈ cs.scanl step start, t.Single) ↔ Along step Guard (start : Processes P) cs := by
  have hstep : ∀ (s : Processes P) (c : SysCall P), s.Locked → s.Single →
      ((s.step c).Single ↔ s.Guard c) :=
    fun _ c hl h => h.step_iff hl c
  exact forall_scanl_iff_along_of (fun _ c hl => hl.step c) hstep locked_start single_start cs

/-- Two processes that start together: both tests succeed. -/
def startedTogether : List (SysCall Nat) :=
  [.openFile 1 true, .openFile 2 true, .test 1, .test 2, .lock 1, .lock 2]

/-- The second one waits in `F_LOCK`, and starts when the first one ends. -/
theorem startedTogether_waits :
    (startedTogether.foldl step start).progress 2 = .waiting ∧
      ((startedTogether ++ [SysCall.exit 1, .lock 2]).foldl step start).progress 2 = .passed ∧
      ¬ ∀ t ∈ startedTogether.scanl step start, t.Single := by
  refine ⟨by decide, by decide, fun h => ?_⟩
  have hlast := h _ (List.getLast_mem (by simp))
  exact hlast.unhung 2 (by decide)

/-- One after the other, the second starter ends at its test. -/
example : ([SysCall.openFile 1 true, .test 1, .lock 1, .openFile 2 true, .test 2].foldl step
    start).progress 2 = .exited := by
  decide

end Processes

end ServerCom.SingleProgress
