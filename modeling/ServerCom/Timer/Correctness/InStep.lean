import ServerCom.Core.Machine.Guarded
import ServerCom.Timer.Native.LeTimer

/-!
# Whether a timer knows that it is running

`m_state` is set by `StartTimer` and `StopTimer` alone. It follows the event as long as
every event that `StartTimer` adds becomes pending and stays so until `StopTimer`: no
`event_add` fails and no one-shot event expires.
-/

namespace ServerCom.Timer

variable {t : BaseLeTimer} {l : Life}

/-- The state says whether the event is pending. -/
def BaseLeTimer.InStep (t : BaseLeTimer) : Prop :=
  t.state = .waitTimeOut ↔ t.pending = true

/-- The returned value is what the interface promises. -/
def Report.Right : Report → Prop
  -- it fails only while a timer is pending, and otherwise one has been started
  | .started before returned after =>
    (returned = false → before = true) ∧ (returned = true → before = false ∧ after = true)
  -- it returns true exactly when it cancels a pending timer
  | .stopped before returned after => returned = true ↔ before = true ∧ after = false
  | .onTimer _ => True

/-- The object knows whether it is running, and has always told its user. -/
structure Life.Truthful (l : Life) : Prop where
  /-- The state follows the event. -/
  inStep : l.timer.InStep
  /-- All returned values were right. -/
  right : ∀ r ∈ l.reports, r.Right

/-- `event_add` succeeds where `StartTimer` comes that far, and an event that expires is
pending again behind it. -/
def Move.Keeps (l : Life) : Move → Prop
  | .startTimer _ _ _ addOk => l.timer.state = .waitStartTimer → addOk = true
  | .stopTimer => True
  | .expire readded =>
    l.timer.pending = true → (l.timer.event.any Event.persist && readded) = true

/-- A life with one more report is truthful when the timer is in step and this report, as those
before it, is right. -/
theorem Life.truthful_cons {r : Report} {reports : List Report} :
    Life.Truthful ⟨t, r :: reports⟩ ↔
      t.InStep ∧ r.Right ∧ ∀ r' ∈ reports, r'.Right := by
  constructor
  · intro h
    exact ⟨h.inStep, h.right r (List.mem_cons_self ..),
      fun r' hr' => h.right r' (List.mem_cons_of_mem _ hr')⟩
  · rintro ⟨hstep, hr, hrest⟩
    refine ⟨hstep, fun r' hr' => ?_⟩
    rcases List.mem_cons.mp hr' with rfl | hr'
    · exact hr
    · exact hrest r' hr'

/-- A timer that is started becomes pending exactly when `event_add` succeeds. -/
theorem BaseLeTimer.startTimer_waiting (h : t.state = .waitStartTimer)
    (millisecond para : UInt64) (isLoop addOk : Bool) :
    (t.startTimer millisecond para isLoop addOk).2 = true ∧
      (t.startTimer millisecond para isLoop addOk).1.state = .waitTimeOut ∧
      (t.startTimer millisecond para isLoop addOk).1.pending = addOk := by
  unfold startTimer
  rw [if_neg (not_not.mpr h)]
  cases addOk <;> exact ⟨rfl, rfl, rfl⟩

/-- A started timer is not started again. -/
theorem BaseLeTimer.startTimer_started (h : t.state = .waitTimeOut)
    (millisecond para : UInt64) (isLoop addOk : Bool) :
    t.startTimer millisecond para isLoop addOk = (t, false) := by
  unfold startTimer
  rw [if_pos (by rw [h]; decide)]

/-- A pending timer is cancelled. -/
theorem BaseLeTimer.stopTimer_pending (hs : t.state = .waitTimeOut) (hp : t.pending = true) :
    t.stopTimer.2 = true ∧ t.stopTimer.1.state = .waitStartTimer ∧
      t.stopTimer.1.pending = false := by
  unfold stopTimer
  cases he : t.event with
  | none =>
    rw [pending, he] at hp
    cases hp
  | some e =>
    dsimp only
    rw [if_neg (not_not.mpr hs)]
    exact ⟨rfl, rfl, rfl⟩

/-- A timer that is not started is not stopped. -/
theorem BaseLeTimer.stopTimer_waiting (h : t.state = .waitStartTimer) :
    t.stopTimer = (t, false) := by
  unfold stopTimer
  cases he : t.event with
  | none => rfl
  | some e => exact if_pos (by rw [h]; decide)

/-- Behind the callback the timer is pending only where a persistent event was added again. -/
theorem BaseLeTimer.pending_timerCB (t : BaseLeTimer) (readded : Bool) :
    (t.timerCB readded).1.pending = (t.event.any Event.persist && readded) := by
  unfold timerCB pending
  cases t.event <;> rfl

/-- A timer that is not pending does not expire. -/
theorem Life.step_expire_idle (h : l.timer.pending = false) (readded : Bool) :
    l.step (.expire readded) = l := by
  unfold step
  dsimp only
  rw [h]
  rfl

/-- A pending timer that expires runs the callback and reports its call. -/
theorem Life.step_expire_pending (h : l.timer.pending = true) (readded : Bool) :
    l.step (.expire readded) =
      ⟨(l.timer.timerCB readded).1, .onTimer (l.timer.timerCB readded).2 :: l.reports⟩ := by
  unfold step
  dsimp only
  rw [if_pos h]

/-- `StartTimer` keeps an object truthful exactly when its `event_add`, if it comes that far,
succeeds. -/
theorem Life.truthful_startTimer (h : l.Truthful) (millisecond para : UInt64)
    (isLoop addOk : Bool) :
    (l.step (.startTimer millisecond para isLoop addOk)).Truthful ↔
      (l.timer.state = .waitStartTimer → addOk = true) := by
  obtain ⟨hin, hright⟩ := h
  have hreports : (∀ r ∈ l.reports, r.Right) ↔ True := iff_true_intro hright
  unfold step
  dsimp only
  cases hs : l.timer.state with
  | waitTimeOut =>
    have hp := hin.mp hs
    rw [BaseLeTimer.startTimer_started hs, truthful_cons]
    refine iff_of_true ⟨hin, ⟨fun _ => hp, ?_⟩, hright⟩ ?_
    · intro hret
      cases hret
    · intro hwait
      cases hwait
  | waitStartTimer =>
    obtain ⟨hret, hstate, hpend⟩ := BaseLeTimer.startTimer_waiting hs millisecond para isLoop addOk
    have hbefore : l.timer.pending = false := by
      apply Bool.eq_false_iff.mpr
      intro hp
      rw [hin.mpr hp] at hs
      cases hs
    rw [truthful_cons, hreports, and_true, hret, hpend]
    unfold BaseLeTimer.InStep Report.Right
    rw [hstate, hpend, hbefore]
    simp

/-- `StopTimer` keeps an object truthful. -/
theorem Life.truthful_stopTimer (h : l.Truthful) : (l.step .stopTimer).Truthful := by
  obtain ⟨hin, hright⟩ := h
  unfold step
  dsimp only
  rw [truthful_cons]
  cases hs : l.timer.state with
  | waitTimeOut =>
    have hp := hin.mp hs
    obtain ⟨hret, hstate, hpend⟩ := BaseLeTimer.stopTimer_pending hs hp
    refine ⟨?_, ?_, hright⟩
    · unfold BaseLeTimer.InStep
      rw [hstate, hpend]
      simp
    · unfold Report.Right
      rw [hret, hpend, hp]
      simp
  | waitStartTimer =>
    rw [BaseLeTimer.stopTimer_waiting hs]
    refine ⟨hin, ?_, hright⟩
    unfold Report.Right
    simp

/-- An event that expires leaves a truthful object exactly when it is pending again. -/
theorem Life.truthful_expire (h : l.Truthful) (readded : Bool) :
    (l.step (.expire readded)).Truthful ↔
      (l.timer.pending = true → (l.timer.event.any Event.persist && readded) = true) := by
  obtain ⟨hin, hright⟩ := h
  have hreports : (∀ r ∈ l.reports, r.Right) ↔ True := iff_true_intro hright
  cases hp : l.timer.pending with
  | false =>
    rw [step_expire_idle hp]
    refine iff_of_true ⟨hin, hright⟩ fun hpend => ?_
    cases hpend
  | true =>
    have hs := hin.mpr hp
    rw [step_expire_pending hp, truthful_cons, hreports, and_true]
    unfold BaseLeTimer.InStep Report.Right
    rw [BaseLeTimer.pending_timerCB, and_true]
    unfold BaseLeTimer.timerCB
    dsimp only
    rw [hs]
    simp

/-- A truthful object stays truthful exactly when a move keeps its event. -/
theorem Life.truthful_step (h : l.Truthful) (m : Move) :
    (l.step m).Truthful ↔ m.Keeps l := by
  cases m with
  | startTimer millisecond para isLoop addOk =>
    exact truthful_startTimer h millisecond para isLoop addOk
  | stopTimer => exact iff_of_true (truthful_stopTimer h) trivial
  | expire readded => exact truthful_expire h readded

/-- In every run the object knows whether it is running, and `StartTimer` and `StopTimer`
return the right values, exactly when every `event_add` of the run succeeds and every event
that expires is pending again. -/
theorem truthful_iff_along (moves : List Move) :
    (∀ l ∈ moves.scanl Life.step .start, l.Truthful) ↔
      Machine.Along Life.step (fun l m => m.Keeps l) .start moves := by
  have hstart : Life.start.Truthful := by
    refine ⟨?_, fun r hr => absurd hr List.not_mem_nil⟩
    unfold BaseLeTimer.InStep
    decide
  have hstep : ∀ (l : Life) (m : Move), l.Truthful → ((l.step m).Truthful ↔ m.Keeps l) :=
    fun l m h => Life.truthful_step h m
  exact Machine.forall_scanl_iff_along hstep hstart moves

/-- A one-shot timer that has expired can be started no more, and reports that it was
stopped. -/
theorem oneShot_not_truthful :
    ¬ ∀ (moves : List Move), ∀ l ∈ moves.scanl Life.step .start, l.Truthful := by
  intro htruthful
  have h := htruthful [.startTimer 1000 0 false true, .expire false, .stopTimer]
    ⟨⟨some ⟨false, false, some ⟨1, 0⟩⟩, .waitStartTimer, 0⟩,
      [.stopped false true false, .onTimer 0, .started false true true]⟩ (by decide)
  have hstop := h.right (.stopped false true false) (List.mem_cons_self ..)
  exact Bool.false_ne_true (hstop.mp rfl).1

end ServerCom.Timer
