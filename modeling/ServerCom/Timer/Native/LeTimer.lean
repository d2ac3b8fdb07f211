/-!
# The timer object

`BaseLeTimer` wraps one libevent event. Whether that event is pending is libevent's own
state: an expiration ends it for a one-shot event, and libevent adds a persistent one
again. Results of libevent calls are arguments. `TimerCB` ends with `OnTimer`, so what the
user calls from there are further moves of a run. An allocated event is not null.
-/

namespace ServerCom.Timer

/-- `timeval`. -/
structure Timeval where
  /-- `tv_sec`. -/
  tvSec : UInt64
  /-- `tv_usec`. -/
  tvUsec : UInt64
  deriving DecidableEq, Repr

/-- An event of libevent that belongs to no descriptor. -/
structure Event where
  /-- `EV_PERSIST` is set. -/
  persist : Bool
  /-- It is added, and its timeout lies ahead. -/
  pending : Bool
  /-- The timeout it was added with. -/
  timeout : Option Timeval
  deriving DecidableEq, Repr

/-- `State`. -/
inductive State where
  /-- `S_WAIT_START_TIMER`. -/
  | waitStartTimer
  /-- `S_WAIT_TIME_OUT`. -/
  | waitTimeOut
  deriving DecidableEq, Repr

/-- The fields of the class. A pointer is its address. -/
structure BaseLeTimer where
  /-- `m_event`. -/
  event : Option Event
  /-- `m_state`. -/
  state : State
  /-- `m_para`. -/
  para : UInt64
  deriving DecidableEq, Repr

namespace BaseLeTimer

/-- The constructor. -/
def construct : BaseLeTimer := ⟨none, .waitStartTimer, 0⟩

/-- The event of the object is pending. -/
def pending (t : BaseLeTimer) : Bool := t.event.any Event.pending

/-- The timeout of a period. -/
def timeout (millisecond : UInt64) : Timeval := ⟨millisecond / 1000, millisecond % 1000 * 1000⟩

/-- `event_new`. -/
def eventNew (isLoop : Bool) : Event := ⟨isLoop, false, none⟩

/-- `event_add`, and whether it returns zero. -/
def eventAdd (e : Event) (t : Timeval) (ok : Bool) : Event :=
  if ok then { e with pending := true, timeout := some t } else e

/-- `StartTimer`. A failing `event_add` is logged and not looked at again; an event of an
earlier start is freed, which deletes it. -/
def startTimer (t : BaseLeTimer) (millisecond para : UInt64) (isLoop addOk : Bool) :
    BaseLeTimer × Bool :=
  if t.state ≠ .waitStartTimer then (t, false)
  else
    ({ event := some (eventAdd (eventNew isLoop) (timeout millisecond) addOk)
       state := .waitTimeOut
       para := para }, true)

/-- `StopTimer`. -/
def stopTimer (t : BaseLeTimer) : BaseLeTimer × Bool :=
  match t.event with
  | none => (t, false)
  | some e =>
    if t.state ≠ .waitTimeOut then (t, false)
    else ({ t with event := some { e with pending := false }, state := .waitStartTimer }, true)

/-- libevent runs `TimerCB` for an expired event: first the event ends, or is added again,
then `OnTimer` gets `m_para`. -/
def timerCB (t : BaseLeTimer) (readded : Bool) : BaseLeTimer × UInt64 :=
  ({ t with event := t.event.map fun e => { e with pending := e.persist && readded } }, t.para)

end BaseLeTimer

/-- What happens to a timer object. -/
inductive Move where
  /-- `StartTimer`, with whether its `event_add` succeeds. -/
  | startTimer (millisecond para : UInt64) (isLoop addOk : Bool)
  /-- `StopTimer`. -/
  | stopTimer
  /-- The timeout passes, with whether libevent adds a persistent event again. -/
  | expire (readded : Bool)
  deriving DecidableEq, Repr

/-- What a call tells the user, beside whether the event was pending before and behind it. -/
inductive Report where
  /-- `StartTimer` has returned. -/
  | started (before returned after : Bool)
  /-- `StopTimer` has returned. -/
  | stopped (before returned after : Bool)
  /-- `OnTimer` was called. -/
  | onTimer (para : UInt64)
  deriving DecidableEq, Repr

/-- An object and what its user was told so far. -/
structure Life where
  /-- The object. -/
  timer : BaseLeTimer
  /-- The reports, the newest first. -/
  reports : List Report
  deriving DecidableEq, Repr

namespace Life

/-- A constructed object. -/
def start : Life := ⟨.construct, []⟩

/-- One move. Only a pending event expires. -/
def step (l : Life) : Move → Life
  | .startTimer millisecond para isLoop addOk =>
    let (t, returned) := l.timer.startTimer millisecond para isLoop addOk
    ⟨t, .started l.timer.pending returned t.pending :: l.reports⟩
  | .stopTimer =>
    let (t, returned) := l.timer.stopTimer
    ⟨t, .stopped l.timer.pending returned t.pending :: l.reports⟩
  | .expire readded =>
    if l.timer.pending then
      let (t, para) := l.timer.timerCB readded
      ⟨t, .onTimer para :: l.reports⟩
    else l

end Life

end ServerCom.Timer
