import ServerCom.Redis.Native.EventLoop

/-!
# The pass over the time events

`processTimeEvents`, between whose steps the functions of time events run: they make and delete
events, their own among them. Each step reads the clock, in milliseconds.
-/

namespace ServerCom.Redis

/-- Where the pass is. -/
inductive TimeTurn where
  /-- Outside of it. -/
  | idle
  /-- At an event, or at the end of the list. -/
  | scan (te : Option ℕ) (maxId : Int)
  /-- In the function of an event. -/
  | running (id : ℕ) (maxId : Int)
  /-- Memory was used that is not there. -/
  | undefined
  deriving DecidableEq, Repr

/-- The loop, the events that were fired, and when; and what the pass has begun with. -/
structure TimeSystem (π δ τ : Type*) where
  /-- The loop. -/
  loop : AeEventLoop π δ τ
  /-- Where the pass is. -/
  turn : TimeTurn
  /-- The events that were fired, with their times. -/
  fired : List (ℕ × ℕ)
  /-- The id of the next event when the pass began. -/
  begun : ℕ
  /-- The time when the pass came to the head of the list. -/
  sweep : ℕ

/-- What happens. -/
inductive TimeMove (τ : Type*) where
  /-- `aeCreateTimeEvent`. -/
  | create (now : ℕ) (milliseconds : Int) (proc : τ)
  /-- `aeDeleteTimeEvent`. -/
  | delete (id : ℕ)
  /-- `processTimeEvents` begins. -/
  | process (now : ℕ)
  /-- It goes on. -/
  | go (now : ℕ)
  /-- The function of an event returns. -/
  | ret (retval : Int) (now : ℕ)
  deriving DecidableEq, Repr

namespace TimeSystem

variable {π δ τ : Type*}

/-- Behind `aeCreateEventLoop`. -/
def start (setsize now : ℕ) : TimeSystem π δ τ := ⟨.create setsize now, .idle, [], 0, now⟩

variable (s : TimeSystem π δ τ)

/-- The program runs: outside of the pass, or in the function of an event. -/
def userTurn : Bool :=
  match s.turn with
  | .idle | .running _ _ => true
  | _ => false

/-- The event an event points at. -/
def nextOf (id : ℕ) : Option ℕ :=
  ((s.loop.timeEventHead.dropWhile (·.id ≠ id)).tail.head?).map AeTimeEvent.id

/-- The pass is at the head of the list. -/
def head (maxId : Int) : TimeTurn := .scan (s.loop.timeEventHead.head?.map AeTimeEvent.id) maxId

/-- A turn of the loop of `processTimeEvents`, up to a call. -/
def visit (id : ℕ) (maxId : Int) (now : ℕ) : TimeSystem π δ τ :=
  match s.loop.timeEventHead.find? (·.id = id) with
  | none => { s with turn := .undefined }
  | some te =>
    if maxId < te.id then { s with turn := .scan (s.nextOf id) maxId }
    else if AeEventLoop.due now te then
      { s with turn := .running id maxId, fired := s.fired ++ [(id, now)] }
    else { s with turn := .scan (s.nextOf id) maxId }

/-- The turn of the loop behind a call. -/
def returned (id : ℕ) (maxId : Int) (retval : Int) (now : ℕ) : TimeSystem π δ τ :=
  if retval ≠ -1 then
    if s.loop.timeEventHead.any (·.id = id) then
      let s := { s with loop := s.loop.rescheduleTimeEvent id now retval, sweep := now }
      { s with turn := s.head maxId }
    else { s with turn := .undefined }
  else
    let s := { s with loop := (s.loop.deleteTimeEvent id).2, sweep := now }
    { s with turn := s.head maxId }

/-- The system behind a move. A move that cannot happen changes nothing. -/
def step : TimeMove τ → TimeSystem π δ τ
  | .create now milliseconds proc =>
    if s.userTurn then { s with loop := (s.loop.createTimeEvent now milliseconds proc).2 } else s
  | .delete id => if s.userTurn then { s with loop := (s.loop.deleteTimeEvent id).2 } else s
  | .process now => match s.turn with
    | .idle =>
      let s := { s with
        loop := s.loop.startTimeEvents now, begun := s.loop.timeEventNextId, sweep := now }
      { s with turn := s.head (s.loop.timeEventNextId - 1) }
    | _ => s
  | .go now => match s.turn with
    | .scan none _ => { s with turn := .idle }
    | .scan (some id) maxId => s.visit id maxId now
    | _ => s
  | .ret retval now => match s.turn with
    | .running id maxId => s.returned id maxId retval now
    | _ => s

end TimeSystem

end ServerCom.Redis
