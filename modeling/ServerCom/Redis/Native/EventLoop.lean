import Mathlib.Data.Int.Basic
import Mathlib.Logic.Function.Basic
import ServerCom.Core.Word.Int32

/-!
# The event loop of hiredis

`ae.c` and `ae_epoll.c`. A function that is called for an event is a `π`, its data a `δ`, and
what a time event carries is a `τ`. What the kernel waits for is kept in the loop. A time event
is pointed at by its id. Memory is always there, and finalizers do nothing to the loop.
-/

namespace ServerCom.Redis

/-- A mask of `AE_READABLE` and `AE_WRITABLE`. -/
structure AeMask where
  /-- `AE_READABLE`. -/
  readable : Bool
  /-- `AE_WRITABLE`. -/
  writable : Bool
  deriving DecidableEq, Repr

namespace AeMask

/-- `AE_NONE`. -/
def none : AeMask := ⟨false, false⟩

/-- `m | m'`. -/
def or (m m' : AeMask) : AeMask := ⟨m.readable || m'.readable, m.writable || m'.writable⟩

/-- `m & ~m'`. -/
def diff (m m' : AeMask) : AeMask := ⟨m.readable && !m'.readable, m.writable && !m'.writable⟩

end AeMask

/-- An operation of `epoll_ctl`. -/
inductive EpollOp where
  /-- `EPOLL_CTL_ADD`. -/
  | add
  /-- `EPOLL_CTL_MOD`. -/
  | mod
  /-- `EPOLL_CTL_DEL`. -/
  | del
  deriving DecidableEq, Repr

/-- `epoll_ctl` on an open descriptor, and what the kernel waits for behind it. -/
def epollCtl (epoll : ℕ → Option AeMask) (op : EpollOp) (fd : ℕ) (mask : AeMask) :
    Option (ℕ → Option AeMask) :=
  match op, epoll fd with
  | .add, none | .mod, some _ => some (Function.update epoll fd (some mask))
  | .del, some _ => some (Function.update epoll fd none)
  | _, _ => none

/-- `aeFileEvent`. -/
structure AeFileEvent (π δ : Type*) where
  /-- What is waited for. -/
  mask : AeMask
  /-- It is called when the descriptor can be read. -/
  rfileProc : Option π
  /-- It is called when the descriptor can be written. -/
  wfileProc : Option π
  /-- It is given to both. -/
  clientData : Option δ
  deriving DecidableEq, Repr

namespace AeFileEvent

variable {π δ : Type*} (fe : AeFileEvent π δ) (mask : AeMask)

/-- An event waits for more. -/
def add (proc : π) (clientData : δ) : AeFileEvent π δ where
  mask := fe.mask.or mask
  rfileProc := if mask.readable then some proc else fe.rfileProc
  wfileProc := if mask.writable then some proc else fe.wfileProc
  clientData := some clientData

/-- An event waits for less. -/
def remove : AeFileEvent π δ := { fe with mask := fe.mask.diff mask }

end AeFileEvent

/-- `aeTimeEvent`. -/
structure AeTimeEvent (τ : Type*) where
  /-- Its id. -/
  id : ℕ
  /-- When it fires, in seconds. -/
  when_sec : Int
  /-- The milliseconds of it. -/
  when_ms : Int
  /-- `timeProc`, `finalizerProc` and `clientData`. -/
  proc : τ
  deriving DecidableEq, Repr

/-- `aeEventLoop`. -/
structure AeEventLoop (π δ τ : Type*) where
  /-- The highest descriptor with events. -/
  maxfd : Int
  /-- Descriptors from here on have no place. -/
  setsize : ℕ
  /-- The id of the next time event. -/
  timeEventNextId : ℕ
  /-- The last time that was read, in seconds. -/
  lastTime : Int
  /-- The events of each descriptor. -/
  events : List (AeFileEvent π δ)
  /-- The time events. -/
  timeEventHead : List (AeTimeEvent τ)
  /-- What the kernel waits for. -/
  epoll : ℕ → Option AeMask

namespace AeEventLoop

variable {π δ τ : Type*}

/-- `aeCreateEventLoop`, at a time in milliseconds. -/
def create (setsize now : ℕ) : AeEventLoop π δ τ where
  maxfd := -1
  setsize := setsize
  timeEventNextId := 0
  lastTime := now / 1000
  events := .replicate setsize ⟨.none, none, none, none⟩
  timeEventHead := []
  epoll := fun _ => none

variable (l : AeEventLoop π δ τ)

/-! ## File events -/

/-- `events[fd].mask`. -/
def maskAt (events : List (AeFileEvent π δ)) (fd : ℕ) : AeMask :=
  (events[fd]?.map AeFileEvent.mask).getD .none

/-- `eventLoop->events[fd].mask`. -/
def mask (fd : ℕ) : AeMask := maskAt l.events fd

/-- `aeApiAddEvent`; `fails` when `epoll_ctl` has an error of its own. -/
def apiAddEvent (fd : ℕ) (mask : AeMask) (fails : Bool) : Option (ℕ → Option AeMask) :=
  let op := if l.mask fd = .none then EpollOp.add else .mod
  if fails then none else epollCtl l.epoll op fd (mask.or (l.mask fd))

/-- `aeApiDelEvent`. -/
def apiDelEvent (fd : ℕ) (delmask : AeMask) : ℕ → Option AeMask :=
  let mask := (l.mask fd).diff delmask
  let op := if mask ≠ .none then EpollOp.mod else .del
  (epollCtl l.epoll op fd mask).getD l.epoll

/-- `aeCreateFileEvent`, and whether it returns `AE_OK`. -/
def createFileEvent (fd : ℕ) (mask : AeMask) (proc : π) (clientData : δ) (fails : Bool) :
    Bool × AeEventLoop π δ τ :=
  if l.setsize ≤ fd then (false, l)
  else match l.apiAddEvent fd mask fails with
    | none => (false, l)
    | some epoll => (true, { l with
        epoll := epoll
        events := l.events.modify fd (·.add mask proc clientData)
        maxfd := if l.maxfd < fd then fd else l.maxfd })

/-- The loop that looks for the highest descriptor with events below another one. -/
def lastUsed (events : List (AeFileEvent π δ)) : ℕ → Int
  | 0 => -1
  | j + 1 =>
    if maskAt events j ≠ .none then j else lastUsed events j

/-- `aeDeleteFileEvent`. -/
def deleteFileEvent (fd : ℕ) (mask : AeMask) : AeEventLoop π δ τ :=
  if l.setsize ≤ fd then l
  else if l.mask fd = .none then l
  else
    let epoll := l.apiDelEvent fd mask
    let events := l.events.modify fd (·.remove mask)
    { l with
      epoll := epoll
      events := events
      maxfd := if l.maxfd = fd ∧ (l.mask fd).diff mask = .none then lastUsed events fd
        else l.maxfd }

/-- `aeResizeSetSize`, and whether it returns `AE_OK`. A slot that is new has `junk` in it before
it is initialized. -/
def resizeSetSize (setsize : ℕ) (junk : AeFileEvent π δ) : Bool × AeEventLoop π δ τ :=
  if setsize = l.setsize then (true, l)
  else if (setsize : Int) ≤ l.maxfd then (false, l)
  else
    let events := l.events.take setsize ++ .replicate (setsize - l.setsize) junk
    (true, { l with
      setsize := setsize
      events := events.mapIdx fun i fe => if l.maxfd < i then { fe with mask := .none } else fe })

/-! ## Time events -/

/-- `aeAddMillisecondsToNow`, at a time in milliseconds. -/
def addMillisecondsToNow (now : ℕ) (milliseconds : Int) : Int × Int :=
  let when_sec := (now / 1000 : ℕ) + milliseconds.tdiv 1000
  let when_ms := (now % 1000 : ℕ) + milliseconds.tmod 1000
  if 1000 ≤ when_ms then (when_sec + 1, when_ms - 1000) else (when_sec, when_ms)

/-- `aeCreateTimeEvent`, and the id it returns. -/
def createTimeEvent (now : ℕ) (milliseconds : Int) (proc : τ) : ℕ × AeEventLoop π δ τ :=
  let id := l.timeEventNextId
  let (when_sec, when_ms) := addMillisecondsToNow now milliseconds
  (id, { l with
    timeEventNextId := id + 1, timeEventHead := ⟨id, when_sec, when_ms, proc⟩ :: l.timeEventHead })

/-- `aeDeleteTimeEvent`, and whether it returns `AE_OK`. -/
def deleteTimeEvent (id : ℕ) : Bool × AeEventLoop π δ τ :=
  if l.timeEventHead.any (·.id = id) then
    (true, { l with timeEventHead := l.timeEventHead.eraseP (·.id = id) })
  else (false, l)

/-- The loop of `aeSearchNearestTimer`. -/
def nearestLoop : (nearest : Option (AeTimeEvent τ)) → List (AeTimeEvent τ) →
    Option (AeTimeEvent τ)
  | nearest, [] => nearest
  | none, te :: next => nearestLoop (some te) next
  | some nearest, te :: next =>
    if te.when_sec < nearest.when_sec ∨
        te.when_sec = nearest.when_sec ∧ te.when_ms < nearest.when_ms then
      nearestLoop (some te) next
    else nearestLoop (some nearest) next

/-- `aeSearchNearestTimer`. -/
def searchNearestTimer : Option (AeTimeEvent τ) := nearestLoop none l.timeEventHead

/-- The timeout of `aeProcessEvents` for the nearest timer, which `epoll_wait` takes as an
`int`. -/
def timeout (now : ℕ) (shortest : AeTimeEvent τ) : Int :=
  let now_sec : Int := (now / 1000 : ℕ)
  let now_ms : Int := (now % 1000 : ℕ)
  let tv_sec := shortest.when_sec - now_sec
  let (tv_sec, tv_usec) :=
    if shortest.when_ms < now_ms then (tv_sec - 1, (shortest.when_ms + 1000 - now_ms) * 1000)
    else (tv_sec, (shortest.when_ms - now_ms) * 1000)
  let tv_sec := if tv_sec < 0 then 0 else tv_sec
  let tv_usec := if tv_usec < 0 then 0 else tv_usec
  int32 (tv_sec * 1000 + tv_usec.tdiv 1000)

/-- The time a time event fires has come. -/
def due (now : ℕ) (te : AeTimeEvent τ) : Bool :=
  te.when_sec < (now / 1000 : ℕ) ∨ te.when_sec = (now / 1000 : ℕ) ∧ te.when_ms ≤ (now % 1000 : ℕ)

/-- The beginning of `processTimeEvents`: when the clock was set back, all events are due. -/
def startTimeEvents (now : ℕ) : AeEventLoop π δ τ :=
  { l with
    timeEventHead := if (now / 1000 : ℕ) < l.lastTime then
        l.timeEventHead.map fun te => { te with when_sec := 0 }
      else l.timeEventHead
    lastTime := (now / 1000 : ℕ) }

/-- The new time of an event that goes on. -/
def rescheduleTimeEvent (id now : ℕ) (milliseconds : Int) : AeEventLoop π δ τ :=
  let (when_sec, when_ms) := addMillisecondsToNow now milliseconds
  { l with timeEventHead := l.timeEventHead.map fun te =>
      if te.id = id then { te with when_sec, when_ms } else te }

end AeEventLoop

end ServerCom.Redis
