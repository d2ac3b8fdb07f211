import ServerCom.Redis.Native.EventLoop

/-!
# Contexts on the event loop

The adapter `libae.h` between asynchronous contexts and the event loop, with the part of
`aeProcessEvents` that calls for file events. In a call, and between the rounds of the loop,
hiredis starts and stops waiting for any of its sockets, and connects and frees contexts.
-/

namespace ServerCom.Redis

/-- `redisAeEvents`. -/
structure RedisAeEvents where
  /-- The socket. -/
  fd : ℕ
  /-- `reading`. -/
  reading : Bool
  /-- `writing`. -/
  writing : Bool
  deriving DecidableEq, Repr

/-- What is called for a socket. -/
inductive AeProc where
  /-- `redisAeReadEvent`. -/
  | readEvent
  /-- `redisAeWriteEvent`. -/
  | writeEvent
  deriving DecidableEq, Repr

/-- Where the loop is. -/
inductive AeTurn where
  /-- Outside of the events. -/
  | idle
  /-- Before the events that fired. -/
  | fired (rest : List (ℕ × AeMask))
  /-- In `rfileProc`. -/
  | reading (fd : ℕ) (mask : AeMask) (rest : List (ℕ × AeMask))
  /-- In `wfileProc`. -/
  | writing (rest : List (ℕ × AeMask))
  /-- Memory was used that is not there. -/
  | undefined
  deriving DecidableEq, Repr

/-- The loop, the `redisAeEvents` by their addresses, and the calls that were made. -/
structure AeSystem where
  /-- The loop. -/
  loop : AeEventLoop AeProc ℕ Unit
  /-- The objects; one that was freed is `none`. -/
  objects : List (Option RedisAeEvents)
  /-- Where the loop is. -/
  turn : AeTurn
  /-- The calls. -/
  calls : List (AeProc × ℕ)

namespace AeSystem

/-- Behind `aeCreateEventLoop`. -/
def start (setsize now : ℕ) : AeSystem := ⟨.create setsize now, [], .idle, []⟩

variable (s : AeSystem)

/-- The object at an address, unless it was freed. -/
def object (e : ℕ) : Option RedisAeEvents := s.objects[e]?.join

/-- An object is written. -/
def setObject (e : ℕ) (o : Option RedisAeEvents) : AeSystem :=
  { s with objects := s.objects.set e o }

/-! ## The adapter -/

/-- `redisAeAddRead`. -/
def addRead (e : ℕ) (o : RedisAeEvents) (fails : Bool) : AeSystem :=
  if o.reading then s
  else { s.setObject e (some { o with reading := true }) with
    loop := (s.loop.createFileEvent o.fd ⟨true, false⟩ .readEvent e fails).2 }

/-- `redisAeDelRead`. -/
def delRead (e : ℕ) (o : RedisAeEvents) : AeSystem :=
  if o.reading then { s.setObject e (some { o with reading := false }) with
    loop := s.loop.deleteFileEvent o.fd ⟨true, false⟩ }
  else s

/-- `redisAeAddWrite`. -/
def addWrite (e : ℕ) (o : RedisAeEvents) (fails : Bool) : AeSystem :=
  if o.writing then s
  else { s.setObject e (some { o with writing := true }) with
    loop := (s.loop.createFileEvent o.fd ⟨false, true⟩ .writeEvent e fails).2 }

/-- `redisAeDelWrite`. -/
def delWrite (e : ℕ) (o : RedisAeEvents) : AeSystem :=
  if o.writing then { s.setObject e (some { o with writing := false }) with
    loop := s.loop.deleteFileEvent o.fd ⟨false, true⟩ }
  else s

/-- `redisAeCleanup`. -/
def cleanup (e : ℕ) (o : RedisAeEvents) : AeSystem :=
  ((s.delRead e o).delWrite e { o with reading := false }).setObject e none

/-- `redisAeAttach` of a new socket. -/
def attach (fd : ℕ) : AeSystem := { s with objects := s.objects ++ [some ⟨fd, false, false⟩] }

/-! ## The loop over the events that fired -/

/-- A call for an event. -/
def call (proc : Option AeProc) (clientData : Option ℕ) (turn : AeTurn) : AeSystem :=
  match proc, clientData with
  | some proc, some e =>
    if (s.object e).isSome then { s with turn := turn, calls := s.calls ++ [(proc, e)] }
    else { s with turn := .undefined }
  | _, _ => { s with turn := .undefined }

/-- The call for an event that can be written. -/
def writeEvent (fd : ℕ) (mask : AeMask) (rfired : Bool) (rest : List (ℕ × AeMask)) : AeSystem :=
  match s.loop.events[fd]? with
  | none => { s with turn := .undefined }
  | some fe =>
    if fe.mask.writable && mask.writable && (!rfired || fe.wfileProc ≠ fe.rfileProc) then
      s.call fe.wfileProc fe.clientData (.writing rest)
    else { s with turn := .fired rest }

/-- The next event that fired. -/
def readEvent (fd : ℕ) (mask : AeMask) (rest : List (ℕ × AeMask)) : AeSystem :=
  match s.loop.events[fd]? with
  | none => { s with turn := .undefined }
  | some fe =>
    if fe.mask.readable && mask.readable then
      s.call fe.rfileProc fe.clientData (.reading fd mask rest)
    else s.writeEvent fd mask false rest

/-- What `aeApiPoll` can return: descriptors the kernel waits for. An error and the end of a
connection make a descriptor writable whatever it waits for. -/
def CanFire (fired : List (ℕ × AeMask)) : Prop :=
  (fired.map Prod.fst).Nodup ∧ ∀ p ∈ fired, ∃ m ∈ s.loop.epoll p.1, p.2.readable → m.readable

instance (fired : List (ℕ × AeMask)) : Decidable (s.CanFire fired) :=
  inferInstanceAs (Decidable (_ ∧ _))

end AeSystem

/-- What happens to the loop. -/
inductive AeMove where
  /-- A context is connected on a socket, and attached. -/
  | attach (fd : ℕ)
  /-- A context waits until its socket can be read. -/
  | addRead (e : ℕ) (fails : Bool)
  /-- A context no longer waits until its socket can be read. -/
  | delRead (e : ℕ)
  /-- A context waits until its socket can be written. -/
  | addWrite (e : ℕ) (fails : Bool)
  /-- A context no longer waits until its socket can be written. -/
  | delWrite (e : ℕ)
  /-- A context is freed, and its socket closed. -/
  | cleanup (e : ℕ)
  /-- The loop polls. -/
  | poll (fired : List (ℕ × AeMask))
  /-- The loop goes on to the next event that fired. -/
  | go
  /-- A call returns. -/
  | ret
  deriving DecidableEq, Repr

namespace AeSystem

variable (s : AeSystem)

/-- hiredis runs: outside of the events, or in a call. -/
def userTurn : Bool :=
  match s.turn with
  | .idle | .reading .. | .writing _ => true
  | _ => false

/-- What hiredis does with an object that is there. -/
def use (e : ℕ) (f : RedisAeEvents → AeSystem) : AeSystem :=
  if s.userTurn then (s.object e).elim s f else s

/-- The system behind a move. A move that cannot happen changes nothing. -/
def step : AeMove → AeSystem
  | .attach fd =>
    if s.userTurn ∧ ∀ o ∈ s.objects, ∀ o' ∈ o, o'.fd ≠ fd then s.attach fd else s
  | .addRead e fails => s.use e fun o => s.addRead e o fails
  | .delRead e => s.use e fun o => s.delRead e o
  | .addWrite e fails => s.use e fun o => s.addWrite e o fails
  | .delWrite e => s.use e fun o => s.delWrite e o
  | .cleanup e => s.use e fun o => s.cleanup e o
  | .poll fired => match s.turn with
    | .idle =>
      if s.loop.maxfd ≠ -1 ∧ s.CanFire fired then { s with turn := .fired fired } else s
    | _ => s
  | .go => match s.turn with
    | .fired [] => { s with turn := .idle }
    | .fired ((fd, mask) :: rest) => s.readEvent fd mask rest
    | _ => s
  | .ret => match s.turn with
    | .reading fd mask rest => s.writeEvent fd mask true rest
    | .writing rest => { s with turn := .fired rest }
    | _ => s

end AeSystem

end ServerCom.Redis
