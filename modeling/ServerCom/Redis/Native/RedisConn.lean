import Mathlib.Logic.Function.Basic
import ServerCom.Redis.Native.Hiredis

/-!
# A redis connection and its contexts

One `RedisConn` over the embedded hiredis. The calls of hiredis that are in progress form a
stack: each stands for a context whose callbacks are being run, and the user's code in a
callback calls back into the object. A run ends where it loses its meaning.
-/

namespace ServerCom.Redis

/-- A `BaseCallBackOpt *` that is not null. -/
abbrev OptPtr := Nat

/-- A `redisAsyncContext *` that is not null. -/
abbrev ContextPtr := Nat

/-- `State`. -/
inductive State where
  /-- `S_INIT`. -/
  | init
  /-- `S_CONNECTIING`. -/
  | connectiing
  /-- `S_PROC`. -/
  | proc
  /-- `S_DISCONNECTING`. -/
  | disconnecting
  deriving DecidableEq, Repr

/-- `RedisConn`. -/
structure RedisConn where
  /-- `m_port`. -/
  port : Int
  /-- `m_host`. -/
  host : Arg
  /-- `m_pAeContext`. -/
  aeContext : Option ContextPtr
  /-- `m_state`. -/
  state : State
  /-- `m_new_opt`. -/
  newOpt : Option OptPtr
  deriving DecidableEq, Repr

/-- Where the object is in its life. -/
inductive Life where
  /-- Constructed. -/
  | alive
  /-- In its destructor. -/
  | dying
  /-- Behind its destructor. -/
  | dead
  deriving DecidableEq, Repr

/-- What `redisAsyncConnect` is asked for and gives. -/
inductive ConnectAnswer where
  /-- There is no event loop, and it is not called. -/
  | noLoop
  /-- NULL. -/
  | null
  /-- A context with `err` set. -/
  | err
  /-- A good context. -/
  | good
  deriving DecidableEq, Repr

/-- How a reading of replies ends. -/
inductive ReadEnd where
  /-- No reply is left; the output buffer may be empty. -/
  | stop (flushed : Bool)
  /-- `redisGetReply` fails. -/
  | failed
  deriving DecidableEq, Repr

/-- What is read from a socket. -/
inductive ReadResult where
  /-- `redisBufferRead` fails. -/
  | failed
  /-- Replies. -/
  | replies (rs : List Reply) (stop : ReadEnd)
  deriving DecidableEq, Repr

/-- `redisCheckSocketError`. -/
inductive SocketCheck where
  /-- `EINPROGRESS`. -/
  | inProgress
  /-- Another error. -/
  | failed
  /-- No error. -/
  | ok
  deriving DecidableEq, Repr

/-- A call of hiredis that runs callbacks. -/
inductive Call where
  /-- `redisProcessCallbacks`, with its `cb`. -/
  | process (cb : RedisCallback OptPtr) (rs : List Reply) (stop : ReadEnd)
  /-- `__redisAsyncFree`, called by the destructor or not. -/
  | free (dtor : Bool)
  deriving DecidableEq, Repr

/-- A call in progress. -/
structure Frame where
  /-- Its context. -/
  context : ContextPtr
  /-- The call. -/
  call : Call
  /-- The object whose `CmdCallBack` runs in it. -/
  running : Option OptPtr
  deriving DecidableEq, Repr

/-- Why a run ends. -/
inductive Halt where
  /-- `StaticCmdCallback` follows a null `opt`. -/
  | nullOpt
  /-- A deleted object is called or deleted. -/
  | deletedOpt
  /-- A connect or disconnect callback follows a pointer to the destroyed object. -/
  | destroyed
  /-- A freed context is used. -/
  | dangling
  /-- An assertion of hiredis fails. -/
  | assertion
  deriving DecidableEq, Repr

/-- The object, the contexts and the callback objects. -/
structure World where
  /-- The object; without meaning once it is destroyed. -/
  conn : RedisConn
  /-- Its life. -/
  life : Life
  /-- What the last call of the object returned. -/
  status : Bool
  /-- The contexts that are not freed. -/
  contexts : ContextPtr → Option (AsyncContext OptPtr)
  /-- How many contexts were obtained. -/
  obtained : Nat
  /-- The calls of hiredis in progress, the innermost first. -/
  stack : List Frame
  /-- How many objects `CreateOpt` made. -/
  created : Nat
  /-- The deleted objects, in order. -/
  deleted : List OptPtr
  /-- The objects whose `CmdCallBack` was called, in order. -/
  called : List OptPtr
  /-- Set when the run has ended. -/
  halted : Option Halt

namespace World

/-- A constructed object. -/
def create : World where
  conn := ⟨0, [], none, .init, none⟩
  life := .alive
  status := true
  contexts := fun _ => none
  obtained := 0
  stack := []
  created := 0
  deleted := []
  called := []
  halted := none

/-- The run ends here, if it has not before. -/
def halt (w : World) (h : Halt) : World := { w with halted := w.halted.or (some h) }

/-- A context changes. -/
def setContext (w : World) (c : ContextPtr) (ac : AsyncContext OptPtr) : World :=
  { w with contexts := Function.update w.contexts c (some ac) }

/-- `delete` of a callback object. -/
def deleteOpt (w : World) (o : OptPtr) : World :=
  if o ∈ w.deleted then w.halt .deletedOpt else { w with deleted := w.deleted ++ [o] }

/-! ## The object -/

/-- A context comes out of `redisAsyncConnect`. -/
def newContext (w : World) (ac : AsyncContext OptPtr) : World :=
  { w with
    contexts := Function.update w.contexts w.obtained (some ac)
    obtained := w.obtained + 1
    conn := { w.conn with aeContext := some w.obtained } }

/-- `Connect`. -/
def connect (w : World) (ans : ConnectAnswer) : World :=
  let ac := AsyncContext.init w.conn.host w.conn.port (ans = .err)
  if ans = .noLoop ∨ w.conn.state ≠ .init then { w with status := false }
  else match ans with
    | .good =>
      let w := w.newContext { ac with attached := true }
      { w with conn := { w.conn with state := .connectiing }, status := true }
    | .err => { w.newContext ac with status := false }
    | _ => { w with conn := { w.conn with aeContext := none }, status := false }

/-- `Init`. -/
def init (w : World) (ip : Arg) (port : Int) (ans : ConnectAnswer) : World :=
  if w.conn.port ≠ 0 then { w with status := false }
  else { w with conn := { w.conn with port := port, host := ip } }.connect ans

/-- `TryReconnectTimer`. -/
def tryReconnectTimer (w : World) (ans : ConnectAnswer) : World :=
  if w.conn.state ≠ .init then w else w.connect ans

/-- `ConnectCallback`. -/
def connectCallback (w : World) (ok : Bool) : World :=
  if w.life = .dead then w.halt .destroyed
  else if ok then { w with conn := { w.conn with state := .proc } }
  else { w with conn := { w.conn with state := .init, aeContext := none } }

/-- `DisconnectCallback`. -/
def disconnectCallback (w : World) : World :=
  if w.life = .dead then w.halt .destroyed
  else { w with conn := { w.conn with state := .init, aeContext := none } }

/-- `CreateOpt`. -/
def createOpt (w : World) : World :=
  let w := match w.conn.newOpt with
    | some o => w.deleteOpt o
    | none => w
  { w with conn := { w.conn with newOpt := some w.created }, created := w.created + 1 }

/-- `redisAsyncCommand` and `redisAsyncCommandArgv` with `StaticCmdCallback`. -/
def redisAsyncCommand (w : World) (c : ContextPtr) (cbData : Option OptPtr) (args : List Arg) :
    World :=
  match w.contexts c with
  | none => w.halt .dangling
  | some ac => match ac.command cbData args with
    | .ok ac => { w.setContext c ac with status := true }
    | .err => { w with status := false }
    | .assertion => w.halt .assertion

/-- `RedisAsyncCmd`, with the arguments the format gives. -/
def redisAsyncCmd (w : World) (cbData : Option OptPtr) (args : List Arg) : World :=
  match w.conn.aeContext with
  | none => { w with status := false }
  | some c =>
    if cbData ≠ w.conn.newOpt then { w with status := false }
    else
      let w := w.redisAsyncCommand c cbData args
      { w with conn := { w.conn with newOpt := none } }

/-- `RedisAsyncCmdArgv`. -/
def redisAsyncCmdArgv (w : World) (cbData : Option OptPtr) (args : List Arg) : World :=
  match w.conn.aeContext with
  | none => { w with status := false }
  | some c =>
    if cbData ≠ w.conn.newOpt then { w with status := false }
    else { w with conn := { w.conn with newOpt := none } }.redisAsyncCommand c cbData args

/-! ## hiredis -/

/-- `__redisRunCallback`, in a call whose context has become `ac`. -/
def runCallback (w : World) (c : ContextPtr) (ac : AsyncContext OptPtr) (call : Call)
    (rest : List Frame) : RedisCallback OptPtr → World
  | .null => { w.setContext c ac with stack := ⟨c, call, none⟩ :: rest }
  | .call none => w.halt .nullOpt
  | .call (some o) =>
    if o ∈ w.deleted then w.halt .deletedOpt
    else { w.setContext c { ac with inCallback := true } with
      stack := ⟨c, call, some o⟩ :: rest, called := w.called ++ [o] }

/-- The return of `CmdCallBack`, and the end of `StaticCmdCallback`. -/
def ret (w : World) (f : Frame) (rest : List Frame) (o : OptPtr) : World :=
  match w.contexts f.context with
  | none => w.halt .dangling
  | some ac =>
    { w.setContext f.context { ac with inCallback := false } with
      stack := { f with running := none } :: rest }.deleteOpt o

/-- `__redisAsyncDisconnect`. -/
def asyncDisconnect (w : World) (c : ContextPtr) (ac : AsyncContext OptPtr) (dtor : Bool)
    (rest : List Frame) : World :=
  if ac.err then
    { w.setContext c { ac with disconnecting := true } with stack := ⟨c, .free dtor, none⟩ :: rest }
  else if ac.replies = [] then
    { w.setContext c ac with stack := ⟨c, .free dtor, none⟩ :: rest }
  else w.halt .assertion

/-- The end of `__redisAsyncFree`, and of the destructor that called it. -/
def finishFree (w : World) (c : ContextPtr) (ac : AsyncContext OptPtr) (dtor : Bool)
    (rest : List Frame) : World :=
  let w := if ac.attached && ac.connected then w.disconnectCallback else w
  { w with
    contexts := Function.update w.contexts c none
    stack := rest
    life := if dtor then .dead else w.life }

/-- The loop of `redisProcessCallbacks`, up to the next callback. -/
def process (w : World) (c : ContextPtr) (ac : AsyncContext OptPtr) (cb : RedisCallback OptPtr)
    (rs : List Reply) (stop : ReadEnd) (rest : List Frame) : World :=
  match rs with
  | [] => match stop with
    | .failed => w.asyncDisconnect c { ac with err := true } false rest
    | .stop flushed =>
      if ac.disconnecting && flushed then w.asyncDisconnect c ac false rest
      else if ac.monitoring then
        { w.setContext c { ac with replies := ac.replies ++ [cb] } with stack := rest }
      else { w with stack := rest }
  | r :: rs => match ac.replies with
    | cb :: replies =>
      w.runCallback c { ac with replies := replies } (.process cb rs stop) rest cb
    | [] =>
      if r = .error then w.asyncDisconnect c { ac with err := true } false rest
      else if ac.subscribed then match ac.getSubscribeCallback cb r with
        | some (cb, ac) => w.runCallback c ac (.process cb rs stop) rest cb
        | none => w.halt .assertion
      else if ac.monitoring then w.runCallback c ac (.process cb rs stop) rest cb
      else w.halt .assertion

/-- hiredis goes on in the innermost call. -/
def go (w : World) (f : Frame) (rest : List Frame) : World :=
  match w.contexts f.context with
  | none => w.halt .dangling
  | some ac => match f.call with
    | .process cb rs stop => w.process f.context ac cb rs stop rest
    | .free dtor => match ac.nextPending with
      | some (cb, ac) => w.runCallback f.context ac (.free dtor) rest cb
      | none => w.finishFree f.context ac dtor rest

/-- `__redisAsyncHandleConnect`, on a context without `REDIS_CONNECTED`. -/
def handleConnect (w : World) (c : ContextPtr) (ac : AsyncContext OptPtr) : SocketCheck → World
  | .inProgress => w
  | .failed => (w.connectCallback false).asyncDisconnect c { ac with err := true } false []
  | .ok => (w.setContext c { ac with connected := true }).connectCallback true

/-- `redisAsyncHandleRead` on a connected context. -/
def handleRead (w : World) (c : ContextPtr) (ac : AsyncContext OptPtr) : ReadResult → World
  | .failed => w.asyncDisconnect c { ac with err := true } false []
  | .replies rs stop => { w with stack := [⟨c, .process .null rs stop, none⟩] }

/-- `redisAsyncHandleWrite` on a connected context. -/
def handleWrite (w : World) (c : ContextPtr) (ac : AsyncContext OptPtr) (ok : Bool) : World :=
  if ok then w else w.asyncDisconnect c { ac with err := true } false []

/-- An event of a context in the loop: the connection is looked at first. -/
def handleEvent (w : World) (c : ContextPtr) (ac : AsyncContext OptPtr) (sock : SocketCheck)
    (k : World → AsyncContext OptPtr → World) : World :=
  if ac.connected then k w ac
  else
    let w := w.handleConnect c ac sock
    if sock = .ok then k w { ac with connected := true } else w

/-- The destructor. -/
def destroy (w : World) : World :=
  match w.conn.aeContext with
  | none => { w with life := .dead }
  | some c => match w.contexts c with
    | none => w.halt .dangling
    | some ac =>
      -- `redisAsyncDisconnect`
      let ac := { ac with disconnecting := true }
      if !ac.inCallback && ac.replies.isEmpty then
        { w with life := .dying }.asyncDisconnect c ac true w.stack
      else { w.setContext c ac with life := .dead }

end World

/-- What happens to a connection. -/
inductive RedisMove where
  /-- `Init`. -/
  | init (ip : Arg) (port : Int) (ans : ConnectAnswer)
  /-- The timer. -/
  | tick (ans : ConnectAnswer)
  /-- A context can be read. -/
  | readable (c : ContextPtr) (sock : SocketCheck) (read : ReadResult)
  /-- A context can be written. -/
  | writable (c : ContextPtr) (sock : SocketCheck) (ok : Bool)
  /-- `CreateOpt`. -/
  | createOpt
  /-- `RedisAsyncCmd`. -/
  | asyncCmd (cbData : Option OptPtr) (args : List Arg)
  /-- `RedisAsyncCmdArgv`. -/
  | asyncCmdArgv (cbData : Option OptPtr) (args : List Arg)
  /-- `delete` of the object. -/
  | destroy
  /-- The `CmdCallBack` that runs returns. -/
  | ret
  /-- hiredis goes on. -/
  | go
  deriving DecidableEq, Repr

namespace World

/-- The user's code runs: outside of the event loop, or in a callback. -/
def userTurn (w : World) : Bool :=
  match w.stack with
  | [] => true
  | f :: _ => f.running.isSome

/-- The event loop finds this context. -/
def event (w : World) (c : ContextPtr) (sock : SocketCheck)
    (k : World → AsyncContext OptPtr → World) : World :=
  match w.contexts c with
  | some ac => if w.stack = [] ∧ ac.attached = true then w.handleEvent c ac sock k else w
  | none => w

/-- The world behind a move. The user calls no destroyed object and destroys it once, and the
event loop waits for the calls in progress; a move that cannot happen changes nothing. -/
def act (w : World) : RedisMove → World
  | .init ip port ans => if w.userTurn ∧ w.life ≠ .dead then w.init ip port ans else w
  | .tick ans => if w.stack = [] ∧ w.life = .alive then w.tryReconnectTimer ans else w
  | .readable c sock read => w.event c sock fun w ac => w.handleRead c ac read
  | .writable c sock ok => w.event c sock fun w ac => w.handleWrite c ac ok
  | .createOpt => if w.userTurn ∧ w.life ≠ .dead then w.createOpt else w
  | .asyncCmd cbData args =>
    if w.userTurn ∧ w.life ≠ .dead then w.redisAsyncCmd cbData args else w
  | .asyncCmdArgv cbData args =>
    if w.userTurn ∧ w.life ≠ .dead then w.redisAsyncCmdArgv cbData args else w
  | .destroy => if w.userTurn ∧ w.life = .alive then w.destroy else w
  | .ret => match w.stack with
    | ⟨c, call, some o⟩ :: rest => w.ret ⟨c, call, some o⟩ rest o
    | _ => w
  | .go => match w.stack with
    | ⟨c, call, none⟩ :: rest => w.go ⟨c, call, none⟩ rest
    | _ => w

/-- One step of a run; a run that has ended stays as it is. -/
def step (w : World) (m : RedisMove) : World :=
  if w.halted = none then w.act m else w

end World

end ServerCom.Redis
