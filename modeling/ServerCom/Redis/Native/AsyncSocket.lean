import ServerCom.Redis.Native.Format
import ServerCom.Redis.Native.Reader

/-!
# An asynchronous context on its socket

A context of `async.c` from `redisAsyncConnect` to its end, with the buffers it reads and
writes through. The user's code runs between the events of the socket and in the callbacks of
commands, and calls back into the context. What was sent, written, received and given to
callbacks is recorded. Replies are freed, and descriptors closed, where nothing is seen of it.
-/

namespace ServerCom.Redis

open Text

/-- What `read` returns, with the text of its error. -/
inductive ReadAnswer where
  /-- Bytes, or none at the end of the stream. -/
  | data (bytes : List UInt8)
  /-- `EAGAIN` or `EINTR`. -/
  | again
  /-- Another error. -/
  | failed (str : List UInt8)
  deriving DecidableEq, Repr

/-- What `write` returns, with the text of its error. -/
inductive WriteAnswer where
  /-- So many bytes are written. -/
  | wrote (n : Nat)
  /-- `EAGAIN` or `EINTR`. -/
  | again
  /-- Another error. -/
  | failed (str : List UInt8)
  deriving DecidableEq, Repr

/-- What `getsockopt` tells, with the text of the error. -/
inductive SocketError where
  /-- No error. -/
  | none
  /-- `EINPROGRESS`. -/
  | inProgress (str : List UInt8)
  /-- Another error. -/
  | failed (str : List UInt8)
  deriving DecidableEq, Repr

/-- What is going on in a context. -/
inductive Turn (α : Type*) where
  /-- It waits for an event. -/
  | idle
  /-- The loop of `redisProcessCallbacks`, with its `cb`. -/
  | process (cb : RedisCallback α)
  /-- A callback, with a reply. -/
  | callback (cb : RedisCallback α)
  /-- `__redisAsyncFree`. -/
  | free
  /-- A callback, without a reply. -/
  | freeCallback
  /-- The context is freed. -/
  | freed
  /-- An assertion has failed, or what was done has no meaning. -/
  | undefined
  deriving DecidableEq, Repr

/-- `redisAsyncContext`, its events, and the record of what was done with it. -/
structure AsyncSocket (α : Type*) where
  /-- Its own fields, and the flags of its `redisContext`. -/
  ac : AsyncContext α
  /-- `c.err` and `c.errstr`. -/
  err : Option (RedisErr × List UInt8)
  /-- `c.obuf`. -/
  obuf : Sds
  /-- `c.reader`. -/
  reader : Reader
  /-- The loop waits until the socket can be read. -/
  reading : Bool
  /-- The loop waits until the socket can be written. -/
  writing : Bool
  /-- What is going on. -/
  turn : Turn α
  /-- The commands that were accepted, with their `privdata`. -/
  sent : List (Option α × List Arg)
  /-- The bytes that were written. -/
  written : List UInt8
  /-- The bytes that were read. -/
  received : List UInt8
  /-- The callbacks that were run, by their `privdata`, and their replies. -/
  delivered : List (Option α × Option RedisReply)

namespace AsyncSocket

variable {α : Type*}

/-- Behind `redisAsyncConnect`, `redisAeAttach` and the setting of the callbacks. -/
def start (host : Arg) (port : Int) : AsyncSocket α where
  ac := { AsyncContext.init host port false with attached := true }
  err := none
  obuf := .empty
  reader := .create
  reading := false
  writing := true
  turn := .idle
  sent := []
  written := []
  received := []
  delivered := []

/-- `__redisSetError`. -/
def setError (l : AsyncSocket α) (type : RedisErr) (str : List UInt8) : AsyncSocket α :=
  { l with err := some (type, str.take 127) }

/-! ## The buffers -/

/-- `redisBufferRead`, and whether it returns `REDIS_OK`. -/
def bufferRead (l : AsyncSocket α) (answer : ReadAnswer) : Bool × AsyncSocket α :=
  if l.err.isSome then (false, l)
  else match answer with
    | .again => (true, l)
    | .failed str => (false, l.setError .io str)
    | .data bytes =>
      if bytes = [] then (false, l.setError .eof (literal "Server closed the connection"))
      else
        let (ok, reader) := l.reader.feed bytes
        if ok then (true, { l with reader := reader, received := l.received ++ bytes })
        else (false, { l with reader := reader, err := reader.err })

/-- `redisBufferWrite`: whether it returns `REDIS_OK`, and `done`. -/
def bufferWrite (l : AsyncSocket α) (answer : WriteAnswer) : Bool × Bool × AsyncSocket α :=
  if l.err.isSome then (false, false, l)
  else if l.obuf.len = 0 then (true, true, l)
  else match answer with
    | .again => (true, false, l)
    | .failed str => (false, false, l.setError .io str)
    | .wrote n =>
      let obuf := if n = 0 then l.obuf else if n = l.obuf.len then .empty else l.obuf.range n (-1)
      (true, obuf.len = 0, { l with obuf := obuf, written := l.written ++ l.obuf.buf.take n })

/-! ## Commands -/

/-- `redisAsyncCommandArgv`. -/
def commandArgv (l : AsyncSocket α) (privdata : Option α) (args : List Arg) : AsyncSocket α :=
  match redisFormatCommandArgv args with
  | none => { l with turn := .undefined }
  | some cmd => match l.ac.command privdata (arguments cmd) with
    | .ok ac => { l with
        ac := ac
        obuf := l.obuf.catlen cmd
        writing := true
        sent := l.sent ++ [(privdata, args)] }
    | .err => l
    | .assertion => { l with turn := .undefined }

/-! ## The end -/

/-- `__redisAsyncDisconnect`, up to the first callback. -/
def asyncDisconnect (l : AsyncSocket α) : AsyncSocket α :=
  match l.err with
  | none =>
    if l.ac.replies = [] then { l with turn := .free } else { l with turn := .undefined }
  | some _ => { l with ac := { l.ac with err := true, disconnecting := true }, turn := .free }

/-- `redisAsyncDisconnect`. -/
def disconnect (l : AsyncSocket α) : AsyncSocket α :=
  let l := { l with ac := { l.ac with disconnecting := true } }
  if !l.ac.inCallback && l.ac.replies.isEmpty then l.asyncDisconnect else l

/-- `__redisAsyncFree`, up to the next callback. -/
def freeNext (l : AsyncSocket α) : AsyncSocket α :=
  match l.ac.nextPending with
  | none => { l with turn := .freed, reading := false, writing := false }
  | some (.null, ac) => { l with ac := ac }
  | some (.call privdata, ac) => { l with
      ac := { ac with inCallback := true }
      turn := .freeCallback
      delivered := l.delivered ++ [(privdata, none)] }

/-! ## Replies -/

/-- `strcasecmp` of the type of a message with `unsubscribe`. -/
def isUnsubscribe (stype : List UInt8) : Bool := stype.map tolower = literal "unsubscribe"

/-- `__redisGetSubscribeCallback`, with the callback `dstcb` holds before it. -/
def getSubscribeCallback (ac : AsyncContext α) (dstcb : RedisCallback α) :
    RedisReply → Option (RedisCallback α × AsyncContext α)
  | .array _ (some (.text .string stype) :: some (.text .string sname) :: more) =>
    let stype := stype.takeWhile (· ≠ 0)
    let pvariant := stype.head?.map tolower = some 112
    match (if pvariant then ac.patterns else ac.channels).lookup sname with
    | none => some (dstcb, ac)
    | some cb =>
      if isUnsubscribe (if pvariant then stype.tail else stype) then match more with
        | some (.integer count) :: _ =>
          let subscribed := if count = 0 then false else ac.subscribed
          some (cb, if pvariant then { ac with
              subscribed, patterns := ac.patterns.filter (·.1 ≠ sname) }
            else { ac with subscribed, channels := ac.channels.filter (·.1 ≠ sname) })
        | _ => none
      else some (cb, ac)
  | .array _ _ => none
  | _ => some (ac.shiftInvalid dstcb)

/-- `__redisRunCallback` with a reply, or the end of it for a null `fn`. -/
def runCallback (l : AsyncSocket α) (ac : AsyncContext α) (cb : RedisCallback α)
    (reply : RedisReply) : AsyncSocket α :=
  match cb with
  | .null => { l with ac := ac, turn := .process cb }
  | .call privdata => { l with
      ac := { ac with inCallback := true }
      turn := .callback cb
      delivered := l.delivered ++ [(privdata, some reply)] }

/-- `redisProcessCallbacks` with a reply that no command waits for. -/
def spontaneous (l : AsyncSocket α) (cb : RedisCallback α) (reply : RedisReply) : AsyncSocket α :=
  if l.ac.subscribed then match getSubscribeCallback l.ac cb reply with
    | some (cb, ac) => l.runCallback ac cb reply
    | none => { l with turn := .undefined }
  else if l.ac.monitoring then l.runCallback l.ac cb reply
  else { l with turn := .undefined }

/-- `redisProcessCallbacks` with a reply. -/
def processReply (l : AsyncSocket α) (cb : RedisCallback α) (reply : RedisReply) : AsyncSocket α :=
  match l.ac.replies with
  | cb :: replies => l.runCallback { l.ac with replies := replies } cb reply
  | [] => match reply with
    | .text .error str => (l.setError .other (str.takeWhile (· ≠ 0))).asyncDisconnect
    | reply => l.spontaneous cb reply

/-- The loop of `redisProcessCallbacks`, up to the next callback. -/
def processNext (l : AsyncSocket α) (cb : RedisCallback α) : AsyncSocket α :=
  match l.reader.getReply with
  | none => { l with turn := .undefined }
  | some (.err, reader) => { l with reader := reader, err := reader.err }.asyncDisconnect
  | some (.ok (some reply), reader) => { l with reader := reader }.processReply cb reply
  | some (.ok none, reader) =>
    let l := { l with reader := reader }
    if l.ac.disconnecting && l.obuf.len == 0 then l.asyncDisconnect
    else if l.ac.monitoring then
      { l with ac := { l.ac with replies := l.ac.replies ++ [cb] }, turn := .idle }
    else { l with turn := .idle }

/-! ## Events -/

/-- `__redisAsyncHandleConnect`, and whether the context is connected behind it. -/
def handleConnect (l : AsyncSocket α) (sock : SocketError) : Bool × AsyncSocket α :=
  if l.ac.connected then (true, l)
  else match sock with
    | .none => (true, { l with ac := { l.ac with connected := true } })
    | .inProgress str => (false, l.setError .io str)
    | .failed str => (false, (l.setError .io str).asyncDisconnect)

/-- `redisAsyncHandleRead`, up to the loop of `redisProcessCallbacks`. -/
def handleRead (l : AsyncSocket α) (sock : SocketError) (answer : ReadAnswer) : AsyncSocket α :=
  match l.handleConnect sock with
  | (false, l) => l
  | (true, l) => match l.bufferRead answer with
    | (false, l) => l.asyncDisconnect
    | (true, l) => { l with reading := true, turn := .process .null }

/-- `redisAsyncHandleWrite`. -/
def handleWrite (l : AsyncSocket α) (sock : SocketError) (answer : WriteAnswer) : AsyncSocket α :=
  match l.handleConnect sock with
  | (false, l) => l
  | (true, l) => match l.bufferWrite answer with
    | (false, _, l) => l.asyncDisconnect
    | (true, done, l) => { l with writing := !done, reading := true }

/-- The return of a callback. -/
def ret (l : AsyncSocket α) (turn : Turn α) : AsyncSocket α :=
  { l with ac := { l.ac with inCallback := false }, turn := turn }

end AsyncSocket

/-- What happens to a context. -/
inductive SocketMove (α : Type*) where
  /-- The user sends a command. -/
  | command (privdata : Option α) (args : List Arg)
  /-- The user calls `redisAsyncDisconnect`. -/
  | disconnect
  /-- The socket can be read. -/
  | readable (sock : SocketError) (answer : ReadAnswer)
  /-- The socket can be written. -/
  | writable (sock : SocketError) (answer : WriteAnswer)
  /-- The callback that runs returns. -/
  | ret
  /-- hiredis goes on. -/
  | go
  deriving DecidableEq, Repr

namespace AsyncSocket

variable {α : Type*}

/-- The user's code runs: outside of the loop, or in a callback. -/
def userTurn (l : AsyncSocket α) : Bool :=
  match l.turn with
  | .idle | .callback _ | .freeCallback => true
  | _ => false

/-- The context behind a move. A move that cannot happen changes nothing. -/
def step (l : AsyncSocket α) : SocketMove α → AsyncSocket α
  | .command privdata args => if l.userTurn then l.commandArgv privdata args else l
  | .disconnect => if l.userTurn then l.disconnect else l
  | .readable sock answer => match l.turn with
    | .idle => if l.reading then l.handleRead sock answer else l
    | _ => l
  | .writable sock answer => match l.turn with
    | .idle => if l.writing then l.handleWrite sock answer else l
    | _ => l
  | .ret => match l.turn with
    | .callback cb => l.ret (.process cb)
    | .freeCallback => l.ret .free
    | _ => l
  | .go => match l.turn with
    | .process cb => l.processNext cb
    | .free => l.freeNext
    | _ => l

end AsyncSocket

end ServerCom.Redis
