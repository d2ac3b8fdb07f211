import Mathlib.Data.List.Basic

/-!
# The asynchronous context of hiredis

What `async.c` keeps for one connection: its flags, the queue of callbacks that wait for
their reply, and the callbacks of pub/sub. All callbacks have one function here, and `α` is
what their `privdata` points to.
-/

namespace ServerCom.Redis

/-- An argument of a command, or the name of a channel. -/
abbrev Arg := List UInt8

/-- `redisCallback`. -/
inductive RedisCallback (α : Type*) where
  /-- `fn` is null. -/
  | null
  /-- `fn` is set; a null `privdata` is `none`. -/
  | call (privdata : Option α)
  deriving DecidableEq, Repr

/-- A dictionary from channels to callbacks. -/
abbrev CallbackDict (α : Type*) := List (Arg × RedisCallback α)

/-- `redisAsyncContext`. -/
structure AsyncContext (α : Type*) where
  /-- The address it connects to. -/
  host : Arg
  /-- The port it connects to. -/
  port : Int
  /-- `err` is set. -/
  err : Bool
  /-- `redisAeAttach` was done, and `data`, `onConnect` and `onDisconnect` are set. The loop does
  not wait for a descriptor that is not below its `setsize`. -/
  attached : Bool
  /-- `REDIS_CONNECTED`. -/
  connected : Bool
  /-- `REDIS_DISCONNECTING`. -/
  disconnecting : Bool
  /-- `REDIS_IN_CALLBACK`. -/
  inCallback : Bool
  /-- `REDIS_SUBSCRIBED`. -/
  subscribed : Bool
  /-- `REDIS_MONITORING`. -/
  monitoring : Bool
  /-- `replies`. -/
  replies : List (RedisCallback α)
  /-- `sub.invalid`. -/
  invalid : List (RedisCallback α)
  /-- `sub.channels`. -/
  channels : CallbackDict α
  /-- `sub.patterns`. -/
  patterns : CallbackDict α
  deriving DecidableEq, Repr

/-- An array that can be read as a message of pub/sub. -/
structure PubSub where
  /-- Its type starts with a `p`. -/
  pvariant : Bool
  /-- The rest of its type is `unsubscribe`. -/
  unsubscribe : Bool
  /-- Its channel or pattern. -/
  sname : Arg
  /-- The subscriptions that are left. -/
  count : Int
  deriving DecidableEq, Repr

/-- `redisReply`, as far as its type is looked at. -/
inductive Reply where
  /-- `REDIS_REPLY_ERROR`. -/
  | error
  /-- `REDIS_REPLY_ARRAY`. -/
  | array (msg : Option PubSub)
  /-- Any other type. -/
  | other
  deriving DecidableEq, Repr

/-- What becomes of a command. -/
inductive CommandResult (α : Type*) where
  /-- `REDIS_OK`. -/
  | ok (ac : AsyncContext α)
  /-- `REDIS_ERR`. -/
  | err
  /-- An assertion fails. -/
  | assertion
  deriving DecidableEq, Repr

/-- `tolower`. -/
def tolower (b : UInt8) : UInt8 := if 65 ≤ b ∧ b ≤ 90 then b + 32 else b

/-- `strncasecmp` of the text behind `cstr` with a whole word in lower case. -/
def isCommand (cstr : Arg) (word : String) : Bool :=
  let pat := word.toList.map Char.toUInt8 ++ [13, 10]
  ((cstr ++ [13, 10]).take pat.length).map tolower = pat

/-- `pvariant` of a command. -/
def pvariant (cmd : Arg) : Bool := cmd.head?.map tolower = some 112

/-- `cstr` of a command, behind the `p` of a variant. -/
def commandName (cmd : Arg) : Arg := if pvariant cmd then cmd.tail else cmd

variable {α : Type*}

/-- `dictReplace`. -/
def dictReplace (d : CallbackDict α) (cb : RedisCallback α) (sname : Arg) : CallbackDict α :=
  (sname, cb) :: d.filter (·.1 ≠ sname)

namespace AsyncContext

/-- A context made by `redisAsyncInitialize`, with the error of the `connect` call. -/
def init (host : Arg) (port : Int) (err : Bool) : AsyncContext α where
  host := host
  port := port
  err := err
  attached := false
  connected := false
  disconnecting := false
  inCallback := false
  subscribed := false
  monitoring := false
  replies := []
  invalid := []
  channels := []
  patterns := []

/-- `__redisAsyncCommand`, for the arguments of a formatted command. -/
def command (ac : AsyncContext α) (privdata : Option α) (args : List Arg) : CommandResult α :=
  if ac.disconnecting then .err
  else match args with
    | [] => .assertion
    | cmd :: names =>
      let cb := RedisCallback.call privdata
      let cstr := commandName cmd
      if names ≠ [] ∧ isCommand cstr "subscribe" then
        if pvariant cmd then .ok { ac with
          subscribed := true, patterns := names.foldl (fun d => dictReplace d cb) ac.patterns }
        else .ok { ac with
          subscribed := true, channels := names.foldl (fun d => dictReplace d cb) ac.channels }
      else if isCommand cstr "unsubscribe" then
        if ac.subscribed then .ok ac else .err
      else if isCommand cstr "monitor" then
        .ok { ac with monitoring := true, replies := ac.replies ++ [cb] }
      else if ac.subscribed then .ok { ac with invalid := ac.invalid ++ [cb] }
      else .ok { ac with replies := ac.replies ++ [cb] }

/-- `__redisShiftCallback` on `sub.invalid`, with the callback `dstcb` holds before it. -/
def shiftInvalid (ac : AsyncContext α) (dstcb : RedisCallback α) :
    RedisCallback α × AsyncContext α :=
  match ac.invalid with
  | [] => (dstcb, ac)
  | cb :: rest => (cb, { ac with invalid := rest })

/-- `__redisGetSubscribeCallback`, with the callback `dstcb` holds before it. -/
def getSubscribeCallback (ac : AsyncContext α) (dstcb : RedisCallback α) :
    Reply → Option (RedisCallback α × AsyncContext α)
  | .array none => none
  | .array (some m) =>
    match (if m.pvariant then ac.patterns else ac.channels).lookup m.sname with
    | none => some (dstcb, ac)
    | some cb =>
      if m.unsubscribe then
        let subscribed := if m.count = 0 then false else ac.subscribed
        if m.pvariant then some (cb, { ac with
          subscribed, patterns := ac.patterns.filter (·.1 ≠ m.sname) })
        else some (cb, { ac with
          subscribed, channels := ac.channels.filter (·.1 ≠ m.sname) })
      else some (cb, ac)
  | _ => some (ac.shiftInvalid dstcb)

/-- The next callback `__redisAsyncFree` runs. -/
def nextPending (ac : AsyncContext α) : Option (RedisCallback α × AsyncContext α) :=
  match ac.replies with
  | cb :: rest => some (cb, { ac with replies := rest })
  | [] => match ac.invalid with
    | cb :: rest => some (cb, { ac with invalid := rest })
    | [] => match ac.channels with
      | (_, cb) :: rest => some (cb, { ac with channels := rest })
      | [] => match ac.patterns with
        | (_, cb) :: rest => some (cb, { ac with patterns := rest })
        | [] => none

end AsyncContext

end ServerCom.Redis
