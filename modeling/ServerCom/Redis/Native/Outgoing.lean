import ServerCom.Redis.Native.Format
import ServerCom.Redis.Native.RedisConn

/-!
# Commands in the output buffers

The two ways to send a command, down to the bytes that wait in the output buffer of its
context. A call has no result where a text is missing: `cmd` is not initialised then.
-/

namespace ServerCom.Redis

open Text

/-- A connection, and what waits in the output buffers. -/
structure Outgoing where
  /-- The connection. -/
  world : World
  /-- `obuf` of each context. -/
  obuf : ContextPtr → List UInt8

namespace Outgoing

/-- `m_new_opt` becomes null. -/
def clearNewOpt (o : Outgoing) : Outgoing :=
  { o with world := { o.world with conn := { o.world.conn with newOpt := none } } }

/-- A call returns. -/
def ret (o : Outgoing) (status : Bool) : Outgoing :=
  { o with world := { o.world with status := status } }

/-- `__redisAsyncCommand` with `StaticCmdCallback`. -/
def asyncCommandText (o : Outgoing) (c : ContextPtr) (cbData : Option OptPtr) (cmd : List UInt8) :
    Outgoing :=
  match o.world.contexts c with
  | none => { o with world := o.world.halt .dangling }
  | some ac => match ac.command cbData (arguments cmd) with
    | .ok ac =>
      { world := { o.world.setContext c ac with status := true }
        obuf := Function.update o.obuf c (o.obuf c ++ cmd) }
    | .err => o.ret false
    | .assertion => { o with world := o.world.halt .assertion }

variable (platform : Spec → VarArg → Option (List UInt8))

/-- `redisvAsyncCommand`. -/
def redisvAsyncCommand (o : Outgoing) (c : ContextPtr) (cbData : Option OptPtr) (format : CStr)
    (ap : List VarArg) : Option Outgoing :=
  match redisvFormatCommand platform format ap with
  | .error _ => none
  | .ok args => (redisFormatCommandArgv args).map (o.asyncCommandText c cbData)

/-- `redisAsyncCommand`, with the arguments behind the format. -/
def redisAsyncCommand (o : Outgoing) (c : ContextPtr) (cbData : Option OptPtr) (format : CStr)
    (varargs : List VarArg) : Option Outgoing :=
  o.redisvAsyncCommand platform c cbData format varargs

/-- `redisAsyncCommandArgv`. -/
def redisAsyncCommandArgv (o : Outgoing) (c : ContextPtr) (cbData : Option OptPtr)
    (args : List Arg) : Option Outgoing :=
  (redisFormatCommandArgv args).map (o.asyncCommandText c cbData)

/-- `RedisAsyncCmd`. Its own arguments stay behind: `ap` is the only one it hands on. -/
def redisAsyncCmd (o : Outgoing) (cbData : Option OptPtr) (format : CStr)
    (_varargs : List VarArg) : Option Outgoing :=
  match o.world.conn.aeContext with
  | none => some (o.ret false)
  | some c =>
    if cbData ≠ o.world.conn.newOpt then some (o.ret false)
    else (o.redisAsyncCommand platform c cbData format [.vaList]).map clearNewOpt

/-- `RedisAsyncCmdArgv`. -/
def redisAsyncCmdArgv (o : Outgoing) (cbData : Option OptPtr) (args : List Arg) :
    Option Outgoing :=
  match o.world.conn.aeContext with
  | none => some (o.ret false)
  | some c =>
    if cbData ≠ o.world.conn.newOpt then some (o.ret false)
    else o.clearNewOpt.redisAsyncCommandArgv c cbData args

end Outgoing

end ServerCom.Redis
