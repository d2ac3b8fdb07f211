import ServerCom.Connector.Native.BaseConnect
import ServerCom.Connector.Native.ReadLoop
import ServerCom.Connector.Native.Send

/-!
# An object and its connections

The methods of an object that outlives its connections, with the calls in progress as an
explicit stack. The user asks for connections, sends and disconnects at any time, from the
event loop or from a callback, and whatever a callback does happens under the methods that
wait below it. libevent keeps a bufferevent until its callback has returned, so that the
read loop still finds the buffered bytes behind a `DisConnect` in `OnRecv`. A history
records the connection requests and the calls of `on_disconnected`.
-/

namespace ServerCom.Connector

/-- The ways to ask for a connection. -/
inductive Request where
  /-- `ConnectInit` with an address text. -/
  | connectInitIp (connectIp : Option UInt32) (connectPort : UInt16)
  /-- `ConnectInit` with an address. -/
  | connectInit (svrAddr : SockAddrIn)
  /-- `TryReconnect`. -/
  | tryReconnect

/-- The call and what it returns. -/
def Connection.request (c : Connection) (o : Outcome) : Request → Connection × Bool
  | .connectInitIp ip port => c.connectInitIp ip port o
  | .connectInit svrAddr => c.connectInit svrAddr o
  | .tryReconnect => c.tryReconnect o

/-- The call asks for a connection: `TryReconnect` has nothing to ask for while connected. -/
def Connection.asks (c : Connection) : Request → Bool
  | .tryReconnect => !c.isConnect
  | _ => true

/-- What a history records. -/
inductive Notice where
  /-- A connection was asked for, successfully. -/
  | requested
  /-- `on_disconnected` was called. -/
  | disconnected
  deriving DecidableEq, Repr

namespace Lifetime

/-- The callbacks. -/
inductive Callback where
  /-- `OnConnected`. -/
  | onConnected
  /-- `OnRecv`. -/
  | onRecv
  /-- `OnError`. -/
  | onError
  /-- `on_disconnected`. -/
  | on_disconnected
  deriving DecidableEq, Repr

/-- What a call in progress has still to do. -/
inductive Frame where
  /-- `conn_read_callback` at its loop head, with `input_len`. -/
  | readLoop (input : List UInt8) (inputLen : Int)
  /-- `conn_read_callback` behind `OnRecv`. -/
  | afterRecv (input : List UInt8) (inputLen : Int)
  /-- `conn_event_callback` behind `OnError`. -/
  | afterOnError
  /-- `DisConnect`. -/
  | disConnect
  /-- The user's code in a callback. -/
  | user (cb : Callback)

/-- What the user does with the object. -/
inductive UserAct where
  /-- `ConnectInit` or `TryReconnect`. -/
  | request (r : Request) (o : Outcome)
  /-- `DisConnect`. -/
  | disConnect
  /-- `send_data`. -/
  | sendData (call : SendCall)
  /-- Return from a callback. -/
  | ret

/-- One move of a run. -/
inductive Move where
  /-- libevent calls `readcb` with this input buffered. -/
  | readable (bev : Bufferevent) (input : List UInt8)
  /-- libevent calls `eventcb`. -/
  | event (bev : Bufferevent) (events : UInt16)
  /-- The method on top of the stack goes on. -/
  | tick
  /-- The user's code goes on, in a callback or from the event loop. -/
  | user (act : UserAct)

end Lifetime

open Lifetime

/-- The object, the calls in progress and what has happened. -/
structure Lifetime where
  /-- The object and its bufferevents. -/
  object : Connection
  /-- The calls in progress, the innermost first. -/
  stack : List Frame
  /-- The latest notice first. -/
  history : List Notice
  /-- The reader wrote outside `m_msg`. -/
  overrun : Bool

namespace Lifetime

/-- A new object. -/
def start (msg : MsgPack) : Lifetime := ⟨.construct msg, [], [], false⟩

/-- Leave another parsing state in the object and go on with this stack. -/
def withReader (s : Lifetime) (r : Reader) (stack : List Frame) : Lifetime :=
  { s with object := { s.object with reader := r }, stack := stack }

/-- A pass of the read loop from its head. -/
def readPass (rd : BuffereventRead) (s : Lifetime) (input : List UInt8) (inputLen : Int)
    (rest : List Frame) : Lifetime :=
  if 0 < inputLen then
    match readStep rd ⟨s.object.reader, input, inputLen⟩ with
    | .next l => s.withReader l.reader (.readLoop l.input l.inputLen :: rest)
    | .recv l => s.withReader l.reader (.user .onRecv :: .afterRecv l.input l.inputLen :: rest)
    | .disConnect r => s.withReader r (.disConnect :: rest)
    | .overrun => { s with overrun := true }
  else { s with stack := rest }

/-- `DisConnect`. -/
def disConnect (s : Lifetime) (rest : List Frame) : Lifetime :=
  { s with
    object := s.object.free
    stack := .user .on_disconnected :: rest
    history := .disconnected :: s.history }

/-- The method on top of the stack goes on. -/
def tick (rd : BuffereventRead) (s : Lifetime) (rest : List Frame) : Frame → Lifetime
  | .readLoop input inputLen => s.readPass rd input inputLen rest
  | .afterRecv input inputLen =>
    s.withReader s.object.reader.clear (.readLoop input inputLen :: rest)
  | .afterOnError => { s with stack := .disConnect :: rest }
  | .disConnect => s.disConnect rest
  | .user _ => s

/-- A call of `ConnectInit` or `TryReconnect`. The runs have only calls that return true. -/
def request (s : Lifetime) (r : Request) (o : Outcome) : Lifetime :=
  let (c, returned) := s.object.request o r
  if returned then
    { s with
      object := c
      history := if s.object.asks r then .requested :: s.history else s.history }
  else s

/-- The user's code goes on. -/
def userStep (s : Lifetime) : UserAct → Lifetime
  | .request r o => s.request r o
  | .disConnect => { s with stack := .disConnect :: s.stack }
  | .sendData call =>
    if (s.object.sendData call).disConnected then { s with stack := .disConnect :: s.stack } else s
  | .ret => { s with stack := s.stack.tail }

/-- libevent calls `conn_event_callback`. -/
def eventStep (s : Lifetime) (events : UInt16) : Lifetime :=
  if events &&& Connection.bevEventConnected ≠ 0 then
    { s with object := { s.object with isConnect := true }, stack := [.user .onConnected] }
  else { s with stack := [.user .onError, .afterOnError] }

/-- One move. Callbacks are entered from the event loop and for a bufferevent that was not
freed, and a move that is not the next one changes nothing. Behind a read past `m_msg` nothing
is defined, and a run stands still. -/
def step (rd : BuffereventRead) (s : Lifetime) (mv : Move) : Lifetime :=
  if s.overrun then s
  else match mv, s.stack with
    | .readable bev input, [] =>
      if bev ∈ s.object.live then { s with stack := [.readLoop input (int32 input.length)] } else s
    | .event bev events, [] => if bev ∈ s.object.live then s.eventStep events else s
    | .tick, f :: rest => s.tick rd rest f
    | .user act, [] => s.userStep act
    | .user act, .user _ :: _ => s.userStep act
    | _, _ => s

end Lifetime

end ServerCom.Connector
