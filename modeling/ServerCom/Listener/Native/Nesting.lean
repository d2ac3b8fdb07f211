import ServerCom.Connector.Native.ReadLoop
import ServerCom.Connector.Native.Send
import ServerCom.Listener.Native.World

/-!
# Callbacks that close their connector

The methods of one connector, with the calls that are in progress as an explicit stack.
A frame stands for what a method has still to do. The user's code in a callback is a
sequence of acts that ends with a return, and each act may close the connector under the
methods that wait below it. A method that follows its `this` pointer behind the deletion
faults. `OnConnected` closes nothing here.
-/

namespace ServerCom.Listener

open Connector

/-- The callbacks that may close the connector. -/
inductive Callback where
  /-- `OnRecv`. -/
  | onRecv
  /-- `OnError`. -/
  | onError
  /-- `onDisconnected`. -/
  | onDisconnected
  deriving DecidableEq, Repr

/-- What a call in progress has still to do. -/
inductive Frame where
  /-- `conn_read_callback` at its loop head, with `input_len`. -/
  | readLoop (input : List UInt8) (inputLen : Int)
  /-- `conn_read_callback` behind `OnRecv`. -/
  | afterRecv (input : List UInt8) (inputLen : Int)
  /-- The user's code in a callback. -/
  | user (cb : Callback)
  /-- `conn_event_callback` behind `OnError`. -/
  | afterOnError
  /-- `DisConnect`. -/
  | disConnect
  /-- `on_disconnected`. -/
  | on_disconnected
  /-- `on_disconnected` behind `onDisconnected`. -/
  | afterOnDisconnected

/-- How an execution loses its meaning. -/
inductive Fault where
  /-- A method or the user followed a pointer to the deleted object. -/
  | useAfterDelete
  /-- The reader wrote outside `m_msg`. -/
  | overrun
  deriving DecidableEq, Repr

/-- The world and the calls in progress. -/
structure Execution (Mgr : Type*) where
  /-- Managers and objects. -/
  world : World Mgr
  /-- The calls in progress, the innermost first. -/
  stack : List Frame
  /-- Set when the execution has lost its meaning. -/
  fault : Option Fault

/-- What the user's code in a callback does with its connector. -/
inductive UserAct where
  /-- `FreeSelf`. -/
  | freeSelf
  /-- `DisConnect`. -/
  | disConnect
  /-- `CloseConnect` of its own id on its manager. -/
  | closeConnect
  /-- `send_data`. -/
  | sendData (s : SendCall)
  /-- Return from the callback. -/
  | ret

/-- One move of an execution. -/
inductive Move where
  /-- libevent calls `readcb` with this input buffered. -/
  | readable (input : List UInt8)
  /-- libevent calls `eventcb`. -/
  | event (events : UInt16)
  /-- The method on top of the stack goes on. -/
  | tick
  /-- The user's code on top of the stack goes on. -/
  | user (act : UserAct)

namespace Execution

variable {Mgr : Type*} [DecidableEq Mgr] (rd : BuffereventRead) (m : Mgr) (id : UInt64)
  (p : ConnectorPtr)

/-- Follow the pointer to the object. -/
def withObject (s : Execution Mgr) (k : ListenerConnector Mgr → Execution Mgr) : Execution Mgr :=
  match s.world.heap p with
  | some c => k c
  | none => { s with fault := some .useAfterDelete }

/-- Store the object and go on with this stack. -/
def store (s : Execution Mgr) (c : ListenerConnector Mgr) (stack : List Frame) : Execution Mgr :=
  { s with world := s.world.put p c, stack := stack }

/-- `FreeSelf`, and go on with this stack. -/
def freeSelf (s : Execution Mgr) (stack : List Frame) : Execution Mgr :=
  match s.world.freeSelf p with
  | some (w, _) => { s with world := w, stack := stack }
  | none => { s with fault := some .useAfterDelete }

/-- The object with another parsing state. -/
def withReader (c : ListenerConnector Mgr) (r : Reader) : ListenerConnector Mgr :=
  { c with base := { c.base with reader := r } }

/-- A pass of the read loop from its head. -/
def readPass (s : Execution Mgr) (input : List UInt8) (inputLen : Int) (rest : List Frame) :
    Execution Mgr :=
  if 0 < inputLen then
    s.withObject p fun c =>
      match readStep rd ⟨c.base.reader, input, inputLen⟩ with
      | .next l => s.store p (withReader c l.reader) (.readLoop l.input l.inputLen :: rest)
      | .recv l =>
        s.store p (withReader c l.reader) (.user .onRecv :: .afterRecv l.input l.inputLen :: rest)
      | .disConnect r => s.store p (withReader c r) (.disConnect :: rest)
      | .overrun => { s with fault := some .overrun }
  else { s with stack := rest }

/-- The method on top of the stack goes on. -/
def tick (s : Execution Mgr) (rest : List Frame) : Frame → Execution Mgr
  | .readLoop input inputLen => s.readPass rd p input inputLen rest
  | .afterRecv input inputLen =>
    s.withObject p fun c =>
      s.store p (withReader c c.base.reader.clear) (.readLoop input inputLen :: rest)
  | .user _ => s
  | .afterOnError => { s with stack := .disConnect :: rest }
  | .disConnect =>
    s.withObject p fun c => s.store p { c with base := c.base.free } (.on_disconnected :: rest)
  | .on_disconnected =>
    s.withObject p fun c =>
      { s with world := { s.world with disconnected := s.world.disconnected ++ [p] } }.store p
        { c with ignoreFree := true } (.user .onDisconnected :: .afterOnDisconnected :: rest)
  | .afterOnDisconnected =>
    s.withObject p fun c => (s.store p { c with ignoreFree := false } rest).freeSelf p rest

/-- The user's code in a callback goes on. -/
def userStep (s : Execution Mgr) (cb : Callback) (rest : List Frame) : UserAct → Execution Mgr
  | .freeSelf => s.freeSelf p (.user cb :: rest)
  | .disConnect => { s with stack := .disConnect :: .user cb :: rest }
  | .closeConnect => { s with world := (s.world.closeConnect m id).1 }
  | .sendData call =>
    s.withObject p fun c =>
      if (c.base.sendData call).disConnected then
        { s with stack := .disConnect :: .user cb :: rest }
      else s
  | .ret => { s with stack := rest }

/-- libevent calls `conn_event_callback`. -/
def eventStep (s : Execution Mgr) (c : ListenerConnector Mgr) (events : UInt16) : Execution Mgr :=
  if events &&& Connection.bevEventConnected ≠ 0 then
    s.store p { c with base := { c.base with isConnect := true } } []
  else { s with stack := [.user .onError, .afterOnError] }

/-- One move. Callbacks are only entered from the event loop and for an object whose
bufferevent exists, and a move that is not the next one changes nothing. -/
def step (s : Execution Mgr) (mv : Move) : Execution Mgr :=
  if s.fault.isSome then s
  else match mv, s.stack with
    | .readable input, [] =>
      if (s.world.heap p).isSome then { s with stack := [.readLoop input (int32 input.length)] }
      else s
    | .event events, [] =>
      match s.world.heap p with
      | some c => s.eventStep p c events
      | none => s
    | .tick, f :: rest => s.tick rd p rest f
    | .user act, .user cb :: rest => s.userStep m id p cb rest act
    | _, _ => s

end Execution

end ServerCom.Listener
