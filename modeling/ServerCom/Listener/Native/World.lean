import Mathlib.Logic.Function.Basic
import ServerCom.Connector.Native.BaseConnect
import ServerCom.Core.Data.SortedMap
import ServerCom.Core.Word.Order

/-!
# Connectors and their managers

A `BaseConnectorMgr` keeps the connectors accepted for it in a `std::map` by id, and
the constructor of `ListenerConnector` draws ids from one seed for all managers.
Objects live in a heap; a pointer is the number of the `new` that made the object, and
a step that follows a pointer without an object has no value. The world also records
which ids were given, which objects were deleted and for which `onDisconnected` ran.
-/

namespace ServerCom.Listener

open Connector

/-- A pointer to a connector. -/
abbrev ConnectorPtr := Nat

/-- The fields of `ListenerConnector`. -/
structure ListenerConnector (Mgr : Type*) where
  /-- The base class. -/
  base : Connection
  /-- `m_cn_mgr`, without a value for the null pointer. -/
  cnMgr : Option Mgr
  /-- `m_id`. -/
  id : UInt64
  /-- `m_svr_addr`. -/
  svrAddr : SockAddrIn
  /-- `m_ignore_free`. -/
  ignoreFree : Bool

/-- All managers, all connectors, and what has happened to them. -/
structure World (Mgr : Type*) where
  /-- `id_seed`. -/
  idSeed : UInt64
  /-- The objects that exist. -/
  heap : ConnectorPtr → Option (ListenerConnector Mgr)
  /-- `m_all_connector` of every manager. -/
  tables : Mgr → SortedMap UInt64 ConnectorPtr
  /-- The ids of all connectors made, by pointer. -/
  ids : List UInt64
  /-- The connectors deleted, in order. -/
  deleted : List ConnectorPtr
  /-- The connectors `onDisconnected` was called for, in order. -/
  disconnected : List ConnectorPtr

namespace World

variable {Mgr : Type*}

/-- No connector was made yet. -/
def start : World Mgr := ⟨0, fun _ => none, fun _ => ∅, [], [], []⟩

/-- Store an object. -/
def put (w : World Mgr) (p : ConnectorPtr) (c : ListenerConnector Mgr) : World Mgr :=
  { w with heap := Function.update w.heap p (some c) }

/-- Assignments to fields of an object. -/
def modify (w : World Mgr) (p : ConnectorPtr)
    (f : ListenerConnector Mgr → ListenerConnector Mgr) : Option (World Mgr) :=
  (w.heap p).map fun c => w.put p (f c)

@[simp] theorem heap_put_self (w : World Mgr) (p : ConnectorPtr) (c : ListenerConnector Mgr) :
    (w.put p c).heap p = some c := Function.update_self ..

@[simp] theorem put_put (w : World Mgr) (p : ConnectorPtr) (c d : ListenerConnector Mgr) :
    (w.put p c).put p d = w.put p d := by
  simp [put]

/-- An object that is there is changed. -/
theorem modify_eq {w : World Mgr} {p : ConnectorPtr} {c : ListenerConnector Mgr}
    (hc : w.heap p = some c) (f : ListenerConnector Mgr → ListenerConnector Mgr) :
    w.modify p f = some (w.put p (f c)) := by
  rw [modify, hc, Option.map_some]

variable [DecidableEq Mgr]

/-- `new Connect`; `m_msg` is not initialised. -/
def newConnect (w : World Mgr) (msg : MsgPack) : World Mgr × ConnectorPtr :=
  let id := w.idSeed + 1
  let p := w.ids.length
  ({ w with idSeed := id, ids := w.ids ++ [id] }.put p ⟨.construct msg, none, id, {}, false⟩, p)

/-- `CreateConnectForListener`. -/
def createConnectForListener (w : World Mgr) (m : Mgr) (msg : MsgPack) :
    Option (World Mgr × ConnectorPtr) :=
  let (w, p) := w.newConnect msg
  (w.heap p).map fun c =>
    ({ w with tables := Function.update w.tables m ((w.tables m).insert c.id p) }, p)

/-- `AcceptInit`. -/
def acceptInit (w : World Mgr) (p : ConnectorPtr) (fd : Int) (sa svrAddr : SockAddrIn)
    (newOk : Bool) : Option (World Mgr) :=
  w.modify p fun c => { c with svrAddr := svrAddr, base := (c.base.baseAcceptInit fd sa newOk).1 }

/-- `listener_cb`. A connector whose `AcceptInit` fails stays where it is. -/
def listenerCb (w : World Mgr) (m : Mgr) (fd : Int) (sa svrAddr : SockAddrIn) (newOk : Bool)
    (msg : MsgPack) : Option (World Mgr) :=
  (w.createConnectForListener m msg).bind fun (w, p) =>
    (w.modify p fun c => { c with cnMgr := some m }).bind fun w =>
      w.acceptInit p fd sa svrAddr newOk

/-- `FindConnect`. -/
def findConnect (w : World Mgr) (m : Mgr) (id : UInt64) : Option ConnectorPtr :=
  (w.tables m).find? id

/-- `delete p`, which frees the bufferevent with the object. -/
def delete (w : World Mgr) (p : ConnectorPtr) : World Mgr :=
  { w with heap := Function.update w.heap p none, deleted := w.deleted ++ [p] }

/-- `~BaseConnectorMgr`: every connector in the table is deleted. -/
def destroyMgr (w : World Mgr) (m : Mgr) : World Mgr :=
  let w := (w.tables m).entries.foldl (fun w v => w.delete v.2) w
  { w with tables := Function.update w.tables m ∅ }

/-- `m_all_connector.erase`. -/
def eraseEntry (w : World Mgr) (m : Mgr) (id : UInt64) : World Mgr :=
  { w with tables := Function.update w.tables m ((w.tables m).erase id) }

/-- `CloseConnect`. -/
def closeConnect (w : World Mgr) (m : Mgr) (id : UInt64) : World Mgr × Bool :=
  match (w.tables m).find? id with
  | none => (w, false)
  | some p => ((w.eraseEntry m id).delete p, true)

/-- `FreeSelf`. -/
def freeSelf (w : World Mgr) (p : ConnectorPtr) : Option (World Mgr × Bool) :=
  (w.heap p).bind fun c =>
    if c.ignoreFree then some (w, false)
    else c.cnMgr.map fun m => w.closeConnect m c.id

/-- `k` calls of `FreeSelf` one after another. -/
def freeSelfTimes (w : World Mgr) (p : ConnectorPtr) : (k : Nat) → Option (World Mgr)
  | 0 => some w
  | k + 1 => (w.freeSelf p).bind fun r => freeSelfTimes r.1 p k

/-- `onDisconnected` of a user who calls `FreeSelf` in it `k` times. -/
def onDisconnected (w : World Mgr) (p : ConnectorPtr) (k : Nat) : Option (World Mgr) :=
  { w with disconnected := w.disconnected ++ [p] }.freeSelfTimes p k

/-- `on_disconnected`. -/
def on_disconnected (w : World Mgr) (p : ConnectorPtr) (k : Nat) : Option (World Mgr) :=
  (w.modify p fun c => { c with ignoreFree := true }).bind fun w =>
    (w.onDisconnected p k).bind fun w =>
      (w.modify p fun c => { c with ignoreFree := false }).bind fun w =>
        (w.freeSelf p).map Prod.fst

/-- `DisConnect`. -/
def disConnect (w : World Mgr) (p : ConnectorPtr) (k : Nat) : Option (World Mgr) :=
  (w.modify p fun c => { c with base := c.base.free }).bind fun w => w.on_disconnected p k

/-- `conn_event_callback` of a user whose `OnConnected` and `OnError` close nothing. -/
def connEventCallback (w : World Mgr) (p : ConnectorPtr) (events : UInt16) (k : Nat) :
    Option (World Mgr) :=
  if events &&& Connection.bevEventConnected ≠ 0 then
    w.modify p fun c => { c with base := { c.base with isConnect := true } }
  else w.disConnect p k

/-- `conn_read_callback` of a user whose `OnRecv` closes nothing: it leaves a parsing
state in the object and calls `DisConnect` if it rejects its input. -/
def connReadCallback (w : World Mgr) (p : ConnectorPtr) (r : Reader) (rejected : Bool) (k : Nat) :
    Option (World Mgr) :=
  (w.modify p fun c => { c with base := { c.base with reader := r } }).bind fun w =>
    if rejected then w.disConnect p k else some w

end World

/-- What can happen between two returns to the event loop. -/
inductive Op (Mgr : Type*) where
  /-- A listener of a manager accepts a connection. -/
  | accept (m : Mgr) (fd : Int) (sa svrAddr : SockAddrIn) (newOk : Bool) (msg : MsgPack)
  /-- `CloseConnect` on a manager. -/
  | closeConnect (m : Mgr) (id : UInt64)
  /-- `FreeSelf`. -/
  | freeSelf (p : ConnectorPtr)
  /-- `DisConnect`, with `k` calls of `FreeSelf` in `onDisconnected`. -/
  | disConnect (p : ConnectorPtr) (k : Nat)
  /-- An event. -/
  | event (p : ConnectorPtr) (events : UInt16) (k : Nat)
  /-- A read callback. -/
  | read (p : ConnectorPtr) (r : Reader) (rejected : Bool) (k : Nat)

namespace World

variable {Mgr : Type*} [DecidableEq Mgr]

/-- The world after an operation. -/
def step (w : World Mgr) : Op Mgr → Option (World Mgr)
  | .accept m fd sa svrAddr newOk msg => w.listenerCb m fd sa svrAddr newOk msg
  | .closeConnect m id => some (w.closeConnect m id).1
  | .freeSelf p => (w.freeSelf p).map Prod.fst
  | .disConnect p k => w.disConnect p k
  | .event p events k => w.connEventCallback p events k
  | .read p r rejected k => w.connReadCallback p r rejected k

/-- The world after a run. -/
def run (w : World Mgr) (ops : List (Op Mgr)) : Option (World Mgr) := ops.foldlM step w

end World

end ServerCom.Listener
