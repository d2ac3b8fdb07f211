import ServerCom.Listener.Native.World

/-!
# Accepting a connection

`listener_cb` gets a descriptor that libevent has accepted already. `NewConnect` may return
null and `bufferevent_socket_new` may fail. Beside the world the model keeps for which
connectors `OnConnected` was called, and which descriptors were closed: a bufferevent
closes its descriptor when it is freed, and nobody else does.
-/

namespace ServerCom.Listener

open Connector

/-- What the user's `OnConnected` does with its own connector. -/
inductive OnConnectedAct where
  /-- It stays. -/
  | keep
  /-- `FreeSelf`, or `CloseConnect` of the own id. -/
  | freeSelf
  /-- `DisConnect`, with `k` calls of `FreeSelf` in `onDisconnected`. -/
  | disConnect (k : Nat)
  deriving DecidableEq, Repr

/-- One call of `listener_cb`, and what it meets. -/
structure AcceptCall (Mgr : Type*) where
  /-- `m_cn_mgr` of the listener. -/
  mgr : Mgr
  /-- The accepted descriptor. -/
  fd : Int
  /-- The peer's address. -/
  sa : SockAddrIn
  /-- `m_addr` of the listener. -/
  svrAddr : SockAddrIn
  /-- What `m_msg` contains in the object of `NewConnect`, without a value for a null pointer. -/
  newConnect : Option MsgPack
  /-- `bufferevent_socket_new` succeeds. -/
  newOk : Bool
  /-- What `OnConnected` does. -/
  onConnected : OnConnectedAct

/-- The world, and what accepting connections has done beside it. -/
structure Accepts (Mgr : Type*) where
  /-- Managers and objects. -/
  world : World Mgr
  /-- The connectors `OnConnected` was called for, in order. -/
  onConnected : List ConnectorPtr
  /-- The descriptors that were closed, in order. -/
  closedFds : List Int

/-- The descriptor the bufferevent of an object owns. -/
def World.ownedFd {Mgr : Type*} (w : World Mgr) (p : ConnectorPtr) : Option Int :=
  (w.heap p).bind fun c => if c.base.bufE = none then none else some c.base.fd

namespace Accepts

variable {Mgr : Type*}

/-- The world changes; a descriptor is closed with the bufferevent of this object, which
`bufferevent_free` is taken to do at once. -/
def become (s : Accepts Mgr) (p : ConnectorPtr) (w : World Mgr) : Accepts Mgr :=
  { s with
    world := w
    closedFds := s.closedFds ++
      if w.ownedFd p = none then (s.world.ownedFd p).toList else [] }

variable [DecidableEq Mgr]

/-- `OnConnected`, the last thing `listener_cb` calls. -/
def callOnConnected (s : Accepts Mgr) (p : ConnectorPtr) (act : OnConnectedAct) :
    Option (Accepts Mgr) :=
  let s := { s with onConnected := s.onConnected ++ [p] }
  match act with
  | .keep => some s
  | .freeSelf => (s.world.freeSelf p).map fun r => s.become p r.1
  | .disConnect k => (s.world.disConnect p k).map (s.become p)

/-- `AcceptInit`, and what `BaseAcceptInit` returns. -/
def acceptInit (s : Accepts Mgr) (p : ConnectorPtr) (a : AcceptCall Mgr) :
    Option (Accepts Mgr × Bool) :=
  (s.world.heap p).map fun c =>
    let (base, ok) := c.base.baseAcceptInit a.fd a.sa a.newOk
    ({ s with world := s.world.put p { c with svrAddr := a.svrAddr, base := base } }, ok)

/-- `listener_cb`. -/
def listenerCb (s : Accepts Mgr) (a : AcceptCall Mgr) : Option (Accepts Mgr) :=
  match a.newConnect with
  | none => some s
  | some msg =>
    (s.world.createConnectForListener a.mgr msg).bind fun (w, p) =>
      (w.modify p fun c => { c with cnMgr := some a.mgr }).bind fun w =>
        ({ s with world := w }.acceptInit p a).bind fun (s, ok) =>
          if ok then s.callOnConnected p a.onConnected else some s

/-- The state behind a call, which never follows a dead pointer. -/
def step (s : Accepts Mgr) (a : AcceptCall Mgr) : Accepts Mgr := (s.listenerCb a).getD s

end Accepts

end ServerCom.Listener
