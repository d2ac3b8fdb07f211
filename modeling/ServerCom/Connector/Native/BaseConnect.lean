import ServerCom.Connector.Native.Reader

/-!
# The connection object

`BaseConnect` carries the fields of the class, and `Connection` adds what libevent
keeps for the object: the bufferevents created for it and not freed yet. The
results of `socket`, `bufferevent_socket_new` and `bufferevent_socket_connect` are
arguments. The user's callbacks stand last in each operation, or directly before
`DisConnect`, so what they call is a further operation of a run.
-/

namespace ServerCom.Connector

/-- `sockaddr_in`, its numbers in network order. -/
structure SockAddrIn where
  /-- `sin_family`. -/
  sinFamily : UInt16 := 0
  /-- `sin_port`. -/
  sinPort : UInt16 := 0
  /-- `sin_addr.s_addr`. -/
  sinAddr : UInt32 := 0
  deriving DecidableEq, Repr

/-- `AF_INET`. -/
def afInet : UInt16 := 2

/-- `htons` on a little-endian host. -/
def htons (x : UInt16) : UInt16 := x <<< 8 ||| x >>> 8

/-- A bufferevent, numbered in the order of creation. -/
abbrev Bufferevent := Nat

/-- The fields of the class. -/
structure BaseConnect where
  /-- `m_buf_e`, without a value for the null pointer. -/
  bufE : Option Bufferevent
  /-- `m_addr`. -/
  addr : SockAddrIn
  /-- `m_fd`. -/
  fd : Int
  /-- `m_msbs`. -/
  msbs : Nat
  /-- `m_is_connect`. -/
  isConnect : Bool
  /-- `m_msg` and `m_msg_write_len`. -/
  reader : Reader

/-- The constructor; `m_msg` is not initialised. -/
def BaseConnect.construct (msg : MsgPack) : BaseConnect where
  bufE := none
  addr := {}
  fd := 0
  msbs := 1024 * 64
  isConnect := false
  reader := .fresh msg

/-- The object and the bufferevents libevent keeps for it. -/
structure Connection extends BaseConnect where
  /-- Created by the object and not freed. -/
  live : List Bufferevent
  /-- How many were created so far. -/
  created : Nat

/-- A constructed object has no bufferevent. -/
def Connection.construct (msg : MsgPack) : Connection := ⟨.construct msg, [], 0⟩

/-- What the system calls of one connection attempt answer. -/
structure Outcome where
  /-- The descriptor `socket` returns, negative for a failure. -/
  socket : Int
  /-- Whether `bufferevent_socket_new` succeeds. -/
  newOk : Bool
  /-- Whether `bufferevent_socket_connect` returns zero. -/
  connectOk : Bool
  deriving DecidableEq, Repr

namespace Connection

/-- `bufferevent_free(m_buf_e)` and `m_buf_e = 0`. -/
def freeBufE (c : Connection) : Connection :=
  match c.bufE with
  | some b => { c with live := c.live.filter (· ≠ b), bufE := none }
  | none => c

/-- `free`. -/
def free (c : Connection) : Connection := { c.freeBufE with fd := 0, isConnect := false }

/-- `free` leaves the reader as it is. -/
@[simp] theorem reader_free (c : Connection) : c.free.reader = c.reader := by
  rw [free, freeBufE]
  split <;> rfl

/-- `m_buf_e = bufferevent_socket_new(..)`. -/
def buffereventSocketNew (c : Connection) (ok : Bool) : Connection :=
  if ok then
    { c with bufE := some c.created, live := c.created :: c.live, created := c.created + 1 }
  else { c with bufE := none }

@[simp] theorem reader_buffereventSocketNew (c : Connection) (ok : Bool) :
    (c.buffereventSocketNew ok).reader = c.reader := by
  cases ok <;> rfl

/-- `BaseAcceptInit`; a true result comes with `OnConnected`. -/
def baseAcceptInit (c : Connection) (fd : Int) (sa : SockAddrIn) (newOk : Bool) :
    Connection × Bool :=
  if c.fd ≠ 0 then (c, false)
  else
    let c := { c with fd := fd }.buffereventSocketNew newOk
    if c.bufE = none then (c, false)
    else ({ c with addr := sa, isConnect := true }, true)

/-- `ConnectByAddr`. A failing `bufferevent_socket_connect` is taken to make no callback. -/
def connectByAddr (c : Connection) (o : Outcome) : Connection × Bool :=
  if c.addr.sinPort = 0 then (c, false)
  else if o.socket < 0 then ({ c with fd := o.socket }, false)
  else
    let c := { c with fd := o.socket }.buffereventSocketNew o.newOk
    if c.bufE = none then ({ c with fd := 0 }, false)
    else if o.connectOk then (c, true)
    else ({ c with fd := 0 }, false)

/-- `ConnectByAddr` leaves the reader as it is. -/
@[simp] theorem reader_connectByAddr (c : Connection) (o : Outcome) :
    (c.connectByAddr o).1.reader = c.reader := by
  simp only [connectByAddr]
  split_ifs <;> simp

section connectByAddr

variable {c : Connection} {o : Outcome}

/-- Without a port nothing is done. -/
theorem connectByAddr_of_port (h : c.addr.sinPort = 0) : c.connectByAddr o = (c, false) := if_pos h

/-- A failing `socket` leaves its result in `m_fd`. -/
theorem connectByAddr_of_socket (hp : c.addr.sinPort ≠ 0) (hs : o.socket < 0) :
    c.connectByAddr o = ({ c with fd := o.socket }, false) := by
  rw [connectByAddr, if_neg hp, if_pos hs]

/-- Without a bufferevent `m_fd` is zero again. -/
theorem connectByAddr_of_newFail (hp : c.addr.sinPort ≠ 0) (hs : 0 ≤ o.socket)
    (hn : o.newOk = false) : c.connectByAddr o = ({ c with bufE := none, fd := 0 }, false) := by
  rw [connectByAddr, if_neg hp, if_neg (not_lt.mpr hs), hn]
  rfl

/-- A new bufferevent replaces `m_buf_e` whether or not the connect succeeds. -/
theorem connectByAddr_of_new (hp : c.addr.sinPort ≠ 0) (hs : 0 ≤ o.socket)
    (hn : o.newOk = true) :
    c.connectByAddr o =
      ({ c with
          bufE := some c.created
          live := c.created :: c.live
          created := c.created + 1
          fd := if o.connectOk then o.socket else 0 }, o.connectOk) := by
  rw [connectByAddr, if_neg hp, if_neg (not_lt.mpr hs), hn]
  cases h : o.connectOk <;> rfl

end connectByAddr

/-- `ConnectInit` with the value `inet_addr` has for `connect_ip`, without one for a
null pointer. -/
def connectInitIp (c : Connection) (connectIp : Option UInt32) (connectPort : UInt16)
    (o : Outcome) : Connection × Bool :=
  if c.fd ≠ 0 then (c, false)
  else
    match connectIp with
    | none => (c, false)
    | some ip => { c with addr := ⟨afInet, htons connectPort, ip⟩ }.connectByAddr o

/-- `ConnectInit` with a server address. -/
def connectInit (c : Connection) (svrAddr : SockAddrIn) (o : Outcome) : Connection × Bool :=
  if c.fd ≠ 0 then (c, false) else { c with addr := svrAddr }.connectByAddr o

/-- `TryReconnect`. -/
def tryReconnect (c : Connection) (o : Outcome) : Connection × Bool :=
  if c.isConnect then (c, true) else c.connectByAddr o

/-- `DisConnect`, before `on_disconnected`. -/
def disConnect (c : Connection) : Connection := c.free

/-- `BEV_EVENT_CONNECTED`. -/
def bevEventConnected : UInt16 := 0x80

/-- `conn_event_callback`: `OnConnected` follows, or `OnError` and `DisConnect`. -/
def connEventCallback (c : Connection) (events : UInt16) : Connection :=
  if events &&& bevEventConnected ≠ 0 then { c with isConnect := true } else c.disConnect

end Connection

/-- What the user and libevent can do to an object. -/
inductive Operation where
  /-- `ConnectInit` with an address text. -/
  | connectInitIp (connectIp : Option UInt32) (connectPort : UInt16) (o : Outcome)
  /-- `ConnectInit` with an address. -/
  | connectInit (svrAddr : SockAddrIn) (o : Outcome)
  /-- `BaseAcceptInit`. -/
  | baseAcceptInit (fd : Int) (sa : SockAddrIn) (newOk : Bool)
  /-- `TryReconnect`. -/
  | tryReconnect (o : Outcome)
  /-- `DisConnect`. -/
  | disConnect
  /-- An event on one of the object's bufferevents. -/
  | event (bev : Bufferevent) (events : UInt16)

/-- The state after an operation. libevent delivers no event for a freed bufferevent. -/
def Connection.step (c : Connection) : Operation → Connection
  | .connectInitIp ip port o => (c.connectInitIp ip port o).1
  | .connectInit svrAddr o => (c.connectInit svrAddr o).1
  | .baseAcceptInit fd sa newOk => (c.baseAcceptInit fd sa newOk).1
  | .tryReconnect o => (c.tryReconnect o).1
  | .disConnect => c.disConnect
  | .event bev events => if bev ∈ c.live then c.connEventCallback events else c

end ServerCom.Connector
