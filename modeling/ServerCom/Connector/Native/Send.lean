import ServerCom.Connector.Native.BaseConnect

/-!
# Sending a message

`send_data` writes the length in network order, then copies `len` bytes from the
data array, where `len` counts the length field too. The bytes behind the array and
the results of the libevent calls are arguments.
-/

namespace ServerCom.Connector

/-- One call of `send_data` and what it meets. -/
structure SendCall where
  /-- The message. -/
  msg : MsgPack
  /-- What lies in memory behind `msg.data`. -/
  behind : Nat → UInt8
  /-- The length of the output buffer, without a value for a null `output`. -/
  outputLen : Option Nat
  /-- Whether the first `bufferevent_write` returns zero. -/
  writeHead : Bool
  /-- Whether the second `bufferevent_write` returns zero. -/
  writeData : Bool

/-- `len = msg.len + sizeof(msg.len)`, computed as `size_t` and stored in an `int`. -/
def SendCall.len (s : SendCall) : Int := int32 (s.msg.len + headLen)

/-- `net_len`, as the bytes that are written. -/
def SendCall.netLen (s : SendCall) : List UInt8 := bytesOfInt (swap32 s.msg.len)

/-- The second write: `len` converted to `size_t`, from `msg.data` on. -/
def SendCall.payload (s : SendCall) : List UInt8 :=
  (List.range (s.len % 2 ^ 64).toNat).map fun i => s.msg.data.getD i (s.behind i)

/-- What a call returns and does. -/
structure Sent where
  /-- The returned value. -/
  returned : Bool
  /-- The bytes appended to the output buffer. -/
  appended : List UInt8 := []
  /-- Whether `DisConnect` was called. -/
  disConnected : Bool := false

/-- `send_data`. -/
def BaseConnect.sendData (c : BaseConnect) (s : SendCall) : Sent :=
  if !c.isConnect then { returned := false }
  else if c.fd = 0 then { returned := false }
  else if c.bufE = none then { returned := false }
  else if c.msbs ≠ 0 ∧ s.outputLen = none then { returned := false }
  else if c.msbs ≠ 0 ∧ c.msbs < s.outputLen.getD 0 then
    { returned := false, disConnected := true }
  else if !s.writeHead then { returned := false }
  else if !s.writeData then { returned := false, appended := s.netLen }
  else { returned := true, appended := s.netLen ++ s.payload }

/-- A call that returns true has appended the length and the payload. -/
theorem BaseConnect.sendData_returned {c : BaseConnect} {s : SendCall}
    (h : (c.sendData s).returned = true) : (c.sendData s).appended = s.netLen ++ s.payload := by
  unfold BaseConnect.sendData at h ⊢
  split_ifs at h ⊢
  rfl

@[simp] theorem SendCall.length_netLen (s : SendCall) : s.netLen.length = headLen :=
  length_bytesOfInt _

/-- The payload of a legal message is longer than its data by the length field. -/
theorem SendCall.length_payload {s : SendCall} (h₀ : 0 ≤ s.msg.len)
    (h : s.msg.len ≤ maxMsgDataLen) : s.payload.length = s.msg.len.toNat + headLen := by
  have hlen : s.len = s.msg.len + headLen := by
    rw [SendCall.len, int32_eq_self]
    simp only [InInt32, maxMsgDataLen, headLen] at *
    omega
  rw [SendCall.payload, List.length_map, List.length_range, hlen]
  simp only [maxMsgDataLen, headLen] at *
  omega

end ServerCom.Connector
