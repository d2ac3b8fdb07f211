import Mathlib.Algebra.Order.BigOperators.Group.List
import ServerCom.Connector.Interpretation.Frames
import ServerCom.Connector.Interpretation.Held
import ServerCom.Connector.Native.Send

/-!
# Sender and reader on one stream

The sender puts four bytes more behind each length than the reader takes. The bytes
of a stream are conserved, so no sequence of sent messages is received exactly.
-/

namespace ServerCom.Connector

variable {rd : BuffereventRead} {c : BaseConnect} {calls : List SendCall}

/-- Every message is legal and every call returns true. -/
structure AllSent (c : BaseConnect) (calls : List SendCall) : Prop where
  /-- Lengths between one and `MAX_MSG_DATA_LEN`. -/
  legal : ∀ s ∈ calls, 1 ≤ s.msg.len ∧ s.msg.len ≤ maxMsgDataLen
  /-- `send_data` returns true. -/
  returned : ∀ s ∈ calls, (c.sendData s).returned = true

/-- The bytes a sequence of calls appends to the output buffer. -/
def sentBytes (c : BaseConnect) (calls : List SendCall) : List UInt8 :=
  (calls.map fun s => (c.sendData s).appended).flatten

/-- A fresh peer that is shown the bytes in one callback delivers exactly these
messages, stays connected, and has no bytes left over. -/
def ReceivedExactly (rd : BuffereventRead) (msg : MsgPack) (bytes : List UInt8)
    (messages : List Message) : Prop :=
  ∃ msgs r, connReadCallback rd (.fresh msg) bytes = (msgs, .returned r []) ∧
    msgs.map MsgPack.message = messages ∧ r.msgWriteLen = 0

/-- Each sent message takes eight bytes besides its data. -/
theorem length_sentBytes (h : AllSent c calls) :
    (sentBytes c calls).length = (calls.map fun s => s.msg.len.toNat + 2 * headLen).sum := by
  rw [sentBytes, List.length_flatten, List.map_map]
  congr 1
  refine List.map_congr_left fun s hs => ?_
  have hlegal := h.legal s hs
  rw [Function.comp_apply, BaseConnect.sendData_returned (h.returned s hs), List.length_append,
    SendCall.length_netLen, SendCall.length_payload (by omega) hlegal.2]
  omega

/-- Messages that are received exactly take four bytes besides their data. -/
theorem length_of_receivedExactly {msg : MsgPack} {bytes : List UInt8} {messages : List Message}
    (h : ReceivedExactly rd msg bytes messages) :
    bytes.length = (messages.map fun m => headLen + m.len.toNat).sum := by
  obtain ⟨msgs, r, hcall, rfl, hr⟩ := h
  have htotal : (callbackHead (.fresh msg) bytes).total = bytes.length := Nat.zero_add _
  rw [← htotal, readLoop_conserves hcall, hr, List.map_map]
  rfl

/-- No non-empty sequence of sent messages is received exactly. -/
theorem not_receivedExactly_of_sent (rd : BuffereventRead) (msg : MsgPack)
    (h : AllSent c calls) (hne : calls ≠ []) :
    ¬ ReceivedExactly rd msg (sentBytes c calls) (calls.map fun s => s.msg.message) := by
  intro hrec
  have hlen := length_of_receivedExactly hrec
  rw [length_sentBytes h, List.map_map] at hlen
  have hlt : (calls.map fun s => headLen + s.msg.len.toNat).sum <
      (calls.map fun s => s.msg.len.toNat + 2 * headLen).sum := by
    refine List.sum_lt_sum_of_ne_nil hne _ _ fun s _ => ?_
    have := headLen_pos
    omega
  exact absurd hlen hlt.ne'

/-- A connected object for the two closed statements below. -/
def connected : BaseConnect :=
  { BaseConnect.construct default with bufE := some 0, fd := 5, isConnect := true }

/-- A call with a one-byte message that meets no obstacle. -/
def sendByte (b : UInt8) : SendCall where
  msg := .ofBody [b] (show headLen + 1 ≤ sizeofMsgPack by decide)
  behind _ := 0
  outputLen := some 0
  writeHead := true
  writeData := true

/-- The call announces one byte. -/
theorem len_sendByte (b : UInt8) : (sendByte b).msg.len = 1 :=
  MsgPack.len_setLen _ (show InInt32 1 by decide)

/-- Both calls are accepted. -/
theorem connected_allSent (a b : UInt8) : AllSent connected [sendByte a, sendByte b] where
  legal s hs := by
    rcases List.mem_pair.mp hs with rfl | rfl <;> rw [len_sendByte] <;> decide
  returned s hs := by
    rcases List.mem_pair.mp hs with rfl | rfl <;> rfl

/-- The statement applies to two one-byte messages. -/
theorem two_bytes_not_received :
    ¬ ReceivedExactly .full default (sentBytes connected [sendByte 7, sendByte 8])
      ([sendByte 7, sendByte 8].map fun s => s.msg.message) :=
  not_receivedExactly_of_sent .full default (connected_allSent 7 8) (List.cons_ne_nil _ _)

/-- Two one-byte messages arrive as three, with four bytes left over. -/
theorem two_bytes_arrive_as_three :
    AllSent connected [sendByte 7, sendByte 8] ∧
    ∃ msgs r, connReadCallback .full (.fresh default)
        (sentBytes connected [sendByte 7, sendByte 8]) = (msgs, .returned r []) ∧
      msgs.map MsgPack.message = [⟨1, [7]⟩, ⟨0, []⟩, ⟨1, [8]⟩] ∧ r.msgWriteLen = 4 := by
  have hsent : sentBytes connected [sendByte 7, sendByte 8] =
      [0, 0, 0, 1, 7, 0, 0, 0, 0, 0, 0, 0, 1, 8, 0, 0, 0, 0] := by decide +kernel
  have hparse : wire.parse ([] ++ [0, 0, 0, 1, 7, 0, 0, 0, 0, 0, 0, 0, 1, 8, 0, 0, 0, 0]) =
      ([[7], [], [8]], .waiting [0, 0, 0, 0]) := by decide +kernel
  have hreal := connReadCallback_realises (r := .fresh default)
    (B := [0, 0, 0, 1, 7, 0, 0, 0, 0, 0, 0, 0, 1, 8, 0, 0, 0, 0]) BuffereventRead.full_exact
    (.nil rfl) (Nat.zero_le _) (by decide)
  obtain ⟨r, hend, hr⟩ := hreal.returned (congrArg Prod.snd hparse)
  rw [hsent]
  refine ⟨connected_allSent 7 8, _, r, hend, hreal.1.trans ?_, hr.count⟩
  rw [hparse]
  rfl

end ServerCom.Connector
