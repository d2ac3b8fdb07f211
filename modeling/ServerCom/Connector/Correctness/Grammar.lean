import ServerCom.Connector.Interpretation.Frames
import ServerCom.Connector.Native.Session
import ServerCom.Core.Stream.Grammar

/-!
# The grammar of one callback

A callback that starts between messages reads the longest sequence of frames its input
starts with. What is left either has a rejected header, and the connection is closed,
or is held by the object until the next callback.
-/

namespace ServerCom.Connector

variable {rd : BuffereventRead} {c : Connection} {B R : List UInt8} {bodies : List (List UInt8)}

/-- The length field of a rest is judged when a byte has followed it. -/
def RejectedHeader (R : List UInt8) : Prop :=
  headLen < R.length ∧
    (headerLen (R.take headLen) < 0 ∨ maxMsgDataLen < headerLen (R.take headLen))

/-- What the grammar rejects is a header with a length out of range. -/
theorem wire_rejects : wire.Rejects R ↔ RejectedHeader R := by
  unfold RejectedHeader
  rw [← wire_bodyLen_none]
  rfl

/-- A closed connection has neither a bufferevent nor a descriptor. -/
theorem Connection.disConnect_closed (c : Connection) :
    c.disConnect.isConnect = false ∧ c.disConnect.bufE = none ∧ c.disConnect.fd = 0 := by
  refine ⟨rfl, ?_, rfl⟩
  unfold Connection.disConnect Connection.free Connection.freeBufE
  cases h : c.bufE with
  | none => exact h
  | some b => rfl

/-- A callback between messages delivers the longest sequence of frames of its input, and
closes the connection at a rejected header or holds exactly the rest. -/
theorem connReadCallback_grammar (hrd : rd.Exact) (hc : c.isConnect = true)
    (hr : c.reader.msgWriteLen = 0) (hB : B.length < 2 ^ 31) :
    (∃ bodies R, wire.Longest B bodies R) ∧
    ∀ bodies R, wire.Longest B bodies R →
      (c.receive rd [B]).1.map MsgPack.message = bodies.map frameMessage ∧
      (RejectedHeader R → ∃ c', (c.receive rd [B]).2 = some c' ∧
        c'.isConnect = false ∧ c'.bufE = none ∧ c'.fd = 0) ∧
      (¬ RejectedHeader R → ∃ c', (c.receive rd [B]).2 = some c' ∧
        c'.isConnect = true ∧ c'.bufE = c.bufE ∧ Holds c'.reader R ∧
        (connReadCallback rd c.reader B).2 = .returned c'.reader []) := by
  refine ⟨⟨_, _, wire.longest_parse B⟩, fun bodies R hlong => ?_⟩
  have hreal := connReadCallback_realises hrd (.nil hr) (Nat.zero_le _) hB
  rw [List.nil_append] at hreal
  obtain ⟨msgs, hmsgs⟩ : ∃ msgs, msgs = (connReadCallback rd c.reader B).1 := ⟨_, rfl⟩
  by_cases hR : wire.Rejects R
  · rw [hlong.parse_rejects hR] at hreal
    obtain ⟨hms, r', hend⟩ := hreal
    rw [Connection.receive_singleton_disConnect (Prod.ext hmsgs.symm hend), hmsgs]
    refine ⟨hms, fun _ => ⟨_, rfl, Connection.disConnect_closed _⟩, fun hne => ?_⟩
    exact absurd (wire_rejects.mp hR) hne
  · rw [hlong.parse_waiting hR] at hreal
    obtain ⟨hms, r', hend, hholds⟩ := hreal
    rw [Connection.receive_singleton_returned (Prod.ext hmsgs.symm hend), hmsgs]
    refine ⟨hms, fun hrej => absurd (wire_rejects.mpr hrej) hR, fun _ => ?_⟩
    exact ⟨_, rfl, hc, rfl, hholds, hend⟩

/-- An illegal length behind a frame with an empty body closes a fresh connection. -/
theorem connReadCallback_grammar_closed :
    ∃ c', (Connection.receive .full { Connection.construct default with isConnect := true }
        [[0, 0, 0, 0, 255, 0, 0, 0, 7]]).2 = some c' ∧ c'.isConnect = false := by
  obtain ⟨-, h⟩ := connReadCallback_grammar (B := [0, 0, 0, 0, 255, 0, 0, 0, 7])
    (c := { Connection.construct default with isConnect := true })
    BuffereventRead.full_exact rfl rfl (by decide)
  have hlong : wire.Longest [0, 0, 0, 0, 255, 0, 0, 0, 7] [[]] [255, 0, 0, 0, 7] := by
    have hparse : wire.parse [0, 0, 0, 0, 255, 0, 0, 0, 7] =
        ([[]], .illegal [255, 0, 0, 0, 7]) := by decide +kernel
    have h := wire.longest_parse [0, 0, 0, 0, 255, 0, 0, 0, 7]
    rw [hparse] at h
    exact h
  obtain ⟨-, hrej, -⟩ := h _ _ hlong
  obtain ⟨c', hc', hclosed, -⟩ := hrej (wire_rejects.mp ⟨by decide, by decide +kernel⟩)
  exact ⟨c', hc', hclosed⟩

end ServerCom.Connector
