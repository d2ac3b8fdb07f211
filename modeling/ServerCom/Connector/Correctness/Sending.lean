import ServerCom.Connector.Native.Send
import ServerCom.Core.Machine.Guarded

/-!
# All or nothing

A message is sent by two writes. A call that fails before the first of them appends
nothing, and one that meets the limit closes the connection. When the first write succeeds
and the second does not, the length field stays in the output buffer of an open connection,
and every later message stands behind it.
-/

namespace ServerCom.Connector

variable {c : BaseConnect} {s : SendCall}

/-- All checks are passed, and of the two writes only the first one succeeds. -/
structure HalfWritten (c : BaseConnect) (s : SendCall) : Prop where
  /-- `m_is_connect`. -/
  isConnect : c.isConnect = true
  /-- `m_fd` is set. -/
  fd : c.fd ≠ 0
  /-- `m_buf_e` is set. -/
  bufE : c.bufE ≠ none
  /-- With a limit there is an output buffer, and not above it. -/
  limit : c.msbs ≠ 0 → s.outputLen ≠ none ∧ s.outputLen.getD 0 ≤ c.msbs
  /-- The length is written. -/
  writeHead : s.writeHead = true
  /-- The data is not. -/
  writeData : s.writeData = false

/-- What a half-written message returns and leaves. -/
theorem HalfWritten.sendData (h : HalfWritten c s) :
    c.sendData s = { returned := false, appended := s.netLen } := by
  have hout : ¬ (c.msbs ≠ 0 ∧ s.outputLen = none) := fun ho => (h.limit ho.1).1 ho.2
  have hlim : ¬ (c.msbs ≠ 0 ∧ c.msbs < s.outputLen.getD 0) :=
    fun ho => Nat.not_lt.mpr (h.limit ho.1).2 ho.2
  unfold BaseConnect.sendData
  rw [h.isConnect, h.writeHead, h.writeData, if_neg (by decide), if_neg h.fd, if_neg h.bufE,
    if_neg hout, if_neg hlim]
  rfl

/-- Otherwise a call sends the whole message, closes the connection, or appends nothing. -/
theorem sendData_cases (h : ¬ HalfWritten c s) :
    c.sendData s = { returned := true, appended := s.netLen ++ s.payload } ∨
      c.sendData s = { returned := false, disConnected := true } ∨
      c.sendData s = { returned := false } := by
  unfold BaseConnect.sendData
  split_ifs with hconn hfd hbuf hout hlim hhead hdata
  · exact Or.inr (Or.inr rfl)
  · exact Or.inr (Or.inr rfl)
  · exact Or.inr (Or.inr rfl)
  · exact Or.inr (Or.inr rfl)
  · exact Or.inr (Or.inl rfl)
  · exact Or.inr (Or.inr rfl)
  · refine absurd ?_ h
    constructor
    · simpa using hconn
    · exact hfd
    · exact hbuf
    · intro hm
      exact ⟨fun ho => hout ⟨hm, ho⟩, Nat.not_lt.mp fun hl => hlim ⟨hm, hl⟩⟩
    · simpa using hhead
    · simpa using hdata
  · exact Or.inl rfl

/-- A call that fails has closed the connection or appended nothing, exactly when it does
not write one half. -/
theorem sendData_clean_iff (c : BaseConnect) (s : SendCall) :
    ((c.sendData s).returned = false →
      (c.sendData s).disConnected = true ∨ (c.sendData s).appended = []) ↔
      ¬ HalfWritten c s := by
  constructor
  · intro hclean h
    rw [h.sendData] at hclean
    rcases hclean rfl with hdis | happ
    · cases hdis
    · have hlen := congrArg List.length happ
      rw [s.length_netLen] at hlen
      exact headLen_pos.ne' hlen
  · intro h
    rcases sendData_cases h with he | he | he
    · intro hret
      rw [he] at hret
      cases hret
    · intro _
      rw [he]
      exact Or.inl rfl
    · intro _
      rw [he]
      exact Or.inr rfl

/-! ## The stream the peer sees -/

/-- A connection on which messages are sent, and what the peer can know of it. -/
structure Sending where
  /-- The object. -/
  connection : Connection
  /-- All bytes that were appended to the output buffer. -/
  stream : List UInt8
  /-- The messages whose calls returned true, each as it is written. -/
  messages : List (List UInt8)

namespace Sending

/-- Nothing is sent yet. -/
def start (c : Connection) : Sending := ⟨c, [], []⟩

/-- One call of `send_data`; above the limit it calls `DisConnect`. -/
def step (t : Sending) (s : SendCall) : Sending :=
  let sent := t.connection.sendData s
  { connection := if sent.disConnected then t.connection.disConnect else t.connection
    stream := t.stream ++ sent.appended
    messages := if sent.returned then t.messages ++ [s.netLen ++ s.payload] else t.messages }

/-- The stream consists of whole messages, so the next one starts behind a whole message. -/
def Whole (t : Sending) : Prop := t.stream = t.messages.flatten

/-- The stream stays whole exactly when a call does not write one half. -/
theorem whole_step {t : Sending} {s : SendCall} (h : t.Whole) :
    (t.step s).Whole ↔ ¬ HalfWritten t.connection.toBaseConnect s := by
  unfold Whole at h ⊢
  unfold step
  dsimp only
  constructor
  · intro hw hhalf
    rw [hhalf.sendData, if_neg Bool.false_ne_true, h] at hw
    have hnil := List.append_right_eq_self.mp hw
    have hlen := congrArg List.length hnil
    rw [s.length_netLen] at hlen
    exact headLen_pos.ne' hlen
  · intro hhalf
    rcases sendData_cases hhalf with he | he | he
    · rw [he, if_pos rfl, h, List.flatten_append, List.flatten_singleton]
    · rw [he, if_neg Bool.false_ne_true, h, List.append_nil]
    · rw [he, if_neg Bool.false_ne_true, h, List.append_nil]

end Sending

/-- A failed call closes the connection or leaves the output as it was, exactly when it does
not write one half; and in a run of calls every message starts behind whole messages exactly
when no call does. -/
theorem sendData_allOrNothing_iff (c : Connection) (calls : List SendCall) :
    (∀ (b : BaseConnect) (s : SendCall),
      ((b.sendData s).returned = false →
        (b.sendData s).disConnected = true ∨ (b.sendData s).appended = []) ↔
        ¬ HalfWritten b s) ∧
    ((∀ t ∈ calls.scanl Sending.step (Sending.start c), t.Whole) ↔
      Machine.Along Sending.step
        (fun t s => ¬ HalfWritten t.connection.toBaseConnect s) (Sending.start c) calls) := by
  refine ⟨sendData_clean_iff, ?_⟩
  have hstart : (Sending.start c).Whole := rfl
  exact Machine.forall_scanl_iff_along (fun t s ht => Sending.whole_step ht) hstart calls

/-- An accepted connection. -/
def openConnect : BaseConnect :=
  { BaseConnect.construct default with bufE := some 0, fd := 5, isConnect := true }

/-- When the second write fails, the length field of an empty message is left behind. -/
theorem sendData_half_written :
    ¬ ∀ (c : BaseConnect) (s : SendCall), (c.sendData s).returned = false →
      (c.sendData s).disConnected = true ∨ (c.sendData s).appended = [] := by
  intro hclean
  refine (sendData_clean_iff openConnect ⟨default, fun _ => 0, some 0, true, false⟩).mp
    (hclean _ _) ?_
  exact ⟨rfl, by decide, by decide, fun _ => ⟨by decide, by decide⟩, rfl, rfl⟩

end ServerCom.Connector
