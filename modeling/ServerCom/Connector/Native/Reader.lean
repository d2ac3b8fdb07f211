import ServerCom.Connector.Native.MsgPack

/-!
# The read callback

`conn_read_callback` is a loop over the bytes libevent has buffered. One pass is
`readStep`: it fills the length field, or converts the length in place and fills
the body. `m_msg` and `m_msg_write_len` survive from one callback to the next,
and the conversion is made on every pass that finds the length field full.
`bufferevent_read` is a parameter that moves at most what was asked for and what
is there. A destination outside `m_msg` has no meaning in C++ and ends the run as
`overrun`.
-/

namespace ServerCom.Connector

/-- The parsing state a `BaseConnect` object keeps between callbacks. -/
@[ext] structure Reader where
  /-- `m_msg`, not initialised by the constructor. -/
  msg : MsgPack
  /-- `m_msg_write_len`. -/
  msgWriteLen : Nat
  /-- The written prefix lies inside `m_msg`. -/
  bound : msgWriteLen ≤ sizeofMsgPack

/-- What the constructor leaves: nothing is written yet, whatever `m_msg` contains. -/
def Reader.fresh (msg : MsgPack) : Reader := ⟨msg, 0, Nat.zero_le _⟩

/-- `bufferevent_read`: how many of the buffered bytes a call moves. -/
structure BuffereventRead where
  /-- The returned count for a buffered input and a destination size. -/
  count : List UInt8 → Nat → Nat
  /-- Never more than the destination holds. -/
  le_size : ∀ input size, count input size ≤ size
  /-- Never more than is buffered. -/
  le_length : ∀ input size, count input size ≤ input.length

/-- A call returns exactly what was asked for when that many bytes are buffered. -/
def BuffereventRead.Exact (rd : BuffereventRead) : Prop :=
  ∀ input size, size ≤ input.length → rd.count input size = size

/-- The read of an ordinary socket buffer. -/
def BuffereventRead.full : BuffereventRead where
  count input size := min size input.length
  le_size _ _ := Nat.min_le_left ..
  le_length _ _ := Nat.min_le_right ..

/-- A read that takes all it can takes what was asked for. -/
theorem BuffereventRead.full_exact : BuffereventRead.full.Exact :=
  fun _ _ h => Nat.min_eq_left h

/-- The locals of the loop beside the object: the buffer of `bev` and `input_len`. -/
structure LoopState where
  /-- The object's parsing state. -/
  reader : Reader
  /-- Bytes still buffered by libevent. -/
  input : List UInt8
  /-- `input_len`. -/
  inputLen : Int

/-- `IsWaitCompleteMsg`. -/
def Reader.isWaitCompleteMsg (r : Reader) : Bool := r.msgWriteLen != 0

/-- What the loop does to `m_msg` once `OnRecv` has returned. -/
def Reader.clear (r : Reader) : Reader where
  msg := r.msg.setLen 0
  msgWriteLen := 0
  bound := Nat.zero_le _

/-- `m_msg.len = htonl(m_msg.len)`. -/
def Reader.convertLen (r : Reader) : Reader :=
  { r with msg := r.msg.setLen (swap32 r.msg.len) }

@[simp] theorem Reader.len_convertLen (r : Reader) :
    r.convertLen.msg.len = swap32 r.msg.len :=
  MsgPack.len_setLen _ (intOfBytes_inInt32 _)

/-- Converting twice restores the object. -/
@[simp] theorem Reader.convertLen_convertLen (r : Reader) : r.convertLen.convertLen = r := by
  have hmsg : r.convertLen.msg.setLen (swap32 r.convertLen.msg.len) = r.msg := by
    rw [Reader.len_convertLen, swap32_swap32 r.msg.len_inInt32]
    exact (MsgPack.setLen_setLen ..).trans (MsgPack.setLen_len _)
  exact Reader.ext hmsg rfl

/-- `need_to_read = m_msg.len + HEAD_LEN - m_msg_write_len`, in `int` arithmetic. -/
def Reader.needToRead (r : Reader) : Int :=
  int32 (int32 (r.msg.len + headLen) - r.msgWriteLen)

/-- `need_to_read` is the missing count when neither operation overflows. -/
theorem Reader.needToRead_eq {r : Reader} {L : Int} (hL : r.msg.len = L) (h : L ≤ maxMsgDataLen)
    (hmin : -2 ^ 31 ≤ L + headLen - r.msgWriteLen) :
    r.needToRead = L + headLen - r.msgWriteLen := by
  have hr := hL ▸ r.msg.len_inInt32
  rw [Reader.needToRead, hL]
  simp only [InInt32, maxMsgDataLen, headLen] at *
  rw [int32_eq_self (show InInt32 (L + (4 : Nat)) by unfold InInt32; omega),
    int32_eq_self (by unfold InInt32; omega)]

/-- Outcome of one `bufferevent_read` into `m_msg`. -/
inductive Fill where
  /-- The requested bytes arrived and both counters advanced. -/
  | done (s : LoopState) (retWriteLen : Nat)
  /-- `ret_write_len != write_len`. -/
  | short (r : Reader)
  /-- The destination range leaves `m_msg`. -/
  | overrun

/-- `write_len = min(input_len, need_to_read)` bytes are read to `write_addr`. -/
def fill (rd : BuffereventRead) (s : LoopState) (needToRead : Int) : Fill :=
  let writeLen := (min s.inputLen needToRead).toNat
  if h : s.reader.msgWriteLen + writeLen ≤ sizeofMsgPack then
    let ret := rd.count s.input writeLen
    have hret : s.reader.msgWriteLen + (s.input.take ret).length ≤ sizeofMsgPack := by
      have := rd.le_size s.input writeLen
      simp only [List.length_take]
      omega
    let msg := s.reader.msg.write s.reader.msgWriteLen (s.input.take ret) hret
    if ret = writeLen then
      .done
        { reader := ⟨msg, s.reader.msgWriteLen + ret, by
            have := rd.le_size s.input writeLen
            omega⟩
          input := s.input.drop ret
          inputLen := s.inputLen - ret }
        ret
    else .short { s.reader with msg := msg }
  else .overrun

/-- Outcome of one pass through the loop body. -/
inductive Pass where
  /-- `continue`. -/
  | next (s : LoopState)
  /-- `OnRecv(m_msg)` is due; `m_msg` is cleared when it returns. -/
  | recv (s : LoopState)
  /-- `DisConnect()` and `return`, leaving this parsing state in the object. -/
  | disConnect (r : Reader)
  /-- A write outside `m_msg`. -/
  | overrun

/-- State 1: the length field is not complete. -/
def readHead (rd : BuffereventRead) (s : LoopState) : Pass :=
  match fill rd s (headLen - s.reader.msgWriteLen) with
  | .done s' _ => .next s'
  | .short r => .disConnect r
  | .overrun => .overrun

/-- State 2, behind the conversion: the length is judged and the body is read. -/
def readBody (rd : BuffereventRead) (s : LoopState) : Pass :=
  if maxMsgDataLen < s.reader.msg.len then .disConnect s.reader
  else if s.reader.needToRead < 0 then .disConnect s.reader
  else
    match fill rd s s.reader.needToRead with
    | .done s' ret => if s.reader.needToRead = ret then .recv s' else .next s'
    | .short r => .disConnect r
    | .overrun => .overrun

/-- The length field is converted in place on every pass through state 2. -/
def LoopState.convertLen (s : LoopState) : LoopState :=
  { s with reader := s.reader.convertLen }

/-- One pass through the body of `while (input_len > 0)`. -/
def readStep (rd : BuffereventRead) (s : LoopState) : Pass :=
  if s.reader.msgWriteLen < headLen then readHead rd s else readBody rd s.convertLen

/-- With part of a header, a pass reads the header. -/
theorem readStep_of_lt {rd : BuffereventRead} {s : LoopState}
    (h : s.reader.msgWriteLen < headLen) : readStep rd s = readHead rd s := if_pos h

/-- With a header, a pass converts the length and reads the body. -/
theorem readStep_of_le {rd : BuffereventRead} {s : LoopState}
    (h : headLen ≤ s.reader.msgWriteLen) : readStep rd s = readBody rd s.convertLen :=
  if_neg (Nat.not_lt.mpr h)

/-- How a callback ends. -/
inductive ReadEnd where
  /-- The loop ended; libevent keeps what was not read. -/
  | returned (r : Reader) (input : List UInt8)
  /-- `DisConnect` was called. -/
  | disConnect (r : Reader)
  /-- A write left `m_msg`. -/
  | overrun

end ServerCom.Connector
