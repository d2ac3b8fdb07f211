import ServerCom.Connector.Native.Reader

/-!
# The read loop and a connection's input

Each pass either consumes input or, for an empty body, leaves the body state, so
the loop is a well-founded recursion. `receive` presents the chunks of a
connection one callback at a time and stops at the first callback that does not
return to libevent with the connection open.
-/

namespace ServerCom.Connector

variable {rd : BuffereventRead} {s s' : LoopState} {need : Int} {ret : Nat}

/-- Everything a completed read establishes. -/
theorem fill_done (h : fill rd s need = .done s' ret) :
    ret = (min s.inputLen need).toNat ∧
    s'.input = s.input.drop ret ∧
    s'.inputLen = s.inputLen - ret ∧
    s'.reader.msgWriteLen = s.reader.msgWriteLen + ret ∧
    ∃ hb : s.reader.msgWriteLen + (s.input.take ret).length ≤ sizeofMsgPack,
      s'.reader.msg = s.reader.msg.write s.reader.msgWriteLen (s.input.take ret) hb := by
  simp only [fill] at h
  split at h
  · split at h
    · rename_i hb he
      cases h
      exact ⟨he, rfl, rfl, rfl, by simp only [List.length_take]; omega, rfl⟩
    · cases h
  · cases h

/-- A pass that goes on in the header has read what there was of it. -/
theorem readHead_next (h : readHead rd s = .next s') :
    fill rd s (headLen - s.reader.msgWriteLen) = .done s' (min s.inputLen
      (headLen - s.reader.msgWriteLen)).toNat := by
  unfold readHead at h
  split at h
  · rename_i hf
    cases h
    rw [hf, (fill_done hf).1]
  · cases h
  · cases h

/-- A body pass that continues has read less than what was missing. -/
theorem readBody_next (h : readBody rd s = .next s') :
    ∃ ret, fill rd s s.reader.needToRead = .done s' ret ∧ s.reader.msg.len ≤ maxMsgDataLen ∧
      0 ≤ s.reader.needToRead ∧ s.reader.needToRead ≠ ret := by
  unfold readBody at h
  split at h
  · cases h
  rename_i hle
  split at h
  · cases h
  rename_i hn
  split at h
  · rename_i hf
    split at h
    · cases h
    · rename_i hne
      cases h
      exact ⟨_, hf, Int.not_lt.mp hle, Int.not_lt.mp hn, hne⟩
  · cases h
  · cases h

/-- A body pass that delivers has read all that was missing. -/
theorem readBody_recv (h : readBody rd s = .recv s') :
    ∃ ret, fill rd s s.reader.needToRead = .done s' ret ∧ s.reader.msg.len ≤ maxMsgDataLen ∧
      s.reader.needToRead = ret := by
  unfold readBody at h
  split at h
  · cases h
  rename_i hle
  split at h
  · cases h
  split at h
  · rename_i hf
    split at h
    · rename_i he
      cases h
      exact ⟨_, hf, Int.not_lt.mp hle, he⟩
    · cases h
  · cases h
  · cases h

/-- A pass that continues has read at least one byte. -/
theorem readStep_next (hp : 0 < s.inputLen) (h : readStep rd s = .next s') :
    s'.inputLen.toNat < s.inputLen.toNat := by
  rcases Nat.lt_or_ge s.reader.msgWriteLen headLen with hw | hw
  · rw [readStep_of_lt hw] at h
    obtain ⟨-, -, hl, -⟩ := fill_done (readHead_next h)
    omega
  · rw [readStep_of_le hw] at h
    obtain ⟨ret, hf, -, hn, hne⟩ := readBody_next h
    obtain ⟨hr, -, hl, -⟩ := fill_done hf
    have hi : s.convertLen.inputLen = s.inputLen := rfl
    generalize s.convertLen.reader.needToRead = need at *
    omega

/-- No message is complete in its header. -/
theorem readHead_ne_recv : readHead rd s ≠ .recv s' := by
  unfold readHead
  split <;> simp

/-- A pass that delivers a message starts in the body state and adds no input. -/
theorem readStep_recv (h : readStep rd s = .recv s') :
    headLen ≤ s.reader.msgWriteLen ∧ s'.inputLen ≤ s.inputLen := by
  rcases Nat.lt_or_ge s.reader.msgWriteLen headLen with hw | hw
  · rw [readStep_of_lt hw] at h
    exact absurd h readHead_ne_recv
  · rw [readStep_of_le hw] at h
    obtain ⟨ret, hf, -⟩ := readBody_recv h
    obtain ⟨-, -, hl, -⟩ := fill_done hf
    exact ⟨hw, hl.trans_le (Int.sub_le_self _ (Int.natCast_nonneg _))⟩

/-- The loop head after `OnRecv` has returned. -/
def LoopState.clear (s : LoopState) : LoopState := { s with reader := s.reader.clear }

@[simp] theorem LoopState.msgWriteLen_clear : s.clear.reader.msgWriteLen = 0 := rfl

/-- `while (input_len > 0)`, with the messages passed to `OnRecv` in order. -/
def readLoop (rd : BuffereventRead) (s : LoopState) : List MsgPack × ReadEnd :=
  if _hp : 0 < s.inputLen then
    match _h : readStep rd s with
    | .next s' => readLoop rd s'
    | .recv s' => (s'.reader.msg :: (readLoop rd s'.clear).1, (readLoop rd s'.clear).2)
    | .disConnect r => ([], .disConnect r)
    | .overrun => ([], .overrun)
  else ([], .returned s.reader s.input)
termination_by (s.inputLen.toNat, s.reader.msgWriteLen)
decreasing_by
  · exact Prod.Lex.left _ _ (readStep_next _hp _h)
  all_goals
    obtain ⟨hw, hl⟩ := readStep_recv _h
    have hc : s'.clear.inputLen.toNat ≤ s.inputLen.toNat := Int.toNat_le_toNat hl
    rcases hc.lt_or_eq with hlt | he
    · exact Prod.Lex.left _ _ hlt
    · rw [he]
      exact Prod.Lex.right _ (Nat.lt_of_lt_of_le headLen_pos hw)

/-- Without input the loop is left. -/
theorem readLoop_done (h : s.inputLen ≤ 0) :
    readLoop rd s = ([], .returned s.reader s.input) := by
  rw [readLoop, dif_neg (by omega)]

/-- The loop goes on behind a pass without a message. -/
theorem readLoop_next (hp : 0 < s.inputLen) (h : readStep rd s = .next s') :
    readLoop rd s = readLoop rd s' := by
  rw [readLoop, dif_pos hp]
  split <;> simp_all

/-- A message is delivered, and the loop goes on with a cleared reader. -/
theorem readLoop_recv (hp : 0 < s.inputLen) (h : readStep rd s = .recv s') :
    readLoop rd s = (s'.reader.msg :: (readLoop rd s'.clear).1, (readLoop rd s'.clear).2) := by
  rw [readLoop, dif_pos hp]
  split <;> simp_all

/-- An illegal length ends the loop. -/
theorem readLoop_disConnect {r : Reader} (hp : 0 < s.inputLen)
    (h : readStep rd s = .disConnect r) : readLoop rd s = ([], .disConnect r) := by
  rw [readLoop, dif_pos hp]
  split <;> simp_all

/-- Behind a read past `m_msg` nothing is defined. -/
theorem readLoop_overrun (hp : 0 < s.inputLen) (h : readStep rd s = .overrun) :
    readLoop rd s = ([], .overrun) := by
  rw [readLoop, dif_pos hp]
  split <;> simp_all

/-- The loop head a callback starts at; `input_len` is the buffered length as an `int`. -/
def callbackHead (r : Reader) (input : List UInt8) : LoopState := ⟨r, input, int32 input.length⟩

/-- An input that an `int` counts is counted. -/
theorem callbackHead_inputLen (r : Reader) {input : List UInt8} (h : input.length < 2 ^ 31) :
    (callbackHead r input).inputLen = input.length := int32_natCast h

/-- `conn_read_callback` on a buffered input. -/
def connReadCallback (rd : BuffereventRead) (r : Reader) (input : List UInt8) :
    List MsgPack × ReadEnd :=
  readLoop rd (callbackHead r input)

/-- The callbacks of one connection: each chunk joins what libevent still buffers. -/
def receive (rd : BuffereventRead) (r : Reader) (buffered : List UInt8) :
    List (List UInt8) → List MsgPack × ReadEnd
  | [] => ([], .returned r buffered)
  | chunk :: chunks =>
    match connReadCallback rd r (buffered ++ chunk) with
    | (msgs, .returned r' left) =>
      (msgs ++ (receive rd r' left chunks).1, (receive rd r' left chunks).2)
    | (msgs, .disConnect r') => (msgs, .disConnect r')
    | (msgs, .overrun) => (msgs, .overrun)

/-- Whether a connection survives its input. -/
inductive Verdict where
  /-- Every callback returned with the connection open. -/
  | kept
  /-- `DisConnect` was called. -/
  | disConnected
  /-- The reader wrote outside `m_msg`. -/
  | overrun
  deriving DecidableEq, Repr

/-- The verdict that a final callback reaches. -/
def ReadEnd.verdict : ReadEnd → Verdict
  | .returned .. => .kept
  | .disConnect _ => .disConnected
  | .overrun => .overrun

/-- What can be seen of a run: the messages in order, and the verdict. -/
def observe (p : List MsgPack × ReadEnd) : List Message × Verdict :=
  (p.1.map MsgPack.message, p.2.verdict)

end ServerCom.Connector
