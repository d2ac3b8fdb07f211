import Mathlib.Logic.Relation
import ServerCom.Connector.Native.ReadLoop

/-!
# Loop heads and their invariant

`LoopStep` relates successive heads of the read loop and `callbackHeads` lists the
heads a connection's callbacks start at. A body pass that does not deliver uses up
the input, so a head inside a body is the head of a callback. There the length
field is a legal length behind which more is missing, whatever `bufferevent_read`
returned so far.
-/

namespace ServerCom.Connector

variable {rd : BuffereventRead} {s s' : LoopState} {r r' : Reader}

/-- One pass leads from a loop head to the next one. -/
inductive LoopStep (rd : BuffereventRead) : LoopState → LoopState → Prop where
  /-- `continue`. -/
  | next {s s' : LoopState} : 0 < s.inputLen → readStep rd s = .next s' → LoopStep rd s s'
  /-- `OnRecv` returned. -/
  | recv {s s' : LoopState} : 0 < s.inputLen → readStep rd s = .recv s' → LoopStep rd s s'.clear

/-- Loop heads that follow within one callback. -/
abbrev Passes (rd : BuffereventRead) : LoopState → LoopState → Prop :=
  Relation.ReflTransGen (LoopStep rd)

/-- A callback that returns has reached a head without input. -/
theorem readLoop_returned {msgs : List MsgPack} {left : List UInt8}
    (h : readLoop rd s = (msgs, .returned r left)) :
    ∃ s', Passes rd s s' ∧ s'.reader = r ∧ s'.input = left := by
  induction s using readLoop.induct rd generalizing msgs with
  | case1 s hp s' hs ih =>
    rw [readLoop_next hp hs] at h
    obtain ⟨t, ht, hr⟩ := ih h
    exact ⟨t, .head (.next hp hs) ht, hr⟩
  | case2 s hp s' hs ih =>
    rw [readLoop_recv hp hs] at h
    obtain ⟨t, ht, hr⟩ := ih (Prod.ext rfl (Prod.mk.inj h).2)
    exact ⟨t, .head (.recv hp hs) ht, hr⟩
  | case3 s hp r hs =>
    rw [readLoop_disConnect hp hs] at h
    cases h
  | case4 s hp hs =>
    rw [readLoop_overrun hp hs] at h
    cases h
  | case5 s hp =>
    rw [readLoop_done (not_lt.mp hp)] at h
    cases h
    exact ⟨s, .refl, rfl, rfl⟩

/-- The heads the callbacks of a connection start at. -/
def callbackHeads (rd : BuffereventRead) (r : Reader) (buffered : List UInt8) :
    List (List UInt8) → List LoopState
  | [] => []
  | chunk :: chunks =>
    callbackHead r (buffered ++ chunk) ::
      match connReadCallback rd r (buffered ++ chunk) with
      | (_, .returned r' left) => callbackHeads rd r' left chunks
      | _ => []

/-- The next callback starts with what the first one has left. -/
theorem callbackHeads_cons {buffered chunk : List UInt8} {chunks : List (List UInt8)}
    {msgs : List MsgPack} {left : List UInt8}
    (h : connReadCallback rd r (buffered ++ chunk) = (msgs, .returned r' left)) :
    callbackHeads rd r buffered (chunk :: chunks) =
      callbackHead r (buffered ++ chunk) :: callbackHeads rd r' left chunks := by
  rw [callbackHeads, h]

/-- A legal length is known and a part of its body is missing. -/
structure Midway (r : Reader) : Prop where
  /-- An empty body is never incomplete. -/
  pos : 0 < r.msg.len
  /-- Longer bodies are rejected. -/
  legal : r.msg.len ≤ maxMsgDataLen
  /-- Something is missing. -/
  missing : (r.msgWriteLen : Int) < headLen + r.msg.len

/-- The states a callback can leave behind. -/
def Started (r : Reader) : Prop := r.msgWriteLen ≤ headLen ∨ Midway r

/-- A legal body length other than 128 fails a guard when its bytes are swapped. -/
theorem swap32_legal {n : Nat} (hpos : 0 < n) (hmax : n ≤ maxMsgDataLen) (h : n ≠ 128) :
    maxMsgDataLen < swap32 n ∨ -2 ^ 31 + 2 ^ 16 ≤ swap32 n ∧ swap32 n < 0 := by
  simp only [maxMsgDataLen] at hmax ⊢
  rw [swap32_natCast (by omega)]
  rcases Nat.lt_or_ge (n % 256) 128 with hlo | hlo
  · rw [int32_natCast (by omega)]
    omega
  · rw [int32_eq_sub (by omega) (by omega)]
    omega

/-- The swap of 128 is the least `int`. -/
theorem swap32_128 : swap32 128 = -2 ^ 31 := by
  rw [show (128 : Int) = ((128 : Nat) : Int) from rfl, swap32_natCast (by decide)]
  rw [int32_eq_sub (by decide) (by decide)]
  decide

/-- The length every re-entered body but one is judged by. -/
theorem Midway.len_convertLen (h : Midway r) (h128 : r.msg.len ≠ 128) :
    maxMsgDataLen < r.convertLen.msg.len ∨
      -2 ^ 31 + 2 ^ 16 ≤ r.convertLen.msg.len ∧ r.convertLen.msg.len < 0 := by
  obtain ⟨n, hn⟩ := Int.eq_ofNat_of_zero_le h.pos.le
  have hpos := h.pos
  have hmax := h.legal
  rw [Reader.len_convertLen, hn]
  exact swap32_legal (by omega) (by omega) (by omega)

/-- Every started body but one is rejected when it is entered again. -/
theorem Midway.readStep (h : Midway s.reader) (hw : headLen ≤ s.reader.msgWriteLen)
    (h128 : s.reader.msg.len ≠ 128) : readStep rd s = .disConnect s.reader.convertLen := by
  have hb := s.reader.bound
  rw [readStep_of_le hw, readBody]
  rcases h.len_convertLen h128 with hbig | ⟨hlo, hneg⟩
  · rw [if_pos (show _ < s.convertLen.reader.msg.len from hbig)]
    rfl
  · have hneed := Reader.needToRead_eq (r := s.reader.convertLen) rfl (by omega) (by
      change _ ≤ _ - (s.reader.msgWriteLen : Int)
      simp only [sizeofMsgPack, maxMsgDataLen] at hb
      omega)
    have hc : s.reader.convertLen.msgWriteLen = s.reader.msgWriteLen := rfl
    have hlt : s.reader.convertLen.needToRead < 0 := by omega
    rw [if_neg (show ¬ _ < s.convertLen.reader.msg.len from not_lt.mpr (by
        change s.reader.convertLen.msg.len ≤ _
        omega)),
      if_pos (show s.convertLen.reader.needToRead < 0 from hlt)]
    rfl

end ServerCom.Connector
