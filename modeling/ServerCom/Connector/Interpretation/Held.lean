import ServerCom.Connector.Native.ReadLoop

/-!
# What a reader holds

Only the first `m_msg_write_len` bytes of `m_msg` are ever looked at, so loop heads
that hold the same bytes run alike whatever else the object contains. The bytes
that were buffered are conserved: each is in a delivered message, is held, or is
left to libevent.
-/

namespace ServerCom.Connector

variable {rd : BuffereventRead} {s s' : LoopState} {r r' r₁ r₂ : Reader} {need : Int} {ret : Nat}

/-- The written bytes of the unfinished frame. -/
def Reader.held (r : Reader) : List UInt8 := r.msg.bytes.take r.msgWriteLen

@[simp] theorem Reader.length_held (r : Reader) : r.held.length = r.msgWriteLen := by
  rw [held, List.length_take, r.msg.size, Nat.min_eq_left r.bound]

/-- A fresh reader holds nothing. -/
theorem Reader.held_fresh (msg : MsgPack) : (fresh msg).held = [] := rfl

/-- Nothing is held exactly when no message is waited for. -/
theorem Reader.held_eq_nil_iff : r.held = [] ↔ r.isWaitCompleteMsg = false := by
  rw [← List.length_eq_zero_iff, length_held, isWaitCompleteMsg, bne_eq_false_iff_eq]

/-- The bytes that are held tell how many there are. -/
theorem Reader.msgWriteLen_eq_of_held (h : r₁.held = r₂.held) :
    r₁.msgWriteLen = r₂.msgWriteLen := by
  rw [← length_held, h, length_held]

/-- A complete length field is among the held bytes. -/
theorem Reader.len_eq (hw : headLen ≤ r.msgWriteLen) :
    r.msg.len = intOfBytes (r.held.take headLen) := by
  rw [MsgPack.len, held, List.take_take, Nat.min_eq_left hw]

/-- The held body bytes are the front of the data array. -/
theorem Reader.drop_held (r : Reader) :
    r.held.drop headLen = r.msg.data.take (r.msgWriteLen - headLen) := by
  rw [held, MsgPack.data, List.drop_take]

/-- The conversion swaps the length field and leaves the rest. -/
theorem Reader.held_convertLen (hw : headLen ≤ r.msgWriteLen) :
    r.convertLen.held =
      bytesOfInt (swap32 (intOfBytes (r.held.take headLen))) ++ r.held.drop headLen := by
  have hc : r.convertLen.msgWriteLen = r.msgWriteLen := rfl
  have hb : r.convertLen.msg.bytes = bytesOfInt (swap32 r.msg.len) ++ r.msg.data :=
    MsgPack.bytes_setLen ..
  have hl : (bytesOfInt (swap32 r.msg.len)).length = headLen := length_bytesOfInt _
  rw [drop_held, ← len_eq hw, held, hc, hb, List.take_append, hl,
    List.take_of_length_le (hl.trans_le hw)]

/-- No more is read than there is. -/
theorem fill_done_le (h : fill rd s need = .done s' ret) : ret ≤ s.input.length := by
  simp only [fill] at h
  split at h
  · split at h
    · cases h
      exact rd.le_length ..
    · cases h
  · cases h

/-- A completed read appends to what is held. -/
theorem fill_done_held (h : fill rd s need = .done s' ret) :
    s'.reader.held = s.reader.held ++ s.input.take ret := by
  obtain ⟨-, -, -, hc, hb, hm⟩ := fill_done h
  have hret : ret = (s.input.take ret).length :=
    (List.length_take_of_le (fill_done_le h)).symm
  rw [Reader.held, Reader.held, hc, hm]
  clear h hm hc
  generalize s.input.take ret = bs at *
  subst hret
  exact MsgPack.take_write _ hb

/-- A pass that delivers has written exactly the announced body. -/
theorem readBody_recv_len (h : readBody rd s = .recv s') (hw : headLen ≤ s.reader.msgWriteLen) :
    s'.reader.msg.len + headLen = s'.reader.msgWriteLen := by
  obtain ⟨ret, hf, hle, hneed⟩ := readBody_recv h
  obtain ⟨-, -, -, hc, hb, hm⟩ := fill_done hf
  have hlen : s'.reader.msg.len = s.reader.msg.len := by rw [hm, MsgPack.len_write _ _ hw]
  have hbound := s'.reader.bound
  have hrange := s.reader.msg.len_inInt32
  have h₁ := int32_emod (int32 (s.reader.msg.len + headLen) - s.reader.msgWriteLen)
  have h₂ := int32_emod (s.reader.msg.len + headLen)
  rw [Reader.needToRead] at hneed
  rw [hneed] at h₁
  rw [hlen, hc]
  rw [hc] at hbound
  clear hneed hlen hm hf
  generalize s.reader.msg.len = L at *
  generalize int32 (L + headLen) = S at *
  simp only [InInt32, sizeofMsgPack, maxMsgDataLen, headLen] at *
  omega

/-- What is delivered is what is held: the body behind its length. -/
theorem readStep_recv_message (h : readStep rd s = .recv s') :
    headLen ≤ s'.reader.msgWriteLen ∧
      s'.reader.msg.message =
        ⟨(s'.reader.msgWriteLen - headLen : Nat), s'.reader.held.drop headLen⟩ := by
  have hw := (readStep_recv h).1
  rw [readStep_of_le hw] at h
  have hlen := readBody_recv_len h hw
  obtain ⟨ret, hf, -⟩ := readBody_recv h
  obtain ⟨-, -, -, hc, -⟩ := fill_done hf
  have hw' : headLen ≤ s'.reader.msgWriteLen := by
    rw [hc]
    exact hw.trans (Nat.le_add_right ..)
  have hmsg : s'.reader.msg.len = ((s'.reader.msgWriteLen - headLen : Nat) : Int) := by omega
  refine ⟨hw', ?_⟩
  rw [MsgPack.message, Reader.drop_held, hmsg, Int.toNat_natCast]

/-! ## Loop heads that hold the same bytes -/

/-- The same bytes are held and the same input is ahead. -/
structure Alike (s₁ s₂ : LoopState) : Prop where
  /-- The written prefixes agree. -/
  held : s₁.reader.held = s₂.reader.held
  /-- The same bytes are buffered. -/
  input : s₁.input = s₂.input
  /-- The counters agree. -/
  inputLen : s₁.inputLen = s₂.inputLen

/-- Passes with like outcomes. -/
inductive Pass.Alike : Pass → Pass → Prop where
  /-- Both continue. -/
  | next {s₁ s₂ : LoopState} : Connector.Alike s₁ s₂ → Alike (.next s₁) (.next s₂)
  /-- Both deliver. -/
  | recv {s₁ s₂ : LoopState} : Connector.Alike s₁ s₂ → Alike (.recv s₁) (.recv s₂)
  /-- Both close the connection. -/
  | disConnect {r₁ r₂ : Reader} : r₁.held = r₂.held → Alike (.disConnect r₁) (.disConnect r₂)
  /-- Both leave `m_msg`. -/
  | overrun : Alike .overrun .overrun

/-- Reads with like outcomes. -/
inductive Fill.Alike : Fill → Fill → Prop where
  /-- Both are complete. -/
  | done {s₁ s₂ : LoopState} {ret : Nat} :
      Connector.Alike s₁ s₂ → Alike (.done s₁ ret) (.done s₂ ret)
  /-- Both are short. -/
  | short {r₁ r₂ : Reader} : r₁.held = r₂.held → Alike (.short r₁) (.short r₂)
  /-- Both leave `m_msg`. -/
  | overrun : Alike .overrun .overrun

variable {s₁ s₂ : LoopState}

/-- Alike states have read as much of their message. -/
theorem Alike.msgWriteLen (h : Connector.Alike s₁ s₂) :
    s₁.reader.msgWriteLen = s₂.reader.msgWriteLen := Reader.msgWriteLen_eq_of_held h.held

/-- A read leaves `m_msg`, is short, or is complete, by the counters alone. -/
theorem fill_cases (rd : BuffereventRead) (s : LoopState) (need : Int) {writeLen : Nat}
    (hw : (min s.inputLen need).toNat = writeLen) :
    (sizeofMsgPack < s.reader.msgWriteLen + writeLen ∧ fill rd s need = .overrun) ∨
      s.reader.msgWriteLen + writeLen ≤ sizeofMsgPack ∧
        ((rd.count s.input writeLen ≠ writeLen ∧
            ∃ r, fill rd s need = .short r ∧ r.held = s.reader.held) ∨
          (rd.count s.input writeLen = writeLen ∧
            ∃ s', fill rd s need = .done s' (rd.count s.input writeLen))) := by
  subst hw
  simp only [fill]
  split
  · rename_i hfit
    refine .inr ⟨hfit, ?_⟩
    split
    · rename_i he
      exact .inr ⟨he, _, rfl⟩
    · rename_i he
      refine .inl ⟨he, _, rfl, ?_⟩
      have hle := rd.le_size s.input (min s.inputLen need).toNat
      exact MsgPack.take_write_of_le _ (by rw [List.length_take]; omega) le_rfl
  · rename_i hfit
    exact .inl ⟨not_le.mp hfit, rfl⟩

/-- Reads into objects that hold the same bytes go the same way. -/
theorem Alike.fill (rd : BuffereventRead) (h : Connector.Alike s₁ s₂) (need : Int) :
    Fill.Alike (Connector.fill rd s₁ need) (Connector.fill rd s₂ need) := by
  have h₁ := fill_cases rd s₁ need rfl
  have h₂ := fill_cases rd s₂ need rfl
  rw [← h.msgWriteLen, ← h.input, ← h.inputLen] at h₂
  rcases h₁ with ⟨hb₁, he₁⟩ | ⟨hb₁, ⟨hc₁, r₁, he₁, hr₁⟩ | ⟨hc₁, s₁', he₁⟩⟩ <;>
    rcases h₂ with ⟨hb₂, he₂⟩ | ⟨hb₂, ⟨hc₂, r₂, he₂, hr₂⟩ | ⟨hc₂, s₂', he₂⟩⟩
  · rw [he₁, he₂]
    exact .overrun
  · omega
  · omega
  · omega
  · rw [he₁, he₂]
    exact .short (by rw [hr₁, hr₂, h.held])
  · exact absurd hc₂ hc₁
  · omega
  · exact absurd hc₁ hc₂
  · rw [he₁, he₂]
    obtain ⟨-, hi₁, hl₁, -⟩ := fill_done he₁
    obtain ⟨-, hi₂, hl₂, -⟩ := fill_done he₂
    exact .done ⟨by rw [fill_done_held he₁, fill_done_held he₂, h.held, h.input],
      by rw [hi₁, hi₂, h.input], by rw [hl₁, hl₂, h.inputLen]⟩

/-- A pass in the header keeps states alike. -/
theorem Alike.readHead (rd : BuffereventRead) (h : Connector.Alike s₁ s₂) :
    Pass.Alike (Connector.readHead rd s₁) (Connector.readHead rd s₂) := by
  have hf := h.fill rd (headLen - s₁.reader.msgWriteLen)
  rw [Connector.readHead, Connector.readHead, ← h.msgWriteLen]
  generalize Connector.fill rd s₁ _ = f₁ at hf ⊢
  generalize Connector.fill rd s₂ _ = f₂ at hf ⊢
  cases hf with
  | done h => exact .next h
  | short h => exact .disConnect h
  | overrun => exact .overrun

/-- The conversion keeps states alike. -/
theorem Alike.convertLen (h : Connector.Alike s₁ s₂) (hw : headLen ≤ s₁.reader.msgWriteLen) :
    Connector.Alike s₁.convertLen s₂.convertLen where
  held := by
    have hw' : headLen ≤ s₂.reader.msgWriteLen := h.msgWriteLen ▸ hw
    change s₁.reader.convertLen.held = s₂.reader.convertLen.held
    rw [Reader.held_convertLen hw, Reader.held_convertLen hw', h.held]
  input := h.input
  inputLen := h.inputLen

/-- A pass in the body keeps states alike. -/
theorem Alike.readBody (rd : BuffereventRead) (h : Connector.Alike s₁ s₂)
    (hw : headLen ≤ s₁.reader.msgWriteLen) :
    Pass.Alike (Connector.readBody rd s₁) (Connector.readBody rd s₂) := by
  have hlen : s₁.reader.msg.len = s₂.reader.msg.len := by
    rw [Reader.len_eq hw, Reader.len_eq (h.msgWriteLen ▸ hw), h.held]
  have hneed : s₁.reader.needToRead = s₂.reader.needToRead := by
    rw [Reader.needToRead, Reader.needToRead, hlen, h.msgWriteLen]
  have hf := h.fill rd s₁.reader.needToRead
  rw [Connector.readBody, Connector.readBody, ← hlen, ← hneed]
  split_ifs
  · exact .disConnect h.held
  · exact .disConnect h.held
  · generalize Connector.fill rd s₁ _ = f₁ at hf ⊢
    generalize Connector.fill rd s₂ _ = f₂ at hf ⊢
    cases hf with
    | done h =>
      simp only
      split_ifs
      · exact .recv h
      · exact .next h
    | short h => exact .disConnect h
    | overrun => exact .overrun

/-- One pass. -/
theorem Alike.readStep (rd : BuffereventRead) (h : Connector.Alike s₁ s₂) :
    Pass.Alike (Connector.readStep rd s₁) (Connector.readStep rd s₂) := by
  rcases Nat.lt_or_ge s₁.reader.msgWriteLen headLen with hw | hw
  · rw [readStep_of_lt hw, readStep_of_lt (h.msgWriteLen ▸ hw)]
    exact h.readHead rd
  · rw [readStep_of_le hw, readStep_of_le (h.msgWriteLen ▸ hw)]
    exact (h.convertLen hw).readBody rd hw

/-- Callback ends that leave the same behind. -/
inductive ReadEnd.Alike : ReadEnd → ReadEnd → Prop where
  /-- Both return. -/
  | returned {r₁ r₂ : Reader} {left : List UInt8} :
      r₁.held = r₂.held → Alike (.returned r₁ left) (.returned r₂ left)
  /-- Both close the connection. -/
  | disConnect {r₁ r₂ : Reader} : r₁.held = r₂.held → Alike (.disConnect r₁) (.disConnect r₂)
  /-- Both leave `m_msg`. -/
  | overrun : Alike .overrun .overrun

/-- Runs of the reader that deliver the same messages and end alike. -/
def RunsAlike (p₁ p₂ : List MsgPack × ReadEnd) : Prop :=
  p₁.1.map MsgPack.message = p₂.1.map MsgPack.message ∧ p₁.2.Alike p₂.2

/-- The whole loop. -/
theorem Alike.readLoop (rd : BuffereventRead) (h : Connector.Alike s₁ s₂) :
    RunsAlike (Connector.readLoop rd s₁) (Connector.readLoop rd s₂) := by
  induction s₁ using readLoop.induct rd generalizing s₂ with
  | case1 s₁ hp s₁' hs ih =>
    have hstep := h.readStep rd
    rw [hs] at hstep
    generalize hs₂ : Connector.readStep rd s₂ = p₂ at hstep
    cases hstep with
    | next h' =>
      rw [readLoop_next hp hs, readLoop_next (h.inputLen ▸ hp) hs₂]
      exact ih h'
  | case2 s₁ hp s₁' hs ih =>
    have hstep := h.readStep rd
    rw [hs] at hstep
    generalize hs₂ : Connector.readStep rd s₂ = p₂ at hstep
    cases hstep with
    | @recv _ s₂' h' =>
      have hclear : Connector.Alike s₁'.clear s₂'.clear := ⟨rfl, h'.input, h'.inputLen⟩
      obtain ⟨hms, hend⟩ := ih hclear
      have hmsg : s₁'.reader.msg.message = s₂'.reader.msg.message := by
        rw [(readStep_recv_message hs).2, (readStep_recv_message hs₂).2, h'.held, h'.msgWriteLen]
      rw [readLoop_recv hp hs, readLoop_recv (h.inputLen ▸ hp) hs₂]
      exact ⟨congrArg₂ List.cons hmsg hms, hend⟩
  | case3 s₁ hp r hs =>
    have hstep := h.readStep rd
    rw [hs] at hstep
    generalize hs₂ : Connector.readStep rd s₂ = p₂ at hstep
    cases hstep with
    | disConnect h' =>
      rw [readLoop_disConnect hp hs, readLoop_disConnect (h.inputLen ▸ hp) hs₂]
      exact ⟨rfl, .disConnect h'⟩
  | case4 s₁ hp hs =>
    have hstep := h.readStep rd
    rw [hs] at hstep
    generalize hs₂ : Connector.readStep rd s₂ = p₂ at hstep
    cases hstep with
    | overrun =>
      rw [readLoop_overrun hp hs, readLoop_overrun (h.inputLen ▸ hp) hs₂]
      exact ⟨rfl, .overrun⟩
  | case5 s₁ hp =>
    rw [readLoop_done (not_lt.mp hp), readLoop_done (h.inputLen ▸ not_lt.mp hp), h.input]
    exact ⟨rfl, .returned h.held⟩

/-- A whole callback. -/
theorem connReadCallback_alike (rd : BuffereventRead) (h : r₁.held = r₂.held)
    (input : List UInt8) :
    RunsAlike (connReadCallback rd r₁ input) (connReadCallback rd r₂ input) :=
  Alike.readLoop rd ⟨h, rfl, rfl⟩

/-! ## Conservation -/

/-- The bytes a delivered message took from the stream. -/
def frameSize (m : MsgPack) : Nat := headLen + m.len.toNat

/-- The bytes a loop head accounts for: held and still buffered. -/
def LoopState.total (s : LoopState) : Nat := s.reader.msgWriteLen + s.input.length

/-- A read moves bytes from the input into `m_msg` and loses none. -/
theorem fill_done_total (h : fill rd s need = .done s' ret) : s'.total = s.total := by
  obtain ⟨-, hi, -, hc, -⟩ := fill_done h
  have hle := fill_done_le h
  rw [LoopState.total, LoopState.total, hc, hi, List.length_drop]
  omega

/-- A pass without a message loses no byte. -/
theorem readStep_next_total (h : readStep rd s = .next s') : s'.total = s.total := by
  rcases Nat.lt_or_ge s.reader.msgWriteLen headLen with hw | hw
  · rw [readStep_of_lt hw] at h
    exact fill_done_total (readHead_next h)
  · rw [readStep_of_le hw] at h
    obtain ⟨ret, hf, -⟩ := readBody_next h
    exact fill_done_total (s := s.convertLen) hf

/-- A delivered message and what is still ahead make up what was there before. -/
theorem readStep_recv_total (h : readStep rd s = .recv s') :
    frameSize s'.reader.msg + s'.clear.total = s.total := by
  have hw := (readStep_recv h).1
  have hmsg := (readStep_recv_message h).1
  rw [readStep_of_le hw] at h
  have hlen := readBody_recv_len h hw
  obtain ⟨ret, hf, -⟩ := readBody_recv h
  have htotal : s'.total = s.total := fill_done_total (s := s.convertLen) hf
  have hclear : s'.clear.total = s'.input.length := Nat.zero_add _
  rw [LoopState.total] at htotal
  rw [frameSize, hclear, ← htotal]
  omega

/-- A callback that returns has delivered, holds, or has left every byte. -/
theorem readLoop_conserves {msgs : List MsgPack} {left : List UInt8}
    (h : readLoop rd s = (msgs, .returned r left)) :
    s.total = (msgs.map frameSize).sum + r.msgWriteLen + left.length := by
  induction s using readLoop.induct rd generalizing msgs with
  | case1 s hp s' hs ih =>
    rw [readLoop_next hp hs] at h
    rw [← readStep_next_total hs, ih h]
  | case2 s hp s' hs ih =>
    rw [readLoop_recv hp hs] at h
    obtain ⟨rfl, hend⟩ := Prod.mk.inj h
    have hpair : readLoop rd s'.clear = ((readLoop rd s'.clear).1, .returned r left) :=
      Prod.ext rfl hend
    have hrest := ih hpair
    have hstep := readStep_recv_total hs
    rw [List.map_cons, List.sum_cons]
    omega
  | case3 s hp r hs =>
    rw [readLoop_disConnect hp hs] at h
    cases h
  | case4 s hp hs =>
    rw [readLoop_overrun hp hs] at h
    cases h
  | case5 s hp =>
    rw [readLoop_done (not_lt.mp hp)] at h
    cases h
    simp [LoopState.total]

end ServerCom.Connector
