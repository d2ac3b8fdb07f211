import ServerCom.Connector.Interpretation.Frames
import ServerCom.Connector.Interpretation.Passes

/-!
# Re-entering a body

A callback that finds part of a body already read converts the length field back
to network order. For every legal length but one the result fails a guard and the
connection is closed. Length 128 becomes the least `int`, for which
`need_to_read` wraps around to a huge positive number: the pass stores whatever
arrives, and leaves `m_msg` when more arrives than it can hold.
-/

namespace ServerCom.Connector

variable {rd : BuffereventRead} {r : Reader} {R B : List UInt8} {n : Nat}

/-- The length field a re-entering pass judges. -/
theorem InBody.len_convertLen (h : InBody r R) (hn : wire.bodyLen (R.take headLen) = some n) :
    r.convertLen.msg.len = swap32 n := by
  rw [Reader.len_convertLen, h.len, (wire_bodyLen_some.mp hn).1]

/-- An unfinished body is a started one. -/
theorem InBody.midway (h : InBody r R) (hl : headLen < R.length)
    (hn : wire.bodyLen (R.take headLen) = some n) (hr : R.length < headLen + n) : Midway r := by
  obtain ⟨hlen, hmax⟩ := wire_bodyLen_some.mp hn
  have hL := h.len.trans hlen
  have hc := h.count
  exact ⟨by omega, by omega, by omega⟩

/-- Every re-entered body but one closes the connection. -/
theorem readStep_reentry (h : InBody r R) (hl : headLen < R.length)
    (hn : wire.bodyLen (R.take headLen) = some n) (hr : R.length < headLen + n) (h128 : n ≠ 128) :
    readStep rd (loopHead r B) = .disConnect r.convertLen := by
  have hL := h.len.trans (wire_bodyLen_some.mp hn).1
  exact (h.midway hl hn hr).readStep (s := loopHead r B) (h.full.trans_eq h.count.symm)
    (by simp only [loopHead]; omega)

/-- For length 128 the subtraction wraps around. -/
theorem InBody.needToRead_wraps (h : InBody r R) (hl : headLen < R.length)
    (hn : wire.bodyLen (R.take headLen) = some 128) :
    r.convertLen.needToRead = ((2 ^ 31 + headLen - R.length : Nat) : Int) := by
  have hb := r.bound
  have hc : r.convertLen.msgWriteLen = R.length := h.count
  rw [h.count] at hb
  rw [Reader.needToRead, h.len_convertLen hn, hc, Nat.cast_ofNat, swap32_128]
  simp only [sizeofMsgPack, maxMsgDataLen, headLen] at *
  rw [int32_eq_self (show InInt32 (-2 ^ 31 + (4 : Nat)) by decide),
    int32_eq_add (by omega) (by omega)]
  omega

/-- What is stored behind the header does not touch the length field. -/
theorem Reader.convertLen_store {bs : List UInt8}
    (h : r.msgWriteLen + bs.length ≤ sizeofMsgPack) (hw : headLen ≤ r.msgWriteLen) :
    r.convertLen.store bs h = (r.store bs h).convertLen := by
  have hlen := r.msg.len_write h hw
  refine Reader.ext ?_ rfl
  change (r.msg.setLen (swap32 r.msg.len)).write r.msgWriteLen bs h =
    (r.msg.write r.msgWriteLen bs h).setLen (swap32 (r.msg.write r.msgWriteLen bs h).len)
  rw [hlen, MsgPack.write_setLen _ (swap32_inInt32 _) h hw]

/-- A re-entered 128-byte body stores whatever fits, without delivering. -/
theorem readLoop_reentry_stores (hrd : rd.Exact) (h : InBody r R) (hl : headLen < R.length)
    (hn : wire.bodyLen (R.take headLen) = some 128) (hB : B ≠ [])
    (hfit : R.length + B.length ≤ sizeofMsgPack) :
    ∃ r', readLoop rd (loopHead r B) = ([], .returned r' []) ∧
      InBody r'.convertLen (R ++ B) := by
  have hw : headLen ≤ r.msgWriteLen := h.full.trans_eq h.count.symm
  have hneed : (loopHead r B).convertLen.reader.needToRead =
      ((2 ^ 31 + headLen - R.length : Nat) : Int) := h.needToRead_wraps hl hn
  have hle : ¬ (maxMsgDataLen : Int) < (loopHead r B).convertLen.reader.msg.len := by
    have hlen : (loopHead r B).convertLen.reader.msg.len = swap32 128 := h.len_convertLen hn
    rw [hlen, swap32_128]
    decide
  have hsmall : B.length < 2 ^ 31 + headLen - R.length := by
    simp only [sizeofMsgPack, maxMsgDataLen, headLen] at *
    omega
  have htake : B.take (2 ^ 31 + headLen - R.length) = B := List.take_of_length_le hsmall.le
  have hdrop : B.drop (2 ^ 31 + headLen - R.length) = [] := List.drop_of_length_le hsmall.le
  have hb : r.msgWriteLen + B.length ≤ sizeofMsgPack := h.count ▸ hfit
  have hfill := fill_exact (r := r.convertLen) (B := B) hrd (htake.symm ▸ hb)
  simp only [htake, hdrop] at hfill
  refine ⟨r.convertLen.store B hb, ?_, ?_⟩
  · have hstep : readStep rd (loopHead r B) = .next (loopHead (r.convertLen.store B hb) []) := by
      rw [readStep_of_le hw, readBody, if_neg hle, hneed, if_neg (by omega)]
      rw [show (loopHead r B).convertLen = loopHead r.convertLen B from rfl, hfill]
      exact if_neg (by omega)
    rw [readLoop_next (inputLen_pos hB) hstep, readLoop_nil]
  · rw [Reader.convertLen_store hb hw, Reader.convertLen_convertLen]
    exact h.store hb

/-- A re-entered 128-byte body leaves `m_msg` when more arrives than it can hold. -/
theorem readLoop_reentry_overrun (h : InBody r R) (hl : headLen < R.length)
    (hn : wire.bodyLen (R.take headLen) = some 128) (hB : B ≠ [])
    (hfit : sizeofMsgPack < R.length + B.length) :
    readLoop rd (loopHead r B) = ([], .overrun) := by
  have hw : headLen ≤ r.msgWriteLen := h.full.trans_eq h.count.symm
  have hneed : (loopHead r B).convertLen.reader.needToRead =
      ((2 ^ 31 + headLen - R.length : Nat) : Int) := h.needToRead_wraps hl hn
  have hle : ¬ (maxMsgDataLen : Int) < (loopHead r B).convertLen.reader.msg.len := by
    have hlen : (loopHead r B).convertLen.reader.msg.len = swap32 128 := h.len_convertLen hn
    rw [hlen, swap32_128]
    decide
  have hfill : fill rd (loopHead r B).convertLen ((2 ^ 31 + headLen - R.length : Nat) : Int) =
      .overrun := by
    have hc : (loopHead r B).convertLen.reader.msgWriteLen = R.length := h.count
    have hi : (loopHead r B).convertLen.inputLen = B.length := rfl
    have hb := r.bound
    rw [h.count] at hb
    rw [fill]
    refine dif_neg ?_
    rw [hc, hi]
    simp only [sizeofMsgPack, maxMsgDataLen, headLen] at *
    omega
  apply readLoop_overrun (inputLen_pos hB)
  rw [readStep_of_le hw, readBody, if_neg hle, hneed, if_neg (by omega), hfill]

/-- The visit after that finds the length converted, and closes the connection when
more than the body is held. -/
theorem readLoop_behind_body (h : InBody r.convertLen R)
    (hn : wire.bodyLen (R.take headLen) = some n) (hl : headLen + n < R.length) (hB : B ≠ []) :
    readLoop rd (loopHead r B) = ([], .disConnect r.convertLen) := by
  obtain ⟨hlen, hmax⟩ := wire_bodyLen_some.mp hn
  have hneed := h.needToRead_eq (by omega) (Or.inl (by omega))
  have hle : ¬ (maxMsgDataLen : Int) < (loopHead r B).convertLen.reader.msg.len := by
    refine Int.not_lt.mpr (h.len.trans_le ?_)
    omega
  have hneg : (loopHead r B).convertLen.reader.needToRead < 0 := by
    change r.convertLen.needToRead < 0
    omega
  apply readLoop_disConnect (inputLen_pos hB)
  rw [readStep_of_le (h.full.trans_eq h.count.symm), readBody, if_neg hle, if_pos hneg]
  rfl

/-- While the body has room, that visit continues as if the body had not been cut. -/
theorem InBody.convertible (h : InBody r.convertLen R)
    (hn : wire.bodyLen (R.take headLen) = some n) (hl : R.length ≤ headLen + n) :
    Convertible r R where
  body := h
  header hnone := by rw [hn] at hnone; cases hnone
  room m hm := by
    rw [hn] at hm
    cases hm
    exact hl

end ServerCom.Connector
