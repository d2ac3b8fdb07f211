import ServerCom.Connector.Native.ReadLoop
import ServerCom.Core.Stream.Framing

/-!
# A callback parses the stream's frames

The wire format is a framing with a four-byte big-endian signed length between
zero and `MAX_MSG_DATA_LEN`. `Holds` reads the object's parsing state as the
unfinished rest of the stream. A callback that starts with at most a header held
delivers exactly the complete frames of the held bytes followed by its input, and
holds exactly the rest, or disconnects at an illegal header.
-/

namespace ServerCom.Connector

/-- The length a header announces. -/
def headerLen (hd : List UInt8) : Int := intOfBytes hd.reverse

/-- The wire format `conn_read_callback` accepts. -/
def wire : Framing UInt8 where
  headLen := headLen
  headLen_pos := headLen_pos
  bodyLen hd :=
    if 0 ≤ headerLen hd ∧ headerLen hd ≤ maxMsgDataLen then some (headerLen hd).toNat else none

@[simp] theorem wire_headLen : wire.headLen = headLen := rfl

/-- A header announces a length in range. -/
theorem wire_bodyLen_some {hd : List UInt8} {n : Nat} :
    wire.bodyLen hd = some n ↔ headerLen hd = n ∧ n ≤ maxMsgDataLen := by
  simp only [wire, Option.ite_none_right_eq_some, Option.some.injEq]
  omega

/-- A header with any other length is rejected. -/
theorem wire_bodyLen_none {hd : List UInt8} :
    wire.bodyLen hd = none ↔ headerLen hd < 0 ∨ maxMsgDataLen < headerLen hd := by
  simp only [wire, ite_eq_right_iff, reduceCtorEq, imp_false]
  omega

/-- The message a receiver is shown for a frame. -/
def frameMessage (body : List UInt8) : Message := ⟨body.length, body⟩

/-- The object holds these bytes of a frame, its length field converted to host order. -/
structure InBody (r : Reader) (R : List UInt8) : Prop where
  /-- `m_msg_write_len` counts header and body bytes. -/
  count : r.msgWriteLen = R.length
  /-- The header is complete. -/
  full : headLen ≤ R.length
  /-- The length field is the announced length. -/
  len : r.msg.len = headerLen (R.take headLen)
  /-- Body bytes are stored in order. -/
  body : r.msg.data.take (R.length - headLen) = R.drop headLen

/-- The object's parsing state holds exactly these bytes of an unfinished frame. -/
structure Holds (r : Reader) (R : List UInt8) : Prop where
  /-- `m_msg_write_len` counts them. -/
  count : r.msgWriteLen = R.length
  /-- Header bytes are stored as received. -/
  head : R.length ≤ headLen → r.msg.bytes.take R.length = R
  /-- A started body stands behind a converted length. -/
  body : headLen < R.length → InBody r R

/-- A state with nothing written holds nothing. -/
theorem Holds.nil {r : Reader} (h : r.msgWriteLen = 0) : Holds r [] where
  count := h
  head _ := rfl
  body hl := absurd hl (Nat.not_lt_zero _)

/-- A cleared reader holds nothing. -/
theorem Reader.clear_holds (r : Reader) : Holds r.clear [] := .nil rfl

/-- Bytes appended behind the written prefix of `m_msg`. -/
def Reader.store (r : Reader) (bs : List UInt8) (h : r.msgWriteLen + bs.length ≤ sizeofMsgPack) :
    Reader :=
  ⟨r.msg.write r.msgWriteLen bs h, r.msgWriteLen + bs.length, h⟩

variable {rd : BuffereventRead} {r : Reader} {R B bs : List UInt8}

/-- Appended header bytes extend the held header. -/
theorem Holds.store_head (h : Holds r R) (hl : (R ++ bs).length ≤ headLen)
    (hb : r.msgWriteLen + bs.length ≤ sizeofMsgPack) : Holds (r.store bs hb) (R ++ bs) where
  count := by rw [List.length_append, ← h.count]; rfl
  head _ := by
    have hh := h.head (by rw [List.length_append] at hl; omega)
    rw [← h.count] at hh
    have ht := r.msg.take_write hb
    rw [hh] at ht
    rw [List.length_append, ← h.count]
    exact ht
  body hl' := absurd hl (Nat.not_le.mpr hl')

/-- Appended body bytes extend the held body. -/
theorem InBody.store (h : InBody r R) (hb : r.msgWriteLen + bs.length ≤ sizeofMsgPack) :
    InBody (r.store bs hb) (R ++ bs) where
  count := by rw [List.length_append, ← h.count]; rfl
  full := by rw [List.length_append]; have := h.full; omega
  len := by
    have hw : headLen ≤ r.msgWriteLen := h.count ▸ h.full
    rw [List.take_append_of_le_length h.full, ← h.len]
    exact r.msg.len_write hb hw
  body := by
    obtain ⟨k, hk⟩ : ∃ k, r.msgWriteLen = headLen + k :=
      ⟨r.msgWriteLen - headLen, by have := h.count; have := h.full; omega⟩
    have hR : R.length - headLen = k := by have := h.count; omega
    have hb' : headLen + k + bs.length ≤ sizeofMsgPack := hk ▸ hb
    have ht := r.msg.take_data_write hb'
    have hbody := h.body
    rw [hR] at hbody
    rw [hbody] at ht
    have hlen : (R ++ bs).length - headLen = k + bs.length := by
      have := h.full
      rw [List.length_append]
      omega
    rw [hlen, List.drop_append_of_le_length h.full]
    simpa only [Reader.store, hk] using ht

/-- Entering the body state converts a complete header. -/
theorem Holds.convert (h : Holds r R) (hR : R.length = headLen) : InBody r.convertLen R where
  count := h.count
  full := hR.ge
  len := by
    have hlen : r.msg.len = intOfBytes R := by
      rw [MsgPack.len, ← hR, h.head hR.le]
    rw [Reader.len_convertLen, hlen, swap32_intOfBytes hR, headerLen,
      List.take_of_length_le hR.le]
  body := by rw [hR, Nat.sub_self, List.take_zero, List.drop_of_length_le hR.le]

/-- A complete body is the announced message. -/
theorem InBody.message (h : InBody r R)
    (hl : headerLen (R.take headLen) = (R.drop headLen).length) :
    r.msg.message = frameMessage (R.drop headLen) := by
  have hbody := h.body
  rw [← List.length_drop] at hbody
  exact MsgPack.message_eq (h.len.trans hl) hbody

/-- What a run of the reader shows of a parsed stream. -/
def Realises (p : List MsgPack × ReadEnd) (q : List (List UInt8) × Framing.Rest UInt8) : Prop :=
  p.1.map MsgPack.message = q.1.map frameMessage ∧
    match q.2 with
    | .waiting R => ∃ r, p.2 = .returned r [] ∧ Holds r R
    | .illegal _ => ∃ r, p.2 = .disConnect r

/-- A waiting stream is held by the object, with nothing left to libevent. -/
theorem Realises.returned {p : List MsgPack × ReadEnd}
    {q : List (List UInt8) × Framing.Rest UInt8} (h : Realises p q) (hq : q.2 = .waiting R) :
    ∃ r, p = (p.1, .returned r []) ∧ Holds r R := by
  obtain ⟨-, hend⟩ := h
  rw [hq] at hend
  obtain ⟨r, hr, hholds⟩ := hend
  exact ⟨r, Prod.ext rfl hr, hholds⟩

/-- A loop head whose `input_len` is the buffered length. -/
def loopHead (r : Reader) (B : List UInt8) : LoopState := ⟨r, B, B.length⟩

/-- For an input that an `int` counts, a callback is the read loop on all of it. -/
theorem connReadCallback_eq (hB : B.length < 2 ^ 31) :
    connReadCallback rd r B = readLoop rd (loopHead r B) := by
  rw [connReadCallback, callbackHead, int32_natCast hB, loopHead]

/-- An exact read stores the requested bytes and advances both counters. -/
theorem fill_exact (hrd : rd.Exact) {k : Nat}
    (hb : r.msgWriteLen + (B.take k).length ≤ sizeofMsgPack) :
    fill rd (loopHead r B) k =
      .done (loopHead (r.store (B.take k) hb) (B.drop k)) (B.take k).length := by
  obtain ⟨n, hn⟩ : ∃ n, n = (B.take k).length := ⟨_, rfl⟩
  have hmin : (min (B.length : Int) k).toNat = n := by
    rw [hn, List.length_take]
    omega
  have hnB : n ≤ B.length := by omega
  have htake : B.take n = B.take k := by rw [hn, List.length_take, List.take_eq_take_iff]; omega
  have hdrop : B.drop n = B.drop k := by
    rcases Nat.le_total B.length k with hl | hl
    · rw [List.drop_eq_nil_of_le hl, List.drop_eq_nil_of_le (by omega)]
    · rw [show n = k by omega]
  have hb' : r.msgWriteLen + n ≤ sizeofMsgPack := hn ▸ hb
  have he : rd.count B n = n := hrd B n hnB
  simp only [fill, loopHead, hmin, he, hb', dif_pos, if_pos, Reader.store, htake, hdrop, ← hn]
  congr 2
  rw [← hdrop, List.length_drop]
  omega

/-- Filling an incomplete header. -/
theorem readStep_header (hrd : rd.Exact) (h : Holds r R) (hR : R.length < headLen) :
    ∃ r', readStep rd (loopHead r B) = .next (loopHead r' (B.drop (headLen - R.length))) ∧
      Holds r' (R ++ B.take (headLen - R.length)) := by
  have hc := h.count
  have hlen : (R ++ B.take (headLen - R.length)).length ≤ headLen := by simp; omega
  have hb : r.msgWriteLen + (B.take (headLen - R.length)).length ≤ sizeofMsgPack := by
    unfold sizeofMsgPack
    simp only [List.length_take]
    omega
  have hneed : (headLen : Int) - (loopHead r B).reader.msgWriteLen =
      ((headLen - R.length : Nat) : Int) := by
    simp only [loopHead]
    omega
  refine ⟨_, ?_, h.store_head hlen hb⟩
  rw [readStep_of_lt (show r.msgWriteLen < headLen by omega), readHead, hneed, fill_exact hrd hb]

/-- Without overflow `need_to_read` is what is missing of the announced body. -/
theorem InBody.needToRead_eq (h : InBody r R)
    (hl : headerLen (R.take headLen) ≤ maxMsgDataLen)
    (h0 : 0 ≤ headerLen (R.take headLen) ∨ R.length = headLen) :
    r.needToRead = headerLen (R.take headLen) + headLen - R.length := by
  have hr : InInt32 (headerLen (R.take headLen)) := intOfBytes_inInt32 _
  have hb := r.bound
  have hc := h.count
  rw [Reader.needToRead_eq h.len hl, hc]
  generalize headerLen (R.take headLen) = L at *
  simp only [InInt32, sizeofMsgPack, maxMsgDataLen] at *
  omega

/-- A complete header with an illegal length closes the connection. -/
theorem readBody_illegal (h : InBody r R) (hR : R.length = headLen)
    (hn : wire.bodyLen R = none) : readBody rd (loopHead r B) = .disConnect r := by
  have htake : R.take headLen = R := List.take_of_length_le hR.le
  have hlen : (loopHead r B).reader.msg.len = headerLen R := htake ▸ h.len
  by_cases hm : maxMsgDataLen < headerLen R
  · rw [readBody, if_pos (hlen ▸ hm)]
    rfl
  · have hneg : headerLen R < 0 := (wire_bodyLen_none.mp hn).resolve_right hm
    have hneed := h.needToRead_eq (by rw [htake]; omega) (Or.inr hR)
    rw [htake, hR] at hneed
    have hlt : (loopHead r B).reader.needToRead < 0 := by
      simp only [loopHead]
      omega
    rw [readBody, if_neg (hlen ▸ hm), if_pos hlt]
    rfl

/-- A pass over a converted legal length takes what is missing of the body, and
delivers when nothing is missing any more. -/
theorem readBody_legal (hrd : rd.Exact) (h : InBody r R) {n : Nat}
    (hn : wire.bodyLen (R.take headLen) = some n) (hl : R.length ≤ headLen + n) :
    ∃ r', InBody r' (R ++ B.take (headLen + n - R.length)) ∧
      readBody rd (loopHead r B) =
        if headLen + n ≤ R.length + B.length then
          .recv (loopHead r' (B.drop (headLen + n - R.length)))
        else .next (loopHead r' (B.drop (headLen + n - R.length))) := by
  obtain ⟨hlen, hmax⟩ := wire_bodyLen_some.mp hn
  have hb : r.msgWriteLen + (B.take (headLen + n - R.length)).length ≤ sizeofMsgPack := by
    rw [h.count]
    unfold sizeofMsgPack
    simp only [List.length_take]
    omega
  have hneed : (loopHead r B).reader.needToRead = ((headLen + n - R.length : Nat) : Int) := by
    refine (h.needToRead_eq (by omega) (Or.inl (by omega))).trans ?_
    omega
  have hle : ¬ (maxMsgDataLen : Int) < (loopHead r B).reader.msg.len := by
    refine Int.not_lt.mpr (h.len.trans_le ?_)
    omega
  refine ⟨_, h.store hb, ?_⟩
  rw [readBody, if_neg hle, hneed, if_neg (by omega), fill_exact hrd hb]
  simp only [Nat.cast_inj]
  by_cases hk : headLen + n ≤ R.length + B.length
  · rw [if_pos hk, if_pos (by rw [List.length_take]; omega)]
  · rw [if_neg hk, if_neg (by rw [List.length_take]; omega)]

/-- Without input the loop does nothing. -/
theorem readLoop_nil : readLoop rd (loopHead r []) = ([], .returned r []) :=
  readLoop_done le_rfl

/-- Input is there to be read. -/
theorem inputLen_pos (hB : B ≠ []) : 0 < (loopHead r B).inputLen := by
  have := List.length_pos_iff.mpr hB
  simp only [loopHead]
  omega

/-- A started body is held behind its converted header. -/
theorem InBody.holds (h : InBody r R) (hl : headLen < R.length) : Holds r R where
  count := h.count
  head hle := absurd hle (Nat.not_le.mpr hl)
  body _ := h

/-- A loop that stops with its input consumed holds the unfinished frame. -/
theorem Realises.waiting (h : Holds r R) (hp : wire.parse R = ([], .waiting R)) :
    Realises (readLoop rd (loopHead r [])) (wire.parse R) := by
  rw [readLoop_nil, hp]
  exact ⟨rfl, r, rfl, h⟩

/-- A state whose length field the next pass will find converted: a full header,
or a body part taken by an even number of passes. -/
structure Convertible (r : Reader) (R : List UInt8) : Prop where
  /-- The bytes as the next pass reads them. -/
  body : InBody r.convertLen R
  /-- Only a bare header can be illegal. -/
  header : wire.bodyLen (R.take headLen) = none → R.length = headLen
  /-- No more than the announced body is held. -/
  room : ∀ n, wire.bodyLen (R.take headLen) = some n → R.length ≤ headLen + n

/-- A header that is held can be converted. -/
theorem Holds.convertible (h : Holds r R) (hR : R.length = headLen) : Convertible r R where
  body := h.convert hR
  header _ := hR
  room _ _ := by omega

/-- A body pass over a convertible state rejects the header, delivers the first
frame, or takes the whole input into the body. -/
private theorem readLoop_body (hrd : rd.Exact) (h : Convertible r R) (hB : B ≠ [])
    (ih : ∀ r' B', B'.length < R.length + B.length → Holds r' [] →
      Realises (readLoop rd (loopHead r' B')) (wire.parse B')) :
    Realises (readLoop rd (loopHead r B)) (wire.parse (R ++ B)) := by
  have hpos := inputLen_pos (r := r) hB
  have hBl := List.length_pos_iff.mpr hB
  have hfull := h.body.full
  have hw : headLen ≤ (loopHead r B).reader.msgWriteLen := hfull.trans_eq h.body.count.symm
  have hstep : readStep rd (loopHead r B) = readBody rd (loopHead r.convertLen B) :=
    readStep_of_le hw
  have htake : (R ++ B).take headLen = R.take headLen := List.take_append_of_le_length hfull
  have hlong : wire.headLen < (R ++ B).length := by
    rw [wire_headLen, List.length_append]
    omega
  cases hn : wire.bodyLen (R.take headLen) with
  | none =>
    have hR := h.header hn
    have hR' : R.take headLen = R := List.take_of_length_le hR.le
    rw [readLoop_disConnect hpos (hstep.trans (readBody_illegal h.body hR (hR' ▸ hn))),
      Framing.parse_illegal hlong (htake.symm ▸ hn)]
    exact ⟨rfl, _, rfl⟩
  | some n =>
    have hroom := h.room n hn
    obtain ⟨r', hbody, hpass⟩ := readBody_legal (B := B) hrd h.body hn hroom
    rw [hpass] at hstep
    by_cases hl : headLen + n ≤ R.length + B.length
    · rw [if_pos hl] at hstep
      have hP : R ++ B.take (headLen + n - R.length) = (R ++ B).take (headLen + n) := by
        rw [List.take_append, List.take_of_length_le hroom]
      have hrest : (R ++ B).drop (headLen + n) = B.drop (headLen + n - R.length) := by
        rw [List.drop_append, List.drop_of_length_le hroom, List.nil_append]
      have hdrop : ((R ++ B).take (headLen + n)).drop headLen =
          ((R ++ B).drop headLen).take n := by
        rw [List.drop_take, Nat.add_sub_cancel_left]
      rw [hP] at hbody
      have hmsg := hbody.message (by
        rw [List.take_take, Nat.min_eq_left (Nat.le_add_right ..), htake,
          (wire_bodyLen_some.mp hn).1, List.length_drop, List.length_take, List.length_append]
        omega)
      have hlt : (B.drop (headLen + n - R.length)).length < R.length + B.length := by
        have := headLen_pos
        rw [List.length_drop]
        omega
      obtain ⟨hms, hend⟩ := ih r'.clear _ hlt r'.clear_holds
      have hparse := Framing.parse_frame hlong (htake.symm ▸ hn)
        (by rw [wire_headLen, List.length_append]; exact hl)
      rw [wire_headLen, hrest] at hparse
      rw [readLoop_recv hpos hstep, hparse]
      refine ⟨?_, hend⟩
      rw [List.map_cons, List.map_cons]
      exact congrArg₂ List.cons (hmsg.trans (congrArg frameMessage hdrop)) hms
    · rw [if_neg hl] at hstep
      rw [readLoop_next hpos hstep, List.drop_eq_nil_of_le (by omega)]
      rw [List.take_of_length_le (by omega)] at hbody
      exact Realises.waiting (hbody.holds hlong)
        (Framing.parse_unfinished (htake.symm ▸ hn)
          (by rw [List.length_append]; exact not_le.mp hl))

/-- A run of the loop from at most a held header is the parse of the held bytes
followed by the input. -/
theorem readLoop_realises (hrd : rd.Exact) (h : Holds r R) (hR : R.length ≤ headLen) :
    Realises (readLoop rd (loopHead r B)) (wire.parse (R ++ B)) := by
  induction hk : R.length + B.length using Nat.strongRecOn generalizing r R B with
  | ind k ih =>
    subst hk
    by_cases hB : B = []
    · subst hB
      rw [List.append_nil]
      exact Realises.waiting h (Framing.parse_short hR)
    have hih : ∀ r' B', B'.length < R.length + B.length → Holds r' [] →
        Realises (readLoop rd (loopHead r' B')) (wire.parse B') := by
      intro r' B' hlt hr'
      exact ih _ (by simpa using hlt) hr' (Nat.zero_le _) rfl
    rcases hR.lt_or_eq with hlt | heq
    · obtain ⟨r', hstep, hr'⟩ := readStep_header (B := B) hrd h hlt
      rw [readLoop_next (inputLen_pos hB) hstep]
      by_cases hrest : B.drop (headLen - R.length) = []
      · have htake : B.take (headLen - R.length) = B :=
          List.take_of_length_le (List.drop_eq_nil_iff.mp hrest)
        rw [htake] at hr'
        rw [hrest]
        refine Realises.waiting hr' (Framing.parse_short ?_)
        have := List.drop_eq_nil_iff.mp hrest
        rw [List.length_append, wire_headLen]
        omega
      · have hlen := mt List.drop_eq_nil_iff.mpr hrest
        have hfull : (R ++ B.take (headLen - R.length)).length = headLen := by simp; omega
        have hsplit : R ++ B = (R ++ B.take (headLen - R.length)) ++
            B.drop (headLen - R.length) := by rw [List.append_assoc, List.take_append_drop]
        rw [hsplit]
        refine readLoop_body hrd (hr'.convertible hfull) hrest
          fun r'' B' hlt' hr'' => hih r'' B' ?_ hr''
        rw [hfull, List.length_drop] at hlt'
        omega
    · exact readLoop_body hrd (h.convertible heq) hB hih

/-- The same from a convertible state. -/
theorem Convertible.readLoop_realises (hrd : rd.Exact) (h : Convertible r R) (hB : B ≠ []) :
    Realises (readLoop rd (loopHead r B)) (wire.parse (R ++ B)) :=
  readLoop_body hrd h hB fun _ _ _ hr' => Connector.readLoop_realises hrd hr' (Nat.zero_le _)

/-- One callback delivers exactly the complete frames of what was held and what
arrived, and holds exactly the unfinished rest. -/
theorem connReadCallback_realises (hrd : rd.Exact) (h : Holds r R) (hR : R.length ≤ headLen)
    (hB : B.length < 2 ^ 31) :
    Realises (connReadCallback rd r B) (wire.parse (R ++ B)) := by
  rw [connReadCallback_eq hB]
  exact readLoop_realises hrd h hR

end ServerCom.Connector
