import ServerCom.Connector.Interpretation.Frames
import ServerCom.Core.Stream.Arrival

/-!
# Messages are delivered when they are complete

A peer sends legal frames, and no read callback ends inside a body. Each callback has then
delivered every frame that has arrived, with one exception: the loop tests for remaining
input before it looks at a complete header, so a message without data stays undelivered,
and `IsWaitCompleteMsg` true, until another byte arrives.
-/

namespace ServerCom.Connector

variable {rd : BuffereventRead} {r : Reader} {bodies chunks pre : List (List UInt8)}

/-- The header of a body: its length in network order. -/
def wireEncoder : wire.Encoder where
  head n := (bytesOfInt n).reverse
  length_head n := by
    rw [List.length_reverse, length_bytesOfInt]
    rfl

/-- A header that is written announces its body. -/
theorem wireEncoder_bodyLen {n : Nat} (h : n ≤ maxMsgDataLen) :
    wire.bodyLen (wireEncoder.head n) = some n := by
  rw [wire_bodyLen_some]
  refine ⟨?_, h⟩
  unfold maxMsgDataLen at h
  rw [headerLen, wireEncoder, List.reverse_reverse, intOfBytes_bytesOfInt]
  unfold InInt32
  omega

/-- A stream of legal frames, in the chunks of the read callbacks. -/
structure Chunked (bodies chunks : List (List UInt8)) : Prop where
  /-- `0 ≤ L ≤ MAX_MSG_DATA_LEN`. -/
  legal : ∀ body ∈ bodies, body.length ≤ maxMsgDataLen
  /-- The chunks make up the stream. -/
  whole : chunks.flatten = wireEncoder.stream bodies
  /-- No callback ends inside a body. -/
  cut : ∀ pre, pre <+: chunks → wire.begun bodies pre.flatten.length ≤ headLen
  /-- `input_len` holds what libevent buffers for one callback. -/
  small : ∀ chunk ∈ chunks, chunk.length < 2 ^ 31

/-- Behind the callbacks of `pre`, unless one of them has disconnected, every frame that
has arrived has been passed to `OnRecv`, and `IsWaitCompleteMsg` answers whether the bytes
end inside a frame. -/
def Prompt (rd : BuffereventRead) (r : Reader) (bodies pre : List (List UInt8)) : Prop :=
  ∀ msgs r' left, receive rd r [] pre = (msgs, .returned r' left) →
    msgs.map MsgPack.message = (wire.arrived bodies pre.flatten.length).map frameMessage ∧
    (r'.isWaitCompleteMsg = true ↔ wire.begun bodies pre.flatten.length ≠ 0)

/-- What was received so far comes first. -/
theorem receive_append {msgs : List MsgPack} {r' : Reader} {buffered left : List UInt8}
    (h : receive rd r buffered pre = (msgs, .returned r' left)) (chunks : List (List UInt8)) :
    receive rd r buffered (pre ++ chunks) =
      (msgs ++ (receive rd r' left chunks).1, (receive rd r' left chunks).2) := by
  induction pre generalizing r buffered msgs with
  | nil =>
    cases h
    rfl
  | cons chunk pre ih =>
    rw [receive] at h
    rw [List.cons_append, receive]
    generalize connReadCallback rd r (buffered ++ chunk) = p at h ⊢
    obtain ⟨ms, e⟩ := p
    cases e with
    | returned r'' left' =>
      obtain ⟨rfl, hend⟩ := Prod.mk.inj h
      have hrest := ih (Prod.ext rfl hend)
      simp only [hrest, List.append_assoc]
    | disConnect r'' => cases h
    | overrun => cases h

/-- A message is waited for exactly when part of one is held. -/
theorem Reader.isWaitCompleteMsg_iff {R : List UInt8} (h : Holds r R) :
    r.isWaitCompleteMsg = true ↔ R.length ≠ 0 := by
  unfold Reader.isWaitCompleteMsg
  rw [bne_iff_ne, h.count]

section run

variable (h : Chunked bodies chunks)

include h

/-- The bodies of a chunked stream are short enough. -/
theorem Chunked.legal_wire : wireEncoder.Legal bodies :=
  fun body hb => wireEncoder_bodyLen (h.legal body hb)

/-- The bytes of some callbacks are the first ones of the stream. -/
theorem Chunked.take_stream (hpre : pre <+: chunks) :
    (wireEncoder.stream bodies).take pre.flatten.length = pre.flatten := by
  obtain ⟨post, rfl⟩ := hpre
  rw [← h.whole, List.flatten_append, List.take_left]

/-- What has arrived is no more than the stream. -/
theorem Chunked.length_le (hpre : pre <+: chunks) :
    pre.flatten.length ≤ (wireEncoder.stream bodies).length := by
  obtain ⟨post, rfl⟩ := hpre
  rw [← h.whole, List.flatten_append, List.length_append]
  exact Nat.le_add_right ..

/-- What is left over behind some callbacks is at most a header. -/
theorem Chunked.parse (hpre : pre <+: chunks) :
    ∃ fs R, wire.parse pre.flatten = (fs, .waiting R) ∧ R.length ≤ headLen := by
  have hlen := h.length_le hpre
  have hcut := h.cut pre hpre
  rw [← h.take_stream hpre]
  by_cases hend : wire.EndsEmpty bodies pre.flatten.length
  · obtain ⟨R, hparse, hR⟩ :=
      Framing.Encoder.parse_take_stream_empty h.legal_wire hlen hend
    exact ⟨_, R, hparse, hR.le⟩
  · obtain ⟨R, hparse, hR⟩ := Framing.Encoder.parse_take_stream h.legal_wire hlen hend
    exact ⟨_, R, hparse, hR.trans_le hcut⟩

/-- The callbacks deliver the parse of their bytes, and the object holds the rest. -/
theorem Chunked.receive (hrd : rd.Exact) (hr : r.msgWriteLen = 0) (hpre : pre <+: chunks)
    {fs : List (List UInt8)} {R : List UInt8}
    (hparse : wire.parse pre.flatten = (fs, .waiting R)) :
    ∃ msgs r', receive rd r [] pre = (msgs, .returned r' []) ∧
      msgs.map MsgPack.message = fs.map frameMessage ∧ Holds r' R := by
  induction pre using List.reverseRecOn generalizing fs R with
  | nil =>
    rw [List.flatten_nil, Framing.parse_short (Nat.zero_le _)] at hparse
    cases hparse
    exact ⟨[], r, rfl, rfl, .nil hr⟩
  | append_singleton pre chunk ih =>
    have hpre' : pre <+: chunks := (List.prefix_append ..).trans hpre
    have hmem : chunk ∈ chunks := hpre.subset (by simp)
    obtain ⟨fs', R', hparse', hR'⟩ := h.parse hpre'
    obtain ⟨msgs, r', hrun, hms, hholds⟩ := ih hpre' hparse'
    have hcall := connReadCallback_realises hrd hholds hR' (h.small chunk hmem)
    rw [List.flatten_append, List.flatten_singleton, Framing.parse_append chunk hparse'] at hparse
    obtain ⟨rfl, hwait⟩ := Prod.mk.inj hparse
    obtain ⟨r'', hend, hholds'⟩ := hcall.returned hwait
    refine ⟨msgs ++ (connReadCallback rd r' chunk).1, r'', ?_, ?_, hholds'⟩
    · rw [receive_append hrun, Connector.receive, List.nil_append, hend]
      simp only [Connector.receive, List.append_nil]
    · rw [List.map_append, List.map_append, hms, hcall.1]

/-- A message without data that nothing follows is held back. -/
theorem Chunked.not_prompt (hrd : rd.Exact) (hr : r.msgWriteLen = 0) (hpre : pre <+: chunks)
    (hend : wire.EndsEmpty bodies pre.flatten.length) : ¬ Prompt rd r bodies pre := by
  intro hprompt
  obtain ⟨R, hparse, hR⟩ :=
    Framing.Encoder.parse_take_stream_empty h.legal_wire (h.length_le hpre) hend
  rw [h.take_stream hpre] at hparse
  obtain ⟨msgs, r', hrun, -, hholds⟩ := h.receive hrd hr hpre hparse
  obtain ⟨-, hwait⟩ := hprompt _ _ _ hrun
  rw [Reader.isWaitCompleteMsg_iff hholds, hR] at hwait
  exact hwait.mp headLen_pos.ne' hend.1

/-- Otherwise all frames that have arrived are delivered. -/
theorem Chunked.prompt (hrd : rd.Exact) (hr : r.msgWriteLen = 0) (hpre : pre <+: chunks)
    (hend : ¬ wire.EndsEmpty bodies pre.flatten.length) : Prompt rd r bodies pre := by
  intro msgs r' left hrun
  obtain ⟨R, hparse, hR⟩ :=
    Framing.Encoder.parse_take_stream h.legal_wire (h.length_le hpre) hend
  rw [h.take_stream hpre] at hparse
  obtain ⟨msgs', r'', hrun', hms, hholds⟩ := h.receive hrd hr hpre hparse
  rw [hrun'] at hrun
  cases hrun
  refine ⟨hms, ?_⟩
  rw [Reader.isWaitCompleteMsg_iff hholds, hR]

end run

/-- Behind every callback all frames that have arrived are delivered and
`IsWaitCompleteMsg` is right, exactly when the callback does not end behind the header of
a message without data. -/
theorem prompt_iff (hrd : rd.Exact) (hr : r.msgWriteLen = 0) (h : Chunked bodies chunks) :
    ∀ pre, pre <+: chunks →
      (Prompt rd r bodies pre ↔ ¬ wire.EndsEmpty bodies pre.flatten.length) := by
  intro pre hpre
  constructor
  · intro hprompt hend
    exact h.not_prompt hrd hr hpre hend hprompt
  · exact h.prompt hrd hr hpre

/-- A message without data that comes alone. -/
theorem chunked_empty : Chunked [[]] [[0, 0, 0, 0]] where
  legal := by decide
  whole := by decide +kernel
  cut pre hpre := (wire.begun_le ..).trans hpre.flatten.length_le
  small := by decide

/-- The same with the next message in one callback. -/
theorem chunked_two : Chunked [[], [7]] [[0, 0, 0, 0, 0, 0, 0, 1, 7]] where
  legal := by decide
  whole := by decide +kernel
  cut pre hpre := by
    rcases List.prefix_cons_iff.mp hpre with rfl | ⟨t, rfl, ht⟩
    · exact Nat.zero_le _
    · rw [List.prefix_nil.mp ht]
      decide +kernel
  small := by decide

/-- With the next message in the same callback, the empty one is delivered at once. -/
theorem prompt_iff_two :
    Prompt .full (.fresh default) [[], [7]] [[0, 0, 0, 0, 0, 0, 0, 1, 7]] ↔
      ¬ wire.EndsEmpty [[], [7]] 9 :=
  prompt_iff BuffereventRead.full_exact rfl chunked_two _ (List.prefix_refl _)

/-- A message without data is not delivered by the callback that receives its last byte. -/
theorem empty_message_held_back :
    ¬ ∀ (rd : BuffereventRead) (r : Reader) (bodies chunks : List (List UInt8)),
      rd.Exact → r.msgWriteLen = 0 → Chunked bodies chunks →
        ∀ pre, pre <+: chunks → Prompt rd r bodies pre := by
  intro hprompt
  apply chunked_empty.not_prompt BuffereventRead.full_exact (r := .fresh default) rfl
    (List.prefix_refl _) ⟨by decide, by decide⟩
  exact hprompt _ _ _ _ BuffereventRead.full_exact rfl chunked_empty _ (List.prefix_refl _)

end ServerCom.Connector
