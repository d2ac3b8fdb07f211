import ServerCom.Connector.Correctness.Splitting

/-!
# The reader stays inside its buffer

A pass is safe when its `bufferevent_read` writes inside `m_msg` and `need_to_read`
is computed without overflow. The invariant `Sound` of the loop heads makes every
pass safe, and it fails only at a callback that starts inside a 128-byte body.
-/

namespace ServerCom.Connector

/-- The destination range of a read of `min(input_len, need)` bytes. -/
def InBounds (s : LoopState) (need : Int) : Prop :=
  0 ≤ (s.reader.msgWriteLen : Int) ∧ s.reader.msgWriteLen + min s.inputLen need ≤ sizeofMsgPack

/-- Neither operation of `m_msg.len + HEAD_LEN - m_msg_write_len` overflows. -/
def Reader.NeedFits (r : Reader) : Prop :=
  InInt32 (r.msg.len + headLen) ∧ InInt32 (r.msg.len + headLen - r.msgWriteLen)

/-- What one pass computes and writes before it returns or goes on. -/
def SafePass (s : LoopState) : Prop :=
  if s.reader.msgWriteLen < headLen then InBounds s (headLen - s.reader.msgWriteLen)
  else s.convertLen.reader.msg.len ≤ maxMsgDataLen →
    s.convertLen.reader.NeedFits ∧
      (0 ≤ s.convertLen.reader.needToRead → InBounds s s.convertLen.reader.needToRead)

/-- A head that enters a body of 128 bytes again. -/
def Harmful (s : LoopState) : Prop :=
  0 < s.inputLen ∧ s.reader.msg.len = 128 ∧ headLen < s.reader.msgWriteLen

/-- The invariant of the loop heads. -/
structure Sound (s : LoopState) : Prop where
  /-- At most a header is held, or a started body. -/
  started : Started s.reader
  /-- A body of 128 bytes is not entered again. -/
  harmless : ¬ Harmful s

variable {rd : BuffereventRead} {s s' : LoopState} {r r' : Reader}

/-- A sound head inside a body has no further pass. -/
theorem Sound.readStep (h : Sound s) (hp : 0 < s.inputLen) (hw : headLen < s.reader.msgWriteLen) :
    readStep rd s = .disConnect s.reader.convertLen := by
  have hmid : Midway s.reader := h.started.resolve_left (not_le.mpr hw)
  exact hmid.readStep hw.le fun h128 => h.harmless ⟨hp, h128, hw⟩

/-- A head with nothing written is sound. -/
theorem Sound.of_le (h : s.reader.msgWriteLen ≤ headLen) : Sound s where
  started := .inl h
  harmless hh := absurd hh.2.2 (not_lt.mpr h)

/-- A head without input is sound when a body is started there. -/
theorem Sound.of_midway (h : Midway s.reader) (hi : s.inputLen ≤ 0) : Sound s where
  started := .inr h
  harmless hh := absurd hh.1 (not_lt.mpr hi)

/-- Behind a full header a pass that continues has used up the input inside the body. -/
theorem readBody_next_sound (hw : s.reader.msgWriteLen = headLen)
    (h : readBody rd s = .next s') : Sound s' := by
  obtain ⟨ret, hf, hle, hn, hne⟩ := readBody_next h
  obtain ⟨hr, -, hi, hc, hb, hm⟩ := fill_done hf
  have hmin := s.reader.msg.len_inInt32.1
  have hneed := Reader.needToRead_eq (r := s.reader) rfl hle (by rw [hw]; omega)
  have hlen : s'.reader.msg.len = s.reader.msg.len := by
    rw [hm, MsgPack.len_write _ _ hw.ge]
  rw [hw] at hneed hc
  rw [hneed] at hr hn hne
  clear hneed hf hm hmin hb
  suffices hgoal : 0 < s.reader.msg.len ∧
      (s'.reader.msgWriteLen : Int) < headLen + s.reader.msg.len ∧ s'.inputLen ≤ 0 by
    rw [← hlen] at hgoal hle
    exact Sound.of_midway ⟨hgoal.1, hle, hgoal.2.1⟩ hgoal.2.2
  clear hlen
  generalize s.reader.msg.len = L at *
  omega

/-- One pass keeps the invariant. -/
theorem Sound.step (h : Sound s) (hs : LoopStep rd s s') : Sound s' := by
  cases hs with
  | recv hp hs =>
    apply Sound.of_le
    rw [LoopState.msgWriteLen_clear]
    exact headLen_pos.le
  | next hp hs =>
    rcases lt_trichotomy s.reader.msgWriteLen headLen with hw | hw | hw
    · rw [readStep_of_lt hw] at hs
      obtain ⟨-, -, -, hc, -⟩ := fill_done (readHead_next hs)
      exact Sound.of_le (by omega)
    · rw [readStep_of_le hw.ge] at hs
      exact readBody_next_sound (s := s.convertLen) hw hs
    · rw [h.readStep hp hw] at hs
      cases hs

/-- A whole callback keeps the invariant. -/
theorem Sound.passes (h : Sound s) (hs : Passes rd s s') : Sound s' := by
  induction hs with
  | refl => exact h
  | tail _ hstep ih => exact ih.step hstep

/-- A length that passes the first guard is safe unless it is near the least `int`. -/
theorem needFits_of_le {need input : Int} (hle : r.msg.len ≤ maxMsgDataLen)
    (hmin : -2 ^ 31 ≤ r.msg.len + headLen - r.msgWriteLen) (hneed : r.needToRead = need) :
    r.NeedFits ∧ (r.msgWriteLen : Int) + min input need ≤ sizeofMsgPack := by
  have hL := r.msg.len_inInt32
  rw [Reader.needToRead_eq rfl hle hmin] at hneed
  rw [Reader.NeedFits]
  generalize r.msg.len = L at *
  simp only [InInt32, sizeofMsgPack, maxMsgDataLen, headLen] at *
  omega

/-- A pass from a sound head is safe. -/
theorem Sound.safePass (h : Sound s) (hp : 0 < s.inputLen) : SafePass s := by
  have hb := s.reader.bound
  by_cases hw : s.reader.msgWriteLen < headLen
  · rw [SafePass, if_pos hw]
    exact ⟨by omega, by simp only [sizeofMsgPack]; omega⟩
  rw [SafePass, if_neg hw]
  intro hle
  have hlow : -2 ^ 31 ≤ s.reader.convertLen.msg.len + headLen - s.reader.msgWriteLen := by
    have hmin := s.reader.convertLen.msg.len_inInt32.1
    rcases (not_lt.mp hw).eq_or_lt with hfull | hmid
    · omega
    · have h128 : s.reader.msg.len ≠ 128 := fun he => h.harmless ⟨hp, he, hmid⟩
      rcases (h.started.resolve_left (not_le.mpr hmid)).len_convertLen h128 with hbig | hsmall
      · exact absurd hle (not_le.mpr hbig)
      · simp only [sizeofMsgPack, maxMsgDataLen] at hb
        omega
  obtain ⟨hfits, hdest⟩ := needFits_of_le (r := s.reader.convertLen) hle hlow rfl
  exact ⟨hfits, fun _ => ⟨Int.natCast_nonneg _, hdest⟩⟩

/-- Entering a 128-byte body again overflows. -/
theorem Harmful.not_safePass (h : Harmful s) : ¬ SafePass s := by
  obtain ⟨hp, h128, hw⟩ := h
  have hlen : s.convertLen.reader.msg.len = -2 ^ 31 := by
    rw [← swap32_128, ← h128]
    exact Reader.len_convertLen _
  intro hsafe
  rw [SafePass, if_neg (not_lt.mpr hw.le)] at hsafe
  obtain ⟨⟨-, hfits⟩, -⟩ := hsafe (by rw [hlen]; decide)
  have hc : s.convertLen.reader.msgWriteLen = s.reader.msgWriteLen := rfl
  rw [hlen, hc] at hfits
  have := hfits.1
  omega

/-- A callback that finds a part of a 128-byte body is harmful. -/
theorem InBody.harmful {R B : List UInt8} (h : InBody r R) (hl : headLen < R.length)
    (hn : wire.bodyLen (R.take headLen) = some 128) (hB : B ≠ []) (hBs : B.length < 2 ^ 31) :
    Harmful (callbackHead r B) := by
  have hpos := List.length_pos_iff.mpr hB
  have hin := callbackHead_inputLen r hBs
  have hlen : r.msg.len = 128 := by rw [h.len, (wire_bodyLen_some.mp hn).1, Nat.cast_ofNat]
  exact ⟨by omega, hlen, hl.trans_eq h.count.symm⟩

/-- Every callback of a run whose callbacks are harmless starts at a sound head. -/
theorem sound_of_harmless {buffered : List UInt8} (hr : Started r) (chunks : List (List UInt8))
    (h : ∀ s ∈ callbackHeads rd r buffered chunks, ¬ Harmful s) :
    ∀ s ∈ callbackHeads rd r buffered chunks, Sound s := by
  induction chunks generalizing r buffered with
  | nil => exact fun s hs => absurd hs (List.not_mem_nil)
  | cons chunk chunks ih =>
    have hhead : Sound (callbackHead r (buffered ++ chunk)) :=
      ⟨hr, h _ (by rw [callbackHeads]; exact List.mem_cons_self ..)⟩
    rcases he : connReadCallback rd r (buffered ++ chunk) with ⟨msgs, e⟩
    intro s hs
    cases e with
    | returned r' left =>
      rw [callbackHeads_cons he] at h hs
      rcases List.mem_cons.mp hs with rfl | hs
      · exact hhead
      obtain ⟨s', hpass, hr', -⟩ := readLoop_returned he
      have hstart : Started r' := hr' ▸ (hhead.passes hpass).started
      exact ih hstart (fun t ht => h t (List.mem_cons_of_mem _ ht)) s hs
    | disConnect r' =>
      rw [callbackHeads, he] at hs
      rw [List.mem_singleton.mp hs]
      exact hhead
    | overrun =>
      rw [callbackHeads, he] at hs
      rw [List.mem_singleton.mp hs]
      exact hhead

/-- Every pass of every callback is safe exactly when no callback enters a body of
128 bytes again. -/
theorem passes_safe_iff_harmless (rd : BuffereventRead) (msg : MsgPack)
    (chunks : List (List UInt8)) :
    (∀ head ∈ callbackHeads rd (.fresh msg) [] chunks, ∀ s, Passes rd head s → 0 < s.inputLen →
      SafePass s) ↔
      ∀ head ∈ callbackHeads rd (.fresh msg) [] chunks, ¬ Harmful head := by
  constructor
  · intro h head hhead hharm
    exact hharm.not_safePass (h head hhead head .refl hharm.1)
  · intro h head hhead s hpass hp
    have hfresh : Started (.fresh msg) := .inl (Nat.zero_le _)
    exact ((sound_of_harmless hfresh chunks h head hhead).passes hpass).safePass hp

/-- A frame of 128 bytes that is cut behind its first body byte and continued with
4096 bytes makes the reader write outside `m_msg`. -/
theorem passes_unsafe_in_cut_body :
    observe (receive .full (.fresh default) []
      [[0, 0, 0, 128, 7], List.replicate 4096 8]) = ([], .overrun) ∧
    ∃ head ∈ callbackHeads .full (.fresh default) [] [[0, 0, 0, 128, 7], List.replicate 4096 8],
      0 < head.inputLen ∧ ¬ SafePass head := by
  have hne : List.replicate 4096 (8 : UInt8) ≠ [] :=
    List.ne_nil_of_length_pos (by rw [List.length_replicate]; decide)
  have hsmall : (List.replicate 4096 (8 : UInt8)).length < 2 ^ 31 := by
    rw [List.length_replicate]
    decide
  constructor
  · have hcut := Cut.pair (B := [0, 0, 0, 128, 7]) (by simp) (by decide) hne hsmall
    rw [(hcut.explains BuffereventRead.full_exact default).seen]
    decide +kernel
  · have hparse : wire.parse ([] ++ [0, 0, 0, 128, 7]) = ([], .waiting [0, 0, 0, 128, 7]) := by
      decide +kernel
    obtain ⟨r, hend, hr⟩ := (connReadCallback_realises (r := .fresh default)
      (B := [0, 0, 0, 128, 7]) BuffereventRead.full_exact (.nil rfl) (Nat.zero_le _)
      (by decide)).returned (congrArg Prod.snd hparse)
    have hharm := (hr.body (by decide)).harmful (by decide) (by decide +kernel) hne hsmall
    refine ⟨_, ?_, hharm.1, hharm.not_safePass⟩
    rw [callbackHeads_cons hend, callbackHeads]
    exact List.mem_cons_of_mem _ (List.mem_cons_self ..)

end ServerCom.Connector
