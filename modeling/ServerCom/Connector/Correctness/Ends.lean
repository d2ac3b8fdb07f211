import ServerCom.Connector.Interpretation.Passes
import ServerCom.Core.Machine.Descent

/-!
# The read loop ends

A pass that reads something lowers `input_len`. A pass that reads nothing delivers a
message without a body, and the next one starts a header. What a pass leaves that writes
outside `m_msg` is arbitrary, but such a pass has read something too.
-/

namespace ServerCom.Connector

variable {rd : BuffereventRead} {s s' : LoopState}

/-- A pass that goes on, with nothing assumed about the object behind a write outside
`m_msg` but that `input_len` went down by what was read. -/
inductive Turn (rd : BuffereventRead) : LoopState → LoopState → Prop where
  /-- A pass inside `m_msg`. -/
  | step {s s' : LoopState} (h : LoopStep rd s s') : Turn rd s s'
  /-- A pass that writes outside `m_msg`. -/
  | overrun {s s' : LoopState} (hp : 0 < s.inputLen) (h : readStep rd s = .overrun)
    (hl : s'.inputLen = s.inputLen - min s.inputLen s.convertLen.reader.needToRead) : Turn rd s s'

/-- A destination outside `m_msg` asks for at least one byte. -/
theorem fill_overrun {need : Int} (h : fill rd s need = .overrun) : 0 < min s.inputLen need := by
  have hb := s.reader.bound
  unfold fill at h
  dsimp only at h
  split_ifs at h with hfit
  omega

/-- The length field lies inside `m_msg`. -/
theorem readHead_ne_overrun (hw : s.reader.msgWriteLen < headLen) :
    readHead rd s ≠ .overrun := by
  intro h
  unfold readHead at h
  split at h
  · cases h
  · cases h
  · rename_i hfill
    unfold fill at hfill
    dsimp only at hfill
    split_ifs at hfill with hfit
    simp only [sizeofMsgPack, maxMsgDataLen, headLen] at *
    omega

/-- A pass that leaves `m_msg` wants to read something. -/
theorem readStep_overrun (h : readStep rd s = .overrun) :
    0 < min s.inputLen s.convertLen.reader.needToRead := by
  rcases Nat.lt_or_ge s.reader.msgWriteLen headLen with hw | hw
  · rw [readStep_of_lt hw] at h
    exact absurd h (readHead_ne_overrun hw)
  · rw [readStep_of_le hw] at h
    unfold readBody at h
    split_ifs at h
    split at h
    · split_ifs at h
    · cases h
    · rename_i hfill
      exact fill_overrun (s := s.convertLen) hfill

/-- Twice the input, less a pass while a header is read. -/
def LoopState.rank (s : LoopState) : Nat :=
  2 * s.inputLen.toNat - if s.reader.msgWriteLen < headLen then 1 else 0

/-- The rank is bounded by what has arrived. -/
theorem LoopState.rank_le (s : LoopState) : s.rank ≤ 2 * s.inputLen.toNat := Nat.sub_le ..

/-- Less input is a lower rank. -/
theorem LoopState.rank_lt (hp : 0 < s.inputLen) (hl : s'.inputLen < s.inputLen) :
    s'.rank < s.rank := by
  unfold LoopState.rank
  split_ifs <;> omega

/-- The rank goes down with every pass. -/
theorem Turn.rank_lt (h : Turn rd s s') : s'.rank < s.rank := by
  cases h with
  | overrun hp h hl =>
    have hpos := readStep_overrun h
    apply LoopState.rank_lt hp
    omega
  | step h =>
    cases h with
    | next hp hs =>
      have hlt := readStep_next hp hs
      apply LoopState.rank_lt hp
      omega
    | @recv s' hp hs =>
      obtain ⟨hw, hl⟩ := readStep_recv hs
      have hclear : s'.clear.inputLen ≤ s.inputLen := hl
      have hhead : s'.clear.reader.msgWriteLen < headLen := headLen_pos
      unfold LoopState.rank
      rw [if_pos hhead, if_neg (Nat.not_lt.mpr hw)]
      omega

/-- A loop head is the last one when the input is used up or a pass disconnects. -/
theorem not_turn_iff :
    (∀ s', ¬ Turn rd s s') ↔ s.inputLen ≤ 0 ∨ ∃ r, readStep rd s = .disConnect r := by
  constructor
  · intro h
    by_contra hne
    obtain ⟨hp, hdis⟩ := not_or.mp hne
    have hp := Int.not_le.mp hp
    cases hs : readStep rd s with
    | next s' => exact h s' (.step (.next hp hs))
    | recv s' => exact h s'.clear (.step (.recv hp hs))
    | disConnect r => exact hdis ⟨r, hs⟩
    | overrun =>
      exact h { s with inputLen := s.inputLen - min s.inputLen s.convertLen.reader.needToRead }
        (.overrun hp hs rfl)
  · intro h s' hturn
    have hmore : 0 < s.inputLen ∧ ∀ r, readStep rd s ≠ .disConnect r := by
      cases hturn with
      | overrun hp hs hl => exact ⟨hp, fun r => by simp [hs]⟩
      | step hstep =>
        cases hstep with
        | next hp hs => exact ⟨hp, fun r => by simp [hs]⟩
        | recv hp hs => exact ⟨hp, fun r => by simp [hs]⟩
    rcases h with hdone | ⟨r, hdis⟩
    · omega
    · exact hmore.2 r hdis

/-- A callback makes at most two passes for each byte of `input_len`, whatever the object
holds, no run of it is infinite, and every run leads to its last head. -/
theorem connReadCallback_ends (rd : BuffereventRead) (r : Reader) (input : List UInt8) :
    (∀ heads, (callbackHead r input :: heads).IsChain (Turn rd) →
      heads.length ≤ 2 * input.length) ∧
    (∀ f : Nat → LoopState, f 0 = callbackHead r input → ¬ ∀ i, Turn rd (f i) (f (i + 1))) ∧
    ∀ s, Relation.ReflTransGen (Turn rd) (callbackHead r input) s →
      ∃ t, Relation.ReflTransGen (Turn rd) s t ∧
        (t.inputLen ≤ 0 ∨ ∃ r', readStep rd t = .disConnect r') := by
  have hrank : ∀ s t, Turn rd s t → t.rank < s.rank := fun s t h => h.rank_lt
  refine ⟨fun heads hrun => ?_, fun f _ => Machine.not_infinite hrank f, fun s _ => ?_⟩
  · have hle := Machine.length_le_rank hrank hrun
    have hhead := (callbackHead r input).rank_le
    have hlen : (callbackHead r input).inputLen.toNat ≤ input.length := toNat_int32_le _
    omega
  · obtain ⟨t, hst, hlast⟩ := Machine.exists_last hrank s
    exact ⟨t, hst, not_turn_iff.mp hlast⟩

end ServerCom.Connector
