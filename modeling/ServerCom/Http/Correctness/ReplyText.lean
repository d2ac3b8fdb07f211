import ServerCom.Core.Machine.Guarded
import ServerCom.Http.Native.ReplyText

/-!
# The text of a reply

The text is the body exactly when a zero byte happens to lie behind the body in the buffer.
It depends on what the stack held before, whatever the body is.
-/

namespace ServerCom.Http

open Text
open ClientWorld (maxLen)

variable {r : Replies}

/-- Every reply so far was the body of its response. -/
def Replies.Faithful (r : Replies) : Prop := ∀ c ∈ r.calls, c.text = some c.body

/-- The body of a reply has no NUL and fits, and the buffer holds a NUL right behind it. -/
def StackMove.Ended (r : Replies) : StackMove → Prop
  | .respond rsp =>
    rsp.Replied → 0 ∉ rsp.input ∧ rsp.input.length < maxLen ∧
      r.writeAddr.bytes[rsp.input.length]? = some 0
  | .scribble _ => True

/-- The text of a reply is the body exactly when the buffer ends it. -/
theorem cString_evbufferRemove_iff (b : WriteAddr) (input : List UInt8) :
    cString (b.evbufferRemove input).bytes = some input ↔
      0 ∉ input ∧ input.length < maxLen ∧ b.bytes[input.length]? = some 0 := by
  have hiff := cString_overwrite_iff b.bytes input
  rw [b.size] at hiff
  refine hiff.trans (and_congr_right fun _ => ⟨fun h => ⟨?_, h⟩, And.right⟩)
  obtain ⟨hlt, -⟩ := List.getElem?_eq_some_iff.mp h
  rw [b.size] at hlt
  exact hlt

/-- The body of a response overwrites the buffer, and the text is read from there. -/
theorem Replies.step_replied {rsp : RemoteResponse} (h : rsp.Replied) :
    r.step (.respond rsp) = ⟨r.writeAddr.evbufferRemove rsp.input,
      ⟨rsp.input, cString (r.writeAddr.evbufferRemove rsp.input).bytes⟩ :: r.calls⟩ :=
  if_pos h

/-- Other responses leave the buffer as it is. -/
theorem Replies.step_not_replied {rsp : RemoteResponse} (h : ¬ rsp.Replied) :
    r.step (.respond rsp) = r :=
  if_neg h

/-- Replies stay faithful exactly when the buffer ends the next one. -/
theorem Replies.faithful_step (h : r.Faithful) (m : StackMove) :
    (r.step m).Faithful ↔ m.Ended r := by
  cases m with
  | scribble b => exact iff_of_true h trivial
  | respond rsp =>
    unfold StackMove.Ended
    by_cases hrep : rsp.Replied
    · have hcalls : ∀ c ∈ r.calls, c.text = some c.body := h
      rw [step_replied hrep, Faithful, List.forall_mem_cons, and_iff_left hcalls]
      dsimp only
      rw [cString_evbufferRemove_iff]
      exact ⟨fun hends _ => hends, fun hends => hends hrep⟩
    · rw [step_not_replied hrep]
      exact iff_of_true h fun hrep' => absurd hrep' hrep

/-- In every run of responses over a stack that others use too, all replies are the bodies
of their responses exactly when each body has no NUL, is shorter than the buffer, and is
ended by a zero byte that the buffer held before. -/
theorem faithful_iff_along (b : WriteAddr) (moves : List StackMove) :
    (∀ r ∈ moves.scanl Replies.step ⟨b, []⟩, r.Faithful) ↔
      Machine.Along Replies.step (fun r m => m.Ended r) ⟨b, []⟩ moves := by
  have hstart : Replies.Faithful ⟨b, []⟩ := fun c hc => absurd hc List.not_mem_nil
  have hstep : ∀ (r : Replies) (m : StackMove), r.Faithful →
      ((r.step m).Faithful ↔ m.Ended r) := fun r m h => Replies.faithful_step h m
  exact Machine.forall_scanl_iff_along hstep hstart moves

/-- No body is protected: some other contents of the buffer give another text. -/
theorem exists_unfaithful (body : List UInt8) :
    ∃ b : WriteAddr, cString (b.evbufferRemove body).bytes ≠ some body := by
  refine ⟨.fill 1, fun h => ?_⟩
  obtain ⟨-, hlt, hget⟩ := (cString_evbufferRemove_iff _ _).mp h
  unfold WriteAddr.fill at hget
  rw [List.getElem?_replicate, if_pos hlt] at hget
  cases hget

/-- The shorter of two responses is read with the rest of the longer one. -/
theorem reply_with_stale_byte :
    ¬ ∀ (b : WriteAddr) (responses : List RemoteResponse),
      (∀ rsp ∈ responses, rsp.Replied ∧ 0 ∉ rsp.input) →
      ∀ r ∈ (responses.map StackMove.respond).scanl Replies.step ⟨b, []⟩, r.Faithful := by
  intro hfaithful
  have hlast := hfaithful (.fill 0) [⟨200, [], [97, 98]⟩, ⟨200, [], [99]⟩] (by decide)
    (Replies.step (Replies.step ⟨.fill 0, []⟩ (.respond ⟨200, [], [97, 98]⟩))
      (.respond ⟨200, [], [99]⟩)) (by simp [List.scanl_cons])
  have htext := hlast ⟨[99], _⟩ (List.mem_cons_self ..)
  obtain ⟨-, -, hget⟩ := (cString_evbufferRemove_iff _ _).mp htext
  have hstale : ((WriteAddr.fill 0).evbufferRemove [97, 98]).bytes[1]? = some 98 := rfl
  exact absurd (hstale.symm.trans hget) (by decide)

end ServerCom.Http
