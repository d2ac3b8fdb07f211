import ServerCom.Redis.Interpretation.ReaderSession
import ServerCom.Redis.Interpretation.ReplySpine
import ServerCom.Redis.Interpretation.RespReading

/-!
# The replies of a reader

What a reader gives depends on the bytes it was fed, and not on how they were cut or when it
was asked. The texts of values are read as these values up to the first one that is nested too
deeply. Commands are read back as their arguments.
-/

namespace ServerCom.Redis

open Machine Reader Text

namespace Session

variable {calls calls₁ calls₂ : List ReaderCall}

/-- Of two readers that were fed the same bytes, in whatever pieces and with whatever calls
between them, one has given the first replies of the other. One that has nothing more to give has
given all the other one has, and two such readers report the same error. -/
theorem replies_eq_of_received (h₁ : Along step Fits start calls₁)
    (h₂ : Along step Fits start calls₂)
    (hreceived : (run calls₁).received = (run calls₂).received) :
    ((run calls₁).replies <+: (run calls₂).replies ∨
      (run calls₂).replies <+: (run calls₁).replies) ∧
    ((run calls₂).Exhausted → (run calls₁).replies <+: (run calls₂).replies ∧
      ((run calls₁).Exhausted → (run calls₁).replies = (run calls₂).replies ∧
        ((run calls₁).step .getReply).undefined = ((run calls₂).step .getReply).undefined ∧
        (((run calls₁).step .getReply).undefined = false →
          ((run calls₁).step .getReply).reader.err =
            ((run calls₂).step .getReply).reader.err))) := by
  have hs₁ := standing_run h₁
  have hs₂ := standing_run h₂
  -- both have given first replies of what these bytes hold
  have hfront₁ := hs₁.replies_prefix
  rw [hreceived] at hfront₁
  refine ⟨List.prefix_or_prefix_of_prefix hfront₁ hs₂.replies_prefix, fun he₂ => ?_⟩
  obtain ⟨hall₂, hend₂⟩ := (standing_getReply hs₂).2 he₂
  refine ⟨hall₂ ▸ hfront₁, fun he₁ => ?_⟩
  obtain ⟨hall₁, hend₁⟩ := (standing_getReply hs₁).2 he₁
  rw [hreceived] at hall₁ hend₁
  exact ⟨hall₁.symm.trans hall₂, hend₁.status_eq hend₂⟩

/-- A status line that arrives in two pieces. -/
theorem replies_eq_of_received_halves :
    (run [.feed [43, 79], .getReply, .feed [75, 13, 10], .getReply]).replies =
      (run [.feed [43, 79, 75, 13, 10], .getReply]).replies := by
  have h₁ : Along step Fits start
      [.feed [43, 79], .getReply, .feed [75, 13, 10], .getReply] := by decide +kernel
  have h₂ : Along step Fits start [.feed [43, 79, 75, 13, 10], .getReply] := by decide +kernel
  exact (((replies_eq_of_received h₁ h₂ (by decide +kernel)).2 (by decide +kernel)).2
    (by decide +kernel)).1

/-- The text of some values, of which any part has arrived, is read as the first of these
values; as all of them when it has arrived, up to the first in which arrays are nested more
than eight deep. That one is the only error. -/
theorem replies_of_values {xs : List Resp} {more : List UInt8} (hxs : ∀ x ∈ xs, x.Legal)
    (h : Along step Fits start calls)
    (hreceived : (run calls).received ++ more = Resp.encodeAll xs) :
    (run calls).replies <+: (xs.takeWhile (·.levels ≤ 8)).map Resp.toReply ∧
    ((run calls).Exhausted → more = [] →
      (run calls).replies = (xs.takeWhile (·.levels ≤ 8)).map Resp.toReply ∧
      ((run calls).step .getReply).undefined = false ∧
      ((run calls).step .getReply).reader.err =
        if ∀ x ∈ xs, x.levels ≤ 8 then none else some (.protocol, depthText)) := by
  obtain ⟨hfront, hend⟩ := (standing_run h).of_stream hreceived (drain_values hxs)
  refine ⟨hfront, fun he hmore => ?_⟩
  obtain ⟨hall, hstatus⟩ := hend he hmore
  refine ⟨hall, ?_⟩
  by_cases hle : Resp.levelsAll xs ≤ 8
  · rw [if_pos (Resp.levelsAll_le.mp hle)]
    rw [if_pos hle] at hstatus
    cases hstatus with
    | wait hundef herr => exact ⟨hundef, herr⟩
  · rw [if_neg (fun hall => hle (Resp.levelsAll_le.mpr hall))]
    rw [if_neg hle] at hstatus
    cases hstatus with
    | error hundef herr => exact ⟨hundef, herr⟩

/-- An array that arrives in two pieces. -/
theorem replies_of_values_array :
    (run [.feed [42, 49, 13], .getReply, .feed [10, 58, 55, 13, 10], .getReply]).replies =
      [.array 1 [some (.integer 7)]] := by
  have hseven : ∀ x ∈ [Resp.integer 7], x.Legal := by
    simpa using Resp.Legal.integer (by decide) (by decide)
  have hlegal : ∀ x ∈ [Resp.array [.integer 7]], x.Legal := by
    simpa using Resp.Legal.array (by decide) hseven
  have h : Along step Fits start
      [.feed [42, 49, 13], .getReply, .feed [10, 58, 55, 13, 10], .getReply] := by decide +kernel
  exact ((replies_of_values hlegal h (by decide +kernel)).2 (by decide +kernel) rfl).1

/-- Commands that are sent one behind the other are read back as their arguments, in order
and one array for each, however their bytes arrive. -/
theorem replies_of_commands {argss : List (List Arg)} {texts : List (List UInt8)}
    {more : List UInt8} (htexts : argss.map redisFormatCommandArgv = texts.map some)
    (h : Along step Fits start calls) (hreceived : (run calls).received ++ more = texts.flatten) :
    (run calls).replies <+: argss.map (fun args =>
      .array args.length (args.map fun arg => some (.text .string arg))) ∧
    ((run calls).Exhausted → more = [] →
      (run calls).replies = argss.map (fun args =>
        .array args.length (args.map fun arg => some (.text .string arg))) ∧
      ((run calls).step .getReply).undefined = false ∧
      ((run calls).step .getReply).reader.err = none) := by
  obtain ⟨hfront, hend⟩ := (standing_run h).of_stream hreceived (drain_commands htexts)
  refine ⟨hfront, fun he hmore => ?_⟩
  obtain ⟨hgiven, hstatus⟩ := hend he hmore
  cases hstatus with
  | wait hundef herr => exact ⟨hgiven, hundef, herr⟩

theorem replies_of_commands_get :
    (run [.feed (commandText [[71]]), .getReply]).replies =
      [.array 1 [some (.text .string [71])]] := by
  have htexts : [[[71]]].map redisFormatCommandArgv = [commandText [[71]]].map some := by
    decide +kernel
  have h : Along step Fits start [.feed (commandText [[71]]), .getReply] := by decide +kernel
  exact ((replies_of_commands htexts h (by decide +kernel)).2 (by decide +kernel) rfl).1

/-- Where every count that is read of an array is one it can have, no object is written outside
of its array, and each reply that is given has all its elements. -/
theorem replies_whole (h : Along step Fits start calls) (hcounts : CountsFit (run calls).received) :
    (run calls).undefined = false ∧ ∀ reply ∈ (run calls).replies, reply.Whole := by
  have hs := standing_run h
  have hstack : Pending.start.rstack = newTask (-1) :: [] := rfl
  have hspine : Spine Pending.start.rstack Pending.start.reply := .root ..
  obtain ⟨hwhole, hstop⟩ := drain_whole hstack hspine (Nat.lt_succ_self _) hcounts
  have hfront := hs.replies_prefix
  refine ⟨?_, fun reply hreply => hwhole reply (hfront.subset hreply)⟩
  cases hs with
  | ready ready hlen hundef reached => exact hundef
  | error type str herr hundef hlen hdrain => exact hundef
  | undefined hundef hdrain => exact absurd (by rw [hdrain]) hstop

theorem replies_whole_array :
    (run [.feed [42, 49, 13, 10, 58, 55, 13, 10], .getReply]).undefined = false := by
  have h : Along step Fits start [.feed [42, 49, 13, 10, 58, 55, 13, 10], .getReply] := by
    decide +kernel
  exact (replies_whole h (by decide +kernel)).1

end Session

end ServerCom.Redis
