import ServerCom.Http.Native.Server

/-!
# One answer for each request

Over any sequence of requests and calls, the responses sent are one for each request, in
order: the first the user's code gave for it, or the server's own error. Between requests
the pointer is null, so that calls made there send nothing.
-/

namespace ServerCom.Http

/-- The response a call asks for. -/
def UserCall.response? : UserCall → Option Response
  | .reply code reason str => some (.reply code reason (str.takeWhile (· ≠ 0)))
  | .replyError code reason => some (.error code reason)
  | .getUri => none

/-- The response a request is owed: the first one asked for, or the server's error. -/
def owedResponse (calls : List UserCall) : Response :=
  (calls.findSome? UserCall.response?).getD (.error httpServUnavail (some svrHaveErrorCode))

/-- The responses owed for an event. -/
def Event.answers : Event → List (RequestPtr × Response)
  | .request req calls => [(req, owedResponse calls)]
  | .call _ => []

namespace Serving

variable {sent : List (RequestPtr × Response)} {req : RequestPtr}

/-- A call sends the response it asks for, if it asks for one. -/
theorem call_eq (s : Serving) (c : UserCall) :
    s.call c = match c.response? with
      | some r => s.send r
      | none => s := by
  cases c <;> rfl

/-- Without an open request a call does nothing. -/
theorem call_closed (c : UserCall) : call ⟨⟨none⟩, sent⟩ c = ⟨⟨none⟩, sent⟩ := by
  rw [call_eq]
  cases c.response? <;> rfl

/-- Without an open request no call does anything. -/
theorem calls_closed (calls : List UserCall) :
    calls.foldl call ⟨⟨none⟩, sent⟩ = ⟨⟨none⟩, sent⟩ := by
  induction calls with
  | nil => rfl
  | cons c calls ih => rw [List.foldl_cons, call_closed, ih]

/-- With an open request, the first response asked for is sent and the request is closed. -/
theorem calls_open (calls : List UserCall) :
    calls.foldl call ⟨⟨some req⟩, sent⟩ =
      match calls.findSome? UserCall.response? with
      | some r => ⟨⟨none⟩, sent ++ [(req, r)]⟩
      | none => ⟨⟨some req⟩, sent⟩ := by
  induction calls with
  | nil => rfl
  | cons c calls ih =>
    rw [List.foldl_cons, call_eq, List.findSome?_cons]
    cases c.response? with
    | none => exact ih
    | some r => exact calls_closed calls

/-- A request is answered once, and the pointer is null again. -/
theorem revRequestCB_eq (req : RequestPtr) (calls : List UserCall) :
    revRequestCB ⟨⟨none⟩, sent⟩ req calls = ⟨⟨none⟩, sent ++ [(req, owedResponse calls)]⟩ := by
  rw [revRequestCB, calls_open, owedResponse]
  cases calls.findSome? UserCall.response? <;> rfl

/-- An event sends what it owes. -/
theorem step_eq (e : Event) :
    step ⟨⟨none⟩, sent⟩ e = ⟨⟨none⟩, sent ++ e.answers⟩ := by
  cases e with
  | request req calls => exact revRequestCB_eq req calls
  | call c => rw [step, call_closed, Event.answers, List.append_nil]

/-- A run sends what its events owe, in order. -/
theorem foldl_step_eq (es : List Event) :
    es.foldl step ⟨⟨none⟩, sent⟩ = ⟨⟨none⟩, sent ++ es.flatMap Event.answers⟩ := by
  induction es generalizing sent with
  | nil => simp
  | cons e es ih => rw [List.foldl_cons, step_eq, ih, List.flatMap_cons, List.append_assoc]

/-- The open request, if there is one, is the one `RevRequest` runs for. -/
theorem tmpReq_calls (calls : List UserCall) :
    (calls.foldl call ⟨⟨some req⟩, sent⟩).svr.tmpReq =
      if calls.findSome? UserCall.response? = none then some req else none := by
  rw [calls_open]
  cases calls.findSome? UserCall.response? <;> rfl

/-- In `RevRequest` `GetUri` gives the URI of the request until a response was sent for it. -/
theorem getUri_calls (uri : RequestPtr → List UInt8) (calls : List UserCall) :
    (calls.foldl call ⟨⟨some req⟩, sent⟩).getUri uri =
      if calls.findSome? UserCall.response? = none then some (uri req) else none := by
  rw [getUri, tmpReq_calls]
  split <;> rfl

/-- Every request is answered exactly once, with the first response the user's code gives for
it or else the server's error, nothing else is sent, and outside `RevRequest` the pointer is
null. -/
theorem answered_once (es : List Event) :
    (es.foldl step start).sent = es.flatMap Event.answers ∧
      ∀ t ∈ es.scanl step start, t.svr.tmpReq = none := by
  refine ⟨by rw [start, foldl_step_eq, List.nil_append], fun t ht => ?_⟩
  obtain ⟨k, -, rfl⟩ := List.mem_iff_getElem.mp ht
  rw [List.getElem_scanl, start, foldl_step_eq]

end Serving

/-- Twice answered, not answered, and answered too late. -/
example :
    ([.request 1 [.getUri, .reply 200 none [104, 0, 105], .replyError 404 none], .request 2 [],
        .call (.reply 200 none [])].foldl Serving.step .start).sent =
      [(1, .reply 200 none [104]), (2, .error 503 (some svrHaveErrorCode))] := by
  decide

end ServerCom.Http
