import ServerCom.Core.Machine.Guarded
import ServerCom.Http.Native.Client

/-!
# One answer, one deletion

A client that is asked once, and whose request `libevent` accepts, calls the user back once
and deletes itself once, behind the callback. `m_is_request` is never set, so that a second
call of `Request` starts a second exchange.
-/

namespace ServerCom.Http

open Machine

/-- The call of `Request` gets as far as `evhttp_make_request`. -/
def RequestCall.starts (r : RequestCall) : Prop :=
  r.url ≠ none ∧ (∃ hu, r.parsed = some hu ∧ hu.host ≠ none) ∧
    r.dnsCreated = true ∧ r.connCreated = true

namespace ClientWorld

/-- Where a client is between its creation and its deletion. -/
inductive Phase (w : ClientWorld) : Prop where
  /-- Nothing was asked for. -/
  | fresh (requests : w.requests = []) (callbacks : w.callbacks = []) (running : w.running = 0)
      (deletions : w.deletions = 0) (inFlight : w.inFlight = [])
  /-- One exchange is in flight. -/
  | waiting (requests : w.requests = [true]) (callbacks : w.callbacks = [])
      (running : w.running = 0) (deletions : w.deletions = 0) (inFlight : w.inFlight.length = 1)
  /-- The only callback is running. -/
  | answering (requests : w.requests.length = 1) (callbacks : w.callbacks.length = 1)
      (running : w.running = 1) (deletions : w.deletions = 0) (inFlight : w.inFlight = [])
  /-- The only callback has returned, and the object is deleted. -/
  | ended (requests : w.requests.length = 1) (callbacks : w.callbacks.length = 1)
      (running : w.running = 0) (deletions : w.deletions = 1) (inFlight : w.inFlight = [])

/-- One answer for the first request, nothing it needs is dropped, and one deletion behind the
answer. -/
structure AnsweredOnce (w : ClientWorld) : Prop where
  /-- No deleted object is used. -/
  fault : w.fault = false
  /-- No exchange is dropped without its answer. -/
  dropped : w.dropped = []
  /-- The callback comes once, and the deletion once behind it. -/
  phase : w.Phase

/-- `Request` is called for the first time, and `libevent` accepts what it is given. -/
def Guard (w : ClientWorld) : ClientMove → Prop
  | .request r => w.requests = [] ∧ (r.starts → r.requestMade = true)
  | _ => True

variable {w : ClientWorld}

/-- A new client was not asked. -/
theorem answeredOnce_create : create.AnsweredOnce :=
  ⟨rfl, rfl, .fresh rfl rfl rfl rfl rfl⟩

/-- What a call of `Request` does: it fails with a callback, or starts an exchange. -/
theorem request_cases (w : ClientWorld) (r : RequestCall) (hnew : w.client.isRequest = false) :
    (∃ client dnsBases msg, client.isRequest = false ∧ ¬ r.starts ∧
      w.request r = failRequest { w with client := client, dnsBases := dnsBases } msg) ∨
    ∃ client dnsBases host port uri, client.isRequest = false ∧ r.starts ∧
      w.request r =
        makeRequest { w with client := client, dnsBases := dnsBases } r host port uri := by
  rw [request, hnew, if_neg Bool.false_ne_true]
  cases hurl : r.url with
  | none => exact .inl ⟨w.client, w.dnsBases, _, hnew, fun hs => hs.1 hurl, rfl⟩
  | some url =>
    cases hparsed : r.parsed with
    | none =>
      refine .inl ⟨w.client, w.dnsBases, _, hnew, ?_, rfl⟩
      rintro ⟨-, ⟨hu, hhu, -⟩, -⟩
      exact absurd (hparsed.symm.trans hhu) (by simp)
    | some hu =>
      cases hhost : hu.host with
      | none =>
        refine .inl ⟨w.client, w.dnsBases, "Parse host failed! ", hnew, ?_, by simp [hhost]⟩
        rintro ⟨-, ⟨hu', hhu, hne⟩, -⟩
        exact hne (Option.some.inj (hparsed.symm.trans hhu) ▸ hhost)
      | some host =>
        cases hdns : r.dnsCreated with
        | false =>
          refine .inl ⟨{ w.client with dnsbase := none }, w.dnsBases, "Create dns base failed!",
            hnew, fun hs => absurd hs.2.2.1 (by simp [hdns]), ?_⟩
          simp [hhost]
        | true =>
          cases hconn : r.connCreated with
          | false =>
            refine .inl ⟨⟨some w.dnsBases, none, w.client.isRequest⟩, w.dnsBases + 1,
              "Create evhttp connection failed!", hnew,
              fun hs => absurd hs.2.2.2 (by simp [hconn]), ?_⟩
            simp [hhost]
          | true =>
            refine .inr ⟨{ w.client with dnsbase := some w.dnsBases }, w.dnsBases + 1, host,
              if hu.port < 0 then 80 else hu.port, if hu.path.getD [] = [] then [47] else url,
              hnew, ?_, by simp [hhost]⟩
            exact ⟨by simp [hurl], ⟨hu, hparsed, by simp [hhost]⟩, hdns, hconn⟩

/-- A first, accepted call is answered at once or leaves one exchange in flight. -/
theorem AnsweredOnce.request (h : w.AnsweredOnce) (hnew : w.client.isRequest = false)
    {r : RequestCall} (hg : w.Guard (.request r)) : (w.request r).AnsweredOnce := by
  obtain ⟨hnone, hmade⟩ := hg
  cases h.phase with
  | waiting requests => exact absurd (requests.symm.trans hnone) (List.cons_ne_nil _ _)
  | answering requests => exact absurd requests (by simp [hnone])
  | ended requests => exact absurd requests (by simp [hnone])
  | fresh requests callbacks running deletions inFlight =>
    rcases request_cases w r hnew with ⟨client, dnsBases, msg, -, -, hr⟩ |
      ⟨client, dnsBases, host, port, uri, -, hstarts, hr⟩
    · rw [hr]
      refine ⟨h.fault, h.dropped, .answering ?_ ?_ ?_ deletions inFlight⟩
      · simp [failRequest, callBack, requests]
      · simp [failRequest, callBack, callbacks]
      · simp [failRequest, callBack, running]
    · rw [hr]
      refine ⟨h.fault, h.dropped, .waiting ?_ callbacks running deletions ?_⟩
      · simp [makeRequest, requests]
      · simp [makeRequest, hmade hstarts, inFlight]

/-- The end of the exchange in flight is answered. -/
theorem AnsweredOnce.finish (h : w.AnsweredOnce) {c : ConnPtr} (rsp : Option RemoteResponse)
    (hc : c ∈ w.inFlight.map Exchange.connection) :
    (w.remoteReadCallback c rsp).AnsweredOnce := by
  cases h.phase with
  | fresh _ _ _ _ inFlight => exact absurd hc (by simp [inFlight])
  | answering _ _ _ _ inFlight => exact absurd hc (by simp [inFlight])
  | ended _ _ _ _ inFlight => exact absurd hc (by simp [inFlight])
  | waiting requests callbacks running deletions inFlight =>
    obtain ⟨e, he⟩ := List.length_eq_one_iff.mp inFlight
    have hec : e.connection = c := by simpa [he, eq_comm] using hc
    rw [remoteReadCallback, if_pos deletions]
    refine ⟨h.fault, h.dropped, .answering ?_ ?_ ?_ deletions ?_⟩
    · simp [callBack, requests]
    · simp [callBack, callbacks]
    · simp [callBack, running]
    · simp [callBack, he, hec]

/-- A deletion frees the connection. -/
theorem delete_eq_free (halive : w.deletions = 0) {c : ConnPtr}
    (hc : w.client.connection = some c) :
    w.delete = { w with deletions := 1 }.connectionFree c := by
  simp [delete, halive, hc]

/-- Without a connection there is nothing to free. -/
theorem delete_eq_none (halive : w.deletions = 0) (hc : w.client.connection = none) :
    w.delete = { w with deletions := 1 } := by
  simp [delete, halive, hc]

/-- The deletion behind the only callback drops nothing. -/
theorem AnsweredOnce.ret (h : w.AnsweredOnce) (hrun : 0 < w.running) :
    { w with running := w.running - 1 }.delete.AnsweredOnce := by
  cases h.phase with
  | fresh _ _ running => exact absurd hrun (by simp [running])
  | waiting _ _ running => exact absurd hrun (by simp [running])
  | ended _ _ running => exact absurd hrun (by simp [running])
  | answering requests callbacks running deletions inFlight =>
    have hended : w.running - 1 = 0 := by omega
    cases hconn : w.client.connection with
    | none =>
      rw [delete_eq_none (w := { w with running := w.running - 1 }) deletions hconn]
      exact ⟨h.fault, h.dropped, .ended requests callbacks hended rfl inFlight⟩
    | some c =>
      rw [delete_eq_free (w := { w with running := w.running - 1 }) deletions hconn]
      refine ⟨h.fault, ?_, .ended requests callbacks hended rfl ?_⟩
      · simp [connectionFree, h.dropped, inFlight]
      · simp [connectionFree, inFlight]

/-- The close of a connection changes the pointer to it only, while the object lives. -/
theorem AnsweredOnce.close (h : w.AnsweredOnce) (c : ConnPtr) (halive : w.deletions = 0) :
    (w.connectionCloseCallback c).AnsweredOnce := by
  rw [connectionCloseCallback, if_pos halive]
  refine ⟨h.fault, h.dropped, ?_⟩
  cases h.phase with
  | fresh requests callbacks running deletions inFlight =>
    exact .fresh requests callbacks running deletions inFlight
  | waiting requests callbacks running deletions inFlight =>
    exact .waiting requests callbacks running deletions inFlight
  | answering requests callbacks running deletions inFlight =>
    exact .answering requests callbacks running deletions inFlight
  | ended requests callbacks running deletions inFlight =>
    exact .ended requests callbacks running deletions inFlight

/-! ## Runs -/

/-- What else holds along a run of accepted first calls: only the connection of a living
object is reported on. -/
structure Tidy (w : ClientWorld) : Prop where
  /-- `m_is_request` is never set. -/
  isRequest : w.client.isRequest = false
  /-- The connection reported on is the one the object knows. -/
  reporting : ∀ c ∈ w.reporting, w.deletions = 0 ∧ w.client.connection = some c
  /-- There is none before the first call. -/
  unasked : w.requests = [] → w.reporting = []

/-- A new client is reported on no connection. -/
theorem tidy_create : create.Tidy := ⟨rfl, fun _ hc => absurd hc List.not_mem_nil, fun _ => rfl⟩

/-- The first request leaves one connection to report on. -/
theorem Tidy.request (h : w.Tidy) {r : RequestCall} (hg : w.Guard (.request r))
    (halive : w.deletions = 0) : (w.request r).Tidy := by
  have hnone : w.reporting = [] := h.unasked hg.1
  rcases request_cases w r h.isRequest with ⟨client, dnsBases, msg, hclient, -, hr⟩ |
    ⟨client, dnsBases, host, port, uri, hclient, -, hr⟩
  · rw [hr]
    refine ⟨hclient, fun c hc => ?_, fun _ => hnone⟩
    exact absurd hc (by simp [failRequest, callBack, hnone])
  · rw [hr]
    refine ⟨hclient, fun c hc => ?_, fun hasked => ?_⟩
    · have hcw : c = w.connections := by simpa [makeRequest, hnone] using hc
      exact ⟨halive, by rw [hcw]; rfl⟩
    · exact absurd hasked (by simp [makeRequest])

/-- The end of an exchange leaves the connections as they are. -/
theorem Tidy.finish (h : w.Tidy) (c : ConnPtr) (rsp : Option RemoteResponse) :
    (w.remoteReadCallback c rsp).Tidy := by
  rw [remoteReadCallback]
  split
  · exact ⟨h.isRequest, h.reporting, h.unasked⟩
  · exact ⟨h.isRequest, h.reporting, h.unasked⟩

/-- A connection is reported closed once. -/
theorem Tidy.close (h : w.Tidy) {c : ConnPtr} (hc : c ∈ w.reporting) :
    (w.connectionCloseCallback c).Tidy := by
  obtain ⟨halive, hcur⟩ := h.reporting c hc
  rw [connectionCloseCallback, if_pos halive]
  refine ⟨h.isRequest, fun d hd => ?_, fun hasked => ?_⟩
  · -- the object knows one connection only
    obtain ⟨hd, hne⟩ : d ∈ w.reporting ∧ d ≠ c := by simpa using hd
    exact absurd (Option.some.inj ((h.reporting d hd).2.symm.trans hcur)) hne
  · simp [h.unasked hasked]

/-- A deletion leaves no connection to report on. -/
theorem Tidy.ret (h : w.Tidy) (halive : w.deletions = 0) :
    { w with running := w.running - 1 }.delete.Tidy := by
  cases hconn : w.client.connection with
  | none =>
    rw [delete_eq_none (w := { w with running := w.running - 1 }) halive hconn]
    refine ⟨h.isRequest, fun c hc => ?_, h.unasked⟩
    exact absurd ((h.reporting c hc).2.symm.trans hconn) (by simp)
  | some c =>
    rw [delete_eq_free (w := { w with running := w.running - 1 }) halive hconn]
    refine ⟨h.isRequest, fun d hd => ?_, fun hasked => ?_⟩
    · obtain ⟨hd, hne⟩ : d ∈ w.reporting ∧ d ≠ c := by simpa [connectionFree] using hd
      exact absurd (Option.some.inj ((h.reporting d hd).2.symm.trans hconn)) hne
    · simp [connectionFree, h.unasked hasked]

/-- One move of a guarded run keeps both. -/
theorem AnsweredOnce.step (h : w.AnsweredOnce) (ht : w.Tidy) (m : ClientMove) (hg : w.Guard m) :
    (w.step m).AnsweredOnce ∧ (w.step m).Tidy := by
  cases m with
  | request r =>
    rw [ClientWorld.step]
    split_ifs with halive
    · exact ⟨h.request ht.isRequest hg, ht.request hg halive⟩
    · exact ⟨h, ht⟩
  | finish c rsp =>
    rw [ClientWorld.step]
    split_ifs with hc
    · exact ⟨h.finish rsp hc.2, ht.finish c rsp⟩
    · exact ⟨h, ht⟩
  | close c =>
    rw [ClientWorld.step]
    split_ifs with hc
    · exact ⟨h.close c (ht.reporting c hc.2).1, ht.close hc.2⟩
    · exact ⟨h, ht⟩
  | ret =>
    rw [ClientWorld.step]
    split_ifs with hrun
    · refine ⟨h.ret hrun, ht.ret ?_⟩
      cases h.phase with
      | fresh _ _ running => exact absurd hrun (by simp [running])
      | waiting _ _ running => exact absurd hrun (by simp [running])
      | ended _ _ running => exact absurd hrun (by simp [running])
      | answering _ _ _ deletions => exact deletions
    · exact ⟨h, ht⟩

end ClientWorld

end ServerCom.Http
