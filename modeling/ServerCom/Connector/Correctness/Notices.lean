import ServerCom.Connector.Interpretation.Notices
import ServerCom.Core.Machine.Guarded

/-!
# One notice per connection

`DisConnect` calls `on_disconnected` whether or not there is anything to disconnect. The
object has a bufferevent exactly while a request is not answered, so the notices are right
exactly in the runs in which every `DisConnect` that is entered finds `m_buf_e` set.
-/

namespace ServerCom.Connector

open Machine

section request

variable {c : Connection} {o : Outcome} {r : Request}

/-- `ConnectByAddr` returns true only with a bufferevent. -/
theorem Connection.connectByAddr_returned (h : (c.connectByAddr o).2 = true) :
    (c.connectByAddr o).1.bufE ≠ none := by
  by_cases hp : c.addr.sinPort = 0
  · rw [connectByAddr_of_port hp] at h
    cases h
  by_cases hs : o.socket < 0
  · rw [connectByAddr_of_socket hp hs] at h
    cases h
  cases hn : o.newOk with
  | false =>
    rw [connectByAddr_of_newFail hp (not_lt.mp hs) hn] at h
    cases h
  | true =>
    rw [connectByAddr_of_new hp (not_lt.mp hs) hn]
    exact Option.some_ne_none _

/-- A call that returns true leaves a bufferevent, unless it had nothing to ask for. -/
theorem Connection.request_returned (h : (c.request o r).2 = true) :
    if c.asks r then (c.request o r).1.bufE ≠ none else (c.request o r).1 = c := by
  cases r with
  | connectInitIp ip port =>
    unfold request connectInitIp at h ⊢
    split_ifs at h ⊢ with hask hfd
    · cases ip with
      | none => cases h
      | some ip => exact connectByAddr_returned h
    · exact absurd rfl hask
  | connectInit svrAddr =>
    unfold request connectInit at h ⊢
    split_ifs at h ⊢ with hask hfd
    · exact connectByAddr_returned h
    · exact absurd rfl hask
  | tryReconnect =>
    cases hc : c.isConnect with
    | true =>
      have hcall : c.request o .tryReconnect = (c, true) := if_pos hc
      rw [asks, hc, hcall]
      rfl
    | false =>
      have hcall : c.request o .tryReconnect = c.connectByAddr o :=
        if_neg (ne_true_of_eq_false hc)
      rw [hcall] at h ⊢
      rw [asks, hc]
      exact connectByAddr_returned h

end request

namespace Lifetime

variable {s : Lifetime} {mv : Move}

/-- The move runs the body of `DisConnect`. -/
def Enters (s : Lifetime) (mv : Move) : Prop :=
  s.overrun = false ∧ mv = .tick ∧ s.stack.head? = some .disConnect

/-- A `DisConnect` that is entered finds `m_buf_e` set. -/
def Guard (s : Lifetime) (mv : Move) : Prop := s.Enters mv → s.object.bufE ≠ none

/-- What a move does to the history and to `m_buf_e`. -/
inductive Effect (s s' : Lifetime) : Prop where
  /-- A connection was asked for. -/
  | requested (history : s'.history = .requested :: s.history) (bufE : s'.object.bufE ≠ none)
  /-- Neither has changed. -/
  | quiet (history : s'.history = s.history) (bufE : s'.object.bufE = s.object.bufE)

/-- A pass of the read loop changes neither. -/
theorem readPass_effect (rd : BuffereventRead) (s : Lifetime) (input : List UInt8) (inputLen : Int)
    (rest : List Frame) : Effect s (s.readPass rd input inputLen rest) := by
  unfold readPass
  split_ifs
  · split
    · exact .quiet rfl rfl
    · exact .quiet rfl rfl
    · exact .quiet rfl rfl
    · exact .quiet rfl rfl
  · exact .quiet rfl rfl

/-- Where the code goes on, only `DisConnect` changes them. -/
theorem tick_effect (rd : BuffereventRead) (s : Lifetime) (rest : List Frame) {f : Frame}
    (hf : f ≠ .disConnect) :
    Effect s (s.tick rd rest f) := by
  cases f with
  | readLoop input inputLen => exact readPass_effect rd s input inputLen rest
  | afterRecv input inputLen => exact .quiet rfl rfl
  | afterOnError => exact .quiet rfl rfl
  | disConnect => exact absurd rfl hf
  | user cb => exact .quiet rfl rfl

/-- A request that is made leaves a bufferevent, and one that is not changes neither. -/
theorem request_effect (s : Lifetime) (r : Request) (o : Outcome) :
    Effect s (s.request r o) := by
  have hspec := Connection.request_returned (c := s.object) (o := o) (r := r)
  unfold request
  generalize s.object.request o r = called at hspec ⊢
  obtain ⟨c, returned⟩ := called
  cases returned with
  | false => exact .quiet rfl rfl
  | true =>
    have hspec := hspec rfl
    by_cases hask : s.object.asks r = true
    · rw [if_pos hask] at hspec
      exact .requested (if_pos hask) hspec
    · rw [if_neg hask] at hspec
      exact .quiet (if_neg hask) (congrArg (fun c : Connection => c.bufE) hspec)

/-- A call of the user is a request, or changes neither. -/
theorem userStep_effect (s : Lifetime) (act : UserAct) : Effect s (s.userStep act) := by
  cases act with
  | request r o => exact request_effect s r o
  | disConnect => exact .quiet rfl rfl
  | sendData call =>
    rw [userStep]
    split_ifs
    · exact .quiet rfl rfl
    · exact .quiet rfl rfl
  | ret => exact .quiet rfl rfl

/-- An event changes neither before its callbacks run. -/
theorem eventStep_effect (s : Lifetime) (events : UInt16) : Effect s (s.eventStep events) := by
  unfold eventStep
  split_ifs
  · exact .quiet rfl rfl
  · exact .quiet rfl rfl

/-- A move that enters `DisConnect` frees and notifies. -/
theorem step_enters (rd : BuffereventRead) (h : s.Enters mv) :
    (s.step rd mv).history = .disconnected :: s.history ∧ (s.step rd mv).object.bufE = none := by
  obtain ⟨hrun, rfl, hhead⟩ := h
  obtain ⟨rest, hstack⟩ := List.head?_eq_some_iff.mp hhead
  unfold step
  rw [hrun, hstack]
  refine ⟨rfl, ?_⟩
  change s.object.free.bufE = none
  unfold Connection.free Connection.freeBufE
  split
  · rfl
  · assumption

/-- Other moves do not notify. -/
theorem step_effect (rd : BuffereventRead) (h : ¬ s.Enters mv) : Effect s (s.step rd mv) := by
  unfold step
  split_ifs with hrun
  · exact .quiet rfl rfl
  · split
    · split_ifs
      · exact .quiet rfl rfl
      · exact .quiet rfl rfl
    · split_ifs
      · exact eventStep_effect s _
      · exact .quiet rfl rfl
    · rename_i f rest hstack
      apply tick_effect
      rintro rfl
      exact h ⟨Bool.eq_false_of_not_eq_true hrun, rfl, congrArg List.head? hstack⟩
    · exact userStep_effect s _
    · exact userStep_effect s _
    · exact .quiet rfl rfl

/-! ## Runs -/

/-- The object has a bufferevent exactly while a request is not answered. -/
def Tracks (s : Lifetime) : Prop := s.object.bufE ≠ none ↔ s.history.head? = some .requested

/-- At first there is neither a request nor a bufferevent. -/
theorem tracks_start (msg : MsgPack) : (start msg).Tracks :=
  iff_of_false (not_not.mpr rfl) fun h => by cases h

/-- A move keeps the bufferevent in step with the history. -/
theorem Tracks.step (h : s.Tracks) (rd : BuffereventRead) (mv : Move) : (s.step rd mv).Tracks := by
  unfold Tracks
  by_cases henter : s.Enters mv
  · obtain ⟨hhist, hbuf⟩ := step_enters rd henter
    rw [hhist, hbuf]
    simp
  · cases step_effect rd henter with
    | requested hhist hbuf =>
      rw [hhist]
      exact iff_of_true hbuf rfl
    | quiet hhist hbuf =>
      rw [hhist, hbuf]
      exact h

/-- A move keeps the history right exactly when it does not disconnect without a bufferevent. -/
theorem Tracks.answered_step_iff (h : s.Tracks) (ha : Answered s.history)
    (rd : BuffereventRead) (mv : Move) :
    Answered (s.step rd mv).history ↔ s.Guard mv := by
  unfold Guard
  by_cases henter : s.Enters mv
  · unfold Tracks at h
    rw [(step_enters rd henter).1, imp_iff_right henter, h]
    exact and_iff_left ha
  · refine iff_of_true ?_ (absurd · henter)
    cases step_effect rd henter with
    | requested hhist hbuf => rwa [hhist]
    | quiet hhist hbuf => rwa [hhist]

/-- In every state of a run the disconnects were reported once per connection exactly when
every `DisConnect` of the run finds `m_buf_e` set. -/
theorem reported_iff_along (rd : BuffereventRead) (msg : MsgPack) (moves : List Move) :
    (∀ s ∈ moves.scanl (step rd) (start msg), Reported s.history) ↔
      Along (step rd) Guard (start msg) moves := by
  have hstep : ∀ s mv, Tracks s → Reported s.history →
      (Reported (s.step rd mv).history ↔ s.Guard mv) := by
    intro s mv ht hr
    rw [← ht.answered_step_iff hr.answered rd mv]
    exact ⟨Reported.answered, Answered.reported⟩
  have hstart : Reported (start msg).history := ⟨trivial, Nat.le_refl 0⟩
  exact forall_scanl_iff_along_of (fun _ mv h => h.step rd mv) hstep (tracks_start msg) hstart moves

/-! ## Disconnects too many -/

/-- A request, its connection and the return from `OnConnected`. -/
def connects : List Move :=
  [.user (.request (.connectInit ⟨afInet, 80, 1⟩) ⟨5, true, true⟩), .event 0 0x80, .user .ret]

/-- `DisConnect` twice in a row, in `OnError`, and in `OnRecv` with an illegal length still
buffered. -/
def secondDisConnects : List (List Move) :=
  [[.user .disConnect, .tick, .user .ret, .user .disConnect, .tick],
    [.event 0 0x10, .user .disConnect, .tick, .user .ret, .user .ret, .tick, .tick],
    [.readable 0 [0, 0, 0, 1, 7, 0x7f, 0, 0, 0, 0], .tick, .tick, .user .disConnect, .tick,
      .user .ret, .user .ret, .tick, .tick, .tick, .tick]]

/-- `DisConnect` of an idle object, and a second one for a connection. -/
def strayDisConnects : List (List Move) :=
  [.user .disConnect, .tick] :: secondDisConnects.map fun moves => connects ++ moves

/-- Each of them calls `on_disconnected` more often than there were requests. -/
theorem strayDisConnects_not_reported :
    ¬ ∃ moves ∈ strayDisConnects,
      ∀ s ∈ moves.scanl (step .full) (start default), Reported s.history := by
  rintro ⟨moves, hmoves, hreported⟩
  have hlast := (hreported _ (foldl_mem_scanl _ _)).atMostOnce
  simp only [strayDisConnects, secondDisConnects, List.map_cons, List.map_nil, List.mem_cons,
    List.not_mem_nil, or_false] at hmoves
  rcases hmoves with rfl | rfl | rfl | rfl
  · exact absurd hlast (by decide +kernel)
  · exact absurd hlast (by decide +kernel)
  · exact absurd hlast (by decide +kernel)
  · exact absurd hlast (by decide +kernel)

end Lifetime

end ServerCom.Connector
