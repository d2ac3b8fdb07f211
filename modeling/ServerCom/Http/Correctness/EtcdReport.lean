import Mathlib.Algebra.GroupWithZero.Nat
import Mathlib.Data.List.TakeDrop
import ServerCom.Http.Correctness.Once
import ServerCom.Http.Native.EtcdClient

/-!
# Every operation reports back

The client of an operation is asked once, so it is called back at most once. The owner hears
of a callback unless it is `ConnectFail`, and nothing comes back for a request that
`evhttp_make_request` refuses, as its result is not looked at. Those are the only operations
that never report.
-/

namespace ServerCom.Http

open Machine Text

namespace ClientWorld

variable {c : ClientWorld} {m : ClientMove}

/-- `libevent` did not take the request, and nothing will call the client back. -/
structure Unmade (c : ClientWorld) : Prop where
  /-- There was no callback. -/
  callbacks : c.callbacks = []
  /-- No exchange is in flight. -/
  inFlight : c.inFlight = []
  /-- No callback is running. -/
  running : c.running = 0
  /-- The object lives. -/
  deletions : c.deletions = 0

/-- A client that was asked once. -/
structure Asked (c : ClientWorld) : Prop where
  /-- It answers once. -/
  once : c.AnsweredOnce
  /-- The connections it is reported on are its own. -/
  tidy : c.Tidy
  /-- It was asked. -/
  asked : c.requests ≠ []

/-- Where the client of an operation can be. -/
def Known (c : ClientWorld) : Prop := c.Asked ∨ c.Unmade

/-- The owner never hears of the operation. -/
def Lost (c : ClientWorld) : Prop := c.Unmade ∨ .connectFail ∈ c.callbacks

/-- What the owner hears of the operation. -/
def heard (c : ClientWorld) : List OwnerCall := c.callbacks.filterMap UserCallback.forward

/-- A client whose request was made is not unmade. -/
theorem Asked.not_unmade (h : c.Asked) : ¬ c.Unmade := by
  intro hu
  cases h.once.phase with
  | fresh requests => exact h.asked requests
  | waiting _ _ _ _ inFlight => exact absurd inFlight (by simp [hu.inFlight])
  | answering _ callbacks => exact absurd callbacks (by simp [hu.callbacks])
  | ended _ callbacks => exact absurd callbacks (by simp [hu.callbacks])

/-- Behind its end, a client has told its owner of one callback exactly when it is not lost. -/
theorem Known.length_heard_iff (h : c.Known) (hq : c.inFlight = []) :
    c.heard.length = 1 ↔ ¬ c.Lost := by
  rcases h with h | h
  · have hlen : c.callbacks.length = 1 := by
      cases h.once.phase with
      | fresh requests => exact absurd requests h.asked
      | waiting _ _ _ _ inFlight => exact absurd inFlight (by simp [hq])
      | answering _ callbacks => exact callbacks
      | ended _ callbacks => exact callbacks
    obtain ⟨cb, hcb⟩ := List.length_eq_one_iff.mp hlen
    rw [heard, Lost, or_iff_right h.not_unmade, hcb]
    cases cb <;> simp [UserCallback.forward, List.filterMap]
  · refine iff_of_false ?_ (not_not.mpr (.inl h))
    simp [heard, h.callbacks]

/-! ## The call -/

/-- A request that `evhttp_make_request` refuses leaves nothing behind. -/
theorem request_unmade {r : RequestCall} (hs : r.starts) (hmade : r.requestMade = false) :
    (create.request r).Unmade := by
  rcases request_cases create r rfl with ⟨_, _, _, -, hns, -⟩ | ⟨_, _, _, _, _, -, -, hr⟩
  · exact absurd hs hns
  · rw [hr]
    exact ⟨rfl, by simp [makeRequest, hmade, create], rfl, rfl⟩

/-- A request that is made, or ends before it is, leaves an asked client. -/
theorem request_asked {r : RequestCall} (hmade : r.starts → r.requestMade = true) :
    (create.request r).Asked := by
  have hg : create.Guard (.request r) := ⟨rfl, hmade⟩
  refine ⟨answeredOnce_create.request rfl hg, tidy_create.request hg rfl, ?_⟩
  rcases request_cases create r rfl with ⟨_, _, _, -, -, hr⟩ | ⟨_, _, _, _, _, -, -, hr⟩
  · rw [hr]
    simp [failRequest, callBack]
  · rw [hr]
    simp [makeRequest]

/-- `Request` itself never calls `ConnectFail`. -/
theorem connectFail_notMem_request (r : RequestCall) :
    .connectFail ∉ (create.request r).callbacks := by
  rcases request_cases create r rfl with ⟨_, _, _, -, -, hr⟩ | ⟨_, _, _, _, _, -, -, hr⟩
  · rw [hr]
    simp [failRequest, callBack, create]
  · rw [hr]
    simp [makeRequest, create]

/-- A client that was asked is known, whatever `libevent` answers. -/
theorem request_known (r : RequestCall) : (create.request r).Known := by
  by_cases hmade : r.starts → r.requestMade = true
  · exact .inl (request_asked hmade)
  · obtain ⟨hs, hm⟩ := Classical.not_imp.mp hmade
    exact .inr (request_unmade hs (by simpa using hm))

/-- A call is lost at once exactly when `evhttp_make_request` refuses it. -/
theorem lost_request_iff (r : RequestCall) :
    ¬ (create.request r).Lost ↔ (r.starts → r.requestMade = true) := by
  constructor
  · intro hl hs
    by_contra hm
    exact hl (.inl (request_unmade hs (by simpa using hm)))
  · intro hmade
    exact not_or.mpr ⟨(request_asked hmade).not_unmade, connectFail_notMem_request r⟩

/-! ## What happens afterwards -/

/-- What a move calls the client back with. -/
def called (c : ClientWorld) : ClientMove → List UserCallback
  | .finish conn rsp =>
    if c.running = 0 ∧ conn ∈ c.inFlight.map Exchange.connection then [remoteCallback rsp] else []
  | .request _ => []
  | .close _ => []
  | .ret => []

/-- A deletion calls nobody back. -/
theorem delete_callbacks (c : ClientWorld) :
    c.delete.callbacks = c.callbacks ∧ c.delete.requests = c.requests := by
  by_cases halive : c.deletions = 0
  · cases hc : c.client.connection with
    | none =>
      rw [delete_eq_none halive hc]
      exact ⟨rfl, rfl⟩
    | some conn =>
      rw [delete_eq_free halive hc]
      exact ⟨rfl, rfl⟩
  · rw [delete, if_neg halive]
    exact ⟨rfl, rfl⟩

/-- Behind `Request`, only the end of an exchange calls a client back. -/
theorem step_callbacks (hm : ∀ r, m ≠ .request r) (halive : c.inFlight ≠ [] → c.deletions = 0) :
    (c.step m).callbacks = c.callbacks ++ c.called m := by
  cases m with
  | request r => exact absurd rfl (hm r)
  | finish conn rsp =>
    rw [step, called]
    split_ifs with hc
    · have hne : c.inFlight ≠ [] := fun he => absurd hc.2 (by simp [he])
      rw [remoteReadCallback, if_pos (halive hne)]
      rfl
    · exact (List.append_nil _).symm
  | close conn =>
    rw [step, called, List.append_nil]
    split_ifs
    · rw [connectionCloseCallback]
      split_ifs <;> rfl
    · rfl
  | ret =>
    rw [step, called, List.append_nil]
    split_ifs
    · exact (delete_callbacks _).1
    · rfl

/-- Only a call of `Request` returns something. -/
theorem step_requests (hm : ∀ r, m ≠ .request r) : (c.step m).requests = c.requests := by
  cases m with
  | request r => exact absurd rfl (hm r)
  | finish conn rsp =>
    rw [step]
    split_ifs
    · rw [remoteReadCallback]
      split_ifs <;> rfl
    · rfl
  | close conn =>
    rw [step]
    split_ifs
    · rw [connectionCloseCallback]
      split_ifs <;> rfl
    · rfl
  | ret =>
    rw [step]
    split_ifs
    · exact (delete_callbacks _).2
    · rfl

/-- An asked client stays asked. -/
theorem Asked.step (h : c.Asked) (hm : ∀ r, m ≠ .request r) : (c.step m).Asked := by
  have hg : c.Guard m := by
    cases m with
    | request r => exact absurd rfl (hm r)
    | _ => trivial
  obtain ⟨honce, htidy⟩ := h.once.step h.tidy m hg
  exact ⟨honce, htidy, by rw [step_requests hm]; exact h.asked⟩

/-- Nothing happens to a client whose request was not taken, except that its connection
closes. -/
theorem Unmade.step (h : c.Unmade) (hm : ∀ r, m ≠ .request r) : (c.step m).Unmade := by
  cases m with
  | request r => exact absurd rfl (hm r)
  | finish conn rsp => rwa [ClientWorld.step, if_neg (by simp [h.inFlight])]
  | close conn =>
    rw [ClientWorld.step]
    split_ifs
    · rw [connectionCloseCallback, if_pos h.deletions]
      exact ⟨h.callbacks, h.inFlight, h.running, h.deletions⟩
    · exact h
  | ret => rwa [ClientWorld.step, if_neg (by simp [h.running])]

/-- A known client stays known. -/
theorem Known.step (h : c.Known) (hm : ∀ r, m ≠ .request r) : (c.step m).Known :=
  h.imp (fun ha => ha.step hm) fun hu => hu.step hm

/-- A client with an exchange in flight lives. -/
theorem Known.alive (h : c.Known) (hne : c.inFlight ≠ []) : c.deletions = 0 := by
  rcases h with h | h
  · cases h.once.phase with
    | fresh _ _ _ deletions => exact deletions
    | waiting _ _ _ deletions => exact deletions
    | answering _ _ _ deletions => exact deletions
    | ended _ _ _ _ inFlight => exact absurd inFlight hne
  · exact h.deletions

/-- A client is lost when its exchange ends without a response, and stays so. -/
theorem Known.lost_step_iff (h : c.Known) (hm : ∀ r, m ≠ .request r) :
    (c.step m).Lost ↔ c.Lost ∨ .connectFail ∈ c.called m := by
  rcases h with ha | hu
  · rw [Lost, Lost, or_iff_right (ha.step hm).not_unmade, or_iff_right ha.not_unmade,
      step_callbacks hm (Known.alive (.inl ha)), List.mem_append]
  · exact iff_of_true (.inl (hu.step hm)) (.inl (.inl hu))

end ClientWorld

/-! ## The etcd client -/

namespace EtcdWorld

variable {w : EtcdWorld} {i : Nat}

/-- An exchange of this operation can end now. -/
def CanEnd (w : EtcdWorld) (i : Nat) (conn : ConnPtr) : Prop :=
  w.idle = true ∧ ∃ c, w.clients[i]? = some c ∧ conn ∈ c.inFlight.map Exchange.connection

/-- The exchange that ends has a response, and a request that is made is taken. -/
def Guard (w : EtcdWorld) : EtcdMove → Prop
  | .call op ans => (op.requestCall w.preUrl ans).starts → ans.requestMade = true
  | .finish i conn rsp => w.CanEnd i conn → rsp ≠ none
  | _ => True

/-- All exchanges have ended. -/
def Quiet (w : EtcdWorld) : Prop := ∀ c ∈ w.clients, c.inFlight = []

/-- One callback of the owner for each of so many operations. -/
structure ReportsBack (w : EtcdWorld) (operations : Nat) : Prop where
  /-- As many callbacks as operations. -/
  count : w.answers.length = operations
  /-- One for each operation. -/
  each : ∀ c ∈ w.clients, c.heard.length = 1

/-- What holds along every run: each client was asked once, and the owner was called as the
clients were. -/
structure Sound (w : EtcdWorld) : Prop where
  /-- Each client was asked once. -/
  known : ∀ c ∈ w.clients, c.Known
  /-- All callbacks were handed on. -/
  answers : w.answers.length = (w.clients.map fun c => c.heard.length).sum

/-- No operation is lost. -/
def Kept (w : EtcdWorld) : Prop := ∀ c ∈ w.clients, ¬ c.Lost

/-- A constructed etcd client has heard nothing, and there is nothing to hear. -/
theorem sound_create : create.Sound :=
  ⟨fun _ hc => absurd hc List.not_mem_nil, rfl⟩

/-- The owner hears of the callbacks that a move makes. -/
theorem hear_eq {c : ClientWorld} {m : ClientMove} (h : c.Known) (hm : ∀ r, m ≠ .request r) :
    hear c (c.step m) = (c.called m).filterMap UserCallback.forward := by
  rw [hear, ClientWorld.step_callbacks hm h.alive, List.drop_left]

/-- A move adds what the owner hears of it. -/
theorem heard_step {c : ClientWorld} {m : ClientMove} (h : c.Known) (hm : ∀ r, m ≠ .request r) :
    (c.step m).heard = c.heard ++ hear c (c.step m) := by
  rw [hear_eq h hm, ClientWorld.heard, ClientWorld.step_callbacks hm h.alive,
    List.filterMap_append, ClientWorld.heard]

/-- A call keeps the answers in step with the clients. -/
theorem Sound.call (h : w.Sound) (op : EtcdOp) (ans : RequestAnswer) : (w.call op ans).Sound := by
  refine ⟨?_, ?_⟩
  · rw [EtcdWorld.call, List.forall_mem_append, List.forall_mem_singleton]
    exact ⟨h.known, ClientWorld.request_known _⟩
  · rw [EtcdWorld.call, List.length_append, h.answers, List.map_append, List.sum_append]
    simp [hear, ClientWorld.heard, ClientWorld.create]

/-- A call loses no operation exactly when its request is made. -/
theorem kept_call_iff (h : w.Kept) (op : EtcdOp) (ans : RequestAnswer) :
    (w.call op ans).Kept ↔ w.Guard (.call op ans) := by
  rw [Kept, EtcdWorld.call, List.forall_mem_append, List.forall_mem_singleton]
  exact (and_iff_right h).trans (ClientWorld.lost_request_iff _)

/-- One client in a list of them. -/
theorem exists_split {c : ClientWorld} {cs : List ClientWorld} (hc : cs[i]? = some c) :
    ∃ pre post, cs = pre ++ c :: post ∧ ∀ d, cs.set i d = pre ++ d :: post := by
  obtain ⟨hlt, rfl⟩ := List.getElem?_eq_some_iff.mp hc
  refine ⟨cs.take i, cs.drop (i + 1), ?_, fun d => List.set_eq_take_append_cons_drop .. ▸ ?_⟩
  · rw [List.cons_getElem_drop_succ, List.take_append_drop]
  · rw [if_pos hlt]

/-- Without a client nothing happens. -/
theorem onClient_none (hc : w.clients[i]? = none) (m : ClientMove) : w.onClient i m = w := by
  rw [onClient, hc]

/-- What happens to a client is heard. -/
theorem onClient_some {c : ClientWorld} (hc : w.clients[i]? = some c) (m : ClientMove) :
    w.onClient i m = { w with
      clients := w.clients.set i (c.step m), answers := w.answers ++ hear c (c.step m) } := by
  rw [onClient, hc]

/-- A move of a client keeps the answers in step with the clients. -/
theorem Sound.onClient (h : w.Sound) (i : Nat) {m : ClientMove} (hm : ∀ r, m ≠ .request r) :
    (w.onClient i m).Sound := by
  cases hc : w.clients[i]? with
  | none => rwa [onClient_none hc]
  | some c =>
    rw [onClient_some hc]
    obtain ⟨pre, post, hcs, hset⟩ := exists_split hc
    have hknown := h.known
    have hans := h.answers
    rw [hcs] at hknown hans
    rw [List.forall_mem_append, List.forall_mem_cons] at hknown
    refine ⟨?_, ?_⟩
    · rw [hset, List.forall_mem_append, List.forall_mem_cons]
      exact ⟨hknown.1, hknown.2.1.step hm, hknown.2.2⟩
    · rw [hset, List.length_append, hans]
      simp only [List.map_append, List.map_cons, List.sum_append, List.sum_cons,
        heard_step hknown.2.1 hm, List.length_append]
      omega

/-- A move on one client loses no operation but its own. -/
theorem kept_onClient_iff (h : w.Sound) (hk : w.Kept) (i : Nat) {m : ClientMove}
    (hm : ∀ r, m ≠ .request r) :
    (w.onClient i m).Kept ↔ ∀ c, w.clients[i]? = some c → .connectFail ∉ c.called m := by
  cases hc : w.clients[i]? with
  | none =>
    rw [onClient_none hc]
    exact iff_of_true hk (by simp)
  | some c =>
    obtain ⟨pre, post, hcs, hset⟩ := exists_split hc
    have hknown : c.Known := h.known c (by rw [hcs]; simp)
    rw [Kept, hcs, List.forall_mem_append, List.forall_mem_cons] at hk
    rw [onClient_some hc, Kept, hset, List.forall_mem_append, List.forall_mem_cons,
      hknown.lost_step_iff hm, or_iff_right hk.2.1]
    refine ⟨fun hall d hd => ?_, fun hall => ⟨hk.1, hall c rfl, hk.2.2⟩⟩
    cases hd
    exact hall.2.1

/-- What is lost stays lost. -/
theorem kept_of_kept_onClient (h : w.Sound) (i : Nat) {m : ClientMove} (hm : ∀ r, m ≠ .request r)
    (hk : (w.onClient i m).Kept) : w.Kept := by
  cases hc : w.clients[i]? with
  | none => rwa [onClient_none hc] at hk
  | some c =>
    obtain ⟨pre, post, hcs, hset⟩ := exists_split hc
    have hknown : c.Known := h.known c (by rw [hcs]; simp)
    rw [onClient_some hc, Kept, hset, List.forall_mem_append, List.forall_mem_cons,
      hknown.lost_step_iff hm] at hk
    rw [Kept, hcs, List.forall_mem_append, List.forall_mem_cons]
    exact ⟨hk.1, fun hl => hk.2.1 (.inl hl), hk.2.2⟩

/-- A move is an operation, or it moves one client, or it leaves the clients alone. -/
theorem step_cases (w : EtcdWorld) (m : EtcdMove) :
    (∃ op ans, m = .call op ans ∧ w.step m = w.call op ans) ∨
    (m.isCall = false ∧ ∃ i cm, (∀ r, cm ≠ .request r) ∧ w.step m = w.onClient i cm) ∨
    (m.isCall = false ∧ (w.step m).clients = w.clients ∧ (w.step m).answers = w.answers) := by
  cases m with
  | init dnsName => exact .inr (.inr ⟨rfl, rfl, rfl⟩)
  | call op ans => exact .inl ⟨op, ans, rfl, rfl⟩
  | finish i conn rsp =>
    rw [EtcdWorld.step]
    split_ifs
    · exact .inr (.inl ⟨rfl, i, _, by simp, rfl⟩)
    · exact .inr (.inr ⟨rfl, rfl, rfl⟩)
  | close i conn =>
    rw [EtcdWorld.step]
    split_ifs
    · exact .inr (.inl ⟨rfl, i, _, by simp, rfl⟩)
    · exact .inr (.inr ⟨rfl, rfl, rfl⟩)
  | ret i => exact .inr (.inl ⟨rfl, i, _, by simp, rfl⟩)

/-- A move keeps the answers in step with the clients. -/
theorem Sound.step (h : w.Sound) (m : EtcdMove) : (w.step m).Sound := by
  obtain ⟨op, ans, -, hstep⟩ | ⟨-, i, cm, hcm, hstep⟩ | ⟨-, hclients, hanswers⟩ := step_cases w m
  · exact hstep ▸ h.call op ans
  · exact hstep ▸ h.onClient i hcm
  · exact ⟨hclients ▸ h.known, hanswers ▸ hclients ▸ h.answers⟩

/-- The end of an exchange calls `ConnectFail` exactly when there is no response. -/
theorem connectFail_mem_called_iff {c : ClientWorld} {conn : ConnPtr}
    {rsp : Option RemoteResponse} : .connectFail ∈ c.called (.finish conn rsp) ↔
      (c.running = 0 ∧ conn ∈ c.inFlight.map Exchange.connection) ∧ rsp = none := by
  rw [ClientWorld.called]
  split_ifs with hc
  · rw [and_iff_right hc, List.mem_singleton]
    cases rsp with
    | none => exact iff_of_true rfl rfl
    | some rsp =>
      refine iff_of_false (fun h => ?_) (by simp)
      rw [ClientWorld.remoteCallback] at h
      split_ifs at h
  · exact iff_of_false List.not_mem_nil fun h => hc h.1

/-- From a state in which no operation is lost, none is lost exactly by the guarded steps. -/
theorem kept_step_iff (h : w.Sound) (hk : w.Kept) (m : EtcdMove) :
    (w.step m).Kept ↔ w.Guard m := by
  cases m with
  | init dnsName => exact iff_of_true hk trivial
  | call op ans => exact kept_call_iff hk op ans
  | finish i conn rsp =>
    rw [EtcdWorld.step, Guard, CanEnd]
    split_ifs with hidle
    · rw [kept_onClient_iff h hk i (by simp)]
      simp only [connectFail_mem_called_iff]
      refine ⟨fun hall hend hnone => ?_, fun hg c hc hfail => ?_⟩
      · obtain ⟨-, c, hc, hconn⟩ := hend
        have hrun : c.running = 0 := by
          simpa using List.all_eq_true.mp hidle c (List.mem_of_getElem? hc)
        exact hall c hc ⟨⟨hrun, hconn⟩, hnone⟩
      · exact hg ⟨hidle, c, hc, hfail.1.2⟩ hfail.2
    · exact iff_of_true hk fun hend => absurd hend.1 hidle
  | close i conn =>
    rw [EtcdWorld.step]
    split_ifs
    · rw [kept_onClient_iff h hk i (by simp)]
      exact iff_of_true (fun c _ => List.not_mem_nil) trivial
    · exact iff_of_true hk trivial
  | ret i =>
    rw [EtcdWorld.step, kept_onClient_iff h hk i (by simp)]
    exact iff_of_true (fun c _ => List.not_mem_nil) trivial

/-- An operation that is lost stays lost. -/
theorem kept_of_kept_step (h : w.Sound) (m : EtcdMove) (hk : (w.step m).Kept) : w.Kept := by
  obtain ⟨op, ans, -, hstep⟩ | ⟨-, i, cm, hcm, hstep⟩ | ⟨-, hclients, -⟩ := step_cases w m
  · rw [hstep, EtcdWorld.call, Kept, List.forall_mem_append] at hk
    exact hk.1
  · rw [hstep] at hk
    exact kept_of_kept_onClient h i hcm hk
  · rwa [Kept, hclients] at hk

/-! ## Runs -/

/-- A move of a client makes no other one. -/
theorem length_clients_onClient (w : EtcdWorld) (i : Nat) (m : ClientMove) :
    (w.onClient i m).clients.length = w.clients.length := by
  cases hc : w.clients[i]? with
  | none => rw [onClient_none hc]
  | some c => rw [onClient_some hc, List.length_set]

/-- Every operation has its client. -/
theorem length_clients_step (w : EtcdWorld) (m : EtcdMove) :
    (w.step m).clients.length = w.clients.length + [m].countP EtcdMove.isCall := by
  obtain ⟨op, ans, rfl, hstep⟩ | ⟨hcall, i, cm, -, hstep⟩ | ⟨hcall, hclients, -⟩ := step_cases w m
  · rw [hstep, EtcdWorld.call, List.length_append]
    rfl
  · rw [hstep, length_clients_onClient, List.countP_singleton, hcall]
    rfl
  · rw [hclients, List.countP_singleton, hcall]
    rfl

/-- There is a client for each call. -/
theorem length_clients_foldl (w : EtcdWorld) (ms : List EtcdMove) :
    (ms.foldl step w).clients.length = w.clients.length + ms.countP EtcdMove.isCall := by
  induction ms generalizing w with
  | nil => rfl
  | cons m ms ih =>
    rw [List.foldl_cons, ih, length_clients_step, Nat.add_assoc, ← List.countP_append]
    rfl

/-- In a run the answers are in step with the clients. -/
theorem sound_foldl (ms : List EtcdMove) : (ms.foldl step create).Sound :=
  forall_scanl (fun _ m h => h.step m) sound_create ms _ (foldl_mem_scanl ..)

/-- An operation of the world is lost. -/
def Lossy (w : EtcdWorld) : Prop := w.Sound ∧ ¬ w.Kept

/-- No operation of a run is lost exactly when the run is guarded. -/
theorem kept_foldl_iff (ms : List EtcdMove) :
    (ms.foldl step create).Kept ↔ Along step Guard create ms := by
  have hcreate : create.Sound ∧ create.Kept :=
    ⟨sound_create, fun _ hc => absurd hc List.not_mem_nil⟩
  have hstep : ∀ w m, Sound w ∧ Kept w → w.Guard m → (w.step m).Sound ∧ (w.step m).Kept :=
    fun w m h hg => ⟨h.1.step m, (kept_step_iff h.1 h.2 m).mpr hg⟩
  constructor
  · intro hk
    by_contra hng
    have hleave : ∀ w m, Sound w ∧ Kept w → ¬ w.Guard m → Lossy (w.step m) :=
      fun w m h hg => ⟨h.1.step m, fun hk => hg ((kept_step_iff h.1 h.2 m).mp hk)⟩
    have hlossy : ∀ w m, Lossy w → Lossy (w.step m) :=
      fun w m h => ⟨h.1.step m, fun hk => h.2 (kept_of_kept_step h.1 m hk)⟩
    exact (foldl_of_not_along hstep hleave hlossy hcreate hng).2 hk
  · exact fun hg => (Along.forall_scanl hstep hcreate hg _ (foldl_mem_scanl ..)).2

/-- Behind the end of all exchanges the owner was called once for each operation exactly when
every exchange that ended had a response and every request that was made was taken. -/
theorem reportsBack_iff_along (ms : List EtcdMove) (hq : (ms.foldl step create).Quiet) :
    (ms.foldl step create).ReportsBack (ms.countP EtcdMove.isCall) ↔
      Along step Guard create ms := by
  rw [← kept_foldl_iff]
  have hs := sound_foldl ms
  have hlen := length_clients_foldl create ms
  have heach : (∀ c ∈ (ms.foldl step create).clients, c.heard.length = 1) ↔
      (ms.foldl step create).Kept :=
    forall₂_congr fun c hc => (hs.known c hc).length_heard_iff (hq c hc)
  constructor
  · exact fun h => heach.mp h.each
  · intro hk
    refine ⟨?_, heach.mpr hk⟩
    rw [hs.answers, List.map_congr_left (heach.mpr hk), List.map_const', List.sum_replicate_nat,
      hlen]
    simp [create]

/-- `libevent` takes the request. -/
def taken : RequestAnswer :=
  ⟨some ⟨some (literal "127.0.0.1"), 2379, some (literal "/v2/keys/k")⟩, true, true, true⟩

/-- A value is set while a watch waits, and the watch is refused by the server. -/
def answeredRun : List EtcdMove :=
  [.call (.watch (literal "k")) taken, .call (.set (literal "k") (literal "v")) taken,
    .finish 1 0 (some ⟨201, literal "Created", literal "x"⟩), .ret 1,
    .finish 0 0 (some ⟨404, literal "Not Found", []⟩), .ret 0]

/-- Both operations of the run report. -/
theorem reportsBack_answeredRun : (answeredRun.foldl step create).ReportsBack 2 := by
  have hq : (answeredRun.foldl step create).Quiet := by
    unfold Quiet
    decide
  refine (reportsBack_iff_along answeredRun hq).mpr ?_
  exact ⟨fun _ => rfl, fun _ => rfl, fun _ => by simp, trivial, fun _ => by simp, trivial, trivial⟩

/-- A watch that gets no response in time. -/
def timedOutWatch : List EtcdMove :=
  [.call (.watch (literal "k")) taken, .finish 0 0 none, .ret 0]

/-- The watch is over, and the owner was never called. -/
theorem timedOutWatch_silent :
    (timedOutWatch.foldl step create).Quiet ∧ timedOutWatch.countP EtcdMove.isCall = 1 ∧
      (timedOutWatch.foldl step create).answers = [] := by
  unfold Quiet
  decide

end EtcdWorld

end ServerCom.Http
