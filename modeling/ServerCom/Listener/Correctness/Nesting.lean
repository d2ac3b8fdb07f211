import ServerCom.Listener.Interpretation.Doomed

/-!
# Closing in a callback

A run in which the user closes the connector only where nothing waits for it never
follows a dangling pointer, deletes the connector at most once and never runs one
callback inside another. A run that breaks this condition once does not come back to the
event loop without a fault.
-/

namespace ServerCom.Listener

open Connector Machine

variable {Mgr : Type*} {m : Mgr} {id : UInt64} {p : ConnectorPtr} {w : World Mgr}
  {c : ListenerConnector Mgr}

/-- A user's code. -/
def Frame.isUser : Frame → Bool
  | .user _ => true
  | _ => false

namespace Execution

/-- Nothing has gone wrong so far. -/
structure Safe (p : ConnectorPtr) (s : Execution Mgr) : Prop where
  /-- No pointer to the deleted object was followed. -/
  fault : s.fault = none
  /-- The object was deleted at most once. -/
  once : s.world.deleted.count p ≤ 1
  /-- No callback runs inside another one. -/
  flat : s.stack.countP Frame.isUser ≤ 1

/-- An orderly run is safe. -/
theorem Orderly.safe {s : Execution Mgr} (h : Orderly m id p s) : Safe p s := by
  cases h with
  | idle hm => exact ⟨rfl, hm.fresh.le.trans (Nat.zero_le 1), Nat.zero_le 1⟩
  | gone hgone => exact ⟨rfl, hgone.2.le, Nat.zero_le 1⟩
  | reading hm => exact ⟨rfl, hm.fresh.le.trans (Nat.zero_le 1), Nat.zero_le 1⟩
  | inRecv hm => exact ⟨rfl, hm.fresh.le.trans (Nat.zero_le 1), le_rfl⟩
  | behindRecv hm => exact ⟨rfl, hm.fresh.le.trans (Nat.zero_le 1), Nat.zero_le 1⟩
  | inError hm => exact ⟨rfl, hm.fresh.le.trans (Nat.zero_le 1), le_rfl⟩
  | behindError hm => exact ⟨rfl, hm.fresh.le.trans (Nat.zero_le 1), Nat.zero_le 1⟩
  | disConnecting hm => exact ⟨rfl, hm.fresh.le.trans (Nat.zero_le 1), Nat.zero_le 1⟩
  | disconnected hm => exact ⟨rfl, hm.fresh.le.trans (Nat.zero_le 1), Nat.zero_le 1⟩
  | inDisconnected hm => exact ⟨rfl, hm.fresh.le.trans (Nat.zero_le 1), le_rfl⟩
  | behindDisconnected hm => exact ⟨rfl, hm.fresh.le.trans (Nat.zero_le 1), Nat.zero_le 1⟩

variable [DecidableEq Mgr] {rd : BuffereventRead}

/-- How many moves of the code and returns of callbacks a run makes. -/
def advanced (rd : BuffereventRead) (m : Mgr) (id : UInt64) (p : ConnectorPtr) :
    Execution Mgr → List Move → Nat
  | _, [] => 0
  | s, mv :: mvs => (s.advances mv).toNat + advanced rd m id p (s.step rd m id p mv) mvs

/-- A guarded run is paid for by the events in it. -/
theorem advanced_le {s : Execution Mgr} (h : Orderly m id p s) {mvs : List Move}
    (hg : Along (step rd m id p) (Guard rd p) s mvs) :
    advanced rd m id p s mvs ≤ s.work p + (mvs.map budget).sum := by
  induction mvs generalizing s with
  | nil => exact Nat.zero_le _
  | cons mv mvs ih =>
    obtain ⟨hnext, hwork⟩ := h.step hg.1
    have hrest := ih hnext hg.2
    rw [advanced, List.map_cons, List.sum_cons]
    omega

/-- What the closing of a connector in its callbacks comes to. -/
structure ClosesSafely (rd : BuffereventRead) (m : Mgr) (id : UInt64) (p : ConnectorPtr)
    (s : Execution Mgr) (mvs : List Move) : Prop where
  /-- In a guarded run nothing goes wrong. -/
  safe : Along (step rd m id p) (Guard rd p) s mvs →
    ∀ t ∈ mvs.scanl (step rd m id p) s, Safe p t
  /-- In a guarded run the code and the returns of callbacks come to an end. -/
  ends : Along (step rd m id p) (Guard rd p) s mvs →
    advanced rd m id p s mvs ≤ (mvs.map budget).sum
  /-- A run that is not guarded does not come back to the event loop without a fault. -/
  converse : ¬ Along (step rd m id p) (Guard rd p) s mvs →
    ¬ ((mvs.foldl (step rd m id p) s).stack = [] ∧ (mvs.foldl (step rd m id p) s).fault = none)

/-- Every run of a managed connector closes it safely if it is guarded, and only then. -/
theorem closesSafely (rd : BuffereventRead) (h : Managed m id p w false c) (mvs : List Move) :
    ClosesSafely rd m id p ⟨w, [], none⟩ mvs where
  safe hg := by
    intro t ht
    have hstep : ∀ s mv, Orderly m id p s → Guard rd p s mv →
        Orderly m id p (s.step rd m id p mv) := fun s mv hs hmv => (hs.step hmv).1
    exact (hg.forall_scanl hstep (.idle h) t ht).safe
  ends hg := by
    have hle := advanced_le (.idle h) hg
    rwa [work, Nat.zero_add] at hle
  converse hg := by
    have hdoomed : Doomed m id p (mvs.foldl (step rd m id p) ⟨w, [], none⟩) :=
      foldl_of_not_along (fun s mv hs hmv => (hs.step hmv).1) (fun s mv => Orderly.doomed)
        (fun s mv hs => hs.step mv) (Orderly.idle h) hg
    exact hdoomed.not_returned

/-- A connector accepted by the first manager. -/
def accepted : World Nat := (World.start.listenerCb 0 7 {} {} true default).getD .start

/-- The accepted connector is managed. -/
theorem managed_accepted : ∃ c, Managed 0 1 0 accepted false c := by
  obtain ⟨w, heq, hex⟩ := exact_start.accept (by decide) 0 7 {} {} true default
  obtain ⟨c, hc⟩ := hex.managed (m := 0) (p := 0) rfl
  refine ⟨c, ?_⟩
  rw [accepted, heq]
  exact hc

/-- A message and the end of the stream, with a `FreeSelf` in `onDisconnected`. -/
theorem closesSafely_accepted :
    (∃ c, Managed 0 1 0 accepted false c) ∧
      ClosesSafely .full 0 1 0 ⟨accepted, [], none⟩
        [.readable [0, 0, 0, 1, 7], .tick, .tick, .user .ret, .tick, .tick, .event 0x10, .user .ret,
          .tick, .tick, .tick, .user .freeSelf, .user .ret, .tick] := by
  obtain ⟨c, hc⟩ := managed_accepted
  exact ⟨⟨c, hc⟩, closesSafely .full hc _⟩

/-- A `FreeSelf` in `OnRecv` deletes the connector, and `conn_read_callback` then clears
the message of the deleted object. -/
theorem freeSelf_in_onRecv :
    (∃ c, Managed 0 1 0 accepted false c) ∧
      ∃ t, [.readable [0, 0, 0, 1, 7], .tick, .tick, .user .freeSelf, .user .ret, .tick].foldl
          (step .full 0 1 0) ⟨accepted, [], none⟩ = t ∧
        t.world.deleted = [0] ∧ t.fault = some .useAfterDelete := by
  refine ⟨managed_accepted, _, rfl, ?_⟩
  decide +kernel

/-! ## The frames of a disconnect -/

/-- From `DisConnect` to the user's code in `onDisconnected`. -/
theorem tick_disConnect (rd : BuffereventRead) {ignoring : Bool} (h : Managed m id p w ignoring c)
    (rest : List Frame) :
    [Move.tick, .tick].foldl (step rd m id p) ⟨w, .disConnect :: rest, none⟩ =
      ⟨(w.notify p).put p { c with base := c.base.free, ignoreFree := true },
        .user .onDisconnected :: .afterOnDisconnected :: rest, none⟩ := by
  have hfirst : (⟨w, .disConnect :: rest, none⟩ : Execution Mgr).step rd m id p .tick =
      ⟨w.put p { c with base := c.base.free }, .on_disconnected :: rest, none⟩ :=
    withObject_eq h.heap _
  rw [List.foldl_cons, hfirst, List.foldl_cons, List.foldl_nil]
  refine (withObject_eq (World.heap_put_self ..) _).trans ?_
  rw [store]
  change (⟨((w.put p _).notify p).put p _, _, none⟩ : Execution Mgr) = _
  rw [World.notify_put, World.put_put]

/-- Calls of `FreeSelf` in `onDisconnected` are ignored. -/
theorem freeSelf_onDisconnected (rd : BuffereventRead) (h : Managed m id p w true c) (k : Nat) :
    (List.replicate k (Move.user .freeSelf)).foldl (step rd m id p)
        ⟨w, [.user .onDisconnected, .afterOnDisconnected], none⟩ =
      ⟨w, [.user .onDisconnected, .afterOnDisconnected], none⟩ := by
  have hact : Permitted p (⟨w, [.user .onDisconnected, .afterOnDisconnected], none⟩ : Execution Mgr)
      .onDisconnected .freeSelf := rfl
  induction k with
  | zero => rfl
  | succ k ih =>
    rw [List.replicate_succ, List.foldl_cons, step_permitted h (fun _ => rfl) hact nofun, ih]

/-- Behind `onDisconnected` the connector is removed. -/
theorem ret_onDisconnected (rd : BuffereventRead) (h : Managed m id p w true c) :
    [Move.user .ret, .tick].foldl (step rd m id p)
        ⟨w, [.user .onDisconnected, .afterOnDisconnected], none⟩ =
      ⟨w.remove m id p, [], none⟩ := by
  have hfree := h.put (d := { c with ignoreFree := false }) rfl rfl rfl
  refine (withObject_eq h.heap _).trans ?_
  change Execution.freeSelf p ⟨w.put p { c with ignoreFree := false }, [], none⟩ [] = _
  rw [Execution.freeSelf, hfree.freeSelf, World.remove_put]

/-- `DisConnect` with `k` calls of `FreeSelf` in its callback is the run of its frames. -/
theorem disConnect_run (rd : BuffereventRead) (h : Managed m id p w false c) (k : Nat) :
    ∃ w', w.disConnect p k = some w' ∧
      ([Move.tick, .tick] ++ List.replicate k (Move.user .freeSelf) ++
        [Move.user .ret, .tick]).foldl (step rd m id p) ⟨w, [.disConnect], none⟩ =
          ⟨w', [], none⟩ := by
  refine ⟨_, World.disConnect_eq h.heap h.cnMgr h.entry k, ?_⟩
  have hignored :=
    h.notify.put (d := { c with base := c.base.free, ignoreFree := true }) rfl rfl rfl
  rw [List.foldl_append, List.foldl_append, tick_disConnect rd h,
    freeSelf_onDisconnected rd hignored, ret_onDisconnected rd hignored, World.remove_put, h.own]

/-- A `DisConnect` in every callback nests them as deep as one likes. -/
theorem nesting_unbounded (rd : BuffereventRead) {ignoring : Bool}
    (h : Managed m id p w ignoring c) (cb : Callback) (rest : List Frame) (n : Nat) :
    ∃ mvs : List Move, n < (mvs.foldl (step rd m id p)
      ⟨w, .user cb :: rest, none⟩).stack.countP Frame.isUser := by
  suffices hdeep : ∃ mvs : List Move, n + (Frame.user cb :: rest).countP Frame.isUser ≤
      (mvs.foldl (step rd m id p) ⟨w, .user cb :: rest, none⟩).stack.countP Frame.isUser by
    obtain ⟨mvs, hle⟩ := hdeep
    rw [List.countP_cons_of_pos rfl] at hle
    exact ⟨mvs, by omega⟩
  induction n generalizing w c ignoring cb rest with
  | zero => exact ⟨[], (Nat.zero_add _).le⟩
  | succ n ih =>
    have hnext := h.notify.put (d := { c with base := c.base.free, ignoreFree := true }) rfl rfl rfl
    obtain ⟨mvs, hle⟩ := ih hnext .onDisconnected (.afterOnDisconnected :: .user cb :: rest)
    refine ⟨.user .disConnect :: ([.tick, .tick] ++ mvs), ?_⟩
    have hpush : (⟨w, .user cb :: rest, none⟩ : Execution Mgr).step rd m id p (.user .disConnect) =
        ⟨w, .disConnect :: .user cb :: rest, none⟩ := rfl
    rw [List.foldl_cons, hpush, List.foldl_append, tick_disConnect rd h]
    refine le_trans ?_ hle
    have hcount : (Frame.user .onDisconnected :: .afterOnDisconnected :: .user cb :: rest).countP
        Frame.isUser = (Frame.user cb :: rest).countP Frame.isUser + 1 := by
      rw [List.countP_cons_of_pos rfl, List.countP_cons_of_neg (by exact Bool.false_ne_true)]
    omega

end Execution

end ServerCom.Listener
