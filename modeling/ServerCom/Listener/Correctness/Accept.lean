import ServerCom.Core.Machine.Guarded
import ServerCom.Listener.Interpretation.Registry
import ServerCom.Listener.Native.Accept

/-!
# Failed accepts

A connector is entered in the table before it is initialised, and `listener_cb` undoes
nothing. An accept that fails leaves the accepted descriptor open, and when an object was
made, an entry for a connector without a bufferevent, which no event will ever close.
-/

namespace ServerCom.Listener

open Connector

variable {Mgr : Type*} {s : Accepts Mgr} {a : AcceptCall Mgr} {w : World Mgr} {m : Mgr}
  {c : ListenerConnector Mgr} {msg : MsgPack}

/-- The object `listener_cb` makes, behind `AcceptInit`. -/
def AcceptCall.connector (a : AcceptCall Mgr) (id : UInt64) (msg : MsgPack) :
    ListenerConnector Mgr :=
  ⟨((Connection.construct msg).baseAcceptInit a.fd a.sa a.newOk).1, some a.mgr, id, a.svrAddr,
    false⟩

/-- A connector with a bufferevent is connected on the accepted descriptor. -/
theorem AcceptCall.connector_initialised (h : a.newOk = true) (id : UInt64) (msg : MsgPack) :
    (a.connector id msg).base.bufE ≠ none ∧ (a.connector id msg).base.isConnect = true ∧
      (a.connector id msg).base.fd = a.fd := by
  unfold connector
  rw [h]
  refine ⟨?_, rfl, rfl⟩
  rintro ⟨⟩

/-- A connector without a bufferevent is not connected. -/
theorem AcceptCall.connector_failed (h : a.newOk = false) (id : UInt64) (msg : MsgPack) :
    (a.connector id msg).base.bufE = none ∧ (a.connector id msg).base.isConnect = false := by
  unfold connector
  rw [h]
  exact ⟨rfl, rfl⟩

section enter

variable [DecidableEq Mgr]

/-- The world with a new connector in the table of its manager. -/
def World.enter (w : World Mgr) (m : Mgr) (c : ListenerConnector Mgr) : World Mgr :=
  { w with
    idSeed := c.id
    tables := Function.update w.tables m ((w.tables m).insert c.id w.ids.length)
    ids := w.ids ++ [c.id] }.put w.ids.length c

/-- A connector that is entered is found. -/
theorem World.find?_enter (w : World Mgr) (m : Mgr) (c : ListenerConnector Mgr) :
    ((w.enter m c).tables m).find? c.id = some w.ids.length :=
  (find?_update_insert w m c.id w.ids.length m c.id).trans (if_pos ⟨rfl, rfl⟩)

/-- A connector that is entered is there. -/
theorem World.heap_enter (w : World Mgr) (m : Mgr) (c : ListenerConnector Mgr) :
    (w.enter m c).heap w.ids.length = some c := World.heap_put_self ..

/-- When the connector is closed again, its manager's table has lost the id. -/
theorem World.tables_remove_enter (w : World Mgr) (m : Mgr) (c : ListenerConnector Mgr) :
    ((w.enter m c).remove m c.id w.ids.length).tables =
      Function.update w.tables m ((w.tables m).erase c.id) := by
  have htable : (w.enter m c).tables m = (w.tables m).insert c.id w.ids.length :=
    Function.update_self ..
  have herase : ((w.tables m).insert c.id w.ids.length).erase c.id = (w.tables m).erase c.id := by
    apply SortedMap.ext_find?
    intro k
    rw [SortedMap.find?_erase, SortedMap.find?_erase, SortedMap.find?_insert]
    split_ifs <;> rfl
  change Function.update (w.enter m c).tables m (((w.enter m c).tables m).erase c.id) = _
  rw [htable, herase]
  exact Function.update_idem ..

/-- A connector that is entered and taken out again leaves the other objects. -/
theorem World.heap_remove_enter (w : World Mgr) (m : Mgr) (c : ListenerConnector Mgr) :
    ((w.enter m c).remove m c.id w.ids.length).heap =
      Function.update w.heap w.ids.length none :=
  Function.update_idem ..

/-- Erasing an id leaves the table as it is exactly when the id was not there. -/
theorem World.update_erase_iff (w : World Mgr) (m : Mgr) (id : UInt64) :
    Function.update w.tables m ((w.tables m).erase id) = w.tables ↔
      (w.tables m).find? id = none := by
  constructor
  · intro h
    have htable := congrFun h m
    rw [Function.update_self] at htable
    rw [← htable, SortedMap.find?_erase, if_pos rfl]
  · intro h
    have htable : (w.tables m).erase id = w.tables m := by
      apply SortedMap.ext_find?
      intro k
      rw [SortedMap.find?_erase]
      split_ifs with hk
      · rw [hk, h]
      · rfl
    rw [htable, Function.update_eq_self]

end enter

/-! ## What a call does -/

namespace Accepts

variable [DecidableEq Mgr]

/-- The connector is in the table, initialised or not. -/
def entered (s : Accepts Mgr) (a : AcceptCall Mgr) (msg : MsgPack) : Accepts Mgr :=
  { s with world := s.world.enter a.mgr (a.connector (s.world.idSeed + 1) msg) }

/-- Without an object nothing is entered. -/
theorem step_null (h : a.newConnect = none) : s.step a = s := by
  unfold step listenerCb
  rw [h]
  rfl

/-- With an object the connector is entered, and `OnConnected` is called with a bufferevent. -/
theorem listenerCb_eq (h : a.newConnect = some msg) :
    s.listenerCb a =
      if a.newOk then (s.entered a msg).callOnConnected s.world.ids.length a.onConnected
      else some (s.entered a msg) := by
  have hinit : ((Connection.construct msg).baseAcceptInit a.fd a.sa a.newOk).2 = a.newOk := by
    cases a.newOk <;> rfl
  unfold listenerCb World.createConnectForListener World.newConnect
  rw [h]
  simp only [World.heap_put_self, Option.map_some, Option.bind_some, acceptInit]
  simp [World.modify, World.put, callOnConnected, entered, World.enter, AcceptCall.connector, hinit]

/-- A connector that fails to initialise stays in the table. -/
theorem step_failed (h : a.newConnect = some msg) (hok : a.newOk = false) :
    s.step a = s.entered a msg := by
  unfold step
  rw [listenerCb_eq h, hok, if_neg Bool.false_ne_true, Option.getD_some]

/-- A connector that is initialised and kept is in the table, and `OnConnected` was called. -/
theorem step_keep (h : a.newConnect = some msg) (hok : a.newOk = true)
    (hact : a.onConnected = .keep) :
    s.step a = { s.entered a msg with onConnected := s.onConnected ++ [s.world.ids.length] } := by
  unfold step
  rw [listenerCb_eq h, if_pos hok, hact]
  rfl

/-- For a user whose `OnConnected` closes nothing, the world is that of the plain operation. -/
theorem world_step (h : a.newConnect = some msg) (hkeep : a.newOk = true → a.onConnected = .keep) :
    s.world.listenerCb a.mgr a.fd a.sa a.svrAddr a.newOk msg = some (s.step a).world := by
  have hworld : (s.step a).world =
      s.world.enter a.mgr (a.connector (s.world.idSeed + 1) msg) := by
    cases hok : a.newOk with
    | false => rw [step_failed h hok, entered]
    | true => rw [step_keep h hok (hkeep hok), entered]
  rw [hworld]
  simp [World.listenerCb, World.createConnectForListener, World.newConnect, World.acceptInit,
    World.modify, World.put, World.enter, AcceptCall.connector]

/-- `FreeSelf` and `DisConnect` in `OnConnected` remove the connector. -/
theorem callOnConnected_closes (s : Accepts Mgr) (a : AcceptCall Mgr) (msg : MsgPack)
    {act : OnConnectedAct} (hact : act ≠ .keep) :
    ∃ w' : World Mgr,
      (s.entered a msg).callOnConnected s.world.ids.length act =
        some ({ s.entered a msg with
          onConnected := s.onConnected ++ [s.world.ids.length] }.become s.world.ids.length w') ∧
      w'.tables = Function.update s.world.tables a.mgr
        ((s.world.tables a.mgr).erase (s.world.idSeed + 1)) ∧
      w'.heap = Function.update s.world.heap s.world.ids.length none ∧
      w'.ids = s.world.ids ++ [s.world.idSeed + 1] := by
  have htables := World.tables_remove_enter s.world a.mgr
    (a.connector (s.world.idSeed + 1) msg)
  have hgone := World.heap_remove_enter s.world a.mgr (a.connector (s.world.idSeed + 1) msg)
  have hheap := World.heap_enter s.world a.mgr (a.connector (s.world.idSeed + 1) msg)
  have htable := World.find?_enter s.world a.mgr (a.connector (s.world.idSeed + 1) msg)
  cases act with
  | keep => exact absurd rfl hact
  | freeSelf =>
    have hfree := World.freeSelf_eq hheap rfl rfl htable
    refine ⟨_, ?_, htables, hgone, rfl⟩
    unfold callOnConnected entered
    dsimp only
    rw [hfree, Option.map_some]
  | disConnect k =>
    have hdis := World.disConnect_eq hheap rfl htable k
    refine ⟨((s.entered a msg).world.notify s.world.ids.length).remove a.mgr
      (s.world.idSeed + 1) s.world.ids.length, ?_, htables, hgone, rfl⟩
    unfold callOnConnected entered
    dsimp only
    rw [hdis, Option.map_some]
    rfl

/-- A connector that `OnConnected` closes is removed, and its descriptor is closed. -/
theorem step_closed (h : a.newConnect = some msg) (hok : a.newOk = true)
    (hact : a.onConnected ≠ .keep) :
    (s.step a).world.tables = Function.update s.world.tables a.mgr
        ((s.world.tables a.mgr).erase (s.world.idSeed + 1)) ∧
      (s.step a).world.heap = Function.update s.world.heap s.world.ids.length none ∧
      (s.step a).world.ids = s.world.ids ++ [s.world.idSeed + 1] ∧
      (s.step a).onConnected = s.onConnected ++ [s.world.ids.length] ∧
      (s.step a).closedFds = s.closedFds ++ [a.fd] := by
  obtain ⟨w', hcall, htables, hheap, hids⟩ := callOnConnected_closes s a msg hact
  have hstep : s.step a = { s.entered a msg with
      onConnected := s.onConnected ++ [s.world.ids.length] }.become s.world.ids.length w' := by
    unfold step
    rw [listenerCb_eq h, if_pos hok, hcall, Option.getD_some]
  have hafter : w'.ownedFd s.world.ids.length = none := by
    unfold World.ownedFd
    rw [hheap, Function.update_self, Option.bind_none]
  have hbefore : (s.entered a msg).world.ownedFd s.world.ids.length = some a.fd := by
    obtain ⟨hbuf, -, hfd⟩ := AcceptCall.connector_initialised hok (s.world.idSeed + 1) msg
    have hheap' := World.heap_enter s.world a.mgr (a.connector (s.world.idSeed + 1) msg)
    unfold World.ownedFd entered
    rw [hheap', Option.bind_some, if_neg hbuf, hfd]
  rw [hstep]
  refine ⟨htables, hheap, hids, rfl, ?_⟩
  unfold become
  dsimp only
  rw [if_pos hafter, hbefore]
  rfl

end Accepts

/-! ## Settled calls -/

/-- The new connector is in the table and connected, and `OnConnected` was called for it. -/
structure Entered (s t : Accepts Mgr) (a : AcceptCall Mgr) : Prop where
  /-- The object and its place in the table. -/
  present : ∃ c, t.world.heap s.world.ids.length = some c ∧
    (t.world.tables a.mgr).find? c.id = some s.world.ids.length ∧
    c.base.isConnect = true ∧ c.base.bufE ≠ none ∧ c.base.fd = a.fd
  /-- The user knows of it. -/
  called : t.onConnected = s.onConnected ++ [s.world.ids.length]

/-- Nothing is left of the accept. -/
structure Undone (s t : Accepts Mgr) (a : AcceptCall Mgr) : Prop where
  /-- The tables are as before. -/
  tables : t.world.tables = s.world.tables
  /-- The object does not exist. -/
  deleted : t.world.heap s.world.ids.length = none
  /-- The accepted descriptor is closed. -/
  closed : t.closedFds = s.closedFds ++ [a.fd]

/-- An object and a bufferevent are made, and the id is new to the table should
`OnConnected` close the connector. -/
structure AcceptCall.Succeeds (s : Accepts Mgr) (a : AcceptCall Mgr) : Prop where
  /-- `NewConnect` returns an object. -/
  newConnect : a.newConnect ≠ none
  /-- `bufferevent_socket_new` returns a bufferevent. -/
  newOk : a.newOk = true
  /-- No connector of that id is replaced. -/
  fresh : a.onConnected ≠ .keep → (s.world.tables a.mgr).find? (s.world.idSeed + 1) = none

/-- Objects exist only at pointers that were given out. -/
def World.Made (w : World Mgr) : Prop := ∀ p, w.ids.length ≤ p → w.heap p = none

/-- No table contains a connector without a bufferevent. -/
def World.Buffered (w : World Mgr) : Prop :=
  ∀ m id p, (w.tables m).find? id = some p → ∃ c, w.heap p = some c ∧ c.base.bufE ≠ none

/-- The next object is none of those in the tables. -/
theorem World.Buffered.ne_next {m : Mgr} {id : UInt64} {p : ConnectorPtr} (h : w.Buffered)
    (hmade : w.Made) (hp : (w.tables m).find? id = some p) : p ≠ w.ids.length := by
  rintro rfl
  obtain ⟨c, hc, -⟩ := h m id _ hp
  rw [hmade _ le_rfl] at hc
  cases hc

/-- Nothing was accepted yet. -/
def Accepts.start : Accepts Mgr := ⟨.start, [], []⟩

/-- At first there is no connector. -/
theorem World.made_start : (World.start : World Mgr).Made := fun _ _ => rfl

/-- At first no connector is without a bufferevent. -/
theorem World.buffered_start : (World.start : World Mgr).Buffered := by
  intro m id p hp
  cases hp

variable [DecidableEq Mgr]

/-- Without an object the descriptor stays open, whatever becomes of the table. -/
theorem not_settled_null (h : a.newConnect = none) :
    ¬ (Entered s (s.step a) a ∨ Undone s (s.step a) a) := by
  rw [Accepts.step_null h]
  rintro (hent | hund)
  · exact absurd hent.called (by simp)
  · exact absurd hund.closed (by simp)

/-- A connector without a bufferevent is neither connected nor gone. -/
theorem not_settled_failed (h : a.newConnect = some msg) (hok : a.newOk = false) :
    ¬ (Entered s (s.step a) a ∨ Undone s (s.step a) a) := by
  have hheap := World.heap_enter s.world a.mgr (a.connector (s.world.idSeed + 1) msg)
  rw [Accepts.step_failed h hok]
  rintro (hent | hund)
  · obtain ⟨c, hc, -, -, hbuf, -⟩ := hent.present
    rw [Accepts.entered, hheap] at hc
    cases hc
    exact hbuf (AcceptCall.connector_failed hok _ msg).1
  · have hdel := hund.deleted
    rw [Accepts.entered, hheap] at hdel
    cases hdel

/-- A connector that `OnConnected` keeps is entered. -/
theorem entered_keep (h : a.newConnect = some msg) (hok : a.newOk = true)
    (hact : a.onConnected = .keep) : Entered s (s.step a) a := by
  obtain ⟨hbuf, hconn, hfd⟩ := AcceptCall.connector_initialised hok (s.world.idSeed + 1) msg
  rw [Accepts.step_keep h hok hact]
  exact ⟨⟨_, World.heap_enter .., World.find?_enter .., hconn, hbuf, hfd⟩, rfl⟩

/-- A connector that `OnConnected` closes leaves no trace exactly when it replaced none. -/
theorem settled_closed_iff (h : a.newConnect = some msg) (hok : a.newOk = true)
    (hact : a.onConnected ≠ .keep) :
    Entered s (s.step a) a ∨ Undone s (s.step a) a ↔
      (s.world.tables a.mgr).find? (s.world.idSeed + 1) = none := by
  obtain ⟨htables, hheap, -, -, hclosed⟩ := Accepts.step_closed h hok hact
  have hgone : (s.step a).world.heap s.world.ids.length = none := by
    rw [hheap, Function.update_self]
  rw [← World.update_erase_iff, ← htables]
  constructor
  · rintro (hent | hund)
    · obtain ⟨c, hc, -⟩ := hent.present
      rw [hgone] at hc
      cases hc
    · exact hund.tables
  · exact fun htab => .inr ⟨htab, hgone, hclosed⟩

/-- A call enters a connected connector or leaves no trace, exactly when it succeeds. -/
theorem settled_iff (s : Accepts Mgr) (a : AcceptCall Mgr) :
    Entered s (s.step a) a ∨ Undone s (s.step a) a ↔ a.Succeeds s := by
  cases hnew : a.newConnect with
  | none => exact iff_of_false (not_settled_null hnew) fun h => h.newConnect hnew
  | some msg =>
    have hne : a.newConnect ≠ none := hnew ▸ Option.some_ne_none msg
    cases hok : a.newOk with
    | false =>
      refine iff_of_false (not_settled_failed hnew hok) fun h => ?_
      exact absurd (hok.symm.trans h.newOk) Bool.false_ne_true
    | true =>
      by_cases hact : a.onConnected = .keep
      · exact iff_of_true (.inl (entered_keep hnew hok hact)) ⟨hne, hok, fun h => absurd hact h⟩
      · rw [settled_closed_iff hnew hok hact]
        exact ⟨fun hfresh => ⟨hne, hok, fun _ => hfresh⟩, fun h => h.fresh hact⟩

/-! ## Runs of accepts -/

/-- What is entered was made. -/
theorem World.Made.enter (h : w.Made) (m : Mgr) (c : ListenerConnector Mgr) :
    (w.enter m c).Made := by
  intro p hp
  have hlen : (w.enter m c).ids.length = w.ids.length + 1 := List.length_append
  have hne : p ≠ w.ids.length := by omega
  exact (Function.update_of_ne hne ..).trans (h p (by omega))

/-- A call enters only what was made. -/
theorem Accepts.made_step (h : s.world.Made) (a : AcceptCall Mgr) : (s.step a).world.Made := by
  cases hnew : a.newConnect with
  | none =>
    rw [step_null hnew]
    exact h
  | some msg =>
    cases hok : a.newOk with
    | false =>
      rw [step_failed hnew hok]
      exact World.Made.enter h _ _
    | true =>
      by_cases hact : a.onConnected = .keep
      · rw [step_keep hnew hok hact]
        exact World.Made.enter h _ _
      · obtain ⟨-, hheap, hids, -⟩ := step_closed hnew hok hact
        intro p hp
        rw [hids, List.length_append, List.length_singleton] at hp
        have hne : p ≠ s.world.ids.length := by omega
        rw [hheap, Function.update_of_ne hne]
        exact h p (by omega)

/-- A connector with a bufferevent is entered among others that have one. -/
theorem World.Buffered.enter (h : w.Buffered) (hmade : w.Made) (m : Mgr)
    (hc : c.base.bufE ≠ none) : (w.enter m c).Buffered := by
  intro m' id p hp
  have hold : (w.tables m').find? id = some p → ∃ d, (w.enter m c).heap p = some d ∧
      d.base.bufE ≠ none := by
    intro hp'
    obtain ⟨d, hd, hbuf⟩ := h m' id p hp'
    exact ⟨d, (Function.update_of_ne (h.ne_next hmade hp') ..).trans hd, hbuf⟩
  by_cases hm : m' = m
  · subst hm
    have htable : (w.enter m' c).tables m' = (w.tables m').insert c.id w.ids.length :=
      Function.update_self ..
    rw [htable, SortedMap.find?_insert] at hp
    split_ifs at hp with hid
    · cases hp
      exact ⟨c, World.heap_enter .., hc⟩
    · exact hold hp
  · have htable : (w.enter m c).tables m' = w.tables m' := Function.update_of_ne hm ..
    rw [htable] at hp
    exact hold hp

/-- A call keeps the tables free of connectors without a bufferevent exactly when it does
not make one. -/
theorem Accepts.buffered_step (hmade : s.world.Made) (h : s.world.Buffered)
    (a : AcceptCall Mgr) :
    (s.step a).world.Buffered ↔ (a.newConnect ≠ none → a.newOk = true) := by
  cases hnew : a.newConnect with
  | none =>
    rw [step_null hnew]
    exact iff_of_true h fun hne => absurd rfl hne
  | some msg =>
    cases hok : a.newOk with
    | false =>
      rw [step_failed hnew hok]
      refine iff_of_false (fun hbuf => ?_) (by simp)
      have hheap := World.heap_enter s.world a.mgr (a.connector (s.world.idSeed + 1) msg)
      obtain ⟨c, hc, hne⟩ := hbuf _ _ _ (World.find?_enter ..)
      rw [entered, hheap] at hc
      cases hc
      exact hne (AcceptCall.connector_failed hok _ msg).1
    | true =>
      refine iff_of_true ?_ fun _ => rfl
      by_cases hact : a.onConnected = .keep
      · rw [step_keep hnew hok hact]
        exact h.enter hmade _ (AcceptCall.connector_initialised hok _ msg).1
      · obtain ⟨htables, hheap, -⟩ := step_closed hnew hok hact
        intro m id p hp
        have hold : (s.world.tables m).find? id = some p := by
          rw [htables] at hp
          by_cases hm : m = a.mgr
          · subst hm
            rw [Function.update_self, SortedMap.find?_erase] at hp
            split_ifs at hp
            exact hp
          · rw [Function.update_of_ne hm] at hp
            exact hp
        obtain ⟨c, hc, hbuf⟩ := h m id p hold
        refine ⟨c, ?_, hbuf⟩
        rw [hheap, Function.update_of_ne (h.ne_next hmade hold), hc]

/-- Every call of `listener_cb` enters a connected connector or leaves no trace exactly when
it succeeds, and in a run of calls no table ever contains a connector without a bufferevent
exactly when every object made gets one. -/
theorem accept_settled_iff :
    (∀ (s : Accepts Mgr) (a : AcceptCall Mgr),
      Entered s (s.step a) a ∨ Undone s (s.step a) a ↔ a.Succeeds s) ∧
    ∀ (s : Accepts Mgr) (calls : List (AcceptCall Mgr)), s.world.Made → s.world.Buffered →
      ((∀ t ∈ calls.scanl Accepts.step s, t.world.Buffered) ↔
        ∀ a ∈ calls, a.newConnect ≠ none → a.newOk = true) := by
  refine ⟨settled_iff, fun s calls hmade hbuf => ?_⟩
  have hbase : ∀ (s : Accepts Mgr) (a : AcceptCall Mgr), s.world.Made → (s.step a).world.Made :=
    fun s a h => Accepts.made_step h a
  have hstep : ∀ (s : Accepts Mgr) (a : AcceptCall Mgr), s.world.Made → s.world.Buffered →
      ((s.step a).world.Buffered ↔ (a.newConnect ≠ none → a.newOk = true)) :=
    fun s a hm hb => Accepts.buffered_step hm hb a
  exact (Machine.forall_scanl_iff_along_of hbase hstep hmade hbuf calls).trans
    Machine.along_const

/-- A failed accept behind one that succeeds. -/
def secondFails : List (AcceptCall Unit) :=
  [⟨(), 7, {}, {}, some default, true, .keep⟩, ⟨(), 8, {}, {}, some default, false, .keep⟩]

/-- Of two calls the second one leaves a connector without a bufferevent. -/
theorem accept_settled_second_fails :
    (∀ t ∈ secondFails.scanl Accepts.step Accepts.start, t.world.Buffered) ↔
      ∀ a ∈ secondFails, a.newConnect ≠ none → a.newOk = true :=
  accept_settled_iff.2 Accepts.start secondFails World.made_start World.buffered_start

/-- Without a bufferevent the connector stays in the table, and its descriptor open. -/
theorem failed_accept_leaves_entry :
    ¬ ∀ (s : Accepts Unit) (a : AcceptCall Unit),
      Entered s (s.step a) a ∨ Undone s (s.step a) a := by
  intro hsettled
  have hset := hsettled Accepts.start ⟨(), 8, {}, {}, some default, false, .keep⟩
  have hok := ((settled_iff _ _).mp hset).newOk
  cases hok

end ServerCom.Listener
