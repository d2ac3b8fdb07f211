import ServerCom.Listener.Interpretation.Exact
import ServerCom.Listener.Native.Nesting

/-!
# Orderly executions

As long as the user closes the connector only where nothing waits for it, the calls in
progress take one of a few forms, in each of which the object exists. `Orderly` lists
them, and `work` bounds the moves of the code and the returns that are still to come.
-/

namespace ServerCom.Listener

open Connector Machine

variable {Mgr : Type*} {m : Mgr} {id : UInt64} {p : ConnectorPtr} {w : World Mgr}
  {c d : ListenerConnector Mgr} {ignoring flag : Bool}

/-- The connector exists, is in the table of its manager and was never deleted. -/
structure Managed (m : Mgr) (id : UInt64) (p : ConnectorPtr) (w : World Mgr) (ignoring : Bool)
    (c : ListenerConnector Mgr) : Prop where
  /-- The object. -/
  heap : w.heap p = some c
  /-- Its manager. -/
  cnMgr : c.cnMgr = some m
  /-- Its id. -/
  own : c.id = id
  /-- `m_ignore_free`. -/
  flag : c.ignoreFree = ignoring
  /-- Its entry. -/
  table : (w.tables m).find? id = some p
  /-- No deletion so far. -/
  fresh : w.deleted.count p = 0

/-- The connector was deleted once. -/
def Gone (p : ConnectorPtr) (w : World Mgr) : Prop := w.heap p = none ∧ w.deleted.count p = 1

/-- An open connector of an exact world is managed. -/
theorem Exact.managed {a : Registry Mgr} (h : Exact w a) (hp : a[p]? = some ⟨m, none⟩) :
    ∃ c, Managed m (idOf p) p w false c := by
  obtain ⟨c, hc, hm, hid, hi⟩ := h.object p m hp
  refine ⟨c, hc, hm, hid, hi, (h.table m _ p).mpr ⟨hp, rfl⟩, ?_⟩
  rw [h.deleted, hp]
  rfl

/-- A change that keeps the id and the manager keeps the connector managed. -/
theorem Managed.put (h : Managed m id p w ignoring c) (hm : d.cnMgr = c.cnMgr) (hid : d.id = c.id)
    (hi : d.ignoreFree = flag) : Managed m id p (w.put p d) flag d where
  heap := World.heap_put_self ..
  cnMgr := hm.trans h.cnMgr
  own := hid.trans h.own
  flag := hi
  table := h.table
  fresh := h.fresh

/-- A notice leaves the connector managed. -/
theorem Managed.notify (h : Managed m id p w ignoring c) :
    Managed m id p (w.notify p) ignoring c where
  heap := h.heap
  cnMgr := h.cnMgr
  own := h.own
  flag := h.flag
  table := h.table
  fresh := h.fresh

/-- A managed connector is in its table. -/
theorem Managed.entry (h : Managed m id p w ignoring c) : (w.tables m).find? c.id = some p := by
  rw [h.own]
  exact h.table

/-- Code that uses an object goes on with it. -/
theorem Execution.withObject_eq {s : Execution Mgr} (h : s.world.heap p = some c)
    (k : ListenerConnector Mgr → Execution Mgr) : s.withObject p k = k c := by
  rw [withObject, h]

/-- Code that uses a deleted object is at fault. -/
theorem Execution.withObject_gone {s : Execution Mgr} (h : s.world.heap p = none)
    (k : ListenerConnector Mgr → Execution Mgr) :
    s.withObject p k = { s with fault := some .useAfterDelete } := by
  rw [withObject, h]

variable [DecidableEq Mgr]

/-- A connector that is taken out is gone. -/
theorem Managed.remove (h : Managed m id p w ignoring c) : Gone p (w.remove m id p) := by
  refine ⟨Function.update_self .., ?_⟩
  change (w.deleted ++ [p]).count p = 1
  rw [List.count_append, h.fresh, List.count_singleton_self]

/-- `FreeSelf` takes the connector out. -/
theorem Managed.freeSelf (h : Managed m id p w false c) :
    w.freeSelf p = some (w.remove m id p, true) := by
  rw [World.freeSelf_eq h.heap h.flag h.cnMgr h.entry, h.own]

/-- While it is ignored, `FreeSelf` does nothing. -/
theorem Managed.freeSelf_ignored (h : Managed m id p w true c) :
    w.freeSelf p = some (w, false) := World.freeSelf_ignored h.heap h.flag

namespace Execution

/-! ## The condition on a run -/

/-- The user's act closes nothing under a method that waits. -/
def Permitted (p : ConnectorPtr) (s : Execution Mgr) (cb : Callback) : UserAct → Prop
  | .freeSelf => cb = .onDisconnected
  | .disConnect => False
  | .closeConnect => False
  | .sendData call =>
    ∀ c, s.world.heap p = some c → (c.base.sendData call).disConnected = false
  | .ret => True

/-- The next move neither closes the connector under a waiting method nor writes outside
`m_msg`. -/
def Guard (rd : BuffereventRead) (p : ConnectorPtr) (s : Execution Mgr) (mv : Move) : Prop :=
  match mv, s.stack with
  | .user act, .user cb :: _ => Permitted p s cb act
  | .tick, .readLoop input inputLen :: _ =>
    ∀ c, s.world.heap p = some c → 0 < inputLen →
      readStep rd ⟨c.base.reader, input, inputLen⟩ ≠ .overrun
  | _, _ => True

/-! ## The forms of an orderly execution -/

/-- The calls that are in progress in a guarded run. -/
inductive Orderly (m : Mgr) (id : UInt64) (p : ConnectorPtr) : Execution Mgr → Prop where
  /-- In the event loop. -/
  | idle {v : World Mgr} {e : ListenerConnector Mgr} :
      Managed m id p v false e → Orderly m id p ⟨v, [], none⟩
  /-- In the event loop, and the connector has ended. -/
  | gone {v : World Mgr} :
      Gone p v → Orderly m id p ⟨v, [], none⟩
  /-- At the head of the read loop. -/
  | reading {v : World Mgr} {e : ListenerConnector Mgr} {input : List UInt8} {inputLen : Int} :
      Managed m id p v false e →
      Orderly m id p ⟨v, [.readLoop input inputLen], none⟩
  /-- In `OnRecv`. -/
  | inRecv {v : World Mgr} {e : ListenerConnector Mgr} {input : List UInt8} {inputLen : Int} :
      Managed m id p v false e →
      Orderly m id p ⟨v, [.user .onRecv, .afterRecv input inputLen], none⟩
  /-- Behind `OnRecv`. -/
  | behindRecv {v : World Mgr} {e : ListenerConnector Mgr} {input : List UInt8} {inputLen : Int} :
      Managed m id p v false e →
      Orderly m id p ⟨v, [.afterRecv input inputLen], none⟩
  /-- In `OnError`. -/
  | inError {v : World Mgr} {e : ListenerConnector Mgr} :
      Managed m id p v false e →
      Orderly m id p ⟨v, [.user .onError, .afterOnError], none⟩
  /-- Behind `OnError`. -/
  | behindError {v : World Mgr} {e : ListenerConnector Mgr} :
      Managed m id p v false e → Orderly m id p ⟨v, [.afterOnError], none⟩
  /-- In `DisConnect`. -/
  | disConnecting {v : World Mgr} {e : ListenerConnector Mgr} :
      Managed m id p v false e → Orderly m id p ⟨v, [.disConnect], none⟩
  /-- In `on_disconnected`. -/
  | disconnected {v : World Mgr} {e : ListenerConnector Mgr} :
      Managed m id p v false e → Orderly m id p ⟨v, [.on_disconnected], none⟩
  /-- In `onDisconnected`. -/
  | inDisconnected {v : World Mgr} {e : ListenerConnector Mgr} :
      Managed m id p v true e →
      Orderly m id p ⟨v, [.user .onDisconnected, .afterOnDisconnected], none⟩
  /-- Behind `onDisconnected`. -/
  | behindDisconnected {v : World Mgr} {e : ListenerConnector Mgr} :
      Managed m id p v true e →
      Orderly m id p ⟨v, [.afterOnDisconnected], none⟩

/-- What `input_len` bytes may cost. -/
def readWork (inputLen : Int) : Nat := inputLen.toNat * (sizeofMsgPack + 1)

/-- A bound on the moves of the code and the returns still to come. -/
def work (p : ConnectorPtr) (s : Execution Mgr) : Nat :=
  match s.stack with
  | [.readLoop _ inputLen] =>
    5 + (readWork inputLen + (s.world.heap p).elim 0 (·.base.reader.msgWriteLen))
  | [.user .onRecv, .afterRecv _ inputLen] => 7 + readWork inputLen
  | [.afterRecv _ inputLen] => 6 + readWork inputLen
  | [.user .onError, .afterOnError] => 6
  | [.afterOnError] => 5
  | [.disConnect] => 4
  | [.on_disconnected] => 3
  | [.user .onDisconnected, .afterOnDisconnected] => 2
  | [.afterOnDisconnected] => 1
  | _ => 0

/-- A move of the code, or the return of a callback. -/
def advances (s : Execution Mgr) (mv : Move) : Bool :=
  match s.stack, mv with
  | .user _ :: _, .user .ret => true
  | .user _ :: _, _ => false
  | _ :: _, .tick => true
  | _, _ => false

/-- The work an event brings. -/
def budget : Move → Nat
  | .readable input => 5 + (readWork (int32 input.length) + sizeofMsgPack)
  | .event _ => 6
  | .tick => 0
  | .user _ => 0

/-! ## What a guarded move does -/

variable {rd : BuffereventRead} {s t : Execution Mgr} {mv : Move}

/-- A move keeps the execution orderly and pays for what it does. -/
def Proceeds (rd : BuffereventRead) (m : Mgr) (id : UInt64) (p : ConnectorPtr)
    (s : Execution Mgr) (mv : Move) : Prop :=
  Orderly m id p (s.step rd m id p mv) ∧
    (s.step rd m id p mv).work p + (s.advances mv).toNat ≤ s.work p + budget mv

/-- A step proceeds when its result is orderly and has no more work than it is given. -/
theorem Proceeds.of_eq (hs : s.step rd m id p mv = t) (ht : Orderly m id p t)
    (hw : t.work p + (s.advances mv).toNat ≤ s.work p + budget mv) :
    Proceeds rd m id p s mv := by
  rw [Proceeds, hs]
  exact ⟨ht, hw⟩

/-- A move that is not the next one. -/
theorem Orderly.stay (h : Orderly m id p s) (hs : s.step rd m id p mv = s)
    (ha : s.advances mv = false) : Proceeds rd m id p s mv := by
  refine .of_eq hs h ?_
  rw [ha]
  exact Nat.le_add_right ..

/-- Permitted acts change nothing until the callback returns. -/
theorem step_permitted {cb : Callback} {rest : List Frame} {act : UserAct}
    (h : Managed m id p w ignoring c) (hcb : cb = .onDisconnected → ignoring = true)
    (hact : Permitted p ⟨w, .user cb :: rest, none⟩ cb act) (hret : act ≠ .ret) :
    (⟨w, .user cb :: rest, none⟩ : Execution Mgr).step rd m id p (.user act) =
      ⟨w, .user cb :: rest, none⟩ := by
  change userStep m id p _ cb rest act = _
  cases act with
  | freeSelf =>
    obtain rfl := hcb hact
    rw [userStep, Execution.freeSelf, h.freeSelf_ignored]
  | disConnect => exact hact.elim
  | closeConnect => exact hact.elim
  | sendData call =>
    rw [userStep, withObject_eq h.heap, hact c h.heap]
    exact if_neg Bool.false_ne_true
  | ret => exact absurd rfl hret

/-- Acts in a callback, where only the return advances. -/
theorem Orderly.user {cb : Callback} {rest : List Frame} {act : UserAct}
    (h : Orderly m id p ⟨w, .user cb :: rest, none⟩) (hm : Managed m id p w ignoring c)
    (hcb : cb = .onDisconnected → ignoring = true)
    (hact : Permitted p ⟨w, .user cb :: rest, none⟩ cb act)
    (hnext : Orderly m id p ⟨w, rest, none⟩)
    (hwork : work p (⟨w, rest, none⟩ : Execution Mgr) + 1 ≤
      work p (⟨w, .user cb :: rest, none⟩ : Execution Mgr)) :
    Proceeds rd m id p ⟨w, .user cb :: rest, none⟩ (.user act) := by
  by_cases hret : act = .ret
  · subst hret
    exact .of_eq rfl hnext hwork
  · refine h.stay (step_permitted hm hcb hact hret) ?_
    cases act with
    | ret => exact absurd rfl hret
    | freeSelf => rfl
    | disConnect => rfl
    | closeConnect => rfl
    | sendData call => rfl

omit [DecidableEq Mgr] in
/-- The work of a read callback at its beginning. -/
theorem work_reading (hm : Managed m id p w ignoring c) (input : List UInt8) (inputLen : Int) :
    work p (⟨w, [.readLoop input inputLen], none⟩ : Execution Mgr) =
      5 + (readWork inputLen + c.base.reader.msgWriteLen) := by
  simp [work, hm.heap]

/-- A pass of the read loop. -/
theorem Orderly.readPass {input : List UInt8} {inputLen : Int} (hm : Managed m id p w false c)
    (hg : Guard rd p ⟨w, [.readLoop input inputLen], none⟩ .tick) :
    Proceeds rd m id p ⟨w, [.readLoop input inputLen], none⟩ .tick := by
  have hwork := work_reading hm input inputLen
  have hreader : ∀ r : Reader, Managed m id p (w.put p (withReader c r)) false (withReader c r) :=
    fun r => hm.put rfl rfl hm.flag
  by_cases hpos : 0 < inputLen
  · have hstep : (⟨w, [.readLoop input inputLen], none⟩ : Execution Mgr).step rd m id p .tick =
        Execution.readPass rd p ⟨w, [.readLoop input inputLen], none⟩ input inputLen [] := rfl
    rw [Execution.readPass, if_pos hpos, withObject_eq hm.heap] at hstep
    have hbefore : 1 ≤ inputLen.toNat := by omega
    cases hpass : readStep rd ⟨c.base.reader, input, inputLen⟩ with
    | next l =>
      rw [hpass] at hstep
      change _ = (⟨w.put p (withReader c l.reader), [.readLoop l.input l.inputLen], none⟩ :
        Execution Mgr) at hstep
      refine .of_eq hstep (.reading (hreader l.reader)) ?_
      have hless : l.inputLen.toNat < inputLen.toNat := readStep_next hpos hpass
      have hbound := l.reader.bound
      have hmul : (l.inputLen.toNat + 1) * (sizeofMsgPack + 1) ≤
          inputLen.toNat * (sizeofMsgPack + 1) := Nat.mul_le_mul_right _ hless
      rw [Nat.succ_mul] at hmul
      rw [work_reading (hreader l.reader), hwork]
      simp only [readWork, withReader, budget, advances, Bool.toNat_true]
      omega
    | recv l =>
      rw [hpass] at hstep
      change _ = (⟨w.put p (withReader c l.reader),
        [.user .onRecv, .afterRecv l.input l.inputLen], none⟩ : Execution Mgr) at hstep
      refine .of_eq hstep (.inRecv (hreader l.reader)) ?_
      obtain ⟨hhead, hle⟩ := readStep_recv hpass
      have hless : l.inputLen.toNat ≤ inputLen.toNat := Int.toNat_le_toNat hle
      have hmul : l.inputLen.toNat * (sizeofMsgPack + 1) ≤
          inputLen.toNat * (sizeofMsgPack + 1) := Nat.mul_le_mul_right _ hless
      have hfour : 4 ≤ c.base.reader.msgWriteLen := hhead
      rw [hwork]
      simp only [work, readWork, budget, advances, Bool.toNat_true]
      omega
    | disConnect r =>
      rw [hpass] at hstep
      change _ = (⟨w.put p (withReader c r), [.disConnect], none⟩ : Execution Mgr) at hstep
      refine .of_eq hstep (.disConnecting (hreader r)) ?_
      rw [hwork]
      simp only [work, budget, advances, Bool.toNat_true]
      omega
    | overrun => exact absurd hpass (hg c hm.heap hpos)
  · have hstep : (⟨w, [.readLoop input inputLen], none⟩ : Execution Mgr).step rd m id p .tick =
        ⟨w, [], none⟩ := if_neg hpos
    refine .of_eq hstep (.idle hm) ?_
    rw [hwork]
    simp only [work, budget, advances, Bool.toNat_true]
    omega

/-- A move out of the event loop. -/
theorem Orderly.enter (hm : Managed m id p w false c) (mv : Move) :
    Proceeds rd m id p ⟨w, [], none⟩ mv := by
  cases mv with
  | readable input =>
    have hstep : (⟨w, [], none⟩ : Execution Mgr).step rd m id p (.readable input) =
        ⟨w, [.readLoop input (int32 input.length)], none⟩ := by
      change (if (w.heap p).isSome then
        (⟨w, [.readLoop input (int32 input.length)], none⟩ : Execution Mgr)
        else ⟨w, [], none⟩) = _
      rw [hm.heap]
      rfl
    refine .of_eq hstep (.reading hm) ?_
    have hbound := c.base.reader.bound
    rw [work_reading hm]
    change _ + 0 ≤ 0 + (_ + (_ + _))
    omega
  | event events =>
    have hstep : (⟨w, [], none⟩ : Execution Mgr).step rd m id p (.event events) =
        eventStep p ⟨w, [], none⟩ c events := by
      simp only [Execution.step, hm.heap, Option.isSome_none, Bool.false_eq_true, if_false]
    rw [eventStep] at hstep
    split_ifs at hstep
    · exact .of_eq hstep (.idle (hm.put rfl rfl hm.flag)) (Nat.zero_le _)
    · exact .of_eq hstep (.inError hm) le_rfl
  | tick => exact (Orderly.idle hm).stay rfl rfl
  | user act => exact (Orderly.idle hm).stay rfl rfl

/-- Nothing is delivered to a deleted connector. -/
theorem Orderly.ended (h : Gone p w) (mv : Move) : Proceeds rd m id p ⟨w, [], none⟩ mv := by
  refine (Orderly.gone h).stay ?_ ?_
  · cases mv with
    | readable input =>
      change (if (w.heap p).isSome then
        (⟨w, [.readLoop input (int32 input.length)], none⟩ : Execution Mgr)
        else ⟨w, [], none⟩) = _
      rw [h.1]
      rfl
    | event events =>
      simp only [Execution.step, h.1, Option.isSome_none, Bool.false_eq_true, if_false]
    | tick => rfl
    | user act => rfl
  · cases mv <;> rfl

/-- A move of the code on top of a form without a user's code. -/
theorem Orderly.code {f : Frame} (h : Orderly m id p ⟨w, [f], none⟩)
    (hf : ∀ cb, f ≠ .user cb)
    (htick : Guard rd p ⟨w, [f], none⟩ .tick → Proceeds rd m id p ⟨w, [f], none⟩ .tick)
    (hg : Guard rd p ⟨w, [f], none⟩ mv) : Proceeds rd m id p ⟨w, [f], none⟩ mv := by
  cases mv with
  | tick => exact htick hg
  | readable input => exact h.stay rfl (by cases f <;> rfl)
  | event events => exact h.stay rfl (by cases f <;> rfl)
  | user act =>
    cases f with
    | user cb => exact absurd rfl (hf cb)
    | readLoop input inputLen => exact h.stay rfl rfl
    | afterRecv input inputLen => exact h.stay rfl rfl
    | afterOnError => exact h.stay rfl rfl
    | disConnect => exact h.stay rfl rfl
    | on_disconnected => exact h.stay rfl rfl
    | afterOnDisconnected => exact h.stay rfl rfl

/-- A form with a user's code on top of the method that waits for it. -/
theorem Orderly.callback {cb : Callback} {f : Frame}
    (h : Orderly m id p ⟨w, [.user cb, f], none⟩) (hm : Managed m id p w ignoring c)
    (hcb : cb = .onDisconnected → ignoring = true) (hnext : Orderly m id p ⟨w, [f], none⟩)
    (hwork : work p (⟨w, [f], none⟩ : Execution Mgr) + 1 ≤
      work p (⟨w, [.user cb, f], none⟩ : Execution Mgr))
    (hg : Guard rd p ⟨w, [.user cb, f], none⟩ mv) :
    Proceeds rd m id p ⟨w, [.user cb, f], none⟩ mv := by
  cases mv with
  | user act => exact h.user hm hcb hg hnext hwork
  | readable input => exact h.stay rfl rfl
  | event events => exact h.stay rfl rfl
  | tick => exact h.stay rfl rfl

/-- A guarded move keeps the execution orderly. -/
theorem Orderly.step (h : Orderly m id p s) (hg : Guard rd p s mv) : Proceeds rd m id p s mv := by
  have hnot : Callback.onRecv = .onDisconnected → false = true := nofun
  have hnot' : Callback.onError = .onDisconnected → false = true := nofun
  cases h with
  | idle hm => exact Orderly.enter hm mv
  | gone hgone => exact Orderly.ended hgone mv
  | reading hm => exact (Orderly.reading hm).code nofun (Orderly.readPass hm) hg
  | inRecv hm =>
    refine (Orderly.inRecv hm).callback hm hnot (.behindRecv hm) ?_ hg
    exact (Nat.add_right_comm 6 (readWork _) 1).le
  | @behindRecv v e input inputLen hm =>
    refine (Orderly.behindRecv hm).code nofun (fun _ => ?_) hg
    have hclear := hm.put (d := withReader e e.base.reader.clear) rfl rfl hm.flag
    refine .of_eq (withObject_eq hm.heap _) (.reading hclear) ?_
    have hzero : (withReader e e.base.reader.clear).base.reader.msgWriteLen = 0 := rfl
    have hwork := work_reading hclear input inputLen
    rw [hzero] at hwork
    change work p _ + 1 ≤ 6 + readWork inputLen
    exact (congrArg (· + 1) hwork).trans_le (by omega)
  | inError hm => exact (Orderly.inError hm).callback hm hnot' (.behindError hm) le_rfl hg
  | behindError hm =>
    exact (Orderly.behindError hm).code nofun (fun _ => .of_eq rfl (.disConnecting hm) le_rfl) hg
  | disConnecting hm =>
    refine (Orderly.disConnecting hm).code nofun (fun _ => ?_) hg
    exact .of_eq (withObject_eq hm.heap _) (.disconnected (hm.put rfl rfl hm.flag)) le_rfl
  | disconnected hm =>
    refine (Orderly.disconnected hm).code nofun (fun _ => ?_) hg
    exact .of_eq (withObject_eq hm.heap _) (.inDisconnected (hm.notify.put rfl rfl rfl)) le_rfl
  | inDisconnected hm =>
    exact (Orderly.inDisconnected hm).callback hm (fun _ => rfl) (.behindDisconnected hm) le_rfl hg
  | @behindDisconnected v e hm =>
    refine (Orderly.behindDisconnected hm).code nofun (fun _ => ?_) hg
    have hfree := hm.put (d := { e with ignoreFree := false }) rfl rfl rfl
    refine .of_eq ((withObject_eq hm.heap _).trans ?_) (.gone hfree.remove) le_rfl
    change Execution.freeSelf p ⟨v.put p { e with ignoreFree := false }, [], none⟩ [] = _
    rw [Execution.freeSelf, hfree.freeSelf]

end Execution

end ServerCom.Listener
