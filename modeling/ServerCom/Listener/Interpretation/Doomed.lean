import ServerCom.Listener.Interpretation.Orderly

/-!
# Doomed executions

An execution is doomed when a method that will follow its pointer waits on the stack and
the object is deleted already, or a method above it will delete it first. Whatever
happens next, a doomed execution does not come back to the event loop without a fault.
-/

namespace ServerCom.Listener

open Connector Machine

variable {Mgr : Type*} {m : Mgr} {id : UInt64} {p : ConnectorPtr} {w : World Mgr}
  {c d : ListenerConnector Mgr}

/-- The method follows its pointer when it goes on. -/
def Frame.touches : Frame → Bool
  | .readLoop .. => false
  | .user _ => false
  | .afterRecv .. => true
  | .afterOnError => true
  | .disConnect => true
  | .on_disconnected => true
  | .afterOnDisconnected => true

/-- The method deletes the object before it returns. -/
def Frame.deletes : Frame → Bool
  | .readLoop .. => false
  | .user _ => false
  | .afterRecv .. => false
  | .afterOnError => true
  | .disConnect => true
  | .on_disconnected => true
  | .afterOnDisconnected => true

/-- A method deletes the object above one that follows its pointer. -/
def undercut : List Frame → Bool
  | [] => false
  | f :: rest => f.deletes && rest.any Frame.touches || undercut rest

/-- Frames that are undercut touch the object. -/
theorem touches_of_undercut {stack : List Frame} (h : undercut stack = true) :
    stack.any Frame.touches = true := by
  induction stack with
  | nil => exact h
  | cons f rest ih =>
    rw [undercut, Bool.or_eq_true, Bool.and_eq_true] at h
    rw [List.any_cons, Bool.or_eq_true]
    rcases h with h | h
    · exact .inr h.2
    · exact .inr (ih h)

/-- While the object exists, its manager has it. -/
def Whole (m : Mgr) (id : UInt64) (p : ConnectorPtr) (w : World Mgr) : Prop :=
  ∀ c, w.heap p = some c → c.cnMgr = some m ∧ c.id = id ∧ (w.tables m).find? id = some p

/-- The connector of a manager is whole. -/
theorem Managed.whole {ignoring : Bool} (h : Managed m id p w ignoring c) : Whole m id p w := by
  intro d hd
  obtain rfl : c = d := Option.some.inj (h.heap.symm.trans hd)
  exact ⟨h.cnMgr, h.own, h.table⟩

/-- A change that keeps the id and the manager keeps the connector whole. -/
theorem Whole.put (h : Whole m id p w) (hc : w.heap p = some c) (hm : d.cnMgr = c.cnMgr)
    (hid : d.id = c.id) : Whole m id p (w.put p d) := by
  intro e he
  obtain rfl : d = e := Option.some.inj ((World.heap_put_self ..).symm.trans he)
  obtain ⟨hcm, hcid, htable⟩ := h c hc
  exact ⟨hm.trans hcm, hid.trans hcid, htable⟩

/-- A deleted connector is whole. -/
theorem whole_of_gone (h : w.heap p = none) : Whole m id p w := by
  intro c hc
  rw [h] at hc
  cases hc

namespace Execution

variable {s : Execution Mgr} {stack rest : List Frame}

/-- The execution has a fault or will have one before it ends. -/
structure Doomed (m : Mgr) (id : UInt64) (p : ConnectorPtr) (s : Execution Mgr) : Prop where
  /-- The table is in order. -/
  whole : Whole m id p s.world
  /-- What dooms it. -/
  lost : s.fault.isSome ∨ s.world.heap p = none ∧ s.stack.any Frame.touches = true ∨
    undercut s.stack = true

/-- A doomed run has not come back to the event loop without a fault. -/
theorem Doomed.not_returned (h : Doomed m id p s) : ¬ (s.stack = [] ∧ s.fault = none) := by
  rintro ⟨hstack, hfault⟩
  rcases h.lost with hl | ⟨-, hl⟩ | hl
  · rw [hfault] at hl
    cases hl
  · rw [hstack] at hl
    cases hl
  · rw [hstack] at hl
    cases hl

/-- A run with a fault is doomed. -/
theorem Doomed.faulted {f : Fault} (h : Whole m id p w) :
    Doomed m id p ⟨w, stack, some f⟩ := ⟨h, .inl rfl⟩

/-- The object is gone under a method that follows its pointer. -/
theorem Doomed.dangling (h : w.heap p = none) (ht : stack.any Frame.touches = true) :
    Doomed m id p ⟨w, stack, none⟩ := ⟨whole_of_gone h, .inr (.inl ⟨h, ht⟩)⟩

/-- The object will be gone under a method that follows its pointer. -/
theorem Doomed.intro_undercut (hw : Whole m id p w) (h : undercut stack = true) :
    Doomed m id p ⟨w, stack, none⟩ := ⟨hw, .inr (.inr h)⟩

/-- A step that needs the object. -/
theorem Doomed.withObject (hw : Whole m id p w) (k : ListenerConnector Mgr → Execution Mgr)
    (hk : ∀ c, w.heap p = some c → Doomed m id p (k c)) :
    Doomed m id p (Execution.withObject p ⟨w, stack, none⟩ k) := by
  cases hc : w.heap p with
  | none =>
    rw [withObject_gone hc]
    exact .faulted hw
  | some c =>
    rw [withObject_eq hc]
    exact hk c hc

variable [DecidableEq Mgr]

/-- A connection that is closed by its id is gone. -/
theorem closeConnect_gone (h : Whole m id p w) : (w.closeConnect m id).1.heap p = none := by
  cases hc : w.heap p with
  | some c =>
    rw [World.closeConnect_present (h c hc).2.2]
    exact Function.update_self ..
  | none =>
    cases hq : (w.tables m).find? id with
    | none =>
      rw [World.closeConnect_absent hq]
      exact hc
    | some q =>
      rw [World.closeConnect_present hq]
      change Function.update w.heap q none p = none
      rw [Function.update_apply, hc, ite_self]

/-- `FreeSelf` under a method that follows its pointer. -/
theorem Doomed.freeSelf (hw : Whole m id p w) (ht : rest.any Frame.touches = true)
    (hkeep : ∀ c, w.heap p = some c → c.ignoreFree = true → Doomed m id p ⟨w, rest, none⟩) :
    Doomed m id p (Execution.freeSelf p ⟨w, stack, none⟩ rest) := by
  rw [Execution.freeSelf]
  cases hc : w.heap p with
  | none =>
    rw [World.freeSelf, hc]
    exact .faulted hw
  | some c =>
    obtain ⟨hm, hid, htable⟩ := hw c hc
    cases hi : c.ignoreFree with
    | true =>
      rw [World.freeSelf_ignored hc hi]
      exact hkeep c hc hi
    | false =>
      rw [World.freeSelf_eq hc hi hm (hid ▸ htable)]
      exact .dangling (Function.update_self ..) ht

variable {rd : BuffereventRead} {mv : Move} {f : Frame}

/-- A move of the code keeps an execution doomed. -/
theorem Doomed.tick (hw : Whole m id p w)
    (hl : w.heap p = none ∧ (f :: rest).any Frame.touches = true ∨ undercut (f :: rest) = true) :
    Doomed m id p (tick rd p ⟨w, f :: rest, none⟩ rest f) := by
  have hcut : (∃ c, w.heap p = some c) → undercut (f :: rest) = true := by
    rintro ⟨c, hc⟩
    refine hl.resolve_left ?_
    rintro ⟨hnone, -⟩
    rw [hc] at hnone
    cases hnone
  cases f with
  | readLoop input inputLen =>
    rw [Execution.tick, readPass]
    split_ifs
    · refine .withObject hw _ fun c hc => ?_
      have hrest : undercut rest = true := hcut ⟨c, hc⟩
      have hput : ∀ r, Whole m id p (w.put p (withReader c r)) := fun r => hw.put hc rfl rfl
      split
      · exact .intro_undercut (hput _) hrest
      · exact .intro_undercut (hput _) hrest
      · refine .intro_undercut (hput _) ?_
        rw [undercut, hrest, Bool.or_true]
      · exact .faulted hw
    · rcases hl with hl | hl
      · exact .dangling hl.1 hl.2
      · exact .intro_undercut hw hl
  | afterRecv input inputLen =>
    refine .withObject hw _ fun c hc => ?_
    exact .intro_undercut (hw.put hc rfl rfl) (hcut ⟨c, hc⟩)
  | user cb => exact ⟨hw, .inr hl⟩
  | afterOnError =>
    rcases hl with hl | hl
    · exact .dangling hl.1 rfl
    · exact .intro_undercut hw hl
  | disConnect =>
    refine .withObject hw _ fun c hc => ?_
    exact .intro_undercut (hw.put hc rfl rfl) (hcut ⟨c, hc⟩)
  | on_disconnected =>
    refine .withObject hw _ fun c hc => ?_
    have hput : Whole m id p ((w.notify p).put p { c with ignoreFree := true }) :=
      Whole.put (w := w.notify p) hw hc rfl rfl
    exact .intro_undercut hput (hcut ⟨c, hc⟩)
  | afterOnDisconnected =>
    refine .withObject hw _ fun c hc => ?_
    have hput : Whole m id p (w.put p { c with ignoreFree := false }) := hw.put hc rfl rfl
    have htouch : rest.any Frame.touches = true := by
      have hu := hcut ⟨c, hc⟩
      rw [undercut, Bool.or_eq_true, Bool.and_eq_true] at hu
      exact hu.elim And.right touches_of_undercut
    refine .freeSelf hput htouch fun d hd hi => ?_
    obtain rfl : { c with ignoreFree := false } = d :=
      Option.some.inj ((World.heap_put_self ..).symm.trans hd)
    cases hi

/-- So does whatever the user does. -/
theorem Doomed.userStep (hw : Whole m id p w) {cb : Callback} (act : UserAct)
    (hl : w.heap p = none ∧ rest.any Frame.touches = true ∨ undercut rest = true) :
    Doomed m id p (userStep m id p ⟨w, .user cb :: rest, none⟩ cb rest act) := by
  have htouch : rest.any Frame.touches = true := hl.elim And.right touches_of_undercut
  have hsame : Doomed m id p ⟨w, .user cb :: rest, none⟩ := ⟨hw, .inr hl⟩
  have hpush : Doomed m id p ⟨w, .disConnect :: .user cb :: rest, none⟩ := by
    rcases hl with hl | hl
    · exact .dangling hl.1 rfl
    · refine .intro_undercut hw ?_
      rw [undercut, undercut, hl, Bool.or_true, Bool.or_true]
  cases act with
  | freeSelf => exact .freeSelf hw htouch fun _ _ _ => hsame
  | disConnect => exact hpush
  | closeConnect => exact .dangling (closeConnect_gone hw) htouch
  | sendData call =>
    refine .withObject hw _ fun c hc => ?_
    split_ifs
    · exact hpush
    · exact hsame
  | ret => exact ⟨hw, .inr hl⟩

/-- No move saves a doomed execution. -/
theorem Doomed.step (h : Doomed m id p s) (mv : Move) : Doomed m id p (s.step rd m id p mv) := by
  obtain ⟨w, stack, fault⟩ := s
  cases fault with
  | some f => exact h
  | none =>
    have hl := h.lost.resolve_left (by exact Bool.false_ne_true)
    cases stack with
    | nil => exact absurd ⟨rfl, rfl⟩ h.not_returned
    | cons f rest =>
      cases mv with
      | readable input => exact h
      | event events => exact h
      | tick => exact .tick h.whole hl
      | user act =>
        cases f with
        | user cb => exact .userStep h.whole act hl
        | readLoop input inputLen => exact h
        | afterRecv input inputLen => exact h
        | afterOnError => exact h
        | disConnect => exact h
        | on_disconnected => exact h
        | afterOnDisconnected => exact h

/-! ## Leaving the orderly forms -/

/-- An act that is not permitted, above a method that follows its pointer. -/
theorem Doomed.of_not_permitted {ignoring : Bool} {cb : Callback} {act : UserAct}
    (hm : Managed m id p w ignoring c) (hcb : cb ≠ .onDisconnected → ignoring = false)
    (ht : f.touches = true) (hact : ¬ Permitted p ⟨w, [.user cb, f], none⟩ cb act) :
    Doomed m id p ((⟨w, [.user cb, f], none⟩ : Execution Mgr).step rd m id p (.user act)) := by
  have htouch : [f].any Frame.touches = true := by rw [List.any_cons, ht, Bool.true_or]
  have hpush : Doomed m id p ⟨w, [.disConnect, .user cb, f], none⟩ := by
    refine .intro_undercut hm.whole ?_
    change ((true && (false || [f].any Frame.touches)) || undercut [.user cb, f]) = true
    rw [htouch]
    rfl
  change Doomed m id p (Execution.userStep m id p _ cb [f] act)
  cases act with
  | freeSelf =>
    refine .freeSelf hm.whole htouch fun d hd hi => ?_
    obtain rfl : c = d := Option.some.inj (hm.heap.symm.trans hd)
    rw [hm.flag, hcb hact] at hi
    cases hi
  | disConnect => exact hpush
  | closeConnect => exact .dangling (closeConnect_gone hm.whole) htouch
  | sendData call =>
    rw [Execution.userStep, withObject_eq hm.heap]
    split_ifs with htrip
    · exact hpush
    · refine absurd (fun d hd => ?_) hact
      obtain rfl : c = d := Option.some.inj (hm.heap.symm.trans hd)
      exact Bool.eq_false_iff.mpr htrip
  | ret => exact absurd trivial hact

/-- A move that is not guarded dooms an orderly execution. -/
theorem Orderly.doomed (h : Orderly m id p s) (hg : ¬ Guard rd p s mv) :
    Doomed m id p (s.step rd m id p mv) := by
  cases h with
  | idle hm => exact absurd (by cases mv <;> trivial) hg
  | gone hgone => exact absurd (by cases mv <;> trivial) hg
  | @reading v e input inputLen hm =>
    cases mv with
    | readable input => exact absurd trivial hg
    | event events => exact absurd trivial hg
    | user act => exact absurd trivial hg
    | tick =>
      simp only [Guard, not_forall, ne_eq, not_not] at hg
      obtain ⟨d, hd, hpos, hpass⟩ := hg
      change Doomed m id p (Execution.readPass rd p _ input inputLen [])
      rw [Execution.readPass, if_pos hpos, withObject_eq hd, hpass]
      exact .faulted hm.whole
  | inRecv hm =>
    cases mv with
    | user act => exact .of_not_permitted hm (fun _ => rfl) rfl hg
    | readable input => exact absurd trivial hg
    | event events => exact absurd trivial hg
    | tick => exact absurd trivial hg
  | behindRecv hm => exact absurd (by cases mv <;> trivial) hg
  | inError hm =>
    cases mv with
    | user act => exact .of_not_permitted hm (fun _ => rfl) rfl hg
    | readable input => exact absurd trivial hg
    | event events => exact absurd trivial hg
    | tick => exact absurd trivial hg
  | behindError hm => exact absurd (by cases mv <;> trivial) hg
  | disConnecting hm => exact absurd (by cases mv <;> trivial) hg
  | disconnected hm => exact absurd (by cases mv <;> trivial) hg
  | inDisconnected hm =>
    cases mv with
    | user act => exact .of_not_permitted hm (fun hne => absurd rfl hne) rfl hg
    | readable input => exact absurd trivial hg
    | event events => exact absurd trivial hg
    | tick => exact absurd trivial hg
  | behindDisconnected hm => exact absurd (by cases mv <;> trivial) hg

end Execution

end ServerCom.Listener
