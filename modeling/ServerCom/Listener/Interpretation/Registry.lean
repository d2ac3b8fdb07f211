import ServerCom.Core.Machine.Guarded
import ServerCom.Listener.Native.World

/-!
# The registry

What the managers are for: a list of the connectors accepted, each with its manager
and with how it ended, if it did. Ids are the numbers of acceptance. A world is exact
for a registry when its tables, its objects and what has happened agree with it, and
every operation on open connectors keeps the two in step.
-/

namespace ServerCom.Listener

open Connector

/-- How a connector ended. -/
inductive Fate where
  /-- By `FreeSelf` or `CloseConnect`. -/
  | released
  /-- By `DisConnect` or a passive event. -/
  | disconnected
  deriving DecidableEq, Repr

/-- An accepted connector. -/
structure Entry (Mgr : Type*) where
  /-- The manager it was accepted for. -/
  mgr : Mgr
  /-- How it ended, if it did. -/
  fate : Option Fate
  deriving DecidableEq, Repr

/-- The connectors accepted, in order. -/
abbrev Registry (Mgr : Type*) := List (Entry Mgr)

/-- The id of a connector. -/
def idOf (p : ConnectorPtr) : UInt64 := .ofNat (p + 1)

namespace Registry

variable {Mgr : Type*}

/-- The connector has not ended. -/
def IsOpen (a : Registry Mgr) (p : ConnectorPtr) : Prop := a[p]?.map Entry.fate = some none

instance (a : Registry Mgr) (p : ConnectorPtr) : Decidable (a.IsOpen p) :=
  inferInstanceAs (Decidable (_ = _))

/-- An open connector has an entry without a fate. -/
theorem isOpen_iff {a : Registry Mgr} {p : ConnectorPtr} :
    a.IsOpen p ↔ ∃ m, a[p]? = some ⟨m, none⟩ := by
  rw [IsOpen, Option.map_eq_some_iff]
  constructor
  · rintro ⟨⟨m, fate⟩, he, rfl⟩
    exact ⟨m, he⟩
  · rintro ⟨m, he⟩
    exact ⟨_, he, rfl⟩

/-- A connector ends. -/
def close (a : Registry Mgr) (p : ConnectorPtr) (fate : Fate) : Registry Mgr :=
  a.modify p fun e => { e with fate := some fate }

@[simp] theorem length_close (a : Registry Mgr) (p : ConnectorPtr) (fate : Fate) :
    (a.close p fate).length = a.length := List.length_modify ..

/-- A close settles the fate of one entry. -/
theorem getElem?_close (a : Registry Mgr) (p q : ConnectorPtr) (fate : Fate) :
    (a.close p fate)[q]? =
      if p = q then a[q]?.map (fun e => { e with fate := some fate }) else a[q]? := by
  rw [close, List.getElem?_modify]
  split_ifs <;> simp

/-- The entry that is closed has its fate. -/
theorem getElem?_close_self {a : Registry Mgr} {p : ConnectorPtr} {e : Entry Mgr}
    (hp : a[p]? = some e) (fate : Fate) : (a.close p fate)[p]? = some ⟨e.mgr, some fate⟩ := by
  rw [getElem?_close, if_pos rfl, hp]
  rfl

/-- No other entry changes. -/
theorem getElem?_close_of_ne {a : Registry Mgr} {p q : ConnectorPtr} (hq : q ≠ p) (fate : Fate) :
    (a.close p fate)[q]? = a[q]? := by
  rw [getElem?_close, if_neg hq.symm]

/-- A new entry comes behind the others. -/
theorem getElem?_accept (a : Registry Mgr) (e : Entry Mgr) (q : ConnectorPtr) :
    (a ++ [e])[q]? = if q = a.length then some e else a[q]? := by
  split_ifs with hq
  · rw [hq, List.getElem?_concat_length]
  · rcases Nat.lt_or_gt_of_ne hq with hlt | hgt
    · exact List.getElem?_append_left hlt
    · have hlen : (a ++ [e]).length ≤ q := by
        rw [List.length_append, List.length_singleton]
        exact hgt
      rw [List.getElem?_eq_none (Nat.le_of_lt hgt), List.getElem?_eq_none hlen]

variable [DecidableEq Mgr]

/-- The registry after an operation. -/
def step (a : Registry Mgr) : Op Mgr → Registry Mgr
  | .accept m .. => a ++ [⟨m, none⟩]
  | .closeConnect m id =>
    if id ≠ 0 ∧ a[id.toNat - 1]? = some ⟨m, none⟩ then a.close (id.toNat - 1) .released else a
  | .freeSelf p => a.close p .released
  | .disConnect p _ => a.close p .disconnected
  | .event p events _ =>
    if events &&& Connection.bevEventConnected ≠ 0 then a else a.close p .disconnected
  | .read p _ rejected _ => if rejected then a.close p .disconnected else a

/-- Operations on a connector are made while it is open. -/
def Legal (a : Registry Mgr) : Op Mgr → Prop
  | .accept .. => True
  | .closeConnect .. => True
  | .freeSelf p => a.IsOpen p
  | .disConnect p _ => a.IsOpen p
  | .event p _ _ => a.IsOpen p
  | .read p _ _ _ => a.IsOpen p

instance (a : Registry Mgr) : (op : Op Mgr) → Decidable (a.Legal op)
  | .accept .. => .isTrue trivial
  | .closeConnect .. => .isTrue trivial
  | .freeSelf p => inferInstanceAs (Decidable (a.IsOpen p))
  | .disConnect p _ => inferInstanceAs (Decidable (a.IsOpen p))
  | .event p _ _ => inferInstanceAs (Decidable (a.IsOpen p))
  | .read p _ _ _ => inferInstanceAs (Decidable (a.IsOpen p))

end Registry

/-! ## What the operations do -/

namespace World

variable {Mgr : Type*} {w : World Mgr} {p : ConnectorPtr} {c : ListenerConnector Mgr} {m : Mgr}

/-- `onDisconnected` is called for a connector. -/
def notify (w : World Mgr) (p : ConnectorPtr) : World Mgr :=
  { w with disconnected := w.disconnected ++ [p] }

@[simp] theorem notify_put (w : World Mgr) (p : ConnectorPtr) (c : ListenerConnector Mgr) :
    (w.put p c).notify p = (w.notify p).put p c := rfl

variable [DecidableEq Mgr]

/-- A connector leaves its table and is deleted. -/
def remove (w : World Mgr) (m : Mgr) (id : UInt64) (p : ConnectorPtr) : World Mgr :=
  (w.eraseEntry m id).delete p

/-- What was stored in an object is gone with it. -/
@[simp] theorem remove_put (w : World Mgr) (p : ConnectorPtr) (c : ListenerConnector Mgr) (m : Mgr)
    (id : UInt64) : (w.put p c).remove m id p = w.remove m id p := by
  simp [remove, delete, eraseEntry, put]

/-- Only the new entry is added. -/
theorem find?_update_insert (w : World Mgr) (m : Mgr) (id : UInt64) (p : ConnectorPtr) (m' : Mgr)
    (a : UInt64) : (Function.update w.tables m ((w.tables m).insert id p) m').find? a =
      if m' = m ∧ a = id then some p else (w.tables m').find? a := by
  by_cases hm : m' = m
  · subst hm
    simp [SortedMap.find?_insert]
  · simp [hm]

/-- Only the removed entry is missing. -/
theorem find?_remove (w : World Mgr) (m : Mgr) (id : UInt64) (p : ConnectorPtr) (m' : Mgr)
    (a : UInt64) : ((w.remove m id p).tables m').find? a =
      if m' = m ∧ a = id then none else (w.tables m').find? a := by
  unfold remove delete eraseEntry
  by_cases hm : m' = m
  · subst hm
    simp [SortedMap.find?_erase]
  · simp [hm]

/-- An id that is taken out of a table is not found there. -/
theorem find?_remove_self (w : World Mgr) (m : Mgr) (id : UInt64) (p : ConnectorPtr)
    (a : UInt64) : ((w.remove m id p).tables m).find? a =
      if a = id then none else (w.tables m).find? a := by
  rw [find?_remove]
  simp only [true_and]

/-- A connector that is taken out is gone, and no other one is. -/
theorem heap_remove (w : World Mgr) (m : Mgr) (id : UInt64) (p q : ConnectorPtr) :
    (w.remove m id p).heap q = if q = p then none else w.heap q := Function.update_apply ..

/-- A connector that is taken out is deleted. -/
theorem deleted_remove (w : World Mgr) (m : Mgr) (id : UInt64) (p : ConnectorPtr) :
    (w.remove m id p).deleted = w.deleted ++ [p] := rfl

/-- An id that is found is closed. -/
theorem closeConnect_present {id : UInt64} (h : (w.tables m).find? id = some p) :
    w.closeConnect m id = (w.remove m id p, true) := by
  rw [closeConnect, h]
  rfl

/-- An id that is not found closes nothing. -/
theorem closeConnect_absent {id : UInt64} (h : (w.tables m).find? id = none) :
    w.closeConnect m id = (w, false) := by
  rw [closeConnect, h]

/-- While it is ignored, `FreeSelf` does nothing. -/
theorem freeSelf_ignored (hc : w.heap p = some c) (hi : c.ignoreFree = true) :
    w.freeSelf p = some (w, false) := by
  rw [freeSelf, hc, Option.bind_some, if_pos hi]

/-- `FreeSelf` takes a connector out of its table. -/
theorem freeSelf_eq (hc : w.heap p = some c) (hi : c.ignoreFree = false) (hm : c.cnMgr = some m)
    (ht : (w.tables m).find? c.id = some p) : w.freeSelf p = some (w.remove m c.id p, true) := by
  rw [freeSelf, hc, Option.bind_some, hi, if_neg Bool.false_ne_true, hm, Option.map_some,
    closeConnect_present ht]

/-- While frees are ignored, any number of calls changes nothing. -/
theorem freeSelfTimes_ignored (hc : w.heap p = some c) (hi : c.ignoreFree = true) (k : Nat) :
    w.freeSelfTimes p k = some w := by
  induction k with
  | zero => rfl
  | succ k ih => rw [freeSelfTimes, freeSelf_ignored hc hi, Option.bind_some, ih]

/-- `on_disconnected` calls `onDisconnected` once and then removes the connector. -/
theorem on_disconnected_eq (hc : w.heap p = some c) (hm : c.cnMgr = some m)
    (ht : (w.tables m).find? c.id = some p) (k : Nat) :
    w.on_disconnected p k = some ((w.notify p).remove m c.id p) := by
  have hcall : (w.put p { c with ignoreFree := true }).onDisconnected p k =
      some ((w.notify p).put p { c with ignoreFree := true }) :=
    freeSelfTimes_ignored (w := (w.notify p).put p { c with ignoreFree := true })
      (heap_put_self ..) rfl k
  have hfree : ((w.notify p).put p { c with ignoreFree := false }).freeSelf p =
      some (((w.notify p).put p { c with ignoreFree := false }).remove m c.id p, true) :=
    freeSelf_eq (c := { c with ignoreFree := false }) (heap_put_self ..) rfl hm ht
  rw [on_disconnected, modify_eq hc, Option.bind_some, hcall, Option.bind_some,
    modify_eq (heap_put_self ..), Option.bind_some, put_put, hfree, remove_put]
  rfl

/-- `DisConnect` notifies the user and takes the connector out of its table. -/
theorem disConnect_eq (hc : w.heap p = some c) (hm : c.cnMgr = some m)
    (ht : (w.tables m).find? c.id = some p) (k : Nat) :
    w.disConnect p k = some ((w.notify p).remove m c.id p) := by
  have hcall := on_disconnected_eq (c := { c with base := c.base.free })
    (heap_put_self w p _) hm ht k
  rw [disConnect, modify_eq hc, Option.bind_some, hcall, notify_put, remove_put]

/-- An illegal length disconnects. -/
theorem connReadCallback_rejected (hc : w.heap p = some c) (hm : c.cnMgr = some m)
    (ht : (w.tables m).find? c.id = some p) (r : Reader) (k : Nat) :
    w.connReadCallback p r true k = some ((w.notify p).remove m c.id p) := by
  have hcall := disConnect_eq (c := { c with base := { c.base with reader := r } })
    (heap_put_self w p _) hm ht k
  rw [connReadCallback, modify_eq hc, Option.bind_some, if_pos rfl, hcall, notify_put, remove_put]

/-- `listener_cb` makes a connector with the next id and enters it in the table. -/
theorem listenerCb_eq (w : World Mgr) (m : Mgr) (fd : Int) (sa svrAddr : SockAddrIn) (newOk : Bool)
    (msg : MsgPack) :
    ∃ c : ListenerConnector Mgr, c.cnMgr = some m ∧ c.id = w.idSeed + 1 ∧ c.ignoreFree = false ∧
      w.listenerCb m fd sa svrAddr newOk msg = some
        ({ w with
          idSeed := w.idSeed + 1
          tables := Function.update w.tables m ((w.tables m).insert (w.idSeed + 1) w.ids.length)
          ids := w.ids ++ [w.idSeed + 1] }.put w.ids.length c) := by
  refine ⟨⟨((Connection.construct msg).baseAcceptInit fd sa newOk).1, some m, w.idSeed + 1,
    svrAddr, false⟩, rfl, rfl, rfl, ?_⟩
  simp [listenerCb, createConnectForListener, newConnect, acceptInit, modify, put]

end World

end ServerCom.Listener
