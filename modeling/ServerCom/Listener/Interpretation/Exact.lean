import ServerCom.Listener.Interpretation.Registry

/-!
# Exact worlds

A world is exact for a registry when its tables and its objects are those of the open
connectors and the records of deletions and callbacks are those of the ended ones.
Every legal operation has a value and keeps the world exact.
-/

namespace ServerCom.Listener

open Connector Machine

variable {Mgr : Type*} {w : World Mgr} {a : Registry Mgr} {m : Mgr} {p : ConnectorPtr}

/-- The world agrees with the registry. -/
structure Exact (w : World Mgr) (a : Registry Mgr) : Prop where
  /-- Ids are the numbers of acceptance. -/
  ids : w.ids = (List.range a.length).map idOf
  /-- The seed counts the acceptances. -/
  seed : w.idSeed = .ofNat a.length
  /-- Open connectors exist and know their manager and their id. -/
  object : ∀ p m, a[p]? = some ⟨m, none⟩ →
    ∃ c, w.heap p = some c ∧ c.cnMgr = some m ∧ c.id = idOf p ∧ c.ignoreFree = false
  /-- No others exist. -/
  gone : ∀ p, ¬ a.IsOpen p → w.heap p = none
  /-- A table holds the open connectors of its manager. -/
  table : ∀ m id p, (w.tables m).find? id = some p ↔ a[p]? = some ⟨m, none⟩ ∧ idOf p = id
  /-- Ended connectors were deleted once. -/
  deleted : ∀ p, w.deleted.count p = if (a[p]?.bind Entry.fate).isSome then 1 else 0
  /-- `onDisconnected` ran once for the disconnected ones. -/
  disconnected : ∀ p,
    w.disconnected.count p = if a[p]?.bind Entry.fate = some .disconnected then 1 else 0

/-- Below 2^64 an id is one more than the number of its connector. -/
theorem idOf_toNat {p : ConnectorPtr} (h : p + 1 < 2 ^ 64) : (idOf p).toNat = p + 1 :=
  UInt64.toNat_ofNat_of_lt' h

/-- Below 2^64 different connectors have different ids. -/
theorem idOf_inj {p q : ConnectorPtr} (hp : p + 1 < 2 ^ 64) (hq : q + 1 < 2 ^ 64)
    (h : idOf p = idOf q) : p = q := by
  have hnat := congrArg UInt64.toNat h
  rw [idOf_toNat hp, idOf_toNat hq] at hnat
  exact Nat.succ.inj hnat

/-- An entry has a number. -/
theorem lt_of_getElem? {e : Entry Mgr} (h : a[p]? = some e) : p < a.length :=
  (List.getElem?_eq_some_iff.mp h).1

/-- At first both are empty. -/
theorem exact_start : Exact (World.start : World Mgr) [] where
  ids := rfl
  seed := rfl
  object := by simp
  gone := fun _ _ => rfl
  table := by simp [World.start]
  deleted := by simp [World.start]
  disconnected := by simp [World.start]

/-- The table entry an open connector has. -/
theorem Exact.entry (h : Exact w a) {p : ConnectorPtr} {m : Mgr} {c : ListenerConnector Mgr}
    (hp : a[p]? = some ⟨m, none⟩) (hid : c.id = idOf p) :
    (w.tables m).find? c.id = some p := (h.table m c.id p).mpr ⟨hp, hid.symm⟩

/-- A connector has the id of its number. -/
theorem Exact.getElem?_ids (h : Exact w a) {p : ConnectorPtr} {e : Entry Mgr}
    (hp : a[p]? = some e) : w.ids[p]? = some (idOf p) := by
  rw [h.ids, List.getElem?_map, List.getElem?_range (lt_of_getElem? hp)]
  rfl

/-- A connector is there exactly as long as it was not closed. -/
theorem Exact.alive (h : Exact w a) {p : ConnectorPtr} {e : Entry Mgr} (hp : a[p]? = some e) :
    (w.heap p).isSome ↔ e.fate = none := by
  obtain ⟨m, fate⟩ := e
  cases fate with
  | none =>
    obtain ⟨c, hc, -⟩ := h.object p m hp
    simp [hc]
  | some fate =>
    have hclosed : ¬ a.IsOpen p := by
      rw [Registry.IsOpen, hp]
      simp
    simp [h.gone p hclosed]

/-- Assignments that leave the manager, the id and the flag alone. -/
theorem Exact.put (h : Exact w a) (hp : a[p]? = some ⟨m, none⟩) {c : ListenerConnector Mgr}
    (hm : c.cnMgr = some m) (hid : c.id = idOf p) (hi : c.ignoreFree = false) :
    Exact (w.put p c) a where
  ids := h.ids
  seed := h.seed
  object := by
    intro q m' hq
    by_cases hqp : q = p
    · subst hqp
      obtain rfl : m = m' := by simpa [hp] using hq
      exact ⟨c, World.heap_put_self .., hm, hid, hi⟩
    · obtain ⟨d, hd, hrest⟩ := h.object q m' hq
      exact ⟨d, (Function.update_of_ne hqp _ _).trans hd, hrest⟩
  gone := by
    intro q hq
    have hqp : q ≠ p := by
      rintro rfl
      exact hq (Registry.isOpen_iff.mpr ⟨m, hp⟩)
    exact (Function.update_of_ne hqp _ _).trans (h.gone q hq)
  table := h.table
  deleted := h.deleted
  disconnected := h.disconnected

variable [DecidableEq Mgr]

/-- An entry that is removed is found no more, and the others have other ids. -/
theorem Exact.find?_close (h : Exact w a) (hlen : a.length < 2 ^ 64)
    (hp : a[p]? = some ⟨m, none⟩) (fate : Fate) (m' : Mgr) (id : UInt64) (q : ConnectorPtr) :
    ((w.remove m (idOf p) p).tables m').find? id = some q ↔
      (a.close p fate)[q]? = some ⟨m', none⟩ ∧ idOf q = id := by
  have hpl := lt_of_getElem? hp
  rw [World.find?_remove]
  by_cases hqp : q = p
  · subst hqp
    have hnot : (w.tables m').find? id = some q → m' = m ∧ id = idOf q := by
      intro hq
      obtain ⟨hq, hid⟩ := (h.table m' id q).mp hq
      exact ⟨by simpa [hp, eq_comm] using hq, hid.symm⟩
    rw [Registry.getElem?_close_self hp]
    split_ifs with hcond
    · simp
    · simpa using fun hq => hcond (hnot hq)
  · rw [Registry.getElem?_close_of_ne hqp]
    split_ifs with hcond
    · refine iff_of_false not_false ?_
      rintro ⟨hq, hid⟩
      have hql := lt_of_getElem? hq
      exact hqp (idOf_inj (Nat.lt_of_le_of_lt hql hlen) (Nat.lt_of_le_of_lt hpl hlen)
        (hid.trans hcond.2))
    · exact h.table m' id q

/-- A connector that ends leaves its table and is deleted, and nothing else changes. -/
theorem Exact.remove (h : Exact w a) (hlen : a.length < 2 ^ 64) (hp : a[p]? = some ⟨m, none⟩)
    (fate : Fate) (disconnected : List ConnectorPtr)
    (hdisc : ∀ q, disconnected.count q =
      if (a.close p fate)[q]?.bind Entry.fate = some .disconnected then 1 else 0) :
    Exact ({ w with disconnected := disconnected }.remove m (idOf p) p) (a.close p fate) where
  ids := by
    rw [Registry.length_close]
    exact h.ids
  seed := by
    rw [Registry.length_close]
    exact h.seed
  object := by
    intro q m' hq
    have hqp : q ≠ p := by
      rintro rfl
      rw [Registry.getElem?_close_self hp] at hq
      cases hq
    rw [Registry.getElem?_close_of_ne hqp] at hq
    obtain ⟨d, hd, hrest⟩ := h.object q m' hq
    exact ⟨d, (Function.update_of_ne hqp _ _).trans hd, hrest⟩
  gone := by
    intro q hq
    by_cases hqp : q = p
    · rw [hqp]
      exact Function.update_self ..
    · rw [Registry.IsOpen, Registry.getElem?_close_of_ne hqp] at hq
      exact (Function.update_of_ne hqp _ _).trans (h.gone q hq)
  table := h.find?_close hlen hp fate
  deleted := by
    intro q
    rw [World.deleted_remove, List.count_append, List.count_singleton, h.deleted]
    by_cases hqp : q = p
    · subst hqp
      simp [Registry.getElem?_close_self hp, hp]
    · simp [Registry.getElem?_close_of_ne hqp, Ne.symm hqp]
  disconnected := hdisc

/-- A connector that ends without a callback. -/
theorem Exact.release (h : Exact w a) (hlen : a.length < 2 ^ 64) (hp : a[p]? = some ⟨m, none⟩) :
    Exact (w.remove m (idOf p) p) (a.close p .released) := by
  refine h.remove hlen hp .released w.disconnected fun q => ?_
  rw [h.disconnected, Registry.getElem?_close]
  split_ifs with hpq <;> simp_all

/-- A connector that ends with its callback. -/
theorem Exact.disconnect (h : Exact w a) (hlen : a.length < 2 ^ 64)
    (hp : a[p]? = some ⟨m, none⟩) :
    Exact ((w.notify p).remove m (idOf p) p) (a.close p .disconnected) := by
  refine h.remove hlen hp .disconnected (w.disconnected ++ [p]) fun q => ?_
  rw [List.count_append, List.count_singleton, h.disconnected, Registry.getElem?_close]
  by_cases hpq : p = q
  · subst hpq
    simp [hp]
  · simp [hpq]

/-- A new entry is found exactly under its id, and no old one has that id. -/
theorem Exact.find?_accept (h : Exact w a) (hlen : a.length + 1 < 2 ^ 64) (m m' : Mgr)
    (id : UInt64) (q : ConnectorPtr) :
    (Function.update w.tables m ((w.tables m).insert (idOf a.length) a.length) m').find? id =
        some q ↔
      (a ++ [⟨m, none⟩])[q]? = some ⟨m', none⟩ ∧ idOf q = id := by
  rw [World.find?_update_insert, Registry.getElem?_accept]
  by_cases hqn : q = a.length
  · subst hqn
    rw [if_pos rfl]
    split_ifs with hcond
    · simp [hcond]
    · have habs : (w.tables m').find? id ≠ some a.length := by
        intro hq
        exact Nat.lt_irrefl _ (lt_of_getElem? ((h.table m' id _).mp hq).1)
      refine iff_of_false habs ?_
      rintro ⟨hm', hid'⟩
      exact hcond ⟨by simpa [eq_comm] using hm', hid'.symm⟩
  · rw [if_neg hqn]
    split_ifs with hcond
    · refine iff_of_false (by simpa using Ne.symm hqn) ?_
      rintro ⟨hq, hid'⟩
      have hql := lt_of_getElem? hq
      exact hqn (idOf_inj (Nat.lt_trans (Nat.succ_lt_succ hql) hlen) hlen (hid'.trans hcond.2))
    · exact h.table m' id q

/-- A new connector gets an unused id. -/
theorem Exact.accept (h : Exact w a) (hlen : a.length + 1 < 2 ^ 64) (m : Mgr) (fd : Int)
    (sa svrAddr : SockAddrIn) (newOk : Bool) (msg : MsgPack) :
    ∃ w', w.listenerCb m fd sa svrAddr newOk msg = some w' ∧ Exact w' (a ++ [⟨m, none⟩]) := by
  obtain ⟨c, hm, hid, hi, heq⟩ := World.listenerCb_eq w m fd sa svrAddr newOk msg
  refine ⟨_, heq, ?_⟩
  have hnew : w.ids.length = a.length := by
    rw [h.ids, List.length_map, List.length_range]
  have hseed : w.idSeed + 1 = idOf a.length := by
    rw [h.seed, idOf, UInt64.ofNat_add]
    rfl
  have hfate : ∀ q : ConnectorPtr,
      (a ++ [⟨m, none⟩])[q]?.bind Entry.fate = a[q]?.bind Entry.fate := by
    intro q
    rw [Registry.getElem?_accept]
    split_ifs with hq
    · rw [hq, List.getElem?_eq_none (Nat.le_refl _)]
      rfl
    · rfl
  rw [hseed, hnew]
  exact {
    ids := by simp [World.put, h.ids, List.range_succ]
    seed := by
      rw [List.length_append, List.length_singleton]
      rfl
    object := by
      intro q m' hq
      rw [Registry.getElem?_accept] at hq
      split_ifs at hq with hqn
      · obtain rfl : m = m' := by simpa using hq
        exact ⟨c, hqn ▸ World.heap_put_self .., hm, hqn ▸ hid.trans hseed, hi⟩
      · obtain ⟨d, hd, hrest⟩ := h.object q m' hq
        exact ⟨d, (Function.update_of_ne hqn _ _).trans hd, hrest⟩
    gone := by
      intro q hq
      rw [Registry.IsOpen, Registry.getElem?_accept] at hq
      split_ifs at hq with hqn
      · exact absurd rfl hq
      · exact (Function.update_of_ne hqn _ _).trans (h.gone q hq)
    table := fun m' id q => h.find?_accept hlen m m' id q
    deleted := fun q => hfate q ▸ h.deleted q
    disconnected := fun q => hfate q ▸ h.disconnected q }

end ServerCom.Listener
