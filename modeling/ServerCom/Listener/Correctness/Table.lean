import ServerCom.Listener.Interpretation.Exact

/-!
# The connector table

Every run of accepts, closes and events keeps the world exact: the guard flag makes a
`FreeSelf` inside `onDisconnected` harmless and lets the one behind it through, and
the seed shared by all managers keeps the ids apart.
-/

namespace ServerCom.Listener

open Connector Machine

variable {Mgr : Type*} [DecidableEq Mgr] {w : World Mgr} {a : Registry Mgr}

/-- An operation that accepts a connection. -/
def Op.isAccept : Op Mgr → Bool
  | .accept .. => true
  | _ => false

/-- The registry behind a run. -/
def registry (ops : List (Op Mgr)) : Registry Mgr := ops.foldl Registry.step []

/-- The registry grows with each accept. -/
theorem Registry.length_step (a : Registry Mgr) (op : Op Mgr) :
    (a.step op).length = a.length + if op.isAccept then 1 else 0 := by
  cases op with
  | accept => exact List.length_append
  | closeConnect m id =>
    rw [Registry.step, apply_ite List.length, Registry.length_close, ite_self]
    rfl
  | freeSelf p => exact Registry.length_close ..
  | disConnect p k => exact Registry.length_close ..
  | event p events k =>
    rw [Registry.step, apply_ite List.length, Registry.length_close, ite_self]
    rfl
  | read p r rejected k =>
    rw [Registry.step, apply_ite List.length, Registry.length_close, ite_self]
    rfl

/-- `CloseConnect` ends the open connector of its manager with this id, if there is one. -/
theorem exact_closeConnect (h : Exact w a) (hlen : a.length < 2 ^ 64) (m : Mgr) (id : UInt64) :
    Exact (w.closeConnect m id).1 (a.step (.closeConnect m id)) := by
  rw [Registry.step]
  split_ifs with hcond
  · have hid : idOf (id.toNat - 1) = id := by
      have hpos : id.toNat ≠ 0 := fun hz => hcond.1 (UInt64.toNat.inj hz)
      rw [idOf, Nat.sub_add_cancel (Nat.pos_of_ne_zero hpos), UInt64.ofNat_toNat]
    rw [World.closeConnect_present ((h.table m id _).mpr ⟨hcond.2, hid⟩)]
    have hrel := h.release hlen hcond.2
    rwa [hid] at hrel
  · cases hfind : (w.tables m).find? id with
    | none => rwa [World.closeConnect_absent hfind]
    | some p =>
      obtain ⟨hp, rfl⟩ := (h.table m id p).mp hfind
      have hlt : p + 1 < 2 ^ 64 := Nat.lt_of_le_of_lt (lt_of_getElem? hp) hlen
      refine absurd ⟨?_, ?_⟩ hcond
      · intro hz
        have hnat := idOf_toNat hlt
        rw [hz] at hnat
        exact absurd hnat.symm (Nat.succ_ne_zero p)
      · rw [idOf_toNat hlt]
        exact hp

/-- A legal operation has a value and keeps the world exact. -/
theorem exact_step (h : Exact w a) {op : Op Mgr} (hlegal : a.Legal op)
    (hlen : (a.step op).length < 2 ^ 64) : ∃ w', w.step op = some w' ∧ Exact w' (a.step op) := by
  have hlen' : a.length < 2 ^ 64 := by
    rw [Registry.length_step] at hlen
    omega
  cases op with
  | accept m fd sa svrAddr newOk msg =>
    rw [Registry.length_step] at hlen
    exact h.accept hlen m fd sa svrAddr newOk msg
  | closeConnect m id => exact ⟨_, rfl, exact_closeConnect h hlen' m id⟩
  | freeSelf p =>
    obtain ⟨m, hp⟩ := Registry.isOpen_iff.mp hlegal
    obtain ⟨c, hc, hm, hid, hi⟩ := h.object p m hp
    refine ⟨w.remove m c.id p, ?_, ?_⟩
    · rw [World.step, World.freeSelf_eq hc hi hm (h.entry hp hid)]
      rfl
    · rw [hid]
      exact h.release hlen' hp
  | disConnect p k =>
    obtain ⟨m, hp⟩ := Registry.isOpen_iff.mp hlegal
    obtain ⟨c, hc, hm, hid, -⟩ := h.object p m hp
    refine ⟨_, World.disConnect_eq hc hm (h.entry hp hid) k, ?_⟩
    rw [hid]
    exact h.disconnect hlen' hp
  | event p events k =>
    obtain ⟨m, hp⟩ := Registry.isOpen_iff.mp hlegal
    obtain ⟨c, hc, hm, hid, hi⟩ := h.object p m hp
    rw [World.step, World.connEventCallback, Registry.step]
    split_ifs
    · exact ⟨_, World.modify_eq hc _, h.put hp hm hid hi⟩
    · refine ⟨_, World.disConnect_eq hc hm (h.entry hp hid) k, ?_⟩
      rw [hid]
      exact h.disconnect hlen' hp
  | read p r rejected k =>
    obtain ⟨m, hp⟩ := Registry.isOpen_iff.mp hlegal
    obtain ⟨c, hc, hm, hid, hi⟩ := h.object p m hp
    cases rejected with
    | true =>
      refine ⟨_, World.connReadCallback_rejected hc hm (h.entry hp hid) r k, ?_⟩
      rw [hid]
      exact h.disconnect hlen' hp
    | false =>
      refine ⟨w.put p { c with base := { c.base with reader := r } }, ?_, h.put hp hm hid hi⟩
      rw [World.step, World.connReadCallback, World.modify_eq hc]
      rfl

/-- A legal run has a value and ends in an exact world. -/
theorem exact_run (h : Exact w a) {ops : List (Op Mgr)}
    (hlegal : Along Registry.step Registry.Legal a ops)
    (hlen : a.length + (ops.filter Op.isAccept).length < 2 ^ 64) :
    ∃ w', w.run ops = some w' ∧ Exact w' (ops.foldl Registry.step a) := by
  induction ops generalizing w a with
  | nil => exact ⟨w, rfl, h⟩
  | cons op ops ih =>
    obtain ⟨hop, hrest⟩ := hlegal
    have hlen' : (a.step op).length + (ops.filter Op.isAccept).length < 2 ^ 64 := by
      rw [Registry.length_step]
      by_cases hacc : op.isAccept = true
      · rw [List.filter_cons_of_pos hacc, List.length_cons] at hlen
        rw [if_pos hacc]
        omega
      · rw [List.filter_cons_of_neg hacc] at hlen
        rwa [if_neg hacc]
    obtain ⟨w₁, hstep, hex⟩ := exact_step h hop (Nat.lt_of_le_of_lt (Nat.le_add_right ..) hlen')
    obtain ⟨w', hrun, hex'⟩ := ih hex hrest hlen'
    refine ⟨w', ?_, hex'⟩
    rw [World.run, List.foldlM_cons, hstep]
    exact hrun

/-- What the managers promise about a world and the registry of the run that led to it. -/
structure TableExact (w : World Mgr) (a : Registry Mgr) : Prop where
  /-- A table holds exactly the connectors of its manager that are not closed, by id. -/
  table : ∀ m id p,
    (w.tables m).find? id = some p ↔ a[p]? = some ⟨m, none⟩ ∧ w.ids[p]? = some id
  /-- The key of an entry is the connector's own id. -/
  own : ∀ m id p, (w.tables m).find? id = some p → ∃ c, w.heap p = some c ∧ c.id = id
  /-- Every connector got an id. -/
  length : w.ids.length = a.length
  /-- No id was used for two connectors. -/
  nodup : w.ids.Nodup
  /-- `FindConnect` finds exactly the connectors that are alive. -/
  find : ∀ m id, (w.findConnect m id).isSome ↔
    ∃ p fate, a[p]? = some ⟨m, fate⟩ ∧ w.ids[p]? = some id ∧ (w.heap p).isSome
  /-- A connector is alive exactly when it is not closed. -/
  alive : ∀ p e, a[p]? = some e → ((w.heap p).isSome ↔ e.fate = none)
  /-- A closed connector was deleted once, and the others were not. -/
  deleted : ∀ p e, a[p]? = some e → w.deleted.count p = if e.fate.isSome then 1 else 0
  /-- Behind the destructor of its manager every connector was deleted once. -/
  destroyed : ∀ p m fate, a[p]? = some ⟨m, fate⟩ → (w.destroyMgr m).deleted.count p = 1
  /-- `CloseConnect` of an absent id returns false and changes nothing. -/
  absent : ∀ m id, w.findConnect m id = none → w.closeConnect m id = (w, false)
  /-- `onDisconnected` was called once for a connector that ended by `DisConnect` or a
  passive event, and never for one closed by `FreeSelf` or `CloseConnect`. -/
  disconnected : ∀ p e, a[p]? = some e →
    w.disconnected.count p = if e.fate = some .disconnected then 1 else 0

/-- The destructor of a manager deletes the connectors of its table. -/
theorem World.deleted_destroyMgr (w : World Mgr) (m : Mgr) :
    (w.destroyMgr m).deleted = w.deleted ++ (w.tables m).entries.map Prod.snd := by
  have hfold : ∀ (es : List (UInt64 × ConnectorPtr)) (w : World Mgr),
      (es.foldl (fun w v => w.delete v.2) w).deleted = w.deleted ++ es.map Prod.snd := by
    intro es
    induction es with
    | nil => exact fun w => (List.append_nil _).symm
    | cons v es ih =>
      intro w
      rw [List.foldl_cons, ih, List.map_cons, World.delete, List.append_assoc,
        List.singleton_append]
  exact hfold ..

/-- The table of a manager has each of its open connectors once. -/
theorem Exact.count_values (h : Exact w a) (m : Mgr) (p : ConnectorPtr) :
    ((w.tables m).entries.map Prod.snd).count p = if a[p]? = some ⟨m, none⟩ then 1 else 0 := by
  have hmem : ∀ v ∈ (w.tables m).entries, a[v.2]? = some ⟨m, none⟩ ∧ idOf v.2 = v.1 :=
    fun v hv => (h.table m v.1 v.2).mp (SortedMap.mem_entries_iff.mp hv)
  have hnodup : ((w.tables m).entries.map Prod.snd).Nodup := by
    refine List.Nodup.map_on ?_ (SortedMap.nodup_entries _)
    intro v hv v' hv' heq
    refine Prod.ext ?_ heq
    rw [← (hmem v hv).2, ← (hmem v' hv').2, heq]
  rw [hnodup.count]
  refine if_congr ?_ rfl rfl
  rw [List.mem_map]
  constructor
  · rintro ⟨v, hv, rfl⟩
    exact (hmem v hv).1
  · intro hp
    exact ⟨(idOf p, p), SortedMap.mem_entries_iff.mpr ((h.table m _ p).mpr ⟨hp, rfl⟩), rfl⟩

/-- An exact world keeps the managers' promises. -/
theorem Exact.tableExact (h : Exact w a) (hlen : a.length < 2 ^ 64) : TableExact w a := by
  have htable : ∀ m id p,
      (w.tables m).find? id = some p ↔ a[p]? = some ⟨m, none⟩ ∧ w.ids[p]? = some id := by
    intro m id p
    rw [h.table]
    constructor
    · rintro ⟨hp, rfl⟩
      exact ⟨hp, h.getElem?_ids hp⟩
    · rintro ⟨hp, hid⟩
      exact ⟨hp, Option.some.inj ((h.getElem?_ids hp).symm.trans hid)⟩
  refine
    { table := htable
      own := ?_
      length := by rw [h.ids, List.length_map, List.length_range]
      nodup := ?_
      find := ?_
      alive := fun p e hp => h.alive hp
      deleted := ?_
      destroyed := ?_
      absent := fun m id => World.closeConnect_absent
      disconnected := ?_ }
  · intro m id p hfind
    obtain ⟨hp, hid⟩ := (h.table m id p).mp hfind
    obtain ⟨c, hc, -, hcid, -⟩ := h.object p m hp
    exact ⟨c, hc, hcid.trans hid⟩
  · rw [h.ids]
    refine List.nodup_range.map_on fun p hp q hq => ?_
    have hlt : ∀ r ∈ List.range a.length, r + 1 < 2 ^ 64 :=
      fun r hr => Nat.lt_of_le_of_lt (List.mem_range.mp hr) hlen
    exact idOf_inj (hlt p hp) (hlt q hq)
  · intro m id
    rw [World.findConnect, Option.isSome_iff_exists]
    constructor
    · rintro ⟨p, hfind⟩
      obtain ⟨hp, hid⟩ := (htable m id p).mp hfind
      exact ⟨p, none, hp, hid, (h.alive hp).mpr rfl⟩
    · rintro ⟨p, fate, hp, hid, halive⟩
      obtain rfl : fate = none := (h.alive hp).mp halive
      exact ⟨p, (htable m id p).mpr ⟨hp, hid⟩⟩
  · intro p e hp
    rw [h.deleted, hp]
    rfl
  · intro p m fate hp
    rw [World.deleted_destroyMgr, List.count_append, h.deleted, h.count_values, hp]
    cases fate <;> simp
  · intro p e hp
    rw [h.disconnected, hp]
    rfl

/-- Every legal run of fewer than `2 ^ 64` accepts leaves an exact connector table. -/
theorem connectorTable_exact {ops : List (Op Mgr)}
    (hlegal : Along Registry.step Registry.Legal [] ops)
    (haccepts : (ops.filter Op.isAccept).length < 2 ^ 64) :
    ∃ w, World.start.run ops = some w ∧ TableExact w (registry ops) := by
  have hlen : (registry ops).length < 2 ^ 64 := by
    have hcount : ∀ (ops : List (Op Mgr)) (a : Registry Mgr),
        (ops.foldl Registry.step a).length = a.length + (ops.filter Op.isAccept).length := by
      intro ops
      induction ops with
      | nil => exact fun a => rfl
      | cons op ops ih =>
        intro a
        rw [List.foldl_cons, ih, Registry.length_step, List.filter_cons]
        split_ifs
        · rw [List.length_cons]
          omega
        · rfl
    rw [registry, hcount, List.length_nil, Nat.zero_add]
    exact haccepts
  obtain ⟨w, hrun, hex⟩ := exact_run exact_start hlegal (by simpa using haccepts)
  exact ⟨w, hrun, hex.tableExact hlen⟩

/-- Three connectors of two managers. One ends by an event and is freed twice more in its
callback, one is closed by id, behind an attempt on the wrong manager. -/
def threeConnectors : List (Op Nat) :=
  [.accept 0 7 {} {} true default, .accept 1 8 {} {} true default, .event 1 0x10 2,
    .closeConnect 1 1, .closeConnect 0 1, .accept 0 9 {} {} false default]

/-- Three connectors leave an exact table. -/
theorem threeConnectors_exact :
    Along Registry.step Registry.Legal [] threeConnectors ∧
      (threeConnectors.filter Op.isAccept).length < 2 ^ 64 ∧
      ∃ w, World.start.run threeConnectors = some w ∧ TableExact w (registry threeConnectors) :=
  ⟨by decide, by decide, connectorTable_exact (by decide) (by decide)⟩

end ServerCom.Listener
