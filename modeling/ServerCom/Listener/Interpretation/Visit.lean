import ServerCom.Listener.Interpretation.Exact
import ServerCom.Listener.Native.Foreach

/-!
# What a visit does

A manager is registered when every entry of its table is an existing connector that knows
the manager and its key. From a registered manager, whatever a callback does either keeps
the connector it visits with its entry, or removes both for good.
-/

namespace ServerCom.Listener

open Connector

variable {Mgr : Type*} {w w' w'' : World Mgr} {m : Mgr} {p : ConnectorPtr} {k : UInt64}
  {c : ListenerConnector Mgr} {act : VisitAct} {acts : List VisitAct}

/-- The entries of a manager's table are connectors that exist, by id. -/
structure Registered (w : World Mgr) (m : Mgr) : Prop where
  /-- An entry is an object that knows its manager and its key. -/
  object : ∀ id p, (w.tables m).find? id = some p →
    ∃ c, w.heap p = some c ∧ c.id = id ∧ c.cnMgr = some m
  /-- It was not deleted. -/
  undeleted : ∀ id p, (w.tables m).find? id = some p → p ∉ w.deleted

/-- A table loses exactly the entries of deleted connectors. -/
structure Shrinks (m : Mgr) (w w' : World Mgr) : Prop where
  /-- What is left was there and was not deleted. -/
  entries : ∀ e, e ∈ (w'.tables m).entries ↔ e ∈ (w.tables m).entries ∧ e.2 ∉ w'.deleted
  /-- Deleted connectors stay deleted. -/
  deleted : w.deleted ⊆ w'.deleted

/-- Nothing is lost at first. -/
theorem Registered.shrinks (h : Registered w m) : Shrinks m w w where
  entries e :=
    ⟨fun he => ⟨he, h.undeleted e.1 e.2 (SortedMap.mem_entries_iff.mp he)⟩, And.left⟩
  deleted _ := id

/-- What shrinks twice has shrunk. -/
theorem Shrinks.trans (h : Shrinks m w w') (h' : Shrinks m w' w'') : Shrinks m w w'' where
  entries e := by
    rw [h'.entries, h.entries]
    exact ⟨fun ⟨⟨he, _⟩, hnot⟩ => ⟨he, hnot⟩,
      fun ⟨he, hnot⟩ => ⟨⟨he, fun hdel => hnot (h'.deleted hdel)⟩, hnot⟩⟩
  deleted _ he := h'.deleted (h.deleted he)

/-- The connector itself is closed by what the callback does. -/
def VisitAct.Closes (c : ListenerConnector Mgr) : VisitAct → Prop
  | .closeConnect id => id = c.id
  | .freeSelf => c.ignoreFree = false
  | .sendData s _ => (c.base.sendData s).disConnected = true

/-- The managers of an exact world are registered. -/
theorem Exact.registered {a : Registry Mgr} (h : Exact w a) (m : Mgr) : Registered w m where
  object id p hfind := by
    obtain ⟨hp, rfl⟩ := (h.table m id p).mp hfind
    obtain ⟨c, hc, hm, hid, -⟩ := h.object p m hp
    exact ⟨c, hc, hid, hm⟩
  undeleted id p hfind := by
    rw [← List.count_eq_zero, h.deleted, ((h.table m id p).mp hfind).1]
    rfl

/-- Two entries of a registered manager are two connectors. -/
theorem Registered.key_eq (h : Registered w m) {k k' : UInt64}
    (hk : (w.tables m).find? k = some p) (hk' : (w.tables m).find? k' = some p) : k = k' := by
  obtain ⟨c, hc, hid, -⟩ := h.object k p hk
  obtain ⟨c', hc', hid', -⟩ := h.object k' p hk'
  obtain rfl := Option.some.inj (hc.symm.trans hc')
  exact hid.symm.trans hid'

/-! ## Removing a connector -/

variable [DecidableEq Mgr]

/-- A connector that is taken out leaves the others registered. -/
theorem Registered.remove (h : Registered w m) (hk : (w.tables m).find? k = some p) :
    Registered (w.remove m k p) m where
  object id q hfind := by
    rw [World.find?_remove_self] at hfind
    split_ifs at hfind with hid
    have hq : q ≠ p := by
      rintro rfl
      exact hid (h.key_eq hfind hk)
    rw [World.heap_remove, if_neg hq]
    exact h.object id q hfind
  undeleted id q hfind := by
    rw [World.find?_remove_self] at hfind
    split_ifs at hfind with hid
    intro hdel
    rw [World.deleted_remove] at hdel
    rcases List.mem_append.mp hdel with hdel | hdel
    · exact h.undeleted id q hfind hdel
    · rw [List.mem_singleton.mp hdel] at hfind
      exact hid (h.key_eq hfind hk)

/-- A connector that is taken out makes the table smaller. -/
theorem Registered.shrinks_remove (h : Registered w m) (hk : (w.tables m).find? k = some p) :
    Shrinks m w (w.remove m k p) where
  entries := by
    rintro ⟨id, q⟩
    have hdel : q ∉ (w.remove m k p).deleted ↔ q ∉ w.deleted ∧ q ≠ p := by
      rw [World.deleted_remove, List.mem_append, List.mem_singleton, not_or]
    rw [SortedMap.mem_entries_iff, SortedMap.mem_entries_iff, World.find?_remove_self, hdel]
    split_ifs with hid
    · refine iff_of_false not_false ?_
      rintro ⟨hfind, -, hne⟩
      rw [hid, hk] at hfind
      exact hne (Option.some.inj hfind).symm
    · constructor
      · intro hfind
        refine ⟨hfind, h.undeleted id q hfind, ?_⟩
        rintro rfl
        exact hid (h.key_eq hfind hk)
      · exact And.left
  deleted := List.subset_append_left ..

/-! ## What one call does to the connector visited -/

/-- An act that does not close the connector leaves it and its entry as they are. -/
theorem visitAct_keeps (h : Registered w m) (hk : (w.tables m).find? k = some p)
    (hc : w.heap p = some c) (hact : ¬ act.Closes c) :
    ∃ w', w.visitAct m p act = some w' ∧ Registered w' m ∧ Shrinks m w w' ∧
      (w'.tables m).find? k = some p ∧ w'.heap p = some c := by
  cases act with
  | closeConnect id =>
    refine ⟨_, rfl, ?_⟩
    cases hfind : (w.tables m).find? id with
    | none =>
      rw [World.closeConnect_absent hfind]
      exact ⟨h, h.shrinks, hk, hc⟩
    | some q =>
      have hid : k ≠ id := by
        rintro rfl
        obtain ⟨d, hd, hdk, -⟩ := h.object k p hk
        obtain rfl := Option.some.inj (hc.symm.trans hd)
        exact hact hdk.symm
      have hq : p ≠ q := by
        rintro rfl
        exact hid (h.key_eq hk hfind)
      rw [World.closeConnect_present hfind]
      refine ⟨h.remove hfind, h.shrinks_remove hfind, ?_, ?_⟩
      · rw [World.find?_remove_self, if_neg hid, hk]
      · rw [World.heap_remove, if_neg hq, hc]
  | freeSelf =>
    have hi : c.ignoreFree = true := Bool.eq_true_of_not_eq_false hact
    refine ⟨w, ?_, h, h.shrinks, hk, hc⟩
    rw [World.visitAct, World.freeSelf_ignored hc hi, Option.map_some]
  | sendData s j =>
    refine ⟨w, ?_, h, h.shrinks, hk, hc⟩
    unfold VisitAct.Closes at hact
    rw [World.visitAct, World.sendData, hc, Option.bind_some, if_neg hact]

/-- An act that closes the connector takes its entry away and deletes it. -/
theorem visitAct_closes (h : Registered w m) (hk : (w.tables m).find? k = some p)
    (hc : w.heap p = some c) (hact : act.Closes c) :
    ∃ w', w.visitAct m p act = some w' ∧ (w'.tables m).find? k = none ∧ w'.heap p = none := by
  obtain ⟨d, hd, rfl, hm⟩ := h.object k p hk
  obtain rfl := Option.some.inj (hc.symm.trans hd)
  have hgone : ∀ w : World Mgr, ((w.remove m c.id p).tables m).find? c.id = none ∧
      (w.remove m c.id p).heap p = none := by
    intro w
    rw [World.find?_remove_self, if_pos rfl, World.heap_remove, if_pos rfl]
    exact ⟨rfl, rfl⟩
  cases act with
  | closeConnect id =>
    obtain rfl : id = c.id := hact
    refine ⟨_, rfl, ?_⟩
    rw [World.closeConnect_present hk]
    exact hgone w
  | freeSelf =>
    refine ⟨w.remove m c.id p, ?_, hgone w⟩
    rw [World.visitAct, World.freeSelf_eq hc hact hm hk, Option.map_some]
  | sendData s j =>
    refine ⟨(w.notify p).remove m c.id p, ?_, hgone _⟩
    unfold VisitAct.Closes at hact
    rw [World.visitAct, World.sendData, hc, Option.bind_some, if_pos hact,
      World.disConnect_eq hc hm hk]

/-- Nothing a callback does brings a closed connector back. -/
theorem visitAct_closed (hk : (w.tables m).find? k = none) (hp : w.heap p = none)
    (hact : w.visitAct m p act = some w') :
    (w'.tables m).find? k = none ∧ w'.heap p = none := by
  cases act with
  | closeConnect id =>
    obtain rfl := Option.some.inj hact
    cases hfind : (w.tables m).find? id with
    | none =>
      rw [World.closeConnect_absent hfind]
      exact ⟨hk, hp⟩
    | some q =>
      rw [World.closeConnect_present hfind, World.find?_remove_self, World.heap_remove, hk, hp]
      exact ⟨ite_self _, ite_self _⟩
  | freeSelf =>
    rw [World.visitAct, World.freeSelf, hp] at hact
    cases hact
  | sendData s j =>
    rw [World.visitAct, World.sendData, hp] at hact
    cases hact

/-! ## Whole visits -/

/-- A visit that does not close the connector leaves it and its entry as they are. -/
theorem visit_keeps (h : Registered w m) (hk : (w.tables m).find? k = some p)
    (hc : w.heap p = some c) (hacts : ∀ act ∈ acts, ¬ act.Closes c) :
    ∃ w', w.visit m p acts = some w' ∧ Registered w' m ∧ Shrinks m w w' ∧
      (w'.tables m).find? k = some p := by
  induction acts generalizing w with
  | nil => exact ⟨w, rfl, h, h.shrinks, hk⟩
  | cons act acts ih =>
    rw [List.forall_mem_cons] at hacts
    obtain ⟨w₁, hact, h₁, hshrink, hk₁, hc₁⟩ := visitAct_keeps h hk hc hacts.1
    obtain ⟨w₂, hrest, h₂, hshrink', hk₂⟩ := ih h₁ hk₁ hc₁ hacts.2
    refine ⟨w₂, ?_, h₂, hshrink.trans hshrink', hk₂⟩
    rw [World.visit, List.foldlM_cons, hact]
    exact hrest

/-- A visit does not bring back a connector that was closed. -/
theorem visit_closed (hk : (w.tables m).find? k = none) (hp : w.heap p = none)
    (hvisit : w.visit m p acts = some w') : (w'.tables m).find? k = none := by
  induction acts generalizing w with
  | nil =>
    obtain rfl := Option.some.inj hvisit
    exact hk
  | cons act acts ih =>
    rw [World.visit, List.foldlM_cons] at hvisit
    obtain ⟨w₁, hact, hrest⟩ := Option.bind_eq_some_iff.mp hvisit
    obtain ⟨hk₁, hp₁⟩ := visitAct_closed hk hp hact
    exact ih hk₁ hp₁ hrest

/-- A visit that closes the connector leaves no entry to go on from. -/
theorem visit_closes (h : Registered w m) (hk : (w.tables m).find? k = some p)
    (hc : w.heap p = some c) (hacts : ∃ act ∈ acts, act.Closes c)
    (hvisit : w.visit m p acts = some w') : (w'.tables m).find? k = none := by
  induction acts generalizing w with
  | nil =>
    obtain ⟨act, hmem, -⟩ := hacts
    exact absurd hmem List.not_mem_nil
  | cons act acts ih =>
    rw [World.visit, List.foldlM_cons] at hvisit
    obtain ⟨w₁, hact, hrest⟩ := Option.bind_eq_some_iff.mp hvisit
    by_cases hcloses : act.Closes c
    · obtain ⟨w₂, hact', hk₂, hp₂⟩ := visitAct_closes h hk hc hcloses
      obtain rfl := Option.some.inj (hact.symm.trans hact')
      exact visit_closed hk₂ hp₂ hrest
    · obtain ⟨w₂, hact', h₂, -, hk₂, hc₂⟩ := visitAct_keeps h hk hc hcloses
      obtain rfl := Option.some.inj (hact.symm.trans hact')
      refine ih h₂ hk₂ hc₂ ?_ hrest
      obtain ⟨b, hmem, hb⟩ := hacts
      rcases List.mem_cons.mp hmem with rfl | hmem
      · exact absurd hb hcloses
      · exact ⟨b, hmem, hb⟩

end ServerCom.Listener
