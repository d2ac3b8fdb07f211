import ServerCom.Core.Machine.Guarded
import ServerCom.Listener.Correctness.Table
import ServerCom.Listener.Interpretation.Visit

/-!
# Broadcasting

`ForeachConnector` visits every connector once, whatever else its callback closes, as long
as no visit closes the connector being visited. The first visit that does makes the loop
go on from an erased entry: by `CloseConnect`, by `FreeSelf`, or by a `send_data` that
finds the output above its limit.
-/

namespace ServerCom.Listener

open Connector Machine

variable {Mgr : Type*} {w : World Mgr} {m : Mgr} {f : Foreach Mgr} {acts : List VisitAct}
  {visits : List (List VisitAct)}

/-- Every legal run leaves registered managers. -/
theorem registered_run [DecidableEq Mgr] {ops : List (Op Mgr)}
    (hlegal : Along Registry.step Registry.Legal [] ops)
    (haccepts : (ops.filter Op.isAccept).length < 2 ^ 64) :
    ∃ w, World.start.run ops = some w ∧ ∀ m, Registered w m := by
  obtain ⟨w, hrun, hex⟩ := exact_run exact_start hlegal (by simpa using haccepts)
  exact ⟨w, hrun, hex.registered⟩

namespace Foreach

/-- The connector the iterator stands at is not closed by its own visit. -/
def KeepsVisited (m : Mgr) (f : Foreach Mgr) (acts : List VisitAct) : Prop :=
  ∀ k p c, f.it = some k → (f.world.tables m).find? k = some p → f.world.heap p = some c →
    ∀ act ∈ acts, ¬ act.Closes c

/-- What broadcasting from a world promises between two visits. -/
structure Safe (w : World Mgr) (m : Mgr) (f : Foreach Mgr) : Prop where
  /-- No erased entry and no deleted connector was read. -/
  noFault : f.fault = false
  /-- The connectors passed were visited once each, except those closed before their turn. -/
  covers : SortedMap.Covers (w.tables m) (f.world.tables m) f.it f.visited f.early
  /-- The table holds the connectors that were not closed. -/
  shrinks : Shrinks m w f.world

/-- How many entries are ahead. -/
def remaining (m : Mgr) (f : Foreach Mgr) : Nat := (f.world.tables m).remaining f.it

/-- The loop begins at a connector, or at the end. -/
theorem safe_begin (hr : Registered w m) : Safe w m (begin w m) where
  noFault := rfl
  covers := .first _
  shrinks := hr.shrinks

/-- A safe loop that is not at its end stands at a connector that exists. -/
theorem Safe.entry (hr : Registered f.world m) (h : Safe w m f) {k : UInt64}
    (hit : f.it = some k) :
    ∃ p c, (f.world.tables m).find? k = some p ∧ f.world.heap p = some c := by
  obtain ⟨p, hp⟩ := h.covers.valid k hit
  have hk := SortedMap.mem_entries_iff.mp hp
  obtain ⟨c, hc, -⟩ := hr.object k p hk
  exact ⟨p, c, hk, hc⟩

variable [DecidableEq Mgr]

/-- Behind a fault the loop stands still. -/
theorem step_fault (h : f.fault = true) : f.step m acts = f := if_pos h

/-- At the end the loop stands still. -/
theorem step_end (hfault : f.fault = false) (h : f.it = none) : f.step m acts = f := by
  rw [step, hfault, h]
  rfl

/-- One round at an entry whose connector exists. -/
theorem step_entry {k : UInt64} {p : ConnectorPtr} {c : ListenerConnector Mgr}
    (hfault : f.fault = false) (hit : f.it = some k)
    (hk : (f.world.tables m).find? k = some p) (hc : f.world.heap p = some c) :
    f.step m acts = f.increment m k p (f.world.visit m p acts) := by
  unfold step
  rw [hfault, hit, if_neg Bool.false_ne_true]
  simp only [hk, hc, Option.bind_some]

/-- A visit that does not close its connector keeps the loop safe and moves it on. -/
theorem safe_step (hr : Registered f.world m) (h : Safe w m f) (hg : f.KeepsVisited m acts) :
    (Registered (f.step m acts).world m ∧ Safe w m (f.step m acts)) ∧
      (f.it ≠ none → (f.step m acts).remaining m < f.remaining m) := by
  cases hit : f.it with
  | none =>
    rw [step_end h.noFault hit]
    exact ⟨⟨hr, h⟩, fun hne => absurd rfl hne⟩
  | some k =>
    obtain ⟨p, c, hk, hc⟩ := h.entry hr hit
    obtain ⟨w', hvisit, hr', hshrink, hk'⟩ := visit_keeps hr hk hc (hg k p c hit hk hc)
    have hsub : ∀ e ∈ (w'.tables m).entries, e ∈ (f.world.tables m).entries :=
      fun e he => ((hshrink.entries e).mp he).1
    have hmem := SortedMap.mem_entries_iff.mpr hk'
    have hcovers := h.covers
    rw [hit] at hcovers
    rw [step_entry h.noFault hit hk hc, hvisit]
    refine ⟨⟨hr', ?_, hcovers.next hsub hmem, h.shrinks.trans hshrink⟩, fun _ => ?_⟩
    · rw [increment, hk']
      rfl
    · rw [remaining, remaining, hit]
      exact SortedMap.remaining_next hsub hmem

/-- A visit that closes its connector makes the loop read what is gone. -/
theorem fault_step (hr : Registered f.world m) (h : Safe w m f)
    (hg : ¬ f.KeepsVisited m acts) : (f.step m acts).fault = true := by
  unfold KeepsVisited at hg
  push Not at hg
  obtain ⟨k, p, c, hit, hk, hc, hcloses⟩ := hg
  rw [step_entry h.noFault hit hk hc]
  cases hvisit : f.world.visit m p acts with
  | none => rfl
  | some w' =>
    have hgone := visit_closes hr hk hc hcloses hvisit
    exact Option.isNone_iff_eq_none.mpr hgone

/-- With as many visits as there are entries ahead, a loop that stays safe ends. -/
theorem ends (hr : Registered f.world m) (h : Safe w m f)
    (halong : Along (step m) (KeepsVisited m) f visits) (hlen : f.remaining m ≤ visits.length) :
    (visits.foldl (step m) f).it = none := by
  induction visits generalizing f with
  | nil =>
    cases hit : f.it with
    | none => exact hit
    | some k =>
      obtain ⟨p, hp⟩ := h.covers.valid k hit
      have hpos := SortedMap.remaining_pos hp
      rw [remaining, hit] at hlen
      exact absurd hpos (not_lt.mpr hlen)
  | cons acts visits ih =>
    obtain ⟨hg, hrest⟩ := halong
    obtain ⟨⟨hr', h'⟩, hless⟩ := safe_step hr h hg
    refine ih hr' h' hrest ?_
    rw [List.length_cons] at hlen
    cases hit : f.it with
    | none =>
      rw [step_end h.noFault hit, remaining, hit]
      exact Nat.zero_le _
    | some k =>
      have hlt := hless (hit ▸ Option.some_ne_none k)
      omega

/-- Broadcasting keeps its promises and visits to the end every connector that is not
closed before its turn exactly when no visit closes the connector being visited. -/
theorem foreach_safe_iff (hr : Registered w m)
    (hlen : (w.tables m).entries.length ≤ visits.length) :
    ((∀ f ∈ visits.scanl (step m) (begin w m), Safe w m f) ∧
      ∀ e ∈ (w.tables m).entries,
        e ∈ (visits.foldl (step m) (begin w m)).visited ↔
          e ∉ (visits.foldl (step m) (begin w m)).early) ↔
      Along (step m) (KeepsVisited m) (begin w m) visits := by
  have hkeep : ∀ f acts, Registered f.world m ∧ Safe w m f → f.KeepsVisited m acts →
      Registered (f.step m acts).world m ∧ Safe w m (f.step m acts) :=
    fun f acts hf hg => (safe_step hf.1 hf.2 hg).1
  have hstart : Registered (begin w m).world m ∧ Safe w m (begin w m) := ⟨hr, safe_begin hr⟩
  constructor
  · rintro ⟨hsafe, -⟩
    by_contra hnot
    have hleave : ∀ f acts, Registered f.world m ∧ Safe w m f → ¬ f.KeepsVisited m acts →
        (f.step m acts).fault = true := fun f acts hf hg => fault_step hf.1 hf.2 hg
    have hbad : ∀ (f : Foreach Mgr) acts, f.fault = true → (f.step m acts).fault = true := by
      intro f acts hf
      rw [step_fault hf, hf]
    have hfault := foldl_of_not_along hkeep hleave hbad hstart hnot
    have hlast := (hsafe _ (foldl_mem_scanl _ _)).noFault
    rw [hlast] at hfault
    cases hfault
  · intro halong
    have hall := halong.forall_scanl hkeep hstart
    refine ⟨fun f hf => (hall f hf).2, fun e he => ?_⟩
    have hend : (visits.foldl (step m) (begin w m)).it = none := by
      apply ends hr (safe_begin hr) halong
      rw [remaining, begin, SortedMap.remaining_first]
      exact hlen
    have hcovers := (hall _ (foldl_mem_scanl _ _)).2.covers
    rw [hend] at hcovers
    exact hcovers.visited_iff he

/-- A manager with two connectors. -/
def twoConnectors : World Nat :=
  (World.start.run [.accept 0 7 {} {} true default, .accept 0 8 {} {} true default]).getD .start

/-- Both connectors are registered. -/
theorem registered_twoConnectors : Registered twoConnectors 0 := by
  have hlegal : Along Registry.step Registry.Legal ([] : Registry Nat)
      [.accept 0 7 {} {} true default, .accept 0 8 {} {} true default] :=
    ⟨trivial, trivial, trivial⟩
  obtain ⟨w, hrun, hreg⟩ := registered_run hlegal (by decide)
  rw [twoConnectors, hrun]
  exact hreg 0

/-- Closing the second connector while the first is visited is harmless. -/
theorem foreach_safe_closing_next :
    Registered twoConnectors 0 ∧
      ∀ f ∈ [[.closeConnect 2], []].scanl (step 0) (begin twoConnectors 0),
        Safe twoConnectors 0 f := by
  refine ⟨registered_twoConnectors, ?_⟩
  apply ((foreach_safe_iff registered_twoConnectors Nat.le.refl).mpr _).1
  refine ⟨?_, ?_, trivial⟩
  · intro k p c hit hk hc act hact
    obtain rfl := List.mem_singleton.mp hact
    cases hit
    cases hk
    cases hc
    unfold VisitAct.Closes
    decide
  · intro k p c hit
    cases hit

/-- A call of `send_data` that finds one byte too much in the output buffer. -/
def overLimit : SendCall := ⟨default, fun _ => 0, some (1024 * 64 + 1), true, true⟩

/-- The connector visited closed by `CloseConnect`, by `FreeSelf` and by `send_data`: each
makes the loop go on from an erased entry. -/
theorem foreach_closing_visited :
    Registered twoConnectors 0 ∧
      ∀ act ∈ [.closeConnect 1, .freeSelf, .sendData overLimit 0],
        ¬ ∀ f ∈ [[act], []].scanl (step 0) (begin twoConnectors 0), Safe twoConnectors 0 f := by
  refine ⟨registered_twoConnectors, fun act hact hsafe => ?_⟩
  have hlast := (hsafe _ (foldl_mem_scanl _ _)).noFault
  simp only [List.mem_cons, List.not_mem_nil, or_false] at hact
  rcases hact with rfl | rfl | rfl <;> cases hlast

end Foreach

end ServerCom.Listener
