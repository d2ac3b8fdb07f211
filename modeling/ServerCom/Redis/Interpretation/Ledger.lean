import Mathlib.Data.List.Nodup
import ServerCom.Core.Data.Entries
import ServerCom.Redis.Native.RedisConn

/-!
# The ledger of the callback objects

Where each object made by `CreateOpt` is: with the connection as `m_new_opt`, in the queue of
a context, in a callback that runs, or deleted. A ledger is balanced when each object is in
one place, and the operations move an object from one place to the next.
-/

namespace ServerCom.Redis

open Entries

/-- Where the objects are. -/
structure Ledger where
  /-- `m_new_opt`. -/
  fresh : Option OptPtr
  /-- The objects whose `CmdCallBack` runs. -/
  running : List OptPtr
  /-- The objects in the queue of each context. -/
  pending : ContextPtr → List OptPtr
  /-- How many contexts were obtained. -/
  obtained : Nat
  /-- How many objects were made. -/
  created : Nat
  /-- The deleted objects. -/
  deleted : List OptPtr
  /-- The objects that were called. -/
  called : List OptPtr

namespace Ledger

/-- The objects that are not deleted. -/
def held (a : Ledger) : List OptPtr :=
  a.fresh.toList ++ (a.running ++ all a.pending a.obtained)

/-- Each object is in one place, and is called once, before its deletion. -/
structure Balanced (a : Ledger) : Prop where
  /-- Each object is deleted once or held once. -/
  perm : (a.deleted ++ a.held).Perm (List.range a.created)
  /-- Each object is called at most once. -/
  nodup : a.called.Nodup
  /-- A called object is deleted, or its callback runs. -/
  called : ∀ o ∈ a.called, o ∈ a.deleted ∨ o ∈ a.running

variable {a : Ledger} {o : OptPtr} {c : ContextPtr} {rest : List OptPtr}

/-- A held object is not deleted. -/
theorem Balanced.not_deleted (h : a.Balanced) (ho : o ∈ a.held) : o ∉ a.deleted := by
  have hnodup := h.perm.nodup_iff.mpr List.nodup_range
  exact fun hdel => (List.disjoint_of_nodup_append hnodup) hdel ho

/-- Fresh data is held. -/
theorem mem_held_fresh (ho : a.fresh = some o) : o ∈ a.held := by simp [held, ho]

/-- The data of a running callback is held. -/
theorem mem_held_running (ho : o ∈ a.running) : o ∈ a.held := by simp [held, ho]

/-- The data that is pending in a context is held. -/
theorem mem_held_pending (hc : c < a.obtained) (ho : o ∈ a.pending c) : o ∈ a.held := by
  rw [held, List.mem_append, List.mem_append]
  exact .inr (.inr (mem_all.mpr ⟨c, hc, ho⟩))

/-- `CreateOpt` deletes the object that was not used, and makes one. -/
theorem Balanced.make (h : a.Balanced) :
    Balanced { a with
      deleted := a.deleted ++ a.fresh.toList, fresh := some a.created,
      created := a.created + 1 } := by
  refine ⟨?_, h.nodup, fun o ho => (h.called o ho).imp_left (List.mem_append_left _)⟩
  have hperm := List.perm_iff_count.mp h.perm
  refine List.perm_iff_count.mpr fun x => ?_
  have hx := hperm x
  simp only [held, List.count_append, List.range_succ, Option.toList_some] at hx ⊢
  omega

/-- A command takes the object into the queue of a context. -/
theorem Balanced.submit (h : a.Balanced) (ho : a.fresh = some o) (hc : c < a.obtained) :
    Balanced { a with
      fresh := none, pending := Function.update a.pending c (a.pending c ++ [o]) } := by
  refine ⟨List.perm_iff_count.mpr fun x => ?_, h.nodup, h.called⟩
  have hx := List.perm_iff_count.mp h.perm x
  have hall := List.perm_iff_count.mp (perm_all_update a.pending hc (a.pending c ++ [o])) x
  simp only [held, List.count_append, ho, Option.toList_some, Option.toList_none,
    List.count_nil] at hx hall ⊢
  omega

/-- An object in a queue was not called. -/
theorem Balanced.not_called (h : a.Balanced) (hc : c < a.obtained) (ho : o ∈ a.pending c) :
    o ∉ a.called := by
  have hall : o ∈ all a.pending a.obtained := mem_all.mpr ⟨c, hc, ho⟩
  have hnodup := (List.nodup_append.mp (h.perm.nodup_iff.mpr List.nodup_range)).2.1
  have hrest := (List.nodup_append.mp hnodup).2.1
  intro hcalled
  rcases h.called o hcalled with hdel | hrun
  · exact h.not_deleted (mem_held_pending hc ho) hdel
  · exact List.disjoint_of_nodup_append hrest hrun hall

/-- The callback of the first object in a queue is called. -/
theorem Balanced.enter (h : a.Balanced) (hc : c < a.obtained) (ho : a.pending c = o :: rest) :
    Balanced { a with
      pending := Function.update a.pending c rest, running := o :: a.running,
      called := a.called ++ [o] } := by
  have hnew : o ∉ a.called := h.not_called hc (ho ▸ List.mem_cons_self ..)
  refine ⟨List.perm_iff_count.mpr fun x => ?_, ?_, fun p hp => ?_⟩
  · have hx := List.perm_iff_count.mp h.perm x
    have hall := List.perm_iff_count.mp (perm_all_update a.pending hc rest) x
    simp only [held, List.count_append, ho, List.count_cons] at hx hall ⊢
    omega
  · exact List.nodup_append.mpr ⟨h.nodup, List.nodup_singleton o, fun p hp q hq hpq =>
      hnew (List.mem_singleton.mp hq ▸ hpq ▸ hp)⟩
  · rcases List.mem_append.mp hp with hp | hp
    · exact (h.called p hp).imp_right (List.mem_cons_of_mem _)
    · exact .inr (List.mem_singleton.mp hp ▸ List.mem_cons_self ..)

/-- A callback returns, and its object is deleted. -/
theorem Balanced.leave (h : a.Balanced) (ho : a.running = o :: rest) :
    Balanced { a with running := rest, deleted := a.deleted ++ [o] } := by
  refine ⟨List.perm_iff_count.mpr fun x => ?_, h.nodup, fun p hp => ?_⟩
  · have hx := List.perm_iff_count.mp h.perm x
    simp only [held, List.count_append, ho, List.count_cons, List.count_nil] at hx ⊢
    omega
  · rcases h.called p hp with hdel | hrun
    · exact .inl (List.mem_append_left _ hdel)
    · rw [ho] at hrun
      rcases List.mem_cons.mp hrun with rfl | hrun
      · exact .inl (List.mem_append_right _ (List.mem_singleton_self _))
      · exact .inr hrun

/-- A context is obtained. -/
theorem Balanced.obtain (h : a.Balanced) (hnew : a.pending a.obtained = []) :
    Balanced { a with obtained := a.obtained + 1 } := by
  refine ⟨?_, h.nodup, h.called⟩
  simpa only [held, all_succ, hnew, List.append_nil] using h.perm

end Ledger

end ServerCom.Redis
