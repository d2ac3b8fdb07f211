import Mathlib.Data.List.Perm.Basic
import Mathlib.Data.List.Nodup

/-!
# Lending

A stock of different items, each of them either at hand or lent. Items move between the two
by being lent and given back, and new ones join the stock at hand.
-/

namespace ServerCom

variable {α : Type*} {all free out : List α} {p : α}

/-- Each item of the stock is at hand or lent, and comes once. -/
structure Lending (all free out : List α) : Prop where
  /-- The items are those at hand and those lent. -/
  perm : all.Perm (free ++ out)
  /-- They are different. -/
  nodup : all.Nodup

namespace Lending

/-- At first there is nothing. -/
theorem empty : Lending ([] : List α) [] [] := ⟨.nil, List.nodup_nil⟩

/-- Nothing is in two places. -/
theorem nodup_append (h : Lending all free out) : (free ++ out).Nodup := h.perm.nodup_iff.mp h.nodup

/-- Nothing is free twice. -/
theorem nodup_free (h : Lending all free out) : free.Nodup := h.nodup_append.of_append_left

/-- What is free is one of all. -/
theorem free_subset (h : Lending all free out) : free ⊆ all :=
  fun _ hp => h.perm.mem_iff.mpr (List.mem_append_left _ hp)

/-- What is free is not out. -/
theorem notMem_out (h : Lending all free out) (hp : p ∈ free) : p ∉ out :=
  fun ho => List.disjoint_of_nodup_append h.nodup_append hp ho

/-- What is lent is in the stock and not at hand. -/
theorem mem_out_iff (h : Lending all free out) : p ∈ out ↔ p ∈ all ∧ p ∉ free := by
  constructor
  · exact fun ho => ⟨h.perm.mem_iff.mpr (List.mem_append_right _ ho), fun hf => h.notMem_out hf ho⟩
  · rintro ⟨ha, hf⟩
    exact (List.mem_append.mp (h.perm.mem_iff.mp ha)).resolve_left hf

/-- Everything is free or out. -/
theorem length_eq (h : Lending all free out) : all.length = free.length + out.length := by
  rw [h.perm.length_eq, List.length_append]

/-- The last item at hand is lent. -/
theorem lend (h : Lending all (free ++ [p]) out) : Lending all free (out ++ [p]) := by
  refine ⟨h.perm.trans ?_, h.nodup⟩
  rw [List.append_assoc]
  exact List.perm_append_comm.append_left free

/-- A lent item is given back. -/
theorem giveBack [DecidableEq α] (h : Lending all free out) (hp : p ∈ out) :
    Lending all (free ++ [p]) (out.erase p) := by
  refine ⟨h.perm.trans ?_, h.nodup⟩
  rw [List.append_assoc]
  exact (List.perm_cons_erase hp).append_left free

/-- A new item joins the stock. -/
theorem join (h : Lending all free out) (hp : p ∉ all) :
    Lending (all ++ [p]) (free ++ [p]) out := by
  refine ⟨?_, ?_⟩
  · rw [List.append_assoc]
    exact (h.perm.append_right [p]).trans
      ((List.append_assoc ..).symm ▸ List.perm_append_comm.append_left free)
  · exact List.nodup_append.mpr ⟨h.nodup, List.nodup_singleton p, fun a ha b hb =>
      fun he => hp (List.mem_singleton.mp hb ▸ he ▸ ha)⟩

/-- A new stock is all at hand. -/
theorem of_nodup (h : all.Nodup) : Lending all all [] := ⟨by rw [List.append_nil], h⟩

end Lending

end ServerCom
