import Mathlib.Data.List.Chain
import Mathlib.Logic.Relation

/-!
# Descending steps

Steps that lower a number cannot go on for ever: the number a run starts with bounds
its length, and every run reaches a state without a step.
-/

namespace ServerCom.Machine

variable {σ : Type*} {Step : σ → σ → Prop} {rank : σ → Nat} {s : σ}

/-- A run makes at most as many steps as the number it starts with. -/
theorem length_le_rank (h : ∀ s t, Step s t → rank t < rank s) {ts : List σ}
    (hrun : (s :: ts).IsChain Step) : ts.length ≤ rank s := by
  induction ts generalizing s with
  | nil => exact Nat.zero_le _
  | cons t ts ih =>
    obtain ⟨hst, hrest⟩ := List.isChain_cons_cons.mp hrun
    have hlt := h s t hst
    have hle := ih hrest
    rw [List.length_cons]
    omega

/-- No run is infinite. -/
theorem not_infinite (h : ∀ s t, Step s t → rank t < rank s) (f : Nat → σ) :
    ¬ ∀ i, Step (f i) (f (i + 1)) := by
  intro hrun
  have hsum : ∀ i, rank (f i) + i ≤ rank (f 0) := by
    intro i
    induction i with
    | zero => exact le_rfl
    | succ i ih =>
      have hlt := h _ _ (hrun i)
      omega
  have hlast := hsum (rank (f 0) + 1)
  omega

/-- Every run can be continued to a state without a step. -/
theorem exists_last (h : ∀ s t, Step s t → rank t < rank s) (s : σ) :
    ∃ t, Relation.ReflTransGen Step s t ∧ ∀ u, ¬ Step t u := by
  induction hk : rank s using Nat.strongRecOn generalizing s with
  | ind k ih =>
    by_cases hs : ∃ t, Step s t
    · obtain ⟨t, hst⟩ := hs
      obtain ⟨u, htu, hu⟩ := ih _ (hk ▸ h s t hst) t rfl
      exact ⟨u, .head hst htu, hu⟩
    · exact ⟨s, .refl, not_exists.mp hs⟩

end ServerCom.Machine
