import Mathlib.Data.List.Basic

/-!
# Guarded runs

A deterministic machine takes one action after another. `Along` says that every
step of a run meets a condition on the state it starts from. When that condition
is exactly what a step needs to keep an invariant, the runs that keep the invariant
in every state are exactly the guarded ones.
-/

namespace ServerCom.Machine

variable {σ α : Type*} {step : σ → α → σ} {Inv : σ → Prop} {G : σ → α → Prop} {s : σ}

/-- Every step of a run meets a condition on the state it starts from. -/
def Along (step : σ → α → σ) (G : σ → α → Prop) : σ → List α → Prop
  | _, [] => True
  | s, a :: as => G s a ∧ Along step G (step s a) as

instance Along.decidable (step : σ → α → σ) (G : σ → α → Prop) [∀ s a, Decidable (G s a)] :
    (s : σ) → (as : List α) → Decidable (Along step G s as)
  | _, [] => .isTrue trivial
  | s, a :: as =>
    have := Along.decidable step G (step s a) as
    inferInstanceAs (Decidable (G s a ∧ Along step G (step s a) as))

/-- A condition on the actions alone holds along a run when all of them meet it. -/
theorem along_const {Q : α → Prop} {as : List α} :
    Along step (fun _ a => Q a) s as ↔ ∀ a ∈ as, Q a := by
  induction as generalizing s with
  | nil => exact iff_of_true trivial fun a ha => absurd ha List.not_mem_nil
  | cons a as ih =>
    rw [Along, ih, List.forall_mem_cons]

/-- The first state is one of the run. -/
theorem mem_scanl_head (s : σ) (as : List α) : s ∈ as.scanl step s := by
  cases as <;> simp

/-- The last state is one of the run. -/
theorem foldl_mem_scanl (s : σ) (as : List α) : as.foldl step s ∈ as.scanl step s := by
  induction as generalizing s with
  | nil => exact mem_scanl_head s []
  | cons a as ih =>
    rw [List.scanl_cons]
    exact List.mem_cons_of_mem _ (ih (step s a))

/-- An invariant that guarded steps keep holds in every state of a guarded run. -/
theorem Along.forall_scanl (hstep : ∀ s a, Inv s → G s a → Inv (step s a)) (hs : Inv s)
    {as : List α} (h : Along step G s as) : ∀ t ∈ as.scanl step s, Inv t := by
  induction as generalizing s with
  | nil => simpa using hs
  | cons a as ih =>
    intro t ht
    rw [List.scanl_cons] at ht
    rcases List.mem_cons.mp ht with rfl | ht
    · exact hs
    · exact ih (hstep s a hs h.1) h.2 t ht

/-- What every step keeps holds in every state of a run. -/
theorem forall_scanl (hstep : ∀ s a, Inv s → Inv (step s a)) (hs : Inv s) (as : List α) :
    ∀ t ∈ as.scanl step s, Inv t := by
  induction as generalizing s with
  | nil => simpa using hs
  | cons a as ih =>
    intro t ht
    rw [List.scanl_cons] at ht
    rcases List.mem_cons.mp ht with rfl | ht
    · exact hs
    · exact ih (hstep s a hs) t ht

/-- A run that is not guarded ends badly, when leaving the guard cannot be made good. -/
theorem foldl_of_not_along {Bad : σ → Prop} (hstep : ∀ s a, Inv s → G s a → Inv (step s a))
    (hleave : ∀ s a, Inv s → ¬ G s a → Bad (step s a)) (hbad : ∀ s a, Bad s → Bad (step s a))
    (hs : Inv s) {as : List α} (h : ¬ Along step G s as) : Bad (as.foldl step s) := by
  have hkeep : ∀ (as : List α) (s : σ), Bad s → Bad (as.foldl step s) := by
    intro as
    induction as with
    | nil => exact fun s hs => hs
    | cons a as ih => exact fun s hs => ih _ (hbad s a hs)
  induction as generalizing s with
  | nil => exact absurd trivial h
  | cons a as ih =>
    by_cases hg : G s a
    · exact ih (hstep s a hs hg) fun hrest => h ⟨hg, hrest⟩
    · exact hkeep as _ (hleave s a hs hg)

/-- Beside a property that every step keeps, an invariant holds in every state of a run
exactly when the run is guarded. -/
theorem forall_scanl_iff_along_of {Base : σ → Prop} (hbase : ∀ s a, Base s → Base (step s a))
    (hstep : ∀ s a, Base s → Inv s → (Inv (step s a) ↔ G s a)) (hb : Base s) (hs : Inv s)
    (as : List α) : (∀ t ∈ as.scanl step s, Inv t) ↔ Along step G s as := by
  constructor
  · intro h
    induction as generalizing s with
    | nil => trivial
    | cons a as ih =>
      rw [List.scanl_cons] at h
      have hnext : Inv (step s a) := h _ (List.mem_cons_of_mem _ (mem_scanl_head ..))
      refine ⟨(hstep s a hb hs).mp hnext, ih (hbase s a hb) hnext fun t ht => ?_⟩
      exact h t (List.mem_cons_of_mem _ ht)
  · intro h t ht
    have hboth : ∀ s a, Base s ∧ Inv s → G s a → Base (step s a) ∧ Inv (step s a) :=
      fun s a hs hg => ⟨hbase s a hs.1, (hstep s a hs.1 hs.2).mpr hg⟩
    exact (Along.forall_scanl hboth ⟨hb, hs⟩ h t ht).2

/-- The invariant holds in every state of a run exactly when the run is guarded. -/
theorem forall_scanl_iff_along (hstep : ∀ s a, Inv s → (Inv (step s a) ↔ G s a)) (hs : Inv s)
    (as : List α) : (∀ t ∈ as.scanl step s, Inv t) ↔ Along step G s as :=
  forall_scanl_iff_along_of (fun _ _ (h : True) => h) (fun s a _ => hstep s a)
    trivial hs as

end ServerCom.Machine
