import ServerCom.Core.Machine.Guarded

/-!
# Answers of a machine

A machine answers each request, or fails. It refines a machine that never fails when from
related states it gives the same answer and comes to related states again; then it gives the
same answers in every run.
-/

namespace ServerCom.Machine

variable {σ τ α β : Type*} {step : σ → α → Option (β × σ)} {spec : τ → α → β × τ}
  {R : σ → τ → Prop} {G : τ → α → Prop} {s : σ} {t : τ}

/-- The answers of a machine, and its state behind the requests. -/
def answers (step : σ → α → Option (β × σ)) : σ → List α → Option (List β × σ)
  | s, [] => some ([], s)
  | s, a :: as => (step s a).bind fun p => (answers step p.2 as).map fun q => (p.1 :: q.1, q.2)

/-- The answers of a machine that never fails. -/
def specAnswers (spec : τ → α → β × τ) : τ → List α → List β × τ
  | t, [] => ([], t)
  | t, a :: as => ((spec t a).1 :: (specAnswers spec (spec t a).2 as).1,
      (specAnswers spec (spec t a).2 as).2)

/-- What refines step by step refines every run. -/
theorem answers_eq_of_refines
    (hstep : ∀ s t a, R s t → G t a → ∃ s', step s a = some ((spec t a).1, s') ∧ R s' (spec t a).2)
    (hs : R s t) {as : List α} (h : Along (fun t a => (spec t a).2) G t as) :
    ∃ s', answers step s as = some ((specAnswers spec t as).1, s') ∧
      R s' (specAnswers spec t as).2 := by
  induction as generalizing s t with
  | nil => exact ⟨s, rfl, hs⟩
  | cons a as ih =>
    obtain ⟨s₁, hfirst, hs₁⟩ := hstep s t a hs h.1
    obtain ⟨s', hrest, hs'⟩ := ih hs₁ h.2
    refine ⟨s', ?_, hs'⟩
    rw [answers, hfirst, Option.bind_some, hrest]
    rfl

end ServerCom.Machine
