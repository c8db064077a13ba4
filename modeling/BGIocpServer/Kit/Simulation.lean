import BGIocpServer.Kit.Reaches

/-!
# Simulation between two machines

A machine that says more about its steps than another one. `Simulates` ties the states of the
two together: each step of the finer machine is a step of the coarser one, with a label that may
depend on the states, or leaves it where it is. What holds of all runs of the coarser machine
then holds of all runs of the finer one.

## Main definitions

* `Simulates step C step' C' R`: the steps.

## Main results

* `Simulates.reaches`: the runs.
-/

namespace Kit

universe u v
variable {σ τ : Type u} {α β : Type v} {step : σ → α → Option σ} {C : σ → α → Prop}
  {step' : τ → β → Option τ} {C' : τ → β → Prop} {R : σ → τ → Prop} {s : σ} {s' : τ}

/-- From states related by `R`, a step of `step` that meets `C` is matched by no step or by one of
`step'` that meets `C'`, and the states after it are related again. -/
def Simulates (step : σ → α → Option σ) (C : σ → α → Prop) (step' : τ → β → Option τ)
    (C' : τ → β → Prop) (R : σ → τ → Prop) : Prop :=
  ∀ s s' a t, R s s' → C s a → step s a = some t →
    R t s' ∨ ∃ b t', C' s' b ∧ step' s' b = some t' ∧ R t t'

/-- **Each run has its counterpart.** -/
theorem Simulates.reaches (h : Simulates step C step' C' R) (h0 : R s s') {t : σ}
    (hrun : Reaches step C s t) : ∃ t', Reaches step' C' s' t' ∧ R t t' := by
  induction hrun with
  | refl => exact ⟨s', .refl, h0⟩
  | tail _ hC hs ih =>
      obtain ⟨t', hreach, hR⟩ := ih
      rcases h _ t' _ _ hR hC hs with hsame | ⟨b, u', hC', hs', hR'⟩
      · exact ⟨t', hreach, hsame⟩
      · exact ⟨u', hreach.tail hC' hs', hR'⟩

end Kit
