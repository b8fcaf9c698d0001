import Paynad.Library.Transition

/-!
# Forward simulations

A relation between the states of two systems is a simulation when every step of the
first is matched by a step of the second or by none. What is reached in the first is
then related to something reached in the second, by a run that is no longer.
-/

namespace Transition

variable {σ τ ε ε' : Type*}

/-- Every step from related states is matched by at most one step. The two states are
known to be reached. -/
def Simulates (step : σ → ε → Option σ) (init : σ) (step' : τ → ε' → Option τ) (init' : τ)
    (R : σ → τ → Prop) : Prop :=
  ∀ s e s' t, Reachable step init s → Reachable step' init' t → R s t → step s e = some s' →
    R s' t ∨ ∃ e' t', step' t e' = some t' ∧ R s' t'

variable {step : σ → ε → Option σ} {init s : σ} {step' : τ → ε' → Option τ} {init' : τ}
  {R : σ → τ → Prop} {es : List ε}

/-- A run is simulated, label by label. -/
theorem Simulates.run (h : Simulates step init step' init' R) (hinit : R init init')
    (hrun : Transition.run step init es = some s) :
    ∃ es' t, Transition.run step' init' es' = some t ∧ R s t ∧ es'.length ≤ es.length := by
  refine run_induction (P := fun es s => ∃ es' t, Transition.run step' init' es' = some t ∧
    R s t ∧ es'.length ≤ es.length) ⟨[], init', rfl, hinit, le_rfl⟩ ?_ hrun
  rintro es s e s' hs ⟨es', t, ht, hR, hlength⟩ hstep
  rw [List.length_append, List.length_singleton]
  rcases h s e s' t ⟨es, hs⟩ ⟨es', ht⟩ hR hstep with hR' | ⟨e', t', hstep', hR'⟩
  · exact ⟨es', t, ht, hR', by omega⟩
  · refine ⟨es' ++ [e'], t', ?_, hR', by rw [List.length_append]; simpa using hlength⟩
    rw [run_append, ht]
    exact run_cons_of_step hstep' []

/-- What is reached is related to something reached. -/
theorem Simulates.reachable (h : Simulates step init step' init' R) (hinit : R init init')
    (hs : Reachable step init s) : ∃ t, Reachable step' init' t ∧ R s t := by
  obtain ⟨es, hes⟩ := hs
  obtain ⟨es', t, ht, hR, -⟩ := h.run hinit hes
  exact ⟨t, ⟨es', ht⟩, hR⟩

end Transition
