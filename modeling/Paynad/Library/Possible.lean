import Paynad.Library.Transition

/-!
# What can still come

`Possible step C P s` says that some labels that meet `C` lead from `s` to a state where
`P` holds: nothing that has happened before has cut the way off. Goals that no such label
undoes are reached one after the other, as many as there is room for (`Possible.all`), and
a part of a system reaches in the whole what it reaches alone (`Possible.lift`).
-/

namespace Transition

variable {σ τ ε ε' α : Type*} {step : σ → ε → Option σ} {C : ε → Prop} {P Q I : σ → Prop} {s : σ}

/-- Labels that meet `C` lead to a state where `P` holds. -/
inductive Possible (step : σ → ε → Option σ) (C : ε → Prop) (P : σ → Prop) : σ → Prop
  | now {s : σ} (h : P s) : Possible step C P s
  | later {s t : σ} (e : ε) (hC : C e) (hstep : step s e = some t)
      (h : Possible step C P t) : Possible step C P s

namespace Possible

theorem trans (h : Possible step C P s) (hQ : ∀ t, P t → Possible step C Q t) :
    Possible step C Q s := by
  induction h with
  | now h => exact hQ _ h
  | later e hC hstep _ ih => exact .later e hC hstep ih

theorem mono (h : Possible step C P s) (hQ : ∀ t, P t → Q t) : Possible step C Q s :=
  h.trans fun t ht => .now (hQ t ht)

/-- What the labels keep holds at the goal. -/
theorem keep (hI : ∀ s e t, I s → C e → step s e = some t → I t) (hs : I s)
    (h : Possible step C P s) : Possible step C (fun t => P t ∧ I t) s := by
  induction h with
  | now h => exact .now ⟨h, hs⟩
  | later e hC hstep _ ih => exact .later e hC hstep (ih (hI _ e _ hs hC hstep))

theorem run (h : Possible step C P s) :
    ∃ es t, Transition.run step s es = some t ∧ (∀ e ∈ es, C e) ∧ P t := by
  induction h with
  | now h => exact ⟨[], _, rfl, fun e he => absurd he List.not_mem_nil, h⟩
  | later e hC hstep _ ih =>
      obtain ⟨es, t, hrun, hes, hP⟩ := ih
      exact ⟨e :: es, t, (run_cons_of_step hstep es).trans hrun,
        List.forall_mem_cons.mpr ⟨hC, hes⟩, hP⟩

/-- More labels leave more possible. -/
theorem weaken {C' : ε → Prop} (h : Possible step C P s) (hC : ∀ e, C e → C' e) :
    Possible step C' P s := by
  induction h with
  | now h => exact .now h
  | later e he hstep _ ih => exact .later e (hC e he) hstep ih

/-- Goals that are each possible at the cost of one unit of room, and that no label undoes,
are possible together as long as there is room for all of them. -/
theorem all {goal : α → σ → Prop} (size : σ → ℕ) {room : ℕ}
    (hI : ∀ s e t, I s → C e → step s e = some t → I t)
    (hgoal : ∀ a s e t, I s → C e → step s e = some t → goal a s → goal a t) {l : List α}
    (h : ∀ a ∈ l, ∀ s, I s → size s < room →
      Possible step C (fun t => goal a t ∧ size t ≤ size s + 1) s)
    (hs : I s) (hroom : size s + l.length ≤ room) :
    Possible step C (fun t => I t ∧ ∀ a ∈ l, goal a t) s := by
  induction l generalizing s with
  | nil => exact .now ⟨hs, fun a ha => absurd ha List.not_mem_nil⟩
  | cons a l ih =>
      obtain ⟨hhead, htail⟩ := List.forall_mem_cons.mp h
      rw [List.length_cons] at hroom
      refine ((hhead s hs (by omega)).keep hI hs).trans fun t ⟨⟨ha, hsize⟩, ht⟩ => ?_
      have hkeep : ∀ s e t, (I s ∧ goal a s) → C e → step s e = some t → I t ∧ goal a t :=
        fun s e t ⟨hs, ha⟩ hC hstep => ⟨hI s e t hs hC hstep, hgoal a s e t hs hC hstep ha⟩
      refine ((ih htail ht (by omega)).keep hkeep ⟨ht, ha⟩).mono ?_
      rintro u ⟨⟨hu, hl⟩, -, ha⟩
      exact ⟨hu, List.forall_mem_cons.mpr ⟨ha, hl⟩⟩

/-- What a part can reach, the whole can. -/
theorem lift {step' : τ → ε' → Option τ} {C' : ε' → Prop} (label : ε → ε') (part : τ → σ)
    (hstep : ∀ x e t, C e → step (part x) e = some t →
      C' (label e) ∧ ∃ x', step' x (label e) = some x' ∧ part x' = t)
    {x : τ} (h : Possible step C P (part x)) : Possible step' C' (fun x => P (part x)) x := by
  generalize hs : part x = s at h
  induction h generalizing x with
  | now h => exact .now (hs ▸ h)
  | later e hC he _ ih =>
      subst hs
      obtain ⟨hC', x', hx', hpart⟩ := hstep x e _ hC he
      exact .later (label e) hC' hx' (ih hpart)

end Possible

end Transition
