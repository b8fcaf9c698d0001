import Mathlib.Data.List.Destutter

/-!
# Runs of a labelled partial step

A system is given by a partial step function `step : σ → ε → Option σ`: the
label `e` resolves every choice, and `none` says that `e` is not enabled in the
state. `run` follows a list of labels, `Reachable` forgets the labels, and
`RunsUnder` keeps only the runs whose every step meets a condition on the state
before it. The invariant rules below are the only inductions over runs that a
development on top of this file needs.
-/

namespace Transition

variable {σ τ ε ε' α : Type*}

/-- Follow the labels `es` from `s`; `none` as soon as one is not enabled. -/
def run (step : σ → ε → Option σ) : σ → List ε → Option σ
  | s, [] => some s
  | s, e :: es => (step s e).bind fun s' => run step s' es

@[simp] theorem run_nil (step : σ → ε → Option σ) (s : σ) :
    run step s [] = some s := rfl

theorem run_cons (step : σ → ε → Option σ) (s : σ) (e : ε) (es : List ε) :
    run step s (e :: es) = (step s e).bind fun s' => run step s' es := rfl

theorem run_cons_of_step {step : σ → ε → Option σ} {s t : σ} {e : ε} (h : step s e = some t)
    (es : List ε) : run step s (e :: es) = run step t es := by
  rw [run_cons, h]
  rfl

theorem run_append (step : σ → ε → Option σ) (s : σ) (es fs : List ε) :
    run step s (es ++ fs) =
      (run step s es).bind fun s' => run step s' fs := by
  induction es generalizing s with
  | nil => rfl
  | cons e es ih =>
      simp only [List.cons_append, run_cons, Option.bind_assoc]
      exact congrArg _ (funext fun s' => ih s')

/-- What a run tells of its labels and its last state, by induction on its last step. -/
theorem run_induction {step : σ → ε → Option σ} {init s : σ} {es : List ε}
    {P : List ε → σ → Prop} (hnil : P [] init)
    (hstep : ∀ es s e t, run step init es = some s → P es s → step s e = some t →
      P (es ++ [e]) t)
    (h : run step init es = some s) : P es s := by
  induction es using List.reverseRecOn generalizing s with
  | nil =>
      obtain rfl : init = s := Option.some.inj h
      exact hnil
  | append_singleton es e ih =>
      rw [run_append] at h
      obtain ⟨s', hs', hlast⟩ := Option.bind_eq_some_iff.mp h
      obtain ⟨t, ht, hrest⟩ := Option.bind_eq_some_iff.mp hlast
      obtain rfl : t = s := Option.some.inj hrest
      exact hstep es s' e t hs' (ih hs') ht

def Reachable (step : σ → ε → Option σ) (init s : σ) : Prop :=
  ∃ es, run step init es = some s

theorem Reachable.refl (step : σ → ε → Option σ) (s : σ) :
    Reachable step s s := ⟨[], rfl⟩

theorem Reachable.of_run {step : σ → ε → Option σ} {init s t : σ} {es : List ε}
    (h : Reachable step init s) (hrun : run step s es = some t) :
    Reachable step init t := by
  obtain ⟨fs, hfs⟩ := h
  refine ⟨fs ++ es, ?_⟩
  rw [run_append, hfs]
  exact hrun

/-- The runs whose every step `s —e→` meets the condition `C s e`. -/
inductive RunsUnder (step : σ → ε → Option σ) (C : σ → ε → Prop) :
    σ → List ε → σ → Prop
  | nil (s : σ) : RunsUnder step C s [] s
  | cons {s t u : σ} {e : ε} {es : List ε} (hstep : step s e = some t)
      (hC : C s e) (hrest : RunsUnder step C t es u) :
      RunsUnder step C s (e :: es) u

/-- A run through the states of an invariant is under a condition that its labels meet
there. -/
theorem runsUnder_of_invariant {step : σ → ε → Option σ} {A : ε → Prop} {C : σ → ε → Prop}
    {I : σ → Prop} (hI : ∀ s e s', I s → A e → step s e = some s' → I s')
    (hC : ∀ s e, I s → A e → C s e) {s t : σ} {es : List ε} (h : run step s es = some t)
    (hA : ∀ e ∈ es, A e) (hs : I s) : RunsUnder step C s es t := by
  induction es generalizing s with
  | nil =>
      obtain rfl : s = t := Option.some.inj h
      exact .nil s
  | cons e es ih =>
      obtain ⟨s', hs', hrest⟩ := Option.bind_eq_some_iff.mp h
      have he : A e := hA e (List.mem_cons_self ..)
      exact .cons hs' (hC s e hs he)
        (ih hrest (fun e he => hA e (List.mem_cons_of_mem _ he)) (hI s e s' hs he hs'))

theorem runsUnder_of_forall {step : σ → ε → Option σ} {C : σ → ε → Prop} {s t : σ}
    {es : List ε} (h : run step s es = some t) (hC : ∀ s, ∀ e ∈ es, C s e) :
    RunsUnder step C s es t :=
  runsUnder_of_invariant (A := (· ∈ es)) (I := fun _ => True) (fun _ _ _ _ _ _ => trivial)
    (fun s e _ he => hC s e he) h (fun _ he => he) trivial

/-- The steps that meet a condition: where it fails, a run of them stops. -/
def guarded (step : σ → ε → Option σ) (D : σ → ε → Prop) [∀ s e, Decidable (D s e)]
    (s : σ) (e : ε) : Option σ :=
  if D s e then step s e else none

theorem runsUnder_of_guarded {step : σ → ε → Option σ} {C D : σ → ε → Prop}
    [∀ s e, Decidable (D s e)] (hC : ∀ s e, D s e → C s e) {s t : σ} {es : List ε}
    (h : run (guarded step D) s es = some t) : RunsUnder step C s es t := by
  induction es generalizing s with
  | nil =>
      obtain rfl : s = t := Option.some.inj h
      exact .nil s
  | cons e es ih =>
      obtain ⟨s', hs', hrest⟩ := Option.bind_eq_some_iff.mp h
      obtain ⟨hD, hstep⟩ := Option.ite_none_right_eq_some.mp hs'
      exact .cons hstep (hC s e hD) (ih hrest)

theorem runsUnder_true_of_run {step : σ → ε → Option σ} {s t : σ} {es : List ε}
    (h : run step s es = some t) :
    RunsUnder step (fun _ _ => True) s es t :=
  runsUnder_of_forall h fun _ _ _ => trivial

/-- What every step under the condition preserves, every run under it does. -/
theorem RunsUnder.invariant {step : σ → ε → Option σ} {C : σ → ε → Prop}
    {I : σ → Prop}
    (hI : ∀ s e s', I s → C s e → step s e = some s' → I s')
    {s t : σ} {es : List ε} (h : RunsUnder step C s es t) (hs : I s) : I t := by
  induction h with
  | nil s => exact hs
  | cons hstep hC _ ih => exact ih (hI _ _ _ hs hC hstep)

theorem run_invariant_of_labels {step : σ → ε → Option σ} {A : ε → Prop} {I : σ → Prop}
    (hI : ∀ s e s', I s → A e → step s e = some s' → I s')
    {s t : σ} {es : List ε} (h : run step s es = some t) (hA : ∀ e ∈ es, A e) (hs : I s) :
    I t :=
  (runsUnder_of_forall (C := fun _ e => A e) h fun _ => hA).invariant hI hs

/-- A run that starts in `G` stays there as long as its steps meet the condition,
and is in `B` for good once one has not. -/
theorem run_dichotomy {step : σ → ε → Option σ} {A : ε → Prop} {C : σ → ε → Prop}
    {G B : σ → Prop}
    (hG : ∀ s e s', G s → A e → step s e = some s' → (C s e ∧ G s') ∨ (¬ C s e ∧ B s'))
    (hB : ∀ s e s', B s → A e → step s e = some s' → B s')
    {s t : σ} {es : List ε} (h : run step s es = some t) (hA : ∀ e ∈ es, A e) (hs : G s) :
    (RunsUnder step C s es t ∧ G t) ∨ (¬ RunsUnder step C s es t ∧ B t) := by
  induction es generalizing s with
  | nil =>
      obtain rfl : s = t := Option.some.inj h
      exact .inl ⟨.nil s, hs⟩
  | cons e es ih =>
      obtain ⟨s', hs', hrest⟩ := Option.bind_eq_some_iff.mp h
      have hes : ∀ e ∈ es, A e := fun e he => hA e (List.mem_cons_of_mem _ he)
      rcases hG s e s' hs (hA e (List.mem_cons_self ..)) hs' with ⟨hC, hgood⟩ | ⟨hC, hbad⟩
      · rcases ih hrest hes hgood with ⟨hunder, ht⟩ | ⟨hunder, ht⟩
        · exact .inl ⟨.cons hs' hC hunder, ht⟩
        · refine .inr ⟨fun hwhole => hunder ?_, ht⟩
          cases hwhole with
          | cons hstep _ hwhole =>
              obtain rfl := Option.some.inj (hstep.symm.trans hs')
              exact hwhole
      · refine .inr ⟨fun hwhole => ?_, run_invariant_of_labels hB hrest hes hbad⟩
        cases hwhole with
        | cons _ hC' _ => exact hC hC'

/-- What every step preserves, every run does. -/
theorem run_invariant {step : σ → ε → Option σ} {I : σ → Prop}
    (hI : ∀ s e s', I s → step s e = some s' → I s')
    {s t : σ} {es : List ε} (h : run step s es = some t) (hs : I s) : I t :=
  (runsUnder_true_of_run h).invariant (fun s e s' hs _ hstep => hI s e s' hs hstep) hs

theorem Reachable.invariant {step : σ → ε → Option σ} {I : σ → Prop}
    {init s : σ} (h : Reachable step init s) (hinit : I init)
    (hI : ∀ s e s', I s → step s e = some s' → I s') : I s := by
  obtain ⟨es, hes⟩ := h
  exact run_invariant hI hes hinit

/-- Projecting a system on another: when `f` turns every step into a step or
into no step at all, it turns reachable states into reachable states. -/
theorem Reachable.map {step : σ → ε → Option σ} {step' : τ → ε' → Option τ}
    (f : σ → τ)
    (hf : ∀ s e s', step s e = some s' →
      f s' = f s ∨ ∃ e', step' (f s) e' = some (f s'))
    {init s : σ} (h : Reachable step init s) :
    Reachable step' (f init) (f s) := by
  refine h.invariant (I := fun s => Reachable step' (f init) (f s)) (.refl _ _) ?_
  intro s e s' hs hstep
  rcases hf s e s' hstep with heq | ⟨e', he'⟩
  · rw [heq]
    exact hs
  · have hrun : run step' (f s) [e'] = some (f s') := by
      rw [run_cons, he']
      rfl
    exact hs.of_run hrun

/-- The states a run goes through, the first one included. -/
def trace (step : σ → ε → Option σ) : σ → List ε → List σ
  | s, [] => [s]
  | s, e :: es => s :: (step s e).elim [] fun s' => trace step s' es

theorem trace_cons_of_step {step : σ → ε → Option σ} {s s' : σ} {e : ε}
    (h : step s e = some s') (es : List ε) :
    trace step s (e :: es) = s :: trace step s' es := by
  simp [trace, h]

theorem head?_trace (step : σ → ε → Option σ) (s : σ) (es : List ε) :
    (trace step s es).head? = some s := by
  cases es <;> rfl

theorem self_mem_trace (step : σ → ε → Option σ) (s : σ) (es : List ε) :
    s ∈ trace step s es := by
  cases es <;> exact List.mem_cons_self ..

/-- What every step under the condition preserves holds all along a run under it. -/
theorem RunsUnder.forall_trace {step : σ → ε → Option σ} {C : σ → ε → Prop} {I : σ → Prop}
    (hI : ∀ s e s', I s → C s e → step s e = some s' → I s')
    {s t : σ} {es : List ε} (h : RunsUnder step C s es t) (hs : I s) :
    ∀ u ∈ trace step s es, I u := by
  induction h with
  | nil s => simpa [trace] using hs
  | cons hstep hC _ ih =>
      rw [trace_cons_of_step hstep, List.forall_mem_cons]
      exact ⟨hs, ih (hI _ _ _ hs hC hstep)⟩

/-- A run is under a condition that each of its steps meets for what holds at its two
ends, when that holds all along the run. -/
theorem runsUnder_of_forall_trace {step : σ → ε → Option σ} {C : σ → ε → Prop} {P : σ → Prop}
    (hC : ∀ s e s', step s e = some s' → P s → P s' → C s e)
    {s t : σ} {es : List ε} (h : run step s es = some t) (hP : ∀ u ∈ trace step s es, P u) :
    RunsUnder step C s es t := by
  induction es generalizing s with
  | nil =>
      obtain rfl : s = t := Option.some.inj h
      exact .nil s
  | cons e es ih =>
      obtain ⟨s', hs', hrest⟩ := Option.bind_eq_some_iff.mp h
      rw [trace_cons_of_step hs', List.forall_mem_cons] at hP
      obtain ⟨hs, htail⟩ := hP
      exact .cons hs' (hC s e s' hs' hs (htail s' (self_mem_trace ..))) (ih hrest htail)

/-- Two systems that take the same steps from the states of an invariant have the same
runs under the condition that keeps it. -/
theorem RunsUnder.run_eq {step step' : σ → ε → Option σ} {C : σ → ε → Prop} {I : σ → Prop}
    (hI : ∀ s e s', I s → C s e → step s e = some s' → I s')
    (hsame : ∀ s e, I s → step' s e = step s e)
    {s t : σ} {es : List ε} (h : RunsUnder step C s es t) (hs : I s) :
    run step' s es = some t := by
  induction h with
  | nil s => rfl
  | cons hstep hC _ ih =>
      rw [run_cons_of_step ((hsame _ _ hs).trans hstep)]
      exact ih (hI _ _ _ hs hC hstep)

theorem RunsUnder.run_eq_some {step : σ → ε → Option σ} {C : σ → ε → Prop} {s t : σ}
    {es : List ε} (h : RunsUnder step C s es t) : run step s es = some t :=
  h.run_eq (I := fun _ => True) (fun _ _ _ _ _ _ => trivial) (fun _ _ _ => rfl) trivial

/-- Consecutive states of a run are related by whatever relates the two ends of
every step that starts in a state of the invariant. -/
theorem isChain_trace {step : σ → ε → Option σ} {I : σ → Prop}
    {R : σ → σ → Prop}
    (hI : ∀ s e s', I s → step s e = some s' → I s')
    (hR : ∀ s e s', I s → step s e = some s' → R s s')
    {s : σ} (es : List ε) (hs : I s) : (trace step s es).IsChain R := by
  induction es generalizing s with
  | nil => simp [trace]
  | cons e es ih =>
      cases h : step s e with
      | none => simp [trace, h]
      | some s' =>
          rw [trace_cons_of_step h, List.isChain_cons]
          refine ⟨?_, ih (hI s e s' hs h)⟩
          intro t ht
          rw [head?_trace] at ht
          obtain rfl : s' = t := Option.some.inj ht
          exact hR s e s' hs h

end Transition

/-!
# Reading a run through a partial observation

A run observed through `f : σ → Option α` that never loses its value once it has
one is a sequence of values; merging equal neighbours turns "stays or moves along
`R`" into a path of `R`.
-/

namespace Transition

variable {σ α : Type*}

theorem isChain_filterMap {R : σ → σ → Prop} {S : α → α → Prop}
    {f : σ → Option α}
    (hRS : ∀ s t a, R s t → f s = some a → ∃ b, f t = some b ∧ S a b)
    {l : List σ} (h : l.IsChain R) : (l.filterMap f).IsChain S := by
  induction l with
  | nil => simp
  | cons s l ih =>
      rw [List.isChain_cons] at h
      obtain ⟨hhead, htail⟩ := h
      cases hs : f s with
      | none => rw [List.filterMap_cons_none hs]; exact ih htail
      | some a =>
          rw [List.filterMap_cons_some hs, List.isChain_cons]
          refine ⟨?_, ih htail⟩
          cases l with
          | nil => simp
          | cons t l =>
              obtain ⟨b, hb, hab⟩ := hRS s t a (hhead t rfl) hs
              rw [List.filterMap_cons_some hb]
              intro b' hb'
              obtain rfl : b = b' := Option.some.inj hb'
              exact hab

theorem isChain_destutter'_of_stutter {R : α → α → Prop} [DecidableEq α]
    {a : α} {l : List α} (h : (a :: l).IsChain fun x y => x = y ∨ R x y) :
    (l.destutter' (· ≠ ·) a).IsChain R ∧
      (l.destutter' (· ≠ ·) a).head? = some a := by
  induction l generalizing a with
  | nil => simp
  | cons b l ih =>
      rw [List.isChain_cons_cons] at h
      obtain ⟨hab, hrest⟩ := h
      by_cases hne : a = b
      · subst hne
        rw [List.destutter'_cons_neg _ (by simp)]
        exact ih hrest
      · rw [List.destutter'_cons_pos _ hne]
        obtain ⟨hchain, hhead⟩ := ih hrest
        refine ⟨?_, rfl⟩
        rw [List.isChain_cons]
        refine ⟨?_, hchain⟩
        intro c hc
        rw [hhead] at hc
        obtain rfl : b = c := Option.some.inj hc
        exact hab.resolve_left hne

/-- A sequence that stays or moves along `R` is, with equal neighbours merged, a
path of `R`. -/
theorem isChain_destutter_of_stutter {R : α → α → Prop} [DecidableEq α]
    {l : List α} (h : l.IsChain fun x y => x = y ∨ R x y) :
    (l.destutter (· ≠ ·)).IsChain R := by
  cases l with
  | nil => simp
  | cons a l =>
      rw [List.destutter_cons']
      exact (isChain_destutter'_of_stutter h).1

theorem getLast?_of_isChain {R : α → α → Prop} {l : List α} (h : l.IsChain R) {a : α}
    (ha : a ∈ l) (hlast : ∀ b, ¬ R a b) : l.getLast? = some a := by
  induction l with
  | nil => simp at ha
  | cons b l ih =>
      rw [List.isChain_cons] at h
      obtain ⟨hhead, htail⟩ := h
      cases l with
      | nil => simpa using (List.mem_singleton.mp ha).symm
      | cons c l =>
          rcases List.mem_cons.mp ha with rfl | ha
          · exact absurd (hhead c rfl) (hlast c)
          · simpa using ih htail ha

end Transition
