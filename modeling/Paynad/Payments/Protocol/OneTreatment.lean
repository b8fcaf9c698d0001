import Paynad.Library.Transition
import Paynad.Payments.Infrastructure.PostgresPaymentExecution

/-!
# At most one treatment of a payment

A session is taken by one run, and every lock that is held is held once, by the session of a
run that works or is about to unlock. What a run has done follows from the await it rests
at (`Run.Shape`).
-/

namespace Paynad

namespace Payments

namespace PostgresPaymentExecution

open Transition

def Outcome.ofWork : Outcome → Bool
  | .worked _ => true
  | _ => false

namespace Run

/-- A run that joins or not, with or without the lock, and its calls of `work` and of
`release`. -/
structure Has (run : Run) (joins locked : Bool) (worked released : ℕ) : Prop where
  joins : run.joins = joins
  locked : run.locked = locked
  worked : run.worked = worked
  released : run.released = released

/-- What a run has done by each of its awaits. -/
def Shape (run : Run) : Prop :=
  match run.stage with
  | .joined => run.Has true false 1 0
  | .connecting => run.Has false false 0 0
  | .locking _ => run.Has false false 0 0
  | .working _ => run.Has false true 1 0
  | .unlocking _ outcome => run.Has false true 1 0 ∧ outcome.ofWork = true
  | .releasing _ outcome =>
      if outcome.ofWork then run.Has false true 1 0 else run.Has false false 0 0
  | .ended outcome =>
      if outcome.ofWork then run.Has true false 1 0 ∨ run.Has false true 1 1
      else run.Has false false 0 1
  | .dead => run.Has true false 1 0 ∨ run.Has false true 1 0 ∨ run.Has false false 0 0

structure Same (run run' : Run) : Prop where
  process : run'.process = run.process
  parent : run'.parent = run.parent
  reference : run'.reference = run.reference
  joins : run'.joins = run.joins

def Family (s : State) (run : Run) : Prop :=
  match run.parent with
  | none => run.joins = false
  | some parent => ∃ caller, s.runs parent = some caller ∧
      run.joins = (caller.reference == run.reference)

/-- A step that touches neither the sessions nor the locks. -/
structure Moves (run run' : Run) : Prop where
  same : run.Same run'
  shape : run'.Shape
  session : run'.stage.session = run.stage.session
  lock : run'.stage.lock = run.stage.lock

end Run

theorem Stage.session_of_lock {stage : Stage} {session : ℕ} (h : stage.lock = some session) :
    stage.session = some session := by
  cases stage <;> first | exact h | cases h

structure Sound (hash : String → ℤ) (s : State) : Prop where
  shape : ∀ r run, s.runs r = some run → run.Shape
  family : ∀ r run, s.runs r = some run → run.Family s
  session : ∀ r run session, s.runs r = some run → run.stage.session = some session →
    s.sessions session = some ⟨run.process, some r⟩
  lock : ∀ r run session, s.runs r = some run → run.stage.lock = some session →
    s.locks (key hash run.reference) = some (session, 1)
  held : ∀ k session n, s.locks k = some (session, n) →
    ∃ r run, s.runs r = some run ∧ run.stage.lock = some session ∧ key hash run.reference = k

theorem sound_init (hash : String → ℤ) : Sound hash init where
  shape _ _ h := absurd h (Option.some_ne_none _).symm
  family _ _ h := absurd h (Option.some_ne_none _).symm
  session _ _ _ h := absurd h (Option.some_ne_none _).symm
  lock _ _ _ h := absurd h (Option.some_ne_none _).symm
  held _ _ _ h := absurd h (Option.some_ne_none _).symm

section

variable {hash : String → ℤ} {s t : State} {e : Event} {r r' : ℕ} {run run' : Run}
  {session : ℕ}

theorem Sound.run_of_session (hs : Sound hash s) (hrun : s.runs r = some run)
    (hrun' : s.runs r' = some run') (h : run.stage.session = some session)
    (h' : run'.stage.session = some session) : r = r' := by
  have heq := (hs.session r run session hrun h).symm.trans (hs.session r' run' session hrun' h')
  exact (by simpa using heq : run.process = run'.process ∧ r = r').2

/-! ## One step -/

inductive Effect (hash : String → ℤ) (s t : State) (e : Event) : Prop
  | started (r : ℕ) (run : Run) (hevent : e.run = some r) (hnew : s.runs r = none)
      (hshape : run.Shape) (hfamily : run.Family s) (hsession : run.stage.session = none)
      (hstate : t = s.put r run)
  | moved (r : ℕ) (run run' : Run) (hevent : e.run = some r) (hrun : s.runs r = some run)
      (hmoves : run.Moves run') (hstate : t = s.put r run')
  | connected (r : ℕ) (run : Run) (session : ℕ) (hevent : e.run = some r)
      (hrun : s.runs r = some run) (hstage : run.stage = .connecting)
      (hfree : s.canConnect run.process session = true)
      (hstate : t = (s.setSession session ⟨run.process, some r⟩).put r
        (run.goTo (.locking session)))
  | locked (r : ℕ) (run : Run) (session : ℕ) (hevent : e.run = some r)
      (hrun : s.runs r = some run) (hstage : run.stage = .locking session)
      (hfree : s.locks (key hash run.reference) = none)
      (hstate : t = (s.setLocks (s.locks.set (key hash run.reference) (some (session, 1)))).put r
        { run with stage := .working session, locked := true, worked := run.worked + 1 })
  | unlocked (r : ℕ) (run : Run) (session : ℕ) (outcome : Outcome) (hevent : e = .unlock r)
      (hrun : s.runs r = some run) (hstage : run.stage = .unlocking session outcome)
      (hstate : t = (s.setLocks (s.locks.set (key hash run.reference) none)).put r
        (run.goTo (.releasing (some session) outcome)))
  | released (r : ℕ) (run : Run) (session : ℕ) (outcome : Outcome) (hevent : e.run = some r)
      (hrun : s.runs r = some run) (hstage : run.stage = .releasing (some session) outcome)
      (hstate : t = (s.setSession session ⟨run.process, none⟩).put r
        { run with stage := .ended outcome, released := run.released + 1 })
  | died (process : ℕ) (hevent : e = .die process) (hstate : t = s.die process)

theorem finalize_of_unlocked (h : run.locked = false) (session : Option ℕ) (outcome : Outcome) :
    run.finalize session outcome = run.goTo (.releasing session outcome) := by
  simp [Run.finalize, h]

theorem finalize_of_locked (h : run.locked = true) (session : ℕ) (outcome : Outcome) :
    run.finalize (some session) outcome = run.goTo (.unlocking session outcome) := by
  simp [Run.finalize, h]

theorem moves_finalize {session : Option ℕ} {outcome : Outcome} (hshape : run.Has false false 0 0)
    (hsession : run.stage.session = session) (hlock : run.stage.lock = none)
    (houtcome : outcome.ofWork = false) : run.Moves (run.finalize session outcome) := by
  rw [finalize_of_unlocked hshape.locked]
  refine ⟨⟨rfl, rfl, rfl, rfl⟩, ?_, hsession.symm, hlock.symm⟩
  simp only [Run.Shape, Run.goTo, houtcome, Bool.false_eq_true, if_false]
  exact ⟨hshape.joins, hshape.locked, hshape.worked, hshape.released⟩

theorem shape_start (process : ℕ) (parent : Option ℕ) (reference : String) (joins : Bool) :
    (Run.start process parent reference joins).Shape := by
  cases joins
  · exact ⟨rfl, rfl, rfl, rfl⟩
  · exact ⟨rfl, rfl, rfl, rfl⟩

theorem session_start (process : ℕ) (parent : Option ℕ) (reference : String) (joins : Bool) :
    (Run.start process parent reference joins).stage.session = none := by
  cases joins <;> rfl

theorem has_of_stage (hshape : run.Shape) (hstage : run.stage = .connecting ∨
    ∃ session, run.stage = .locking session) : run.Has false false 0 0 := by
  rw [Run.Shape] at hshape
  rcases hstage with hstage | ⟨session, hstage⟩ <;> rw [hstage] at hshape <;> exact hshape

theorem moves_joined (hshape : run.Shape) (hstage : run.stage = .joined)
    (error : Option String) : run.Moves (run.goTo (.ended (.worked error))) := by
  rw [Run.Shape, hstage] at hshape
  refine ⟨⟨rfl, rfl, rfl, rfl⟩, Or.inl ?_, ?_, ?_⟩
  · exact ⟨hshape.joins, hshape.locked, hshape.worked, hshape.released⟩
  · rw [hstage]
    rfl
  · rw [hstage]
    rfl

theorem moves_working (hshape : run.Shape) (hstage : run.stage = .working session)
    (error : Option String) : run.Moves (run.finalize (some session) (.worked error)) := by
  rw [Run.Shape, hstage] at hshape
  rw [finalize_of_locked hshape.locked]
  refine ⟨⟨rfl, rfl, rfl, rfl⟩, And.intro ?_ rfl, ?_, ?_⟩
  · exact ⟨hshape.joins, hshape.locked, hshape.worked, hshape.released⟩
  · rw [hstage]
    rfl
  · rw [hstage]
    rfl

theorem shape_release {session : Option ℕ} {outcome : Outcome} (hshape : run.Shape)
    (hstage : run.stage = .releasing session outcome) :
    ({ run with stage := .ended outcome, released := run.released + 1 } : Run).Shape := by
  simp only [Run.Shape, hstage] at hshape ⊢
  by_cases houtcome : outcome.ofWork = true
  · rw [if_pos houtcome] at hshape ⊢
    exact .inr ⟨hshape.joins, hshape.locked, hshape.worked, congrArg (· + 1) hshape.released⟩
  · rw [if_neg houtcome] at hshape ⊢
    exact ⟨hshape.joins, hshape.locked, hshape.worked, congrArg (· + 1) hshape.released⟩

theorem moves_releasing {outcome : Outcome} (hshape : run.Shape)
    (hstage : run.stage = .releasing none outcome) :
    run.Moves { run with stage := .ended outcome, released := run.released + 1 } := by
  refine ⟨⟨rfl, rfl, rfl, rfl⟩, shape_release hshape hstage, ?_, ?_⟩
  · rw [hstage]
    rfl
  · rw [hstage]
    rfl

theorem step_cases (hs : Sound hash s) (h : step hash s e = some t) : Effect hash s t e := by
  have hresume : ∀ r, e.run = some r → (e.run.bind fun r => (s.runs r).bind fun run =>
      resume hash s r run e) = some t → ∃ run, s.runs r = some run ∧
        resume hash s r run e = some t := by
    intro r hr h
    rw [hr, Option.bind_some] at h
    exact Option.bind_eq_some_iff.mp h
  cases e with
  | call r process reference =>
      simp only [step] at h
      split at h
      · next hnew =>
          exact .started r (.start process none reference false) rfl hnew (shape_start ..) rfl
            (session_start ..) (Option.some.inj h).symm
      · cases h
  | nest r parent reference =>
      simp only [step] at h
      split at h
      · next caller hnew hcaller =>
          split_ifs at h
          exact .started r (.start caller.process (some parent) reference _) rfl hnew
            (shape_start ..) ⟨caller, hcaller, rfl⟩ (session_start ..) (Option.some.inj h).symm
      · cases h
  | die process => exact .died process rfl (Option.some.inj h).symm
  | connect r session =>
      obtain ⟨run, hrun, h⟩ := hresume r rfl h
      simp only [resume] at h
      split at h
      · next hstage =>
          split_ifs at h with hfree
          exact .connected r run session rfl hrun hstage hfree (Option.some.inj h).symm
      · cases h
  | connectFails r message =>
      obtain ⟨run, hrun, h⟩ := hresume r rfl h
      simp only [resume] at h
      split at h
      · next hstage =>
          have hhas := has_of_stage (hs.shape r run hrun) (.inl hstage)
          exact .moved r run _ rfl hrun
            (moves_finalize hhas (by rw [hstage]; rfl) (by rw [hstage]; rfl) rfl)
            (Option.some.inj h).symm
      · cases h
  | lock r =>
      obtain ⟨run, hrun, h⟩ := hresume r rfl h
      simp only [resume] at h
      split at h
      · next session hstage =>
          rcases s.locks.tryLock_cases session (key hash run.reference) with
            ⟨hfree, htry⟩ | ⟨n, hheld⟩ | ⟨-, htry⟩
          · rw [htry] at h
            exact .locked r run session rfl hrun hstage hfree (Option.some.inj h).symm
          · -- The session of this run holds no lock yet.
            obtain ⟨r', run', hrun', hlock, -⟩ := hs.held _ _ _ hheld
            obtain rfl := hs.run_of_session hrun hrun' (by rw [hstage]; rfl)
              (Stage.session_of_lock hlock)
            obtain rfl := Option.some.inj (hrun.symm.trans hrun')
            rw [hstage] at hlock
            cases hlock
          · rw [htry] at h
            have hhas := has_of_stage (hs.shape r run hrun) (.inr ⟨_, hstage⟩)
            exact .moved r run _ rfl hrun
              (moves_finalize hhas (by rw [hstage]; rfl) (by rw [hstage]; rfl) rfl)
              (Option.some.inj h).symm
      · cases h
  | lockFails r message =>
      obtain ⟨run, hrun, h⟩ := hresume r rfl h
      simp only [resume] at h
      split at h
      · next session hstage =>
          have hhas := has_of_stage (hs.shape r run hrun) (.inr ⟨_, hstage⟩)
          exact .moved r run _ rfl hrun
            (moves_finalize hhas (by rw [hstage]; rfl) (by rw [hstage]; rfl) rfl)
            (Option.some.inj h).symm
      · cases h
  | finish r error =>
      obtain ⟨run, hrun, h⟩ := hresume r rfl h
      have hshape := hs.shape r run hrun
      simp only [resume] at h
      split at h
      · next hstage =>
          exact .moved r run _ rfl hrun (moves_joined hshape hstage error)
            (Option.some.inj h).symm
      · next session hstage =>
          exact .moved r run _ rfl hrun (moves_working hshape hstage error)
            (Option.some.inj h).symm
      · cases h
  | unlock r =>
      obtain ⟨run, hrun, h⟩ := hresume r rfl h
      simp only [resume] at h
      split at h
      · next session outcome hstage =>
          rw [AdvisoryLocks.unlock_once (hs.lock r run session hrun (by rw [hstage]; rfl))] at h
          exact .unlocked r run session outcome rfl hrun hstage (Option.some.inj h).symm
      · cases h
  | release r =>
      obtain ⟨run, hrun, h⟩ := hresume r rfl h
      have hshape := hs.shape r run hrun
      simp only [resume] at h
      split at h
      · next outcome hstage =>
          exact .moved r run _ rfl hrun (moves_releasing hshape hstage) (Option.some.inj h).symm
      · next session outcome hstage =>
          exact .released r run session outcome rfl hrun hstage (Option.some.inj h).symm
      · cases h

/-! ## What every step keeps -/

theorem put_runs_self : (s.put r run).runs r = some run := Function.update_self ..

theorem put_runs_of_ne (hne : r' ≠ r) : (s.put r run).runs r' = s.runs r' :=
  Function.update_of_ne hne ..

theorem runs_put (h : (s.put r run).runs r' = some run') :
    r' = r ∧ run' = run ∨ r' ≠ r ∧ s.runs r' = some run' := by
  by_cases hr : r' = r
  · subst hr
    rw [put_runs_self] at h
    exact .inl ⟨rfl, (Option.some.inj h).symm⟩
  · rw [put_runs_of_ne hr] at h
    exact .inr ⟨hr, h⟩

theorem Run.Family.mono (h : run.Family s) (hsame : run.Same run')
    (hkept : ∀ r run, s.runs r = some run → ∃ run', t.runs r = some run' ∧ run.Same run') :
    run'.Family t := by
  unfold Run.Family at h ⊢
  rw [hsame.parent, hsame.joins]
  split at h
  · exact h
  · next parent hparent =>
      obtain ⟨caller, hcaller, hjoins⟩ := h
      obtain ⟨caller', hcaller', hsame'⟩ := hkept parent caller hcaller
      refine ⟨caller', hcaller', ?_⟩
      rw [hjoins, hsame'.reference, hsame.reference]

theorem Run.Same.refl (run : Run) : run.Same run := ⟨rfl, rfl, rfl, rfl⟩

/-- A step that puts a run, over sessions and locks that it may have changed. -/
theorem sound_put (hs : Sound hash s) (hruns : t.runs = s.runs)
    (hsame : ∀ old, s.runs r = some old → old.Same run) (hfamily : run.Family s)
    (hshape : run.Shape)
    (hsession : ∀ x, run.stage.session = some x → t.sessions x = some ⟨run.process, some r⟩)
    (hsessions : ∀ r' other x, r' ≠ r → s.runs r' = some other →
      other.stage.session = some x → t.sessions x = s.sessions x)
    (hlock : ∀ x, run.stage.lock = some x → t.locks (key hash run.reference) = some (x, 1))
    (hlocks : ∀ r' other x, r' ≠ r → s.runs r' = some other → other.stage.lock = some x →
      t.locks (key hash other.reference) = s.locks (key hash other.reference))
    (hheld : ∀ k x n, t.locks k = some (x, n) →
      run.stage.lock = some x ∧ key hash run.reference = k ∨
      ∃ r' other, r' ≠ r ∧ s.runs r' = some other ∧ other.stage.lock = some x ∧
        key hash other.reference = k) :
    Sound hash (t.put r run) := by
  have hkept : ∀ r' old, s.runs r' = some old →
      ∃ new, (t.put r run).runs r' = some new ∧ old.Same new := by
    intro r' old hold
    by_cases hr : r' = r
    · subst hr
      exact ⟨run, put_runs_self, hsame old hold⟩
    · exact ⟨old, by rw [put_runs_of_ne hr, hruns, hold], .refl old⟩
  have hcases : ∀ {r' : ℕ} {new : Run}, (t.put r run).runs r' = some new →
      r' = r ∧ new = run ∨ r' ≠ r ∧ s.runs r' = some new := by
    intro r' new hnew
    rw [← hruns]
    exact runs_put hnew
  refine ⟨fun r' new hnew => ?_, fun r' new hnew => ?_, fun r' new x hnew hx => ?_,
    fun r' new x hnew hx => ?_, fun k x n hk => ?_⟩
  · rcases hcases hnew with ⟨-, rfl⟩ | ⟨-, hold⟩
    · exact hshape
    · exact hs.shape r' new hold
  · rcases hcases hnew with ⟨-, rfl⟩ | ⟨-, hold⟩
    · exact hfamily.mono (.refl _) hkept
    · exact (hs.family r' new hold).mono (.refl _) hkept
  · rcases hcases hnew with ⟨rfl, rfl⟩ | ⟨hne, hold⟩
    · exact hsession x hx
    · exact (hsessions r' new x hne hold hx).trans (hs.session r' new x hold hx)
  · rcases hcases hnew with ⟨rfl, rfl⟩ | ⟨hne, hold⟩
    · exact hlock x hx
    · exact (hlocks r' new x hne hold hx).trans (hs.lock r' new x hold hx)
  · rcases hheld k x n hk with ⟨hlock', hkey⟩ | ⟨r', other, hne, hother, hlock', hkey⟩
    · exact ⟨r, run, put_runs_self, hlock', hkey⟩
    · exact ⟨r', other, by rw [put_runs_of_ne hne, hruns, hother], hlock', hkey⟩

theorem sound_started (hs : Sound hash s) (hnew : s.runs r = none) (hshape : run.Shape)
    (hfamily : run.Family s) (hsession : run.stage.session = none) :
    Sound hash (s.put r run) := by
  have hlock : run.stage.lock = none := by
    rw [Option.eq_none_iff_forall_ne_some]
    intro x hx
    rw [Stage.session_of_lock hx] at hsession
    cases hsession
  refine sound_put hs rfl ?_ hfamily hshape ?_ (fun _ _ _ _ _ _ => rfl) ?_
    (fun _ _ _ _ _ _ => rfl) ?_
  · intro old hold
    rw [hnew] at hold
    cases hold
  · intro x hx
    rw [hsession] at hx
    cases hx
  · intro x hx
    rw [hlock] at hx
    cases hx
  · intro k x n hk
    obtain ⟨r', other, hother, hlock', hkey⟩ := hs.held k x n hk
    refine .inr ⟨r', other, ?_, hother, hlock', hkey⟩
    rintro rfl
    rw [hnew] at hother
    cases hother

theorem sound_moved (hs : Sound hash s) (hrun : s.runs r = some run) (hmoves : run.Moves run') :
    Sound hash (s.put r run') := by
  have hsame : ∀ old, s.runs r = some old → old.Same run' := fun old hold =>
    Option.some.inj (hrun.symm.trans hold) ▸ hmoves.same
  have hkept : ∀ r run, s.runs r = some run → ∃ run', s.runs r = some run' ∧ run.Same run' :=
    fun r run hrun => ⟨run, hrun, .refl run⟩
  refine sound_put hs rfl hsame ((hs.family r run hrun).mono hmoves.same hkept) hmoves.shape ?_
    (fun _ _ _ _ _ _ => rfl) ?_ (fun _ _ _ _ _ _ => rfl) ?_
  · intro x hx
    rw [hmoves.session] at hx
    rw [hmoves.same.process]
    exact hs.session r run x hrun hx
  · intro x hx
    rw [hmoves.lock] at hx
    rw [hmoves.same.reference]
    exact hs.lock r run x hrun hx
  · intro k x n hk
    obtain ⟨r', other, hother, hlock, hkey⟩ := hs.held k x n hk
    by_cases hr : r' = r
    · subst hr
      obtain rfl := Option.some.inj (hrun.symm.trans hother)
      exact .inl ⟨hmoves.lock.trans hlock, by rw [hmoves.same.reference]; exact hkey⟩
    · exact .inr ⟨r', other, hr, hother, hlock, hkey⟩

theorem Sound.held_other (hs : Sound hash s) (hrun : s.runs r = some run)
    (hlock : run.stage.lock = none) {k : ℤ} {x n : ℕ} (hk : s.locks k = some (x, n)) :
    ∃ r' other, r' ≠ r ∧ s.runs r' = some other ∧ other.stage.lock = some x ∧
      key hash other.reference = k := by
  obtain ⟨r', other, hother, hlock', hkey⟩ := hs.held k x n hk
  refine ⟨r', other, ?_, hother, hlock', hkey⟩
  rintro rfl
  obtain rfl := Option.some.inj (hrun.symm.trans hother)
  rw [hlock] at hlock'
  cases hlock'

theorem sound_connected (hs : Sound hash s) (hrun : s.runs r = some run)
    (hstage : run.stage = .connecting) (hfree : s.canConnect run.process session = true) :
    Sound hash ((s.setSession session ⟨run.process, some r⟩).put r
      (run.goTo (.locking session))) := by
  have hhas := has_of_stage (hs.shape r run hrun) (.inl hstage)
  refine sound_put hs rfl ?_ (hs.family r run hrun) ?_ ?_ ?_ ?_ (fun _ _ _ _ _ _ => rfl) ?_
  · intro old hold
    obtain rfl := Option.some.inj (hrun.symm.trans hold)
    exact ⟨rfl, rfl, rfl, rfl⟩
  · exact ⟨hhas.joins, hhas.locked, hhas.worked, hhas.released⟩
  · intro x hx
    obtain rfl : session = x := Option.some.inj hx
    exact Function.update_self ..
  · intro r' other x hne hother hx
    refine Function.update_of_ne ?_ ..
    rintro rfl
    rw [State.canConnect, hs.session r' other x hother hx] at hfree
    simp at hfree
  · intro x hx
    cases hx
  · intro k x n hk
    exact .inr (hs.held_other hrun (by rw [hstage]; rfl) hk)

theorem sound_locked (hs : Sound hash s) (hrun : s.runs r = some run)
    (hstage : run.stage = .locking session) (hfree : s.locks (key hash run.reference) = none) :
    Sound hash ((s.setLocks (s.locks.set (key hash run.reference) (some (session, 1)))).put r
      { run with stage := .working session, locked := true, worked := run.worked + 1 }) := by
  have hhas := has_of_stage (hs.shape r run hrun) (.inr ⟨_, hstage⟩)
  refine sound_put hs rfl ?_ (hs.family r run hrun) ?_ ?_ (fun _ _ _ _ _ _ => rfl) ?_ ?_ ?_
  · intro old hold
    obtain rfl := Option.some.inj (hrun.symm.trans hold)
    exact ⟨rfl, rfl, rfl, rfl⟩
  · exact ⟨hhas.joins, rfl, congrArg (· + 1) hhas.worked, hhas.released⟩
  · intro x hx
    obtain rfl : session = x := Option.some.inj hx
    exact hs.session r run session hrun (by rw [hstage]; rfl)
  · intro x hx
    obtain rfl : session = x := Option.some.inj hx
    exact AdvisoryLocks.set_self
  · intro r' other x hne hother hx
    refine AdvisoryLocks.set_of_ne fun hkey => ?_
    have hheld := hs.lock r' other x hother hx
    rw [hkey, hfree] at hheld
    cases hheld
  · intro k x n hk
    by_cases hkey : k = key hash run.reference
    · subst hkey
      have hentry : (session, 1) = (x, n) :=
        Option.some.inj (AdvisoryLocks.set_self.symm.trans hk)
      obtain ⟨rfl, -⟩ := Prod.mk.inj hentry
      exact .inl ⟨rfl, rfl⟩
    · have hk' : s.locks k = some (x, n) := (AdvisoryLocks.set_of_ne hkey).symm.trans hk
      exact .inr (hs.held_other hrun (by rw [hstage]; rfl) hk')

theorem sound_unlocked {outcome : Outcome} (hs : Sound hash s) (hrun : s.runs r = some run)
    (hstage : run.stage = .unlocking session outcome) :
    Sound hash ((s.setLocks (s.locks.set (key hash run.reference) none)).put r
      (run.goTo (.releasing (some session) outcome))) := by
  have hlock := hs.lock r run session hrun (by rw [hstage]; rfl)
  have hshape := hs.shape r run hrun
  rw [Run.Shape, hstage] at hshape
  obtain ⟨hhas, houtcome⟩ := hshape
  refine sound_put hs rfl ?_ (hs.family r run hrun) ?_ ?_ (fun _ _ _ _ _ _ => rfl) ?_ ?_ ?_
  · intro old hold
    obtain rfl := Option.some.inj (hrun.symm.trans hold)
    exact ⟨rfl, rfl, rfl, rfl⟩
  · simp only [Run.Shape, Run.goTo, houtcome, if_true]
    exact ⟨hhas.joins, hhas.locked, hhas.worked, hhas.released⟩
  · intro x hx
    obtain rfl : session = x := Option.some.inj hx
    exact hs.session r run session hrun (by rw [hstage]; rfl)
  · intro x hx
    cases hx
  · intro r' other x hne hother hx
    refine AdvisoryLocks.set_of_ne fun hkey => hne ?_
    have hheld := hs.lock r' other x hother hx
    rw [hkey, hlock] at hheld
    obtain ⟨rfl, -⟩ := Prod.mk.inj (Option.some.inj hheld)
    exact hs.run_of_session hother hrun (Stage.session_of_lock hx) (by rw [hstage]; rfl)
  · intro k x n hk
    by_cases hkey : k = key hash run.reference
    · subst hkey
      cases AdvisoryLocks.set_self.symm.trans hk
    · have hk' : s.locks k = some (x, n) := (AdvisoryLocks.set_of_ne hkey).symm.trans hk
      obtain ⟨r', other, hother, hlock', hkey'⟩ := hs.held k x n hk'
      refine .inr ⟨r', other, ?_, hother, hlock', hkey'⟩
      rintro rfl
      obtain rfl := Option.some.inj (hrun.symm.trans hother)
      exact hkey hkey'.symm

theorem sound_released {outcome : Outcome} (hs : Sound hash s) (hrun : s.runs r = some run)
    (hstage : run.stage = .releasing (some session) outcome) :
    Sound hash ((s.setSession session ⟨run.process, none⟩).put r
      { run with stage := .ended outcome, released := run.released + 1 }) := by
  refine sound_put hs rfl ?_ (hs.family r run hrun) (shape_release (hs.shape r run hrun) hstage)
    ?_ ?_ ?_ (fun _ _ _ _ _ _ => rfl) ?_
  · intro old hold
    obtain rfl := Option.some.inj (hrun.symm.trans hold)
    exact ⟨rfl, rfl, rfl, rfl⟩
  · intro x hx
    cases hx
  · intro r' other x hne hother hx
    refine Function.update_of_ne (fun heq => hne ?_) ..
    exact hs.run_of_session hother hrun hx (by rw [hstage, heq]; rfl)
  · intro x hx
    cases hx
  · intro k x n hk
    exact .inr (hs.held_other hrun (by rw [hstage]; rfl) hk)

theorem same_die (run : Run) (process : ℕ) : run.Same (run.die process) := by
  unfold Run.die
  split_ifs
  · exact ⟨rfl, rfl, rfl, rfl⟩
  · exact .refl run

theorem shape_die (hshape : run.Shape) (process : ℕ) : (run.die process).Shape := by
  unfold Run.die
  split_ifs with hdies
  · have hhas : run.Has true false 1 0 ∨ run.Has false true 1 0 ∨ run.Has false false 0 0 := by
      rw [Run.Shape] at hshape
      cases hstage : run.stage with
      | joined => exact .inl (by simpa only [hstage] using hshape)
      | connecting => exact .inr (.inr (by simpa only [hstage] using hshape))
      | locking x => exact .inr (.inr (by simpa only [hstage] using hshape))
      | working x => exact .inr (.inl (by simpa only [hstage] using hshape))
      | unlocking x outcome =>
          simp only [hstage] at hshape
          exact .inr (.inl hshape.1)
      | releasing x outcome =>
          simp only [hstage] at hshape
          by_cases houtcome : outcome.ofWork = true
          · rw [if_pos houtcome] at hshape
            exact .inr (.inl hshape)
          · rw [if_neg houtcome] at hshape
            exact .inr (.inr hshape)
      | ended outcome => simp [hstage, Stage.finished] at hdies
      | dead => simp [hstage, Stage.finished] at hdies
    refine hhas.imp (fun h => ?_) (Or.imp (fun h => ?_) fun h => ?_)
    all_goals exact ⟨h.joins, h.locked, h.worked, h.released⟩
  · exact hshape

theorem die_eq_self {process x : ℕ} (h : (run.die process).stage.session = some x) :
    run.die process = run ∧ run.process ≠ process := by
  unfold Run.die at h ⊢
  split_ifs at h ⊢ with hdies
  · cases h
  · refine ⟨rfl, fun hprocess => hdies ⟨hprocess, ?_⟩⟩
    cases hstage : run.stage <;> first | rfl | (rw [hstage] at h; cases h)

theorem sound_died (hs : Sound hash s) (process : ℕ) : Sound hash (s.die process) := by
  have hkept : ∀ r run, s.runs r = some run →
      ∃ run', (s.die process).runs r = some run' ∧ run.Same run' := fun r run hrun =>
    ⟨run.die process, by simp only [State.die, hrun, Option.map_some], same_die run process⟩
  have hold : ∀ {r : ℕ} {new : Run}, (s.die process).runs r = some new →
      ∃ run, s.runs r = some run ∧ new = run.die process := by
    intro r new hnew
    obtain ⟨run, hrun, rfl⟩ := Option.map_eq_some_iff.mp hnew
    exact ⟨run, hrun, rfl⟩
  refine ⟨fun r new hnew => ?_, fun r new hnew => ?_, fun r new x hnew hx => ?_,
    fun r new x hnew hx => ?_, fun k x n hk => ?_⟩
  · obtain ⟨run, hrun, rfl⟩ := hold hnew
    exact shape_die (hs.shape r run hrun) process
  · obtain ⟨run, hrun, rfl⟩ := hold hnew
    exact (hs.family r run hrun).mono (same_die run process) hkept
  · obtain ⟨run, hrun, rfl⟩ := hold hnew
    obtain ⟨hself, hprocess⟩ := die_eq_self hx
    rw [hself] at hx ⊢
    simp [State.die, hs.session r run x hrun hx, hprocess]
  · obtain ⟨run, hrun, rfl⟩ := hold hnew
    obtain ⟨hself, hprocess⟩ := die_eq_self (Stage.session_of_lock hx)
    rw [hself] at hx ⊢
    refine AdvisoryLocks.close_eq_some.mpr ⟨hs.lock r run x hrun hx, ?_⟩
    simp [State.owns, hs.session r run x hrun (Stage.session_of_lock hx), hprocess]
  · obtain ⟨hlocks, howns⟩ := AdvisoryLocks.close_eq_some.mp hk
    obtain ⟨r, run, hrun, hlock, hkey⟩ := hs.held k x n hlocks
    have hsession := hs.session r run x hrun (Stage.session_of_lock hlock)
    have hprocess : run.process ≠ process := by
      simpa [State.owns, hsession] using howns
    have hself : run.die process = run := if_neg fun hdies => hprocess hdies.1
    exact ⟨r, run, by simp only [State.die, hrun, Option.map_some, hself], hlock, hkey⟩

theorem sound_step (hs : Sound hash s) (h : step hash s e = some t) : Sound hash t := by
  cases step_cases hs h with
  | started r run hevent hnew hshape hfamily hsession hstate =>
      exact hstate ▸ sound_started hs hnew hshape hfamily hsession
  | moved r run run' hevent hrun hmoves hstate => exact hstate ▸ sound_moved hs hrun hmoves
  | connected r run session hevent hrun hstage hfree hstate =>
      exact hstate ▸ sound_connected hs hrun hstage hfree
  | locked r run session hevent hrun hstage hfree hstate =>
      exact hstate ▸ sound_locked hs hrun hstage hfree
  | unlocked r run session outcome hevent hrun hstage hstate =>
      exact hstate ▸ sound_unlocked hs hrun hstage
  | released r run session outcome hevent hrun hstage hstate =>
      exact hstate ▸ sound_released hs hrun hstage
  | died process hevent hstate => exact hstate ▸ sound_died hs process

theorem sound_of_reachable (h : Reachable (step hash) init s) : Sound hash s :=
  h.invariant (sound_init hash) fun _ _ _ hs hstep => sound_step hs hstep

/-! ## What a run has done -/

theorem stage_of_joins (hshape : run.Shape) (hjoins : run.joins = true) :
    run.released = 0 ∧
      (run.stage = .joined ∨ (∃ error, run.stage = .ended (.worked error)) ∨
        run.stage = .dead) := by
  rw [Run.Shape] at hshape
  have hnot : ∀ {locked : Bool} {worked released : ℕ},
      ¬ run.Has false locked worked released := fun h => by
    rw [h.joins] at hjoins
    cases hjoins
  cases hstage : run.stage <;> simp only [hstage] at hshape
  case joined => exact ⟨hshape.released, .inl rfl⟩
  case connecting | locking | working => exact absurd hshape hnot
  case unlocking => exact absurd hshape.1 hnot
  case releasing =>
    split_ifs at hshape
    · exact absurd hshape hnot
    · exact absurd hshape hnot
  case ended outcome =>
    split_ifs at hshape with houtcome
    · refine ⟨(hshape.resolve_right hnot).released, .inr (.inl ?_)⟩
      cases outcome with
      | worked error => exact ⟨error, rfl⟩
      | concurrentPayment => cases houtcome
      | failed message => cases houtcome
    · exact absurd hshape hnot
  case dead =>
    exact ⟨(hshape.resolve_right fun h => h.elim hnot hnot).released, .inr (.inr rfl)⟩

def Stage.hasEnded : Stage → Bool
  | .ended _ => true
  | _ => false

/-- A run with its own session works once if it gets the lock, and releases once. -/
theorem has_of_shape (hshape : run.Shape) (hjoins : run.joins = false) :
    run.Has false run.locked run.locked.toNat run.stage.hasEnded.toNat := by
  rw [Run.Shape] at hshape
  have hnot : ∀ {locked : Bool} {worked released : ℕ},
      ¬ run.Has true locked worked released := fun h => by
    rw [h.joins] at hjoins
    cases hjoins
  have hcounts : ∀ {locked : Bool} {released : ℕ},
      run.Has false locked locked.toNat released →
      run.Has false run.locked run.locked.toNat released := fun h => by
    rw [h.locked]
    exact h
  cases hstage : run.stage <;> simp only [hstage] at hshape
  case joined => exact absurd hshape hnot
  case connecting | locking | working => exact hcounts hshape
  case unlocking => exact hcounts hshape.1
  case releasing =>
    split_ifs at hshape
    · exact hcounts hshape
    · exact hcounts hshape
  case ended =>
    split_ifs at hshape
    · exact hcounts (hshape.resolve_left hnot)
    · exact hcounts hshape
  case dead => exact (hshape.resolve_left hnot).elim hcounts hcounts

theorem lock_of_executing (hshape : run.Shape) (hjoins : run.joins = false)
    (hexecuting : run.stage.executing = true) : ∃ session, run.stage.lock = some session := by
  rw [Run.Shape] at hshape
  cases hstage : run.stage <;> simp only [hstage] at hshape hexecuting
  case joined =>
    rw [hshape.joins] at hjoins
    cases hjoins
  case working session => exact ⟨session, rfl⟩
  all_goals cases hexecuting

structure OneTreatment (hash : String → ℤ) (s : State) : Prop where
  /-- One run of a reference executes its work under its own lock. -/
  exclusive : ∀ r r' run run', s.runs r = some run → s.runs r' = some run' →
    run.joins = false → run'.joins = false → run.stage.executing = true →
    run'.stage.executing = true → run.reference = run'.reference → r = r'
  /-- A run called from a work of its reference joins it. -/
  nested : ∀ r run parent caller, s.runs r = some run → run.parent = some parent →
    s.runs parent = some caller → caller.reference = run.reference →
    run.joins = true ∧ run.stage ≠ .ended .concurrentPayment ∧ run.released = 0 ∧
      ∀ e t, e.run = some r → step hash s e = some t → t.locks = s.locks
  /-- Without the lock there is no work. -/
  refused : ∀ r run, s.runs r = some run → run.joins = false → run.locked = false →
    run.worked = 0
  /-- Every lock is that of a run that has not given it back. -/
  held : ∀ k session n, s.locks k = some (session, n) → ∃ r run, s.runs r = some run ∧
    run.joins = false ∧ run.stage.lock = some session ∧ key hash run.reference = k
  /-- Returning or throwing, a work leads to the unlock, which frees the lock. -/
  finishes : ∀ r run session error, s.runs r = some run → run.stage = .working session →
    ∃ t run', step hash s (.finish r error) = some t ∧ t.runs r = some run' ∧
      run'.stage = .unlocking session (.worked error)
  unlocks : ∀ r run session outcome, s.runs r = some run →
    run.stage = .unlocking session outcome →
    ∃ t run', step hash s (.unlock r) = some t ∧ t.runs r = some run' ∧
      run'.stage = .releasing (some session) outcome ∧ t.locks (key hash run.reference) = none
  /-- Then the connection is released, which ends the run. -/
  releases : ∀ r run session outcome, s.runs r = some run →
    run.stage = .releasing session outcome →
    ∃ t run', step hash s (.release r) = some t ∧ t.runs r = some run' ∧
      run'.stage = .ended outcome
  released : ∀ r run, s.runs r = some run → run.joins = false →
    run.released = if run.stage.hasEnded then 1 else 0

theorem step_resume (hrun : s.runs r = some run) (hevent : e.run = some r)
    (hstep : step hash s e = e.run.bind fun r => (s.runs r).bind fun run => resume hash s r run e) :
    step hash s e = resume hash s r run e := by
  rw [hstep, hevent, Option.bind_some, hrun, Option.bind_some]

theorem joins_of_lock (hshape : run.Shape) (hlock : run.stage.lock = some session) :
    run.joins = false := by
  rw [Run.Shape] at hshape
  cases hstage : run.stage <;> simp only [hstage] at hshape hlock
  case working => exact hshape.joins
  case unlocking => exact hshape.1.joins
  all_goals cases hlock

/-- What a run that joins does leaves the locks alone. -/
theorem locks_of_joins (hs : Sound hash s) (hrun : s.runs r = some run)
    (hjoins : run.joins = true) (hevent : e.run = some r) (h : step hash s e = some t) :
    t.locks = s.locks := by
  obtain ⟨-, hstages⟩ := stage_of_joins (hs.shape r run hrun) hjoins
  have hnot : ∀ {r' : ℕ} {run' : Run} {stage : Stage}, e.run = some r' →
      s.runs r' = some run' → run'.stage = stage → stage ≠ .joined →
      (∀ error, stage ≠ .ended (.worked error)) → stage ≠ .dead → False := by
    intro r' run' stage hevent' hrun' hstage hjoined hended hdead
    obtain rfl := Option.some.inj (hevent.symm.trans hevent')
    obtain rfl := Option.some.inj (hrun.symm.trans hrun')
    rcases hstages with h | ⟨error, h⟩ | h
    · exact hjoined (hstage.symm.trans h)
    · exact hended error (hstage.symm.trans h)
    · exact hdead (hstage.symm.trans h)
  cases step_cases hs h with
  | started r' run' hevent' hnew hshape hfamily hsession hstate => exact hstate ▸ rfl
  | moved r' run' run'' hevent' hrun' hmoves hstate => exact hstate ▸ rfl
  | connected r' run' x hevent' hrun' hstage hfree hstate => exact hstate ▸ rfl
  | locked r' run' x hevent' hrun' hstage hfree hstate =>
      exact (hnot hevent' hrun' hstage nofun (fun _ => nofun) nofun).elim
  | unlocked r' run' x outcome hevent' hrun' hstage hstate =>
      exact (hnot (hevent' ▸ rfl) hrun' hstage nofun (fun _ => nofun) nofun).elim
  | released r' run' x outcome hevent' hrun' hstage hstate => exact hstate ▸ rfl
  | died process hevent' hstate =>
      rw [hevent'] at hevent
      cases hevent

theorem finish_enabled (hs : Sound hash s) (hrun : s.runs r = some run)
    (hstage : run.stage = .working session) (error : Option String) :
    ∃ t run', step hash s (.finish r error) = some t ∧ t.runs r = some run' ∧
      run'.stage = .unlocking session (.worked error) := by
  have hhas := hs.shape r run hrun
  rw [Run.Shape, hstage] at hhas
  refine ⟨s.put r (run.goTo (.unlocking session (.worked error))), _, ?_, put_runs_self, rfl⟩
  rw [step_resume hrun rfl rfl]
  simp only [resume, hstage, finalize_of_locked hhas.locked]

theorem unlock_frees {outcome : Outcome} (hs : Sound hash s) (hrun : s.runs r = some run)
    (hstage : run.stage = .unlocking session outcome) :
    ∃ t run', step hash s (.unlock r) = some t ∧ t.runs r = some run' ∧
      run'.stage = .releasing (some session) outcome ∧
      t.locks (key hash run.reference) = none := by
  have hlock := hs.lock r run session hrun (by rw [hstage]; rfl)
  refine ⟨(s.setLocks (s.locks.set (key hash run.reference) none)).put r
    (run.goTo (.releasing (some session) outcome)), _, ?_, put_runs_self, rfl,
    AdvisoryLocks.set_self⟩
  rw [step_resume hrun rfl rfl]
  simp only [resume, hstage, AdvisoryLocks.unlock_once hlock]

theorem release_ends {session : Option ℕ} {outcome : Outcome} (hrun : s.runs r = some run)
    (hstage : run.stage = .releasing session outcome) :
    ∃ t run', step hash s (.release r) = some t ∧ t.runs r = some run' ∧
      run'.stage = .ended outcome := by
  have hresume : step hash s (.release r) = resume hash s r run (.release r) :=
    step_resume hrun rfl rfl
  rw [hresume]
  cases session with
  | none =>
      refine ⟨s.put r { run with stage := .ended outcome, released := run.released + 1 }, _, ?_,
        put_runs_self, rfl⟩
      simp only [resume, hstage]
  | some x =>
      refine ⟨(s.setSession x ⟨run.process, none⟩).put r
        { run with stage := .ended outcome, released := run.released + 1 }, _, ?_,
        put_runs_self, rfl⟩
      simp only [resume, hstage]

/-- A payment has one active treatment at a time. -/
theorem one_active_treatment (h : Reachable (step hash) init s) : OneTreatment hash s := by
  have hs := sound_of_reachable h
  refine ⟨?_, ?_, ?_, ?_, ?_, ?_, ?_, ?_⟩
  · intro r r' run run' hrun hrun' hjoins hjoins' hexecuting hexecuting' hreference
    obtain ⟨x, hx⟩ := lock_of_executing (hs.shape r run hrun) hjoins hexecuting
    obtain ⟨x', hx'⟩ := lock_of_executing (hs.shape r' run' hrun') hjoins' hexecuting'
    have hlock := hs.lock r run x hrun hx
    rw [hreference, hs.lock r' run' x' hrun' hx'] at hlock
    obtain ⟨rfl, -⟩ := Prod.mk.inj (Option.some.inj hlock)
    exact hs.run_of_session hrun hrun' (Stage.session_of_lock hx) (Stage.session_of_lock hx')
  · intro r run parent caller hrun hparent hcaller hreference
    have hjoins : run.joins = true := by
      have hfamily := hs.family r run hrun
      rw [Run.Family, hparent] at hfamily
      obtain ⟨caller', hcaller', hjoins⟩ := hfamily
      obtain rfl := Option.some.inj (hcaller.symm.trans hcaller')
      rw [hjoins, hreference, beq_self_eq_true]
    obtain ⟨hreleased, hstages⟩ := stage_of_joins (hs.shape r run hrun) hjoins
    refine ⟨hjoins, ?_, hreleased, ?_⟩
    · rcases hstages with hstage | ⟨error, hstage⟩ | hstage <;> rw [hstage] <;> nofun
    · exact fun e t hevent hstep => locks_of_joins hs hrun hjoins hevent hstep
  · intro r run hrun hjoins hlocked
    have hhas := has_of_shape (hs.shape r run hrun) hjoins
    rw [hhas.worked, hlocked]
    rfl
  · intro k x n hk
    obtain ⟨r, run, hrun, hlock, hkey⟩ := hs.held k x n hk
    exact ⟨r, run, hrun, joins_of_lock (hs.shape r run hrun) hlock, hlock, hkey⟩
  · exact fun r run x error hrun hstage => finish_enabled hs hrun hstage error
  · exact fun r run x outcome hrun hstage => unlock_frees hs hrun hstage
  · exact fun r run x outcome hrun hstage => release_ends hrun hstage
  · intro r run hrun hjoins
    rw [(has_of_shape (hs.shape r run hrun) hjoins).released]
    cases run.stage.hasEnded <;> rfl

end

/-- A saga with a command in a command, a reconciler that is refused meanwhile and one that
gets the lock before the saga has released its connection. -/
def nestedRun : List Event :=
  [.call 0 0 "pay_x", .connect 0 0, .lock 0, .nest 1 0 "pay_x", .nest 2 1 "pay_x",
    .call 3 1 "pay_x", .connect 3 1, .lock 3, .finish 2 (some "remote failure"),
    .finish 1 (some "remote failure"), .finish 0 none, .unlock 0, .release 3,
    .call 4 1 "pay_x", .connect 4 1, .lock 4, .release 0]

def textLength (text : String) : ℤ := text.toList.length

theorem one_active_treatment_nestedRun :
    ∃ s, run (step textLength) init nestedRun = some s ∧
      [s.runs 0, s.runs 1, s.runs 3] =
        [some ⟨0, none, "pay_x", false, .ended (.worked none), true, 1, 1⟩,
          some ⟨0, some 0, "pay_x", true, .ended (.worked (some "remote failure")), false, 1, 0⟩,
          some ⟨1, none, "pay_x", false, .ended .concurrentPayment, false, 0, 1⟩] ∧
      ∀ r run, s.runs r = some run → run.joins = false → run.stage.executing = true →
        run.reference = "pay_x" → r = 4 := by
  have h : ((run (step textLength) init nestedRun).map fun s =>
      [s.runs 0, s.runs 1, s.runs 3, s.runs 4]) =
      some [some ⟨0, none, "pay_x", false, .ended (.worked none), true, 1, 1⟩,
        some ⟨0, some 0, "pay_x", true, .ended (.worked (some "remote failure")), false, 1, 0⟩,
        some ⟨1, none, "pay_x", false, .ended .concurrentPayment, false, 0, 1⟩,
        some ⟨1, none, "pay_x", false, .working 1, true, 1, 0⟩] := by decide +kernel
  obtain ⟨s, hrun, hsays⟩ := Option.map_eq_some_iff.mp h
  simp only [List.cons.injEq, and_true] at hsays
  obtain ⟨hsaga, hcommand, hrefused, hworking⟩ := hsays
  have hone : OneTreatment textLength s := one_active_treatment ⟨nestedRun, hrun⟩
  refine ⟨s, hrun, by rw [hsaga, hcommand, hrefused], fun r run hr hjoins hexecuting hreference =>
    hone.exclusive r 4 run _ hr hworking hjoins rfl hexecuting rfl hreference⟩

end PostgresPaymentExecution

end Payments

end Paynad
