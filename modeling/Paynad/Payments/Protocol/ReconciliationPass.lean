import Paynad.Payments.Infrastructure.ReconciliationBatch
import Paynad.Payments.Protocol.RecoveryOutcome

/-!
# A pass of the reconciler

A pass recovers the payments of its batch one after the other. Each recovery ends with what
it decides for its own payment and leaves the rows, the movements and the locks of the
others as they were, so the pass treats every payment as if it were alone, and skips those
that another worker is treating.
-/

namespace Paynad

namespace Payments

open Shared Transition TypeOrmPaymentRepository

namespace Workers

def Unburdened (s : State) : Prop :=
  ∀ worker reference, s.locks reference = some worker → s.workers worker ≠ .idle

/-- From `s` to `t` only the worker has taken locks, and it is not idle while it holds one. -/
def Borrows (worker : ℕ) (s t : State) : Prop :=
  ∀ reference, t.locks reference = s.locks reference ∨
    s.locks reference = none ∧ t.locks reference = some worker ∧ t.workers worker ≠ .idle

variable {s t : State} {worker : ℕ} {process : Process} {reference : String}

theorem put_of_ne_idle (h : process ≠ .idle) :
    s.put worker process =
      { s with workers := Function.update s.workers worker process } := by
  cases process with
  | idle => exact absurd rfl h
  | _ => rfl

theorem locks_put_idle : (s.put worker .idle).locks reference =
    if s.locks reference = some worker then none else s.locks reference := rfl

theorem Unburdened.put (h : Unburdened s) (database : Database) :
    Unburdened (State.put { s with database := database } worker process) := by
  intro other reference hlock
  rw [State.put_workers]
  by_cases hidle : process = .idle
  · subst hidle
    rw [locks_put_idle] at hlock
    split_ifs at hlock with hown
    have hne : other ≠ worker := by
      rintro rfl
      exact hown hlock
    rw [Function.update_of_ne hne]
    exact h other reference hlock
  · rw [put_of_ne_idle hidle] at hlock
    by_cases hother : other = worker
    · rw [hother, Function.update_self]
      exact hidle
    · rw [Function.update_of_ne hother]
      exact h other reference hlock

theorem Unburdened.release (h : Unburdened s) : Unburdened (s.release worker) := by
  intro other reference hlock
  rw [State.release] at hlock
  dsimp only at hlock
  split_ifs at hlock
  exact h other reference hlock

theorem Unburdened.execute (h : Unburdened s) (hprocess : process ≠ .idle) :
    Unburdened (s.execute worker reference process) := by
  unfold State.execute
  split
  · exact h.put s.database
  · intro other reference' hlock
    dsimp only at hlock ⊢
    by_cases hother : other = worker
    · rw [hother, Function.update_self]
      exact hprocess
    · rw [Function.update_of_ne hother]
      by_cases hreference : reference' = reference
      · rw [hreference, Function.update_self] at hlock
        exact absurd (Option.some.inj hlock).symm hother
      · rw [Function.update_of_ne hreference] at hlock
        exact h other reference' hlock

theorem Unburdened.step {e : Event} (h : Unburdened s) (hstep : step s e = some t) :
    Unburdened t := by
  cases e with
  | initiate worker input reference moment fault =>
      simp only [Workers.step] at hstep
      split at hstep
      · split at hstep
        · obtain rfl := Option.some.inj hstep
          exact h
        · split at hstep
          · obtain rfl := Option.some.inj hstep
            exact h.put _
          · obtain rfl := Option.some.inj hstep
            exact h
          · obtain rfl := Option.some.inj hstep
            exact h
      · cases hstep
  | start worker =>
      simp only [Workers.step] at hstep
      split at hstep
      · obtain rfl := Option.some.inj hstep
        exact h.execute (by rintro ⟨⟩)
      · cases hstep
  | recover worker reference =>
      simp only [Workers.step] at hstep
      split at hstep
      · obtain rfl := Option.some.inj hstep
        exact h.execute (by rintro ⟨⟩)
      · cases hstep
  | query worker moment fault =>
      simp only [Workers.step] at hstep
      split at hstep
      · obtain rfl := Option.some.inj hstep
        exact h.put _
      · cases hstep
  | answer worker answer now =>
      simp only [Workers.step] at hstep
      split at hstep
      · obtain rfl := Option.some.inj hstep
        exact h.put s.database
      · obtain rfl := Option.some.inj hstep
        exact h.put s.database
      · cases hstep
  | crash worker =>
      obtain rfl := Option.some.inj hstep
      exact h.put s.database
  | loseLock worker =>
      obtain rfl := Option.some.inj hstep
      exact h.release

theorem unburdened_of_reachable (h : Reachable Workers.step init s) : Unburdened s :=
  h.invariant (fun _ _ hlock => by cases hlock) fun _ _ _ hs hstep => hs.step hstep

theorem Borrows.refl (worker : ℕ) (s : State) : Borrows worker s s := fun _ => .inl rfl

theorem Borrows.put {u : State} (h : Borrows worker s t) (hs : Unburdened s)
    (hidle : s.workers worker = .idle) (hu : u.locks = t.locks) :
    Borrows worker s (u.put worker process) := by
  intro reference
  have hfree : s.locks reference ≠ some worker := fun hlock => hs worker reference hlock hidle
  by_cases hprocess : process = .idle
  · subst hprocess
    rw [locks_put_idle, hu]
    rcases h reference with heq | ⟨hnone, hsome, -⟩
    · rw [heq, if_neg hfree]
      exact .inl rfl
    · rw [hsome, if_pos rfl, hnone]
      exact .inl rfl
  · rw [put_of_ne_idle hprocess]
    dsimp only
    rw [hu, Function.update_self]
    rcases h reference with heq | ⟨hnone, hsome, -⟩
    · exact .inl heq
    · exact .inr ⟨hnone, hsome, hprocess⟩

theorem Borrows.locks (h : Borrows worker s t) (hidle : t.workers worker = .idle) :
    t.locks = s.locks := by
  funext reference
  rcases h reference with heq | ⟨-, -, hbusy⟩
  · exact heq
  · exact absurd hidle hbusy

end Workers

/-! ## The schedule -/

/-- The row is scheduled as before, or at least a minute after `since`. -/
def PaymentOrmEntity.Postponed (since : Date) (row row' : PaymentOrmEntity) : Prop :=
  row'.reconciliationAttempts = row.reconciliationAttempts ∧
      row'.nextReconciliationAt = row.nextReconciliationAt ∨
    since + 60 * 1000 ≤ row'.nextReconciliationAt

def Postpones (since : Date) (rows rows' : List PaymentOrmEntity) : Prop :=
  ∀ reference row, rowOf rows reference = some row →
    ∃ row', rowOf rows' reference = some row' ∧ row.Postponed since row'

variable {since : Date} {rows rows' rows'' : List PaymentOrmEntity}

theorem PaymentOrmEntity.Postponed.trans {row row' row'' : PaymentOrmEntity}
    (h : row.Postponed since row') (h' : row'.Postponed since row'') :
    row.Postponed since row'' := by
  rcases h' with ⟨hattempts', hnext'⟩ | hlater'
  · rcases h with ⟨hattempts, hnext⟩ | hlater
    · exact .inl ⟨hattempts'.trans hattempts, hnext'.trans hnext⟩
    · exact .inr (hnext' ▸ hlater)
  · exact .inr hlater'

theorem Postpones.refl (since : Date) (rows : List PaymentOrmEntity) :
    Postpones since rows rows :=
  fun _ row hrow => ⟨row, hrow, .inl ⟨rfl, rfl⟩⟩

theorem Postpones.trans (h : Postpones since rows rows') (h' : Postpones since rows' rows'') :
    Postpones since rows rows'' := by
  intro reference row hrow
  obtain ⟨row', hrow', hpostponed⟩ := h reference row hrow
  obtain ⟨row'', hrow'', hpostponed'⟩ := h' reference row' hrow'
  exact ⟨row'', hrow'', hpostponed.trans hpostponed'⟩

theorem postpones_of_save {t t' : Tracked} {now : Date}
    (hsave : save rows t now = .ok (rows', t')) (since : Date) : Postpones since rows rows' := by
  intro reference row hrow
  rcases save_cases hsave with ⟨-, -, rfl, -⟩ | ⟨stored, -, -, rfl, -⟩
  · exact ⟨row, Table.find_insert_of_find hrow, .inl ⟨rfl, rfl⟩⟩
  · by_cases hreference : reference = t.payment.reference.value
    · subst hreference
      exact ⟨_, rowOf_update_self hrow, .inl ⟨rfl, rfl⟩⟩
    · exact ⟨row, (rowOf_update_ne hreference).trans hrow, .inl ⟨rfl, rfl⟩⟩

/-- The next attempt is at least a minute away. -/
theorem minute_le_reconciliationDelay (attempts : ℕ) : 60 ≤ reconciliationDelay attempts := by
  have hpow : 1 ≤ 2 ^ min attempts 6 := Nat.one_le_two_pow
  unfold reconciliationDelay
  omega

theorem postpones_of_attempt (reference : String) (failure : Option String) {now : Date}
    (hsince : since ≤ now) :
    Postpones since rows (recordRecoveryAttempt rows reference failure now) := by
  intro other row hrow
  have hread := rowOf_recordRecoveryAttempt rows reference failure now other
  by_cases hreference : other = reference
  · rw [if_pos hreference, hrow, Option.map_some] at hread
    have hdelay := minute_le_reconciliationDelay row.reconciliationAttempts
    exact ⟨_, hread, .inr (Nat.add_le_add hsince (Nat.mul_le_mul_right 1000 hdelay))⟩
  · rw [if_neg hreference, hrow] at hread
    exact ⟨row, hread, .inl ⟨rfl, rfl⟩⟩

/-- Only the note of an attempt reschedules a payment. -/
theorem postpones_of_query {await : Await} {database database' : Database} {moment : Moment}
    {fault : Fault} {input : Input} (hsince : since ≤ moment.now)
    (hquery : await.query database moment fault = some (database', input)) :
    Postpones since database.payments database'.payments := by
  cases await with
  | findByReference reference =>
      simp only [Await.query] at hquery
      split at hquery <;> obtain ⟨rfl, -⟩ := Prod.mk.inj (Option.some.inj hquery) <;>
        exact .refl _ _
  | transaction work =>
      obtain ⟨hdatabase, -⟩ := Prod.mk.inj (Option.some.inj hquery)
      have hchanged : ∀ {changed : Database} {t : Tracked},
          (work.run moment fault database = .committed changed t ∨
            ∃ message, work.run moment fault database = .unacknowledged changed t message) →
          Postpones since database.payments changed.payments := by
        intro changed t hrun
        obtain ⟨rows, saved, hsave, rfl, -⟩ := Work.run_changes hrun
        exact postpones_of_save hsave since
      rw [← hdatabase]
      cases hrun : work.run moment fault database with
      | committed changed t => exact hchanged (.inl hrun)
      | unacknowledged changed t message => exact hchanged (.inr ⟨message, hrun⟩)
      | rolledBack t error => exact .refl _ _
  | recordRecoveryAttempt reference failure =>
      simp only [Await.query] at hquery
      split at hquery <;> obtain ⟨rfl, -⟩ := Prod.mk.inj (Option.some.inj hquery)
      · exact .refl _ _
      · exact .refl _ _
      · exact postpones_of_attempt reference failure hsince
      · exact postpones_of_attempt reference failure hsince
  | movement call => cases hquery
  | findMovement wallet key => cases hquery

namespace Platform

/-! ## What one worker leaves alone -/

variable {maxAttempts worker : ℕ} {verdicts : Verdicts} {around : Surroundings} {s t : State}

inductive Proceeds (worker : ℕ) (around : Surroundings) (s t : State) : Prop
  /-- A request is posted or served. -/
  | posted (hpayments : t.payments = s.payments)
  /-- The worker goes on with an answer. -/
  | resumed (database : Database) (process : Process)
      (hpayments : t.payments =
        Workers.State.put { s.payments with database := database } worker process)
      (hpostpones : ∀ since ≤ around.moment.now,
        Postpones since s.payments.database.payments database.payments)

theorem event_of_courseOf {event : Workers.Event}
    (h : Resolves (courseOf verdicts around worker s) event) :
    event = .query worker around.moment .none ∨
      ∃ answer now, event = .answer worker answer now := by
  have hnext : ∀ e : Event, Resolves e event →
      e = .internal (.query worker around.moment .none) ∨ e = .send worker ∨
        (∃ id verdict, e = .serve id verdict) ∨ (∃ now, e = .receive worker now) ∨
        (∃ available now, e = .lookUp worker available now) →
      event = .query worker around.moment .none ∨
        ∃ answer now, event = .answer worker answer now := by
    rintro e he (rfl | rfl | ⟨id, verdict, rfl⟩ | ⟨now, rfl⟩ | ⟨available, now, rfl⟩)
    · cases he
      exact .inl rfl
    · cases he
    · cases he
    · cases he
      exact .inr ⟨_, _, rfl⟩
    · cases he
      exact .inr ⟨_, _, rfl⟩
  refine hnext _ h ?_
  unfold courseOf nextEvent
  split
  · split_ifs
    · exact .inr (.inr (.inl ⟨_, _, rfl⟩))
    · exact .inr (.inr (.inr (.inl ⟨_, rfl⟩)))
  · split
    · exact .inr (.inl rfl)
    · split_ifs
      · exact .inr (.inr (.inl ⟨_, _, rfl⟩))
      · exact .inr (.inr (.inr (.inl ⟨_, rfl⟩)))
    · exact .inr (.inr (.inr (.inr ⟨_, _, rfl⟩)))
    · exact .inl rfl

theorem proceed_cases (h : proceed maxAttempts verdicts worker around s = some t) :
    Proceeds worker around s t := by
  cases step_cases h with
  | moved event hinternal hlabel =>
      have hstep := hinternal.step
      rcases event_of_courseOf hlabel with rfl | ⟨answer, now, rfl⟩
      · simp only [Workers.step] at hstep
        split at hstep
        · rename_i database input hquery
          obtain ⟨await, -, hquery⟩ := Option.bind_eq_some_iff.mp hquery
          exact .resumed database _ (Option.some.inj hstep).symm fun since hsince =>
            postpones_of_query hsince hquery
        · cases hstep
      · have hput : ∃ process, t.payments = Workers.State.put s.payments worker process := by
          simp only [Workers.step] at hstep
          split at hstep
          · exact ⟨_, (Option.some.inj hstep).symm⟩
          · exact ⟨_, (Option.some.inj hstep).symm⟩
          · cases hstep
        obtain ⟨process, hput⟩ := hput
        exact .resumed s.payments.database process hput fun since _ => .refl since _
  | sent worker' attempt uncertain call hawait hclient hpayments => exact .posted hpayments
  | applied id call reference balanceAfter hrequest hpayments => exact .posted hpayments
  | refused id call refusal hrequest hrefusable hpayments => exact .posted hpayments
  | retried worker' id attempt uncertain hclient hpayments => exact .posted hpayments

/-- The locks and the schedule under an undisturbed worker that was idle in `s`. -/
structure Lasts (worker : ℕ) (since : Date) (s t : State) : Prop where
  unburdened : Workers.Unburdened t.payments
  borrows : Workers.Borrows worker s.payments t.payments
  postpones : Postpones since s.payments.database.payments t.payments.database.payments

theorem Lasts.proceed {u : State} (h : Lasts worker since s t)
    (hs : Workers.Unburdened s.payments) (hidle : s.process worker = .idle)
    (hsince : since ≤ around.moment.now)
    (hproceed : proceed maxAttempts verdicts worker around t = some u) :
    Lasts worker since s u := by
  cases proceed_cases hproceed with
  | posted hpayments =>
      exact ⟨hpayments ▸ h.unburdened, hpayments ▸ h.borrows, hpayments ▸ h.postpones⟩
  | resumed database process hpayments hpostpones =>
      refine ⟨hpayments ▸ h.unburdened.put database, hpayments ▸ h.borrows.put hs hidle rfl, ?_⟩
      rw [hpayments, Workers.State.put_database]
      exact h.postpones.trans (hpostpones since hsince)

/-! ## The reconciler -/

/-- The reconciler of a worker: the payments of its batch that are still to be recovered,
and the passes it has started. -/
structure Reconciling where
  platform : State
  batch : List (Reference .pay)
  passes : ℕ

/-- What surrounds a step of the reconciler after `since`: what the clock reads when a pass
begins, and the places of the rows in their table. -/
structure Around (since : Date) extends Surroundings where
  later : since ≤ moment.now
  asked : Date
  askedLater : since ≤ asked
  place : String → ℕ

def Around.found {since : Date} (around : Around since) (s : State) : List PaymentOrmEntity :=
  stuckRows around.place s.payments.database.payments ReconciliationJob.unsettledStatuses
    (around.asked - ReconciliationJob.stuckAfterMs) ReconciliationJob.batchSize
    around.moment.now

/-- `ReconciliationJob.reconcile`, once every minute, when nothing fails. A payment whose
lock is held is skipped. -/
def reconcile (maxAttempts : ℕ) (verdicts : Verdicts) (worker : ℕ) (since : Date)
    (around : Around since) (x : Reconciling) : Option Reconciling :=
  match x.platform.process worker, x.batch with
  | .idle, [] =>
      match findStuck around.place x.platform.payments.database.payments
        ReconciliationJob.unsettledStatuses (around.asked - ReconciliationJob.stuckAfterMs)
        ReconciliationJob.batchSize around.moment.now with
      | .ok stuck =>
          some { x with
            batch := stuck.map fun t => t.payment.reference
            passes := x.passes + 1 }
      | .error _ => some { x with passes := x.passes + 1 }
  | .idle, reference :: batch =>
      (step maxAttempts x.platform (.internal (.recover worker reference))).map fun s =>
        { x with platform := s, batch := batch }
  | _, _ =>
      (proceed maxAttempts verdicts worker around.toSurroundings x.platform).map fun s =>
        { x with platform := s }

/-- An attempt has brought a payment to its outcome, and is noted in its row. -/
structure Recovered (q : Payment) (row : PaymentOrmEntity) (outcome : Outcome) (t : State) :
    Prop where
  settled : ∃ row', t.row q.reference.value = some row' ∧ row'.identity = q.columns.identity ∧
    row'.status = outcome.status ∧ row'.failureReason = outcome.failureReason ∧
    row'.reconciliationAttempts = row.reconciliationAttempts + 1 ∧
    row'.lastReconciliationError = unresolved outcome.status
  moved : ∀ leg, t.moved q leg = outcome.moved leg

/-- Since `s` the payments of `done` have been treated, but for those whose lock is held. -/
structure Passed (verdicts : Verdicts) (worker : ℕ) (since : Date) (s : State)
    (done : List String) (t : State) : Prop where
  invariant : Invariant t
  idle : t.process worker = .idle
  lasts : Lasts worker since s t
  treated : ∀ reference ∈ done, ∀ row, s.payments.locks reference = none →
    s.row reference = some row → row.status ∉ terminalStatuses →
    ∃ q : Payment, row.toPaymentColumns = q.columns ∧
      Recovered q row (.ofRecovery verdicts q row.toPaymentColumns (s.moved q)) t
  rows : ∀ reference, (reference ∈ done → s.payments.locks reference ≠ none) →
    t.row reference = s.row reference
  moved : ∀ q : Payment,
    (q.reference.value ∈ done → s.payments.locks q.reference.value ≠ none) →
    t.moved q = s.moved q

variable {x y : Reconciling} {q : Payment} {row : PaymentOrmEntity} {outcome : Outcome}
  {done : List String}

theorem Attempted.recovered (h : Attempted s worker q row outcome t) :
    Recovered q row outcome t := by
  obtain ⟨row', hrow', hidentity, hstatus, hreason⟩ := h.settled
  obtain ⟨row'', now, hrow'', hattempts, herror, -⟩ := h.noted
  obtain rfl : row' = row'' := Option.some.inj (hrow'.symm.trans hrow'')
  exact ⟨⟨row', hrow', hidentity, hstatus, hreason, hattempts, herror⟩, h.moved⟩

/-- The movements of a payment are not those of another one. -/
theorem Concludes.moved_of_ne (h : Concludes s worker q outcome t) {q' : Payment}
    (hne : q'.reference.value ≠ q.reference.value) : t.moved q' = s.moved q' := by
  funext leg
  rw [Bool.eq_iff_iff, State.moved, State.moved, Wire.isSome_find_iff, Wire.isSome_find_iff]
  refine h.foreign _ fun leg' hkey => hne ?_
  exact congrArg Reference.value (Payment.legKey_inj hkey).1

theorem busy_of_proceed (h : proceed maxAttempts verdicts worker around s = some t) :
    s.process worker ≠ .idle := by
  intro hidle
  have hcourse : courseOf verdicts around worker s =
      .internal (.query worker around.moment .none) := by
    simp only [courseOf, nextEvent, hidle, Process.await]
  rw [proceed, hcourse] at h
  simp only [step, Workers.step, show s.payments.workers worker = _ from hidle, Process.await,
    Option.bind_none, Option.map_none] at h
  cases h

theorem reconcile_of_proceed {around : Around since} {batch : List (Reference .pay)} {k : ℕ}
    (h : proceed maxAttempts verdicts worker around.toSurroundings s = some t) :
    reconcile maxAttempts verdicts worker since around ⟨s, batch, k⟩ = some ⟨t, batch, k⟩ := by
  have hbusy := busy_of_proceed h
  unfold reconcile
  split
  · next hidle _ => exact absurd hidle hbusy
  · next hidle _ => exact absurd hidle hbusy
  · rw [h]
    rfl

theorem Lasts.recover {u : State} (h : Lasts worker since s t)
    (hs : Workers.Unburdened s.payments) (hidle : s.process worker = .idle)
    (hidle' : t.process worker = .idle) {reference : Reference .pay}
    (hstep : step maxAttempts t (.internal (.recover worker reference)) = some u) :
    Lasts worker since s u := by
  have hpayments : u.payments =
      t.payments.execute worker reference.value (.recovery reference.value .find) := by
    obtain ⟨payments, hpayments, rfl⟩ := Option.map_eq_some_iff.mp hstep
    simp only [Workers.step, show t.payments.workers worker = _ from hidle'] at hpayments
    exact (Option.some.inj hpayments).symm
  have hlocks := h.borrows.locks hidle'
  have hunburdened : Workers.Unburdened u.payments :=
    hpayments ▸ h.unburdened.execute (by rintro ⟨⟩)
  unfold Workers.State.execute at hpayments
  split at hpayments
  · refine ⟨hunburdened, hpayments ▸ h.borrows.put hs hidle rfl, ?_⟩
    rw [hpayments, Workers.State.put_database]
    exact h.postpones
  · next hfree =>
      refine ⟨hunburdened, fun other => ?_, by rw [hpayments]; exact h.postpones⟩
      rw [hpayments]
      dsimp only
      by_cases hreference : other = reference.value
      · subst hreference
        refine .inr ⟨hlocks ▸ hfree, Function.update_self .., ?_⟩
        rw [Function.update_self]
        rintro ⟨⟩
      · rw [Function.update_of_ne hreference, hlocks]
        exact .inl rfl

theorem kept_of_reconcile {around : Around since} (hs : Workers.Unburdened s.payments)
    (hidle : s.process worker = .idle)
    (h : Invariant x.platform ∧ Lasts worker since s x.platform)
    (hstep : reconcile maxAttempts verdicts worker since around x = some y) :
    Invariant y.platform ∧ Lasts worker since s y.platform := by
  obtain ⟨hinvariant, hlasts⟩ := h
  unfold reconcile at hstep
  split at hstep
  · split at hstep
    · obtain rfl := Option.some.inj hstep
      exact ⟨hinvariant, hlasts⟩
    · obtain rfl := Option.some.inj hstep
      exact ⟨hinvariant, hlasts⟩
  · next hidle' _ =>
      obtain ⟨u, hu, rfl⟩ := Option.map_eq_some_iff.mp hstep
      exact ⟨hinvariant.step hu, hlasts.recover hs hidle hidle' hu⟩
  · obtain ⟨u, hu, rfl⟩ := Option.map_eq_some_iff.mp hstep
    exact ⟨hinvariant.step hu, hlasts.proceed hs hidle around.later hu⟩

/-- The next payment of a batch is free: its recovery ends, and the others stay as they are. -/
theorem Passed.recover (h : Passed verdicts worker since s done t)
    (hs : Workers.Unburdened s.payments) (hidle : s.process worker = .idle)
    (hnew : q.reference.value ∉ done) (hlock : s.payments.locks q.reference.value = none)
    (hrow : s.row q.reference.value = some row) (hq : row.toPaymentColumns = q.columns)
    (hstatus : row.status ∉ terminalStatuses) {batch : List (Reference .pay)} {k : ℕ} :
    Inevitable (reconcile maxAttempts verdicts worker since)
      (fun x => x.batch = batch ∧ x.passes = k ∧
        Passed verdicts worker since s (done ++ [q.reference.value]) x.platform)
      ⟨t, q.reference :: batch, k⟩ := by
  have hlocks : t.payments.locks = s.payments.locks := h.lasts.borrows.locks h.idle
  have hrow' : t.row q.reference.value = some row :=
    (h.rows _ fun hin => absurd hin hnew).trans hrow
  have hmoved : t.moved q = s.moved q := h.moved q fun hin => absurd hin hnew
  obtain ⟨s₁, hrecover, hends⟩ := attempt_ends maxAttempts verdicts h.invariant h.idle
    (hlocks ▸ hlock) hrow' hq hstatus
  rw [hmoved] at hends
  refine .step fun around => ⟨⟨s₁, batch, k⟩, ?_, ?_⟩
  · simp only [reconcile, h.idle, hrecover, Option.map_some]
  have hkept : Invariant s₁ ∧ Lasts worker since s s₁ :=
    ⟨h.invariant.step hrecover, h.lasts.recover hs hidle h.idle hrecover⟩
  refine ((hends.lift Around.toSurroundings (fun u => (⟨u, batch, k⟩ : Reconciling))
    fun around u v huv => reconcile_of_proceed huv).keep
      (fun around x y hx hy => kept_of_reconcile hs hidle hx hy) hkept).mono ?_
  rintro _ ⟨⟨u, rfl, hattempted⟩, hinvariant, hlasts⟩
  refine ⟨rfl, rfl, hinvariant, hattempted.idle, hlasts, ?_, ?_, ?_⟩
  · intro reference hin row' hlock' hrow₀ hstatus'
    rcases List.mem_append.mp hin with hdone | hlast
    · obtain ⟨q', hq', ⟨row'', hrow'', hsettled⟩, hmoved'⟩ :=
        h.treated reference hdone row' hlock' hrow₀ hstatus'
      have hreference : reference = q'.reference.value :=
        (reference_of_rowOf hrow₀).symm.trans (congrArg PaymentColumns.reference hq')
      have hne : q'.reference.value ≠ q.reference.value :=
        fun heq => hnew (heq ▸ hreference ▸ hdone)
      refine ⟨q', hq', ⟨row'', (hattempted.others _ hne).trans hrow'', hsettled⟩, fun leg => ?_⟩
      rw [hattempted.moved_of_ne hne]
      exact hmoved' leg
    · obtain rfl := List.mem_singleton.mp hlast
      obtain rfl : row' = row := Option.some.inj (hrow₀.symm.trans hrow)
      exact ⟨q, hq, hattempted.recovered⟩
  · intro reference hheld
    have hne : reference ≠ q.reference.value := by
      rintro rfl
      exact hheld (List.mem_append_right _ (List.mem_singleton_self _)) hlock
    exact (hattempted.others _ hne).trans
      (h.rows _ fun hin => hheld (List.mem_append_left _ hin))
  · intro q' hheld
    have hne : q'.reference.value ≠ q.reference.value := by
      intro heq
      rw [heq] at hheld
      exact hheld (List.mem_append_right _ (List.mem_singleton_self _)) hlock
    exact (hattempted.moved_of_ne hne).trans
      (h.moved _ fun hin => hheld (List.mem_append_left _ hin))

theorem Passed.skip (h : Passed verdicts worker since s done t)
    (hs : Workers.Unburdened s.payments) (hidle : s.process worker = .idle)
    {reference : Reference .pay} (hlock : s.payments.locks reference.value ≠ none)
    {batch : List (Reference .pay)} {k : ℕ} :
    Inevitable (reconcile maxAttempts verdicts worker since)
      (fun x => x.batch = batch ∧ x.passes = k ∧
        Passed verdicts worker since s (done ++ [reference.value]) x.platform)
      ⟨t, reference :: batch, k⟩ := by
  have hlocks : t.payments.locks = s.payments.locks := h.lasts.borrows.locks h.idle
  obtain ⟨holder, hholder⟩ := Option.ne_none_iff_exists'.mp hlock
  have hrecover : step maxAttempts t (.internal (.recover worker reference)) =
      some { t with payments := t.payments.put worker .idle } := by
    simp only [step, Workers.step, show t.payments.workers worker = _ from h.idle,
      Workers.State.execute, hlocks, hholder, Option.map_some, clientsAfter]
  refine .step fun around => ⟨⟨{ t with payments := t.payments.put worker .idle }, batch, k⟩, ?_,
    .now ⟨rfl, rfl, h.invariant.step hrecover, ?_, h.lasts.recover hs hidle h.idle hrecover,
      ?_, ?_, ?_⟩⟩
  · simp only [reconcile, h.idle, hrecover, Option.map_some]
  · simp [State.process]
  · intro reference' hin row hlock' hrow hstatus
    rcases List.mem_append.mp hin with hdone | hlast
    · obtain ⟨q, hq, hsettled, hmoved⟩ := h.treated reference' hdone row hlock' hrow hstatus
      exact ⟨q, hq, hsettled, hmoved⟩
    · obtain rfl := List.mem_singleton.mp hlast
      exact absurd hlock' hlock
  · exact fun reference' hheld => h.rows reference' fun hin => hheld (List.mem_append_left _ hin)
  · exact fun q hheld => h.moved q fun hin => hheld (List.mem_append_left _ hin)

/-- The payments of a batch are treated one after the other. -/
theorem Passed.batch (maxAttempts : ℕ) (hs : Workers.Unburdened s.payments)
    (hidle : s.process worker = .idle) (hsound : s.payments.database.Sound) (k : ℕ)
    {batch : List (Reference .pay)} (h : Passed verdicts worker since s done t)
    (hnew : (done ++ batch.map Reference.value).Nodup)
    (hbatch : ∀ reference ∈ batch, ∃ row, s.row reference.value = some row ∧
      row.status ∉ terminalStatuses) :
    Inevitable (reconcile maxAttempts verdicts worker since)
      (fun x => x.batch = [] ∧ x.passes = k ∧
        Passed verdicts worker since s (done ++ batch.map Reference.value) x.platform)
      ⟨t, batch, k⟩ := by
  induction batch generalizing done t with
  | nil =>
      rw [List.map_nil, List.append_nil]
      exact .now ⟨rfl, rfl, h⟩
  | cons reference batch ih =>
      obtain ⟨⟨row, hrow, hstatus⟩, hrest⟩ := List.forall_mem_cons.mp hbatch
      have hreferences : done ++ (reference :: batch).map Reference.value =
          (done ++ [reference.value]) ++ batch.map Reference.value := by
        rw [List.map_cons, List.append_assoc, List.singleton_append]
      rw [hreferences] at hnew ⊢
      have hnotMem : reference.value ∉ done := fun hin =>
        List.disjoint_of_nodup_append (List.Nodup.of_append_left hnew) hin
          (List.mem_singleton_self _)
      have hfirst : Inevitable (reconcile maxAttempts verdicts worker since)
          (fun x => x.batch = batch ∧ x.passes = k ∧
            Passed verdicts worker since s (done ++ [reference.value]) x.platform)
          ⟨t, reference :: batch, k⟩ := by
        by_cases hlock : s.payments.locks reference.value = none
        · obtain ⟨q, hq⟩ := (hsound.rows _ row hrow).written
          obtain rfl : q.reference = reference := by
            refine Reference.ext ?_
            exact (congrArg PaymentColumns.reference hq).symm.trans (reference_of_rowOf hrow)
          exact h.recover hs hidle hnotMem hlock hrow hq hstatus
        · exact h.skip hs hidle hlock
      refine hfirst.trans ?_
      rintro ⟨u, _, _⟩ ⟨rfl, rfl, hpassed⟩
      exact ih hpassed hnew hrest

/-- An attempt is noted with the time of the next one. -/
theorem Passed.postponed (h : Passed verdicts worker since s done t) {reference : String}
    (hin : reference ∈ done) (hlock : s.payments.locks reference = none)
    (hrow : s.row reference = some row) (hstatus : row.status ∉ terminalStatuses) :
    ∃ row', t.row reference = some row' ∧
      row'.reconciliationAttempts = row.reconciliationAttempts + 1 ∧
      since + 60 * 1000 ≤ row'.nextReconciliationAt := by
  obtain ⟨q, hq, ⟨row', hrow', -, -, -, hattempts, -⟩, -⟩ :=
    h.treated reference hin row hlock hrow hstatus
  obtain rfl : reference = q.reference.value :=
    (reference_of_rowOf hrow).symm.trans (congrArg PaymentColumns.reference hq)
  obtain ⟨row'', hrow'', ⟨hsame, -⟩ | hlater⟩ := h.lasts.postpones _ row hrow
  · obtain rfl : row' = row'' := Option.some.inj (hrow'.symm.trans hrow'')
    omega
  · obtain rfl : row' = row'' := Option.some.inj (hrow'.symm.trans hrow'')
    exact ⟨row', hrow', hattempts, hlater⟩

/-- A pass from an idle reconciler: it finds its batch and treats it. -/
theorem pass_ends (maxAttempts : ℕ) (verdicts : Verdicts) (hs : Invariant s)
    (hburden : Workers.Unburdened s.payments) (hidle : s.process worker = .idle)
    (first : Around since) (k : ℕ) :
    ∃ x, reconcile maxAttempts verdicts worker since first ⟨s, [], k⟩ = some x ∧
      Inevitable (reconcile maxAttempts verdicts worker since)
        (fun x => x.batch = [] ∧ x.passes = k + 1 ∧
          Passed verdicts worker since s ((first.found s).map fun row => row.reference) x.platform)
        x := by
  obtain ⟨stuck, hstuck, hreferences⟩ := findStuck_of_written first.place
    ReconciliationJob.unsettledStatuses (first.asked - ReconciliationJob.stuckAfterMs)
    ReconciliationJob.batchSize first.moment.now fun row hrow =>
      (hs.payments.database.rows _ row (hs.payments.database.unique.find_of_mem hrow)).written
  refine ⟨⟨s, stuck.map fun t => t.payment.reference, k + 1⟩, ?_, ?_⟩
  · simp only [reconcile, hidle, hstuck]
  have hmap : (stuck.map fun t => t.payment.reference).map Reference.value =
      (first.found s).map fun row => row.reference := by
    rw [List.map_map]
    exact hreferences
  have hpassed : Passed verdicts worker since s [] s :=
    ⟨hs, hidle, ⟨hburden, .refl worker _, .refl since _⟩,
      fun reference hin => absurd hin List.not_mem_nil, fun _ _ => rfl, fun _ _ => rfl⟩
  have hends := Passed.batch maxAttempts hburden hidle hs.payments.database (k + 1) hpassed
    (hmap ▸ nodup_stuckRows hs.payments.database.unique) ?_
  · rw [hmap] at hends
    exact hends
  · intro reference hreference
    have hin : reference.value ∈ (first.found s).map fun row => row.reference :=
      hmap ▸ List.mem_map_of_mem hreference
    obtain ⟨row, hrow, hvalue⟩ := List.mem_map.mp hin
    obtain ⟨hmem, hselected⟩ := mem_of_mem_stuckRows hrow
    refine ⟨row, hvalue ▸ hs.payments.database.unique.find_of_mem hmem, ?_⟩
    exact (ReconciliationJob.mem_unsettledStatuses_iff _).mp (stuck_iff.mp hselected).1

theorem row_of_found {around : Around since} (hs : Invariant s) (hrow : row ∈ around.found s) :
    s.row row.reference = some row ∧ row.status ∉ terminalStatuses := by
  obtain ⟨hmem, hselected⟩ := mem_of_mem_stuckRows hrow
  exact ⟨hs.payments.database.unique.find_of_mem hmem,
    (ReconciliationJob.mem_unsettledStatuses_iff _).mp (stuck_iff.mp hselected).1⟩

/-- A payment that has been due for a pass since `since`. -/
def Due (since : Date) (s : State) (row : PaymentOrmEntity) : Prop :=
  row ∈ s.payments.database.payments ∧
    stuck ReconciliationJob.unsettledStatuses (since - ReconciliationJob.stuckAfterMs) since row =
      true

theorem Due.stuck (h : Due since s row) (around : Around since) :
    TypeOrmPaymentRepository.stuck ReconciliationJob.unsettledStatuses
      (around.asked - ReconciliationJob.stuckAfterMs) around.moment.now row = true := by
  obtain ⟨hstatus, hupdated, hnext⟩ := stuck_iff.mp h.2
  exact stuck_iff.mpr ⟨hstatus, hupdated.trans_le (Nat.sub_le_sub_right around.askedLater _),
    hnext.trans around.later⟩

/-- A pass of the reconciler, undisturbed, ends whatever surrounds it. Every payment of its
batch that nobody else is treating is brought to the outcome that its own row, its own
movements and the refusals of `accounts` decide at the start of the pass, whatever else is in
the batch; its attempt is noted, with a next one a minute later at least. The payments whose
lock is held, and all that are not in the batch, stay as they are, and so do the locks. -/
theorem reconciliation_pass (verdicts : Verdicts) (hreach : Reachable (step maxAttempts) init s)
    (hidle : s.process worker = .idle) (around : ℕ → Around since) (k : ℕ) :
    ∃ n t, follow (reconcile maxAttempts verdicts worker since) around n ⟨s, [], k⟩ =
        some ⟨t, [], k + 1⟩ ∧
      t.process worker = .idle ∧ t.payments.locks = s.payments.locks ∧
      (∀ row ∈ (around 0).found s, s.payments.locks row.reference = none →
        (∃ q : Payment, row.toPaymentColumns = q.columns ∧
          Recovered q row (.ofRecovery verdicts q row.toPaymentColumns (s.moved q)) t) ∧
        ∃ row', t.row row.reference = some row' ∧
          since + 60 * 1000 ≤ row'.nextReconciliationAt) ∧
      (∀ reference, (∀ row ∈ (around 0).found s, row.reference = reference →
          s.payments.locks reference ≠ none) → t.row reference = s.row reference) ∧
      ∀ q : Payment, (∀ row ∈ (around 0).found s, row.reference = q.reference.value →
          s.payments.locks q.reference.value ≠ none) → t.moved q = s.moved q := by
  have hs := invariant_of_reachable hreach
  have hburden := Workers.unburdened_of_reachable (reachable_payments hreach)
  obtain ⟨x, hx, hends⟩ := pass_ends maxAttempts verdicts hs hburden hidle (around 0) k
  obtain ⟨n, ⟨t, _, _⟩, hfollow, rfl, rfl, hpassed⟩ := hends.follow fun i => around (i + 1)
  refine ⟨n + 1, t, ?_, hpassed.idle, hpassed.lasts.borrows.locks hpassed.idle, ?_, ?_, ?_⟩
  · rw [follow, hx]
    exact hfollow
  · intro row hrow hlock
    obtain ⟨hfound, hstatus⟩ := row_of_found hs hrow
    have hin := List.mem_map_of_mem (f := fun row : PaymentOrmEntity => row.reference) hrow
    obtain ⟨row', hrow', -, hnext⟩ := hpassed.postponed hin hlock hfound hstatus
    exact ⟨hpassed.treated _ hin row hlock hfound hstatus, row', hrow', hnext⟩
  · intro reference hheld
    refine hpassed.rows reference fun hin => ?_
    obtain ⟨row, hrow, hreference⟩ := List.mem_map.mp hin
    exact hheld row hrow hreference
  · intro q hheld
    refine hpassed.moved q fun hin => ?_
    obtain ⟨row, hrow, hreference⟩ := List.mem_map.mp hin
    exact hheld row hrow hreference

def fiveMinutesLater : Date := 1788690000001

def heldReference : Reference .pay := ⟨"pay_00000000000000000000000001", Eq.refl true⟩

def unstartedReference : Reference .pay := ⟨"pay_00000000000000000000000002", Eq.refl true⟩

def unpostedReference : Reference .pay := ⟨"pay_00000000000000000000000003", Eq.refl true⟩

def initiation (worker : ℕ) (reference : Reference .pay) : Event :=
  .internal (.initiate worker { Workers.sampleInput with transactionId := reference.value }
    reference Workers.sampleMoment .none)

/-- A saga is under way; a worker has crashed before its own saga started, and another one
before it posted its debit. -/
def interruptedRun : List Event :=
  [initiation 1 heldReference, .internal (.start 1),
    initiation 2 unstartedReference, .internal (.crash 2),
    initiation 3 unpostedReference, .internal (.start 3),
    .internal (.query 3 Workers.sampleMoment .none),
    .internal (.query 3 Workers.sampleMoment .none), .internal (.crash 3)]

structure QueueEntry where
  reference : String
  status : PaymentStatus
  debitTransactionReference : Option String
  holder : Option ℕ
  updatedAt : Date
  nextReconciliationAt : Date
  deriving DecidableEq

def State.entry (s : State) (row : PaymentOrmEntity) : QueueEntry :=
  ⟨row.reference, row.status, row.debitTransactionReference, s.payments.locks row.reference,
    row.updatedAt, row.nextReconciliationAt⟩

def sampleEntry (reference : Reference .pay) (status : PaymentStatus) (holder : Option ℕ) :
    QueueEntry :=
  ⟨reference.value, status, none, holder, Workers.sampleMoment.now, Workers.sampleMoment.now⟩

theorem interruptedRun_rows :
    ∃ s held unstarted unposted, run (step 3) init interruptedRun = some s ∧
      s.process 0 = .idle ∧ s.wire.records = [] ∧
      s.payments.database.payments = [held, unstarted, unposted] ∧
      s.entry held = sampleEntry heldReference .pending (some 1) ∧
      s.entry unstarted = sampleEntry unstartedReference .pending none ∧
      s.entry unposted = sampleEntry unpostedReference .processing none := by
  have h : (run (step 3) init interruptedRun).map (fun s =>
      ((s.process 0).reference, s.wire.records.length,
        s.payments.database.payments.map s.entry)) =
      some (none, 0, [sampleEntry heldReference .pending (some 1),
        sampleEntry unstartedReference .pending none,
        sampleEntry unpostedReference .processing none]) := by
    decide +kernel
  obtain ⟨s, hrun, hs⟩ := Option.map_eq_some_iff.mp h
  obtain ⟨hidle, hs⟩ := Prod.mk.inj hs
  obtain ⟨hwire, hrows⟩ := Prod.mk.inj hs
  obtain ⟨held, rest, hpayments, hheld, hrest⟩ := List.map_eq_cons_iff.mp hrows
  obtain ⟨unstarted, rest', rfl, hunstarted, hrest'⟩ := List.map_eq_cons_iff.mp hrest
  obtain ⟨unposted, rfl, hunposted⟩ := List.map_eq_singleton_iff.mp hrest'
  exact ⟨s, held, unstarted, unposted, hrun, Process.idle_of_reference hidle,
    List.length_eq_zero_iff.mp hwire, hpayments, hheld, hunstarted, hunposted⟩

theorem due_of_entry {reference : Reference .pay} {status : PaymentStatus} {holder : Option ℕ}
    (hmem : row ∈ s.payments.database.payments)
    (hentry : s.entry row = sampleEntry reference status holder)
    (hstatus : status ∉ terminalStatuses) : Due fiveMinutesLater s row := by
  have hsame : row.status = status := congrArg QueueEntry.status hentry
  have hupdated : row.updatedAt = Workers.sampleMoment.now :=
    congrArg QueueEntry.updatedAt hentry
  have hnext : row.nextReconciliationAt = Workers.sampleMoment.now :=
    congrArg QueueEntry.nextReconciliationAt hentry
  refine ⟨hmem, stuck_iff.mpr
    ⟨(ReconciliationJob.mem_unsettledStatuses_iff _).mpr (hsame ▸ hstatus), ?_, ?_⟩⟩
  · rw [hupdated]
    decide
  · rw [hnext]
    decide

/-- A pass carries one of the free payments through and declines the other one, whose debit
was never posted; the payment that is held stays as it is. -/
theorem reconciliation_pass_interrupted :
    ∃ s, run (step 3) init interruptedRun = some s ∧
      ∀ around : ℕ → Around fiveMinutesLater, ∃ n t unstarted unposted,
        follow (reconcile 3 (fun _ => none) 0 fiveMinutesLater) around n ⟨s, [], 0⟩ =
          some ⟨t, [], 1⟩ ∧
        t.row heldReference.value = s.row heldReference.value ∧
        t.row unstartedReference.value = some unstarted ∧ unstarted.status = .approved ∧
        t.row unpostedReference.value = some unposted ∧ unposted.status = .declined := by
  obtain ⟨s, held, unstarted, unposted, hrun, hidle, hwire, hpayments, hheld, hunstarted,
    hunposted⟩ := interruptedRun_rows
  have hmoved : s.moved = fun _ _ => false := by
    funext q leg
    rw [State.moved, hwire]
    rfl
  refine ⟨s, hrun, fun around => ?_⟩
  obtain ⟨n, t, hfollow, -, -, htreated, hkept, -⟩ :=
    reconciliation_pass (fun _ => none) ⟨interruptedRun, hrun⟩ hidle around 0
  -- What the pass makes of a payment that nobody treats.
  have hfree : ∀ {row : PaymentOrmEntity} {reference : Reference .pay} {status : PaymentStatus},
      row ∈ s.payments.database.payments → s.entry row = sampleEntry reference status none →
      status ∉ terminalStatuses → ∃ (q : Payment) (row' : PaymentOrmEntity),
        t.row reference.value = some row' ∧
        row'.status = (Outcome.ofRecovery (fun _ => none) q row.toPaymentColumns
          fun _ => false).status := by
    intro row reference status hmem hentry hstatus
    have hvalue : row.reference = reference.value := congrArg QueueEntry.reference hentry
    have hfound : row ∈ (around 0).found s := by
      refine mem_stuckRows_of_length_lt hmem
        ((due_of_entry hmem hentry hstatus).stuck (around 0)) ?_
      rw [hpayments]
      exact Nat.lt_of_sub_eq_succ rfl
    obtain ⟨⟨q, hq, ⟨row', hrow', -, hstatus', -⟩, -⟩, -⟩ :=
      htreated row hfound (congrArg QueueEntry.holder hentry)
    have hsame : q.reference.value = reference.value :=
      (congrArg PaymentColumns.reference hq).symm.trans hvalue
    rw [hmoved] at hstatus'
    exact ⟨q, row', hsame ▸ hrow', hstatus'⟩
  obtain ⟨q, row, hrow, hstatus⟩ := hfree (by simp [hpayments]) hunstarted (by decide)
  obtain ⟨q', row', hrow', hstatus'⟩ := hfree (by simp [hpayments]) hunposted (by decide)
  refine ⟨n, t, row, row', hfollow, ?_, hrow, ?_, hrow', ?_⟩
  · refine hkept _ fun _ _ _ => ?_
    have hreference : held.reference = heldReference.value :=
      congrArg QueueEntry.reference hheld
    have hholder : s.payments.locks held.reference = some 1 := congrArg QueueEntry.holder hheld
    rw [← hreference, hholder]
    exact Option.some_ne_none 1
  · rw [hstatus, Outcome.ofRecovery,
      show unstarted.status = .pending from congrArg QueueEntry.status hunstarted]
    rfl
  · rw [hstatus', Outcome.ofRecovery,
      show unposted.status = .processing from congrArg QueueEntry.status hunposted,
      show unposted.debitTransactionReference = none from
        congrArg QueueEntry.debitTransactionReference hunposted]
    rfl

end Platform

end Payments

end Paynad
