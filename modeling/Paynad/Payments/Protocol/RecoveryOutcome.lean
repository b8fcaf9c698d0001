import Paynad.Payments.Protocol.Outcome

/-!
# How an attempt of the reconciler ends

An undisturbed attempt of the reconciler brings its payment to the outcome that the
row and `accounts` decide, and notes the attempt in the row. The only payment it
leaves where it was is one whose debit is recorded and whose credit is not: its
credit may still be in flight.
-/

namespace Paynad

namespace Payments

open Shared Transition TypeOrmPaymentRepository

namespace Platform

section

variable {maxAttempts worker : ℕ} {verdicts : Verdicts} {s₀ s : State} {q : Payment}
  {row : PaymentOrmEntity} {moved : Leg → Bool} {after : Process} {t : Tracked}

/-!
# The compensation of a payment that is being processed
-/

/-- After a look up the workflow goes on with the movement, if the leg has one. -/
theorem Checkpoint.after_lookUp (h : Checkpoint s₀ worker q row moved s) {P : State → Prop}
    {leg : Leg} {wallet : Reference .wlt} {key : String}
    (hkey : (wallet.value, key) = q.columns.legKey leg)
    (hawait : (s.process worker).await = some (.findMovement wallet key))
    (hP : ∀ s' found now, Checkpoint s₀ worker q row moved s' → found.isSome = moved leg →
      s'.process worker = (s.process worker).resume (.found found) now →
      Inevitable (proceed maxAttempts verdicts worker) P s') :
    Inevitable (proceed maxAttempts verdicts worker) P s := by
  refine .step fun around => ?_
  obtain ⟨s', found, hproceed, hcheckpoint, hfound, hprocess⟩ := h.lookUp hkey hawait
  exact ⟨s', hproceed, hP s' found _ hcheckpoint hfound hprocess⟩

theorem Checkpoint.legKey (h : Checkpoint s₀ worker q row moved s)
    (hcolumns : t.payment.columns = row.toPaymentColumns) (leg : Leg) :
    t.payment.columns.legKey leg = q.columns.legKey leg :=
  PaymentColumns.legKey_congr ((congrArg PaymentColumns.identity hcolumns).trans h.identity) leg

/-- A payment whose debit the row does not record: `accounts` says whether it moved. -/
theorem confirming_ends (h : Checkpoint s₀ worker q row moved s)
    (hhost : Hosts q.reference.value (s.process worker)
      (.compensate (.find q.reference.value)) after)
    (hstatus : row.status = .processing) (hdebit : row.debitTransactionReference = none) :
    Inevitable (proceed maxAttempts verdicts worker)
      (Ends s₀ worker q after (if moved .debit then .ofRefund verdicts q (some .creditFailed) moved
        else ⟨.declined, some .accountsUnavailable, moved⟩)) s := by
  refine h.after_find (by rw [hhost.await]; rfl) fun s₁ t now h₁ hcolumns hrevision hprocess => ?_
  have hstatus' : t.payment.status = .processing :=
    (congrArg PaymentColumns.status hcolumns).trans hstatus
  have hdebit' : t.payment.debitTransactionReference = none :=
    (Payment.debit_eq_none_iff hcolumns).mpr hdebit
  have hresume : CompensatePayment.resume (.find q.reference.value) (.loaded (some t)) now =
      .awaiting (.findDebit t) := by
    simp [CompensatePayment.resume, hstatus', hdebit']
  have hhost₁ := hhost.compensate_awaiting hresume
  rw [← hprocess] at hhost₁
  refine h₁.after_lookUp (h₁.legKey hcolumns .debit) (by rw [hhost₁.await]; rfl)
    fun s₂ found now₂ h₂ hfound hprocess₂ => ?_
  cases found with
  | none =>
      rw [if_neg (by rw [← hfound]; decide)]
      have hresume₂ : CompensatePayment.resume (.findDebit t) (.found none) now₂ =
          .awaiting (.saveDeclined
            { t with payment := (t.payment.decline .accountsUnavailable now₂).payment }) := by
        simp [CompensatePayment.resume, Progress.ofMutated, Payment.decline,
          Payment.transitionTo, allowedTransitions, hstatus']
      have hhost₂ := hhost₁.compensate_awaiting hresume₂
      rw [← hprocess₂] at hhost₂
      exact declined_ends h₂ hhost₂ rfl hcolumns hrevision hstatus
        fun t' now' => hhost₂.compensate_returned rfl
  | some m =>
      rw [if_pos (show moved .debit = true from hfound.symm)]
      have herror := Payment.markDebited_error m.transactionReference now₂ hstatus'
      obtain ⟨-, hok⟩ := Payment.markDebited_ok herror
      have hresume₂ : CompensatePayment.resume (.findDebit t) (.found (some m)) now₂ =
          .awaiting (.saveDebited
            { t with payment := (t.payment.markDebited m.transactionReference now₂).payment }
            m) := by
        simp [CompensatePayment.resume, hstatus', Progress.ofMutated, herror]
      have hhost₂ := hhost₁.compensate_awaiting hresume₂
      rw [← hprocess₂] at hhost₂
      refine h₂.after_transaction hhost₂ rfl ?_ hrevision
        fun s₃ t₃ row₃ now₃ h₃ hrow₃ hcolumns₃ hrevision₃ hprocess₃ => ?_
      · rw [← hcolumns]
        simp only [saveWork, hok]
        rfl
      · have hstatus₃ : row₃.status = .processing := by
          rw [hrow₃]
          simp only [saveWork, hok]
          exact hstatus'
        have hstatus₃' : t₃.payment.status = .processing :=
          (congrArg PaymentColumns.status hcolumns₃).trans hstatus₃
        have hresume₃ : CompensatePayment.resume (.saveDebited
            { t with payment := (t.payment.markDebited m.transactionReference now₂).payment } m)
              (.committed t₃) now₃ = .awaiting (.savePending
                { t₃ with
                  payment := (t₃.payment.markCompensationPending .creditFailed now₃).payment }) := by
          simp [CompensatePayment.resume, CompensatePayment.afterDebit, hstatus₃',
            Progress.ofMutated, Payment.markCompensationPending_error .creditFailed now₃ hstatus₃']
        have hhost₃ := hhost₂.compensate_awaiting hresume₃
        rw [← hprocess₃] at hhost₃
        exact decided_ends h₃ hhost₃ rfl hcolumns₃ hrevision₃ hstatus₃
          fun t' now' => .inl (hhost₃.compensate_awaiting rfl)

/-- A payment whose debit the row records waits for its credit. -/
theorem waiting_ends (h : Checkpoint s₀ worker q row moved s)
    (hhost : Hosts q.reference.value (s.process worker)
      (.compensate (.find q.reference.value)) after)
    (hstatus : row.status = .processing) (hdebit : row.debitTransactionReference ≠ none) :
    Inevitable (proceed maxAttempts verdicts worker)
      (Ends s₀ worker q after (if moved .credit then ⟨.approved, none, moved⟩
        else ⟨.processing, none, moved⟩)) s := by
  refine h.after_find (by rw [hhost.await]; rfl) fun s₁ t now h₁ hcolumns hrevision hprocess => ?_
  have hstatus' : t.payment.status = .processing :=
    (congrArg PaymentColumns.status hcolumns).trans hstatus
  have hdebit' : t.payment.debitTransactionReference ≠ none :=
    fun hnone => hdebit ((Payment.debit_eq_none_iff hcolumns).mp hnone)
  have hresume : CompensatePayment.resume (.find q.reference.value) (.loaded (some t)) now =
      .awaiting (.findCredit t) := by
    simp [CompensatePayment.resume, CompensatePayment.afterDebit, hstatus', hdebit']
  have hhost₁ := hhost.compensate_awaiting hresume
  rw [← hprocess] at hhost₁
  refine h₁.after_lookUp (h₁.legKey hcolumns .credit) (by rw [hhost₁.await]; rfl)
    fun s₂ found now₂ h₂ hfound hprocess₂ => ?_
  cases found with
  | none =>
      rw [if_neg (by rw [← hfound]; decide)]
      have hcoherent := h.coherent
      simp only [PaymentColumns.Coherent, hstatus] at hcoherent
      refine .now ⟨row, h₂, hstatus, hcoherent.2.2.1, ?_⟩
      rw [hprocess₂]
      exact hhost₁.compensate_returned rfl
  | some m =>
      rw [if_pos (show moved .credit = true from hfound.symm)]
      obtain ⟨debit, hdebit₂⟩ := Option.ne_none_iff_exists'.mp hdebit'
      have hresume₂ : CompensatePayment.resume (.findCredit t) (.found (some m)) now₂ =
          .awaiting (.saveApproved
            { t with payment := (t.payment.approve m.transactionReference now₂).payment } m
            now₂) := by
        simp [CompensatePayment.resume, Progress.ofMutated, Payment.approve,
          Payment.transitionTo, allowedTransitions, hstatus', hdebit₂]
      have hhost₂ := hhost₁.compensate_awaiting hresume₂
      rw [← hprocess₂] at hhost₂
      exact approved_ends h₂ hhost₂ rfl hcolumns hrevision hstatus hdebit
        fun t' now' => hhost₂.compensate_returned rfl

/-!
# The attempt and its note
-/

def unresolved (status : PaymentStatus) : Option String :=
  if status ∈ terminalStatuses then none else some ("unresolved: " ++ status.value)

/-- The note of an attempt is short enough to be kept whole. -/
theorem attemptedRow_unresolved (status : PaymentStatus) (now : Date) (row : PaymentOrmEntity) :
    (attemptedRow (unresolved status) now row).lastReconciliationError = unresolved status := by
  have hshort : ∀ note, unresolved status = some note → slice note 2000 = note := by
    rintro note hnote
    refine slice_of_length_le ?_
    cases status <;> cases hnote <;> decide
  cases hnote : unresolved status with
  | none => rfl
  | some note => exact congrArg some (hshort note hnote)

/-- An attempt has brought the payment to its outcome and noted itself in the row. -/
structure Attempted (s : State) (worker : ℕ) (q : Payment) (row : PaymentOrmEntity)
    (outcome : Outcome) (s' : State) : Prop extends Concludes s worker q outcome s' where
  noted : ∃ row' now, s'.row q.reference.value = some row' ∧
    row'.reconciliationAttempts = row.reconciliationAttempts + 1 ∧
    row'.lastReconciliationError = unresolved outcome.status ∧
    row'.nextReconciliationAt = now + reconciliationDelay row.reconciliationAttempts * 1000

theorem Checkpoint.note (h : Checkpoint s₀ worker q row moved s) {outcome : Outcome}
    (hmoved : outcome.moved = moved) (hstatus : row.status = outcome.status)
    (hreason : row.failureReason = outcome.failureReason) {row₀ : PaymentOrmEntity}
    (hrow₀ : s₀.row q.reference.value = some row₀)
    (hprocess : s.process worker =
      .recovery q.reference.value (.record (unresolved outcome.status))) :
    Inevitable (proceed maxAttempts verdicts worker) (Attempted s₀ worker q row₀ outcome) s := by
  refine .step fun around => ?_
  have hawait : (s.process worker).await =
      some (.recordRecoveryAttempt q.reference.value (unresolved outcome.status)) := by
    rw [hprocess]
    rfl
  have hquery : (Await.recordRecoveryAttempt q.reference.value (unresolved outcome.status)).query
      s.payments.database around.moment .none = some ({ s.payments.database with
        payments := TypeOrmPaymentRepository.recordRecoveryAttempt s.payments.database.payments
          q.reference.value (unresolved outcome.status) around.moment.now }, .recorded) := rfl
  obtain ⟨s', ⟨hstep, hresumed, hwire⟩, hdatabase, -⟩ := advance_query maxAttempts hawait hquery
  have hattempts : row.reconciliationAttempts = row₀.reconciliationAttempts := by
    have hattempts := h.attempts
    rw [hrow₀] at hattempts
    exact (Option.some.inj hattempts).symm
  have hrow : s'.row q.reference.value =
      some (attemptedRow (unresolved outcome.status) around.moment.now row) := by
    rw [State.row, hdatabase, rowOf_recordRecoveryAttempt, if_pos rfl, ← State.row, h.found]
    rfl
  refine ⟨s', ?_, .now ⟨⟨?_, ⟨_, hrow, h.identity, hstatus, hreason⟩, ?_, ?_, ?_⟩,
    ⟨_, around.moment.now, hrow, ?_, attemptedRow_unresolved .., ?_⟩⟩⟩
  · rw [proceed, courseOf_eq_nextEvent hawait (by rintro _ ⟨⟩)]
    exact hstep
  · rw [hresumed, hprocess]
    rfl
  · intro leg
    rw [hmoved, Bool.eq_iff_iff, ← h.moved leg, State.moved, Wire.isSome_find_iff, hwire]
  · intro reference hne
    rw [State.row, hdatabase, rowOf_recordRecoveryAttempt, if_neg hne]
    exact h.others reference hne
  · rw [hwire]
    exact h.foreign
  · rw [← hattempts]
    rfl
  · rw [← hattempts]
    rfl

theorem Ends.noted {outcome : Outcome} {row₀ : PaymentOrmEntity}
    (hrow₀ : s₀.row q.reference.value = some row₀)
    (h : Ends s₀ worker q (.recovery q.reference.value .refind) outcome s) :
    Inevitable (proceed maxAttempts verdicts worker) (Attempted s₀ worker q row₀ outcome) s := by
  obtain ⟨row, hcheckpoint, hstatus, hreason, hprocess⟩ := h
  refine hcheckpoint.after_find (by rw [hprocess]; rfl)
    fun s₁ t now h₁ hcolumns _ hprocess₁ => h₁.note rfl hstatus hreason hrow₀ ?_
  have hstatus' : t.payment.status = outcome.status :=
    (congrArg PaymentColumns.status hcolumns).trans hstatus
  rw [hprocess₁, hprocess]
  simp only [Process.resume, ReconciliationJob.resume, unresolved, hstatus']
  split <;> rfl

/-- The reconciler recovers a payment that is not in a final status. -/
theorem picked_ends (h : Checkpoint s₀ worker q row moved s)
    (hprocess : s.process worker = .recovery q.reference.value .find)
    (hstatus : row.status ∉ terminalStatuses) :
    Inevitable (proceed maxAttempts verdicts worker)
      (Ends s₀ worker q (.recovery q.reference.value .refind)
        (.ofRecovery verdicts q row.toPaymentColumns moved)) s := by
  refine h.after_find (by rw [hprocess]; rfl) fun s₁ t now h₁ hcolumns _ hprocess₁ => ?_
  have hstatus' : t.payment.status = row.status := congrArg PaymentColumns.status hcolumns
  have hpicked : t.payment.status ≠ .pending →
      Hosts q.reference.value (s₁.process worker) (.compensate (.find q.reference.value))
        (.recovery q.reference.value .refind) := by
    intro hpending
    rw [hprocess₁, hprocess, resume_picked (hstatus' ▸ hstatus) hpending]
    exact .compensation _
  cases hrow : row.status with
  | pending =>
      have hhost : Hosts q.reference.value (s₁.process worker)
          (PaymentSaga.start q.reference.value) (.recovery q.reference.value .refind) := by
        rw [hprocess₁, hprocess]
        simp only [Process.resume, ReconciliationJob.resume, hstatus', hrow, Process.ofProgress]
        exact .recovery _
      simp only [Outcome.ofRecovery, hrow]
      exact saga_ends h₁ hhost hrow
  | processing =>
      have hhost := hpicked (by rw [hstatus', hrow]; decide)
      cases hdebit : row.debitTransactionReference with
      | none =>
          simp only [Outcome.ofRecovery, hrow, hdebit]
          exact confirming_ends h₁ hhost hrow hdebit
      | some debit =>
          simp only [Outcome.ofRecovery, hrow, hdebit]
          exact waiting_ends h₁ hhost hrow (by rw [hdebit]; exact Option.some_ne_none debit)
  | compensationPending =>
      simp only [Outcome.ofRecovery, hrow]
      exact owed_ends h₁ (hpicked (by rw [hstatus', hrow]; decide)) hrow
  | approved => exact absurd (by rw [hrow]; decide) hstatus
  | declined => exact absurd (by rw [hrow]; decide) hstatus
  | compensated => exact absurd (by rw [hrow]; decide) hstatus

theorem attempt_ends (maxAttempts : ℕ) (verdicts : Verdicts) (hs : Invariant s)
    (hidle : s.process worker = .idle) (hlock : s.payments.locks q.reference.value = none)
    (hrow : s.row q.reference.value = some row) (hq : row.toPaymentColumns = q.columns)
    (hstatus : row.status ∉ terminalStatuses) :
    ∃ s₁, step maxAttempts s (.internal (.recover worker q.reference)) = some s₁ ∧
      Inevitable (proceed maxAttempts verdicts worker) (Attempted s worker q row
        (.ofRecovery verdicts q row.toPaymentColumns (s.moved q))) s₁ := by
  obtain ⟨s₁, hrecover, hprocess, hcheckpoint⟩ := hs.enter maxAttempts (.recover worker q.reference)
    (by rw [hidle]; rfl) hlock hrow hq (by rintro _ _ _ ⟨⟩) rfl
    (by simp only [Workers.step, show s.payments.workers worker = _ from hidle]; rfl)
  exact ⟨s₁, hrecover, (picked_ends hcheckpoint hprocess hstatus).trans fun s₂ h₂ => h₂.noted hrow⟩

end

/-- An attempt of the reconciler on a payment whose lock is free, undisturbed (nothing fails
and no other worker steps in), ends with the outcome that the row, the movements of
`accounts` and its refusals decide, whatever the clock reads. It notes itself in the row,
unless it found a final status, and touches nothing else. -/
theorem recovery_outcome {maxAttempts worker : ℕ} (verdicts : Verdicts) {s : State} (q : Payment)
    {row : PaymentOrmEntity} (hreach : Reachable (step maxAttempts) init s)
    (hidle : s.process worker = .idle) (hlock : s.payments.locks q.reference.value = none)
    (hrow : s.row q.reference.value = some row) (hq : row.toPaymentColumns = q.columns)
    (around : ℕ → Surroundings) :
    ∃ n s', (step maxAttempts s (.internal (.recover worker q.reference))).bind
        (follow (proceed maxAttempts verdicts worker) around n) = some s' ∧
      Concludes s worker q (.ofRecovery verdicts q row.toPaymentColumns (s.moved q)) s' ∧
      (row.status ∈ terminalStatuses → s'.row q.reference.value = some row) ∧
      (row.status ∉ terminalStatuses → Attempted s worker q row
        (.ofRecovery verdicts q row.toPaymentColumns (s.moved q)) s') := by
  have hs := invariant_of_reachable hreach
  by_cases hterminal : row.status ∈ terminalStatuses
  · obtain ⟨s₁, hrecover, hprocess, hcheckpoint⟩ := hs.enter maxAttempts
      (.recover worker q.reference) (by rw [hidle]; rfl) hlock hrow hq (by rintro _ _ _ ⟨⟩) rfl
      (by simp only [Workers.step, show s.payments.workers worker = _ from hidle]; rfl)
    simp only [hrecover, Option.bind_some]
    have hends : Inevitable (proceed maxAttempts verdicts worker) (fun s' =>
        Checkpoint s worker q row (s.moved q) s' ∧ s'.process worker = .idle) s₁ := by
      refine hcheckpoint.after_find (by rw [hprocess]; rfl)
        fun s₂ t now h₂ hcolumns _ hprocess₂ => .now ⟨h₂, ?_⟩
      have hstatus : t.payment.status = row.status := congrArg PaymentColumns.status hcolumns
      rw [hprocess₂, hprocess]
      simp only [Process.resume, ReconciliationJob.resume, hstatus, if_pos hterminal,
        Process.ofProgress]
    obtain ⟨n, s', hfollow, h', hidle'⟩ := hends.follow around
    have houtcome : Outcome.ofRecovery verdicts q row.toPaymentColumns (s.moved q) =
        ⟨row.status, row.failureReason, s.moved q⟩ := by
      cases hstatus : row.status <;> simp_all [Outcome.ofRecovery, terminalStatuses]
    refine ⟨n, s', hfollow, ?_, fun _ => h'.found, fun hnot => absurd hterminal hnot⟩
    rw [houtcome]
    exact h'.concludes rfl rfl rfl hidle'
  · obtain ⟨s₁, hrecover, hends⟩ :=
      attempt_ends maxAttempts verdicts hs hidle hlock hrow hq hterminal
    simp only [hrecover, Option.bind_some]
    obtain ⟨n, s', hfollow, hattempted⟩ := hends.follow around
    exact ⟨n, s', hfollow, hattempted.toConcludes, fun hin => absurd hin hterminal,
      fun _ => hattempted⟩

def unpostedRun : List Event :=
  initiatedRun ++ [.internal (.start 0), sampleQuery, sampleQuery, .internal (.crash 0)]

theorem unpostedRun_processing :
    ∃ s row, run (step 3) init unpostedRun = some s ∧ s.process 0 = .idle ∧
      s.payments.locks samplePayment.reference.value = none ∧
      s.row samplePayment.reference.value = some row ∧
      row.toPaymentColumns = { samplePayment with status := .processing }.columns ∧
      ∀ leg, s.moved { samplePayment with status := .processing } leg = false :=
  ⟨_, _, rfl, rfl, rfl, rfl, rfl, fun _ => rfl⟩

/-- The sample payment whose debit was never posted is declined by the next attempt. -/
theorem recovery_outcome_unposted :
    ∃ s, run (step 3) init unpostedRun = some s ∧ ∀ around, ∃ n s' row,
      (step 3 s (.internal (.recover 0 samplePayment.reference))).bind
        (follow (proceed 3 (fun _ => none) 0) around n) = some s' ∧
      s'.row samplePayment.reference.value = some row ∧ row.status = .declined ∧
      row.failureReason = some .accountsUnavailable := by
  obtain ⟨s, row, hrun, hidle, hlock, hrow, hq, hmoved⟩ := unpostedRun_processing
  refine ⟨s, hrun, fun around => ?_⟩
  obtain ⟨n, s', hfollow, ⟨-, ⟨row', hrow', -, hstatus, hreason⟩, -, -, -⟩, -, -⟩ :=
    recovery_outcome (fun _ => none) { samplePayment with status := .processing }
      ⟨unpostedRun, hrun⟩ hidle hlock hrow hq around
  have houtcome : Outcome.ofRecovery (fun _ => none) { samplePayment with status := .processing }
      row.toPaymentColumns (s.moved { samplePayment with status := .processing }) =
        ⟨.declined, some .accountsUnavailable, fun _ => false⟩ := by
    rw [funext hmoved, hq]
    rfl
  rw [houtcome] at hstatus hreason
  exact ⟨n, s', row', hfollow, hrow', hstatus, hreason⟩

end Platform

end Payments

end Paynad
