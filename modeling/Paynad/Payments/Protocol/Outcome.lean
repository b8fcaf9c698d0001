import Paynad.Payments.Protocol.Undisturbed

/-!
# How a payment ends

`Outcome` says what becomes of a payment when a workflow is not disturbed, as a
decision on what the row records, on the legs `accounts` has recorded and on what
`accounts` refuses. The saga and the reconciler reach that outcome: every
undisturbed workflow ends, its worker idle, the payment and the movements as
decided, and everything else as it was.
-/

namespace Paynad

namespace Payments

open Shared Transition TypeOrmPaymentRepository

namespace Platform

/-- How a workflow leaves a payment, with the legs `accounts` has recorded. -/
structure Outcome where
  status : PaymentStatus
  failureReason : Option FailureReason
  moved : Leg → Bool

namespace Outcome

/-- The refund is decided: it goes through, or stays owed. -/
def ofRefund (verdicts : Verdicts) (q : Payment) (reason : Option FailureReason)
    (moved : Leg → Bool) : Outcome :=
  match refusalOf verdicts q moved .refund with
  | none => ⟨.compensated, reason, Function.update moved .refund true⟩
  | some _ => ⟨.compensationPending, reason, moved⟩

/-- The source is debited: the credit goes through, or the source is refunded. -/
def ofCredit (verdicts : Verdicts) (q : Payment) (moved : Leg → Bool) : Outcome :=
  match refusalOf verdicts q moved .credit with
  | none => ⟨.approved, none, Function.update moved .credit true⟩
  | some _ => ofRefund verdicts q (some .creditFailed) moved

/-- The saga of a payment: it is declined with the reason of `accounts`, or its source
is debited. -/
def ofSaga (verdicts : Verdicts) (q : Payment) (moved : Leg → Bool) : Outcome :=
  match refusalOf verdicts q moved .debit with
  | none => ofCredit verdicts q (Function.update moved .debit true)
  | some refusal => ⟨.declined, some (failureReasonOf (refusal.error q.source.value)), moved⟩

/-- A recovery goes by what the row records, and asks `accounts` about the rest. -/
def ofRecovery (verdicts : Verdicts) (q : Payment) (c : PaymentColumns) (moved : Leg → Bool) :
    Outcome :=
  match c.status with
  | .pending => ofSaga verdicts q moved
  | .processing =>
      match c.debitTransactionReference with
      | none =>
          if moved .debit then ofRefund verdicts q (some .creditFailed) moved
          else ⟨.declined, some .accountsUnavailable, moved⟩
      | some _ =>
          if moved .credit then ⟨.approved, none, moved⟩ else ⟨.processing, none, moved⟩
  | .compensationPending => ofRefund verdicts q c.failureReason moved
  | status => ⟨status, c.failureReason, moved⟩

end Outcome

/-!
# The workflow around a command
-/

/-- A process that executes a command, and where it stands once its workflow is over. -/
inductive Hosts (reference : String) : Process → Command → Process → Prop
  | saga (command : Command) : Hosts reference (.saga reference command) command .idle
  | recovery (command : Command) :
      Hosts reference (.recovery reference (.saga command)) command (.recovery reference .refind)
  | compensation (stage : CompensatePayment.Stage) :
      Hosts reference (.recovery reference (.compensate stage)) (.compensate stage)
        (.recovery reference .refind)

namespace Hosts

variable {reference : String} {process after : Process} {command : Command} {input : Input}
  {now : Date}

theorem await (h : Hosts reference process command after) :
    process.await = some command.await := by
  cases h <;> rfl

theorem compensate_awaiting {stage stage' : CompensatePayment.Stage}
    (h : Hosts reference process (.compensate stage) after)
    (hresume : CompensatePayment.resume stage input now = .awaiting stage') :
    Hosts reference (process.resume input now) (.compensate stage') after := by
  cases h <;>
    simp only [Process.resume, ReconciliationJob.resume, PaymentSaga.resume, hresume,
      ReconciliationJob.afterAttempt, Process.ofProgress] <;>
    constructor

theorem compensate_returned {stage : CompensatePayment.Stage} {value : Option String}
    (h : Hosts reference process (.compensate stage) after)
    (hresume : CompensatePayment.resume stage input now = .returned value) :
    process.resume input now = after := by
  cases h <;>
    simp only [Process.resume, ReconciliationJob.resume, PaymentSaga.resume, hresume,
      ReconciliationJob.afterAttempt, Process.ofProgress]

theorem credit_awaiting {stage stage' : CreditDestinationWallet.Stage}
    (h : Hosts reference process (.credit stage) after)
    (hresume : CreditDestinationWallet.resume stage input now = .awaiting stage') :
    Hosts reference (process.resume input now) (.credit stage') after := by
  cases h <;>
    simp only [Process.resume, ReconciliationJob.resume, PaymentSaga.resume, hresume,
      ReconciliationJob.afterAttempt, Process.ofProgress] <;>
    constructor

theorem credit_returned {stage : CreditDestinationWallet.Stage} {value : String}
    (h : Hosts reference process (.credit stage) after)
    (hresume : CreditDestinationWallet.resume stage input now = .returned value) :
    process.resume input now = after := by
  cases h <;>
    simp only [Process.resume, ReconciliationJob.resume, PaymentSaga.resume, hresume,
      ReconciliationJob.afterAttempt, Process.ofProgress]

theorem credit_threw {stage : CreditDestinationWallet.Stage} {error : Thrown}
    (h : Hosts reference process (.credit stage) after)
    (hresume : CreditDestinationWallet.resume stage input now = .threw error) :
    Hosts reference (process.resume input now) (.compensate (.find reference)) after := by
  cases h <;>
    simp only [Process.resume, ReconciliationJob.resume, PaymentSaga.resume, hresume,
      ReconciliationJob.afterAttempt, Process.ofProgress] <;>
    constructor

theorem debit_awaiting {stage stage' : DebitSourceWallet.Stage}
    (h : Hosts reference process (.debit stage) after)
    (hresume : DebitSourceWallet.resume stage input now = .awaiting stage') :
    Hosts reference (process.resume input now) (.debit stage') after := by
  cases h <;>
    simp only [Process.resume, ReconciliationJob.resume, PaymentSaga.resume, hresume,
      ReconciliationJob.afterAttempt, Process.ofProgress] <;>
    constructor

theorem debit_returned {stage : DebitSourceWallet.Stage} {value : String}
    (h : Hosts reference process (.debit stage) after)
    (hresume : DebitSourceWallet.resume stage input now = .returned value) :
    Hosts reference (process.resume input now) (.credit (.find reference)) after := by
  cases h <;>
    simp only [Process.resume, ReconciliationJob.resume, PaymentSaga.resume, hresume,
      ReconciliationJob.afterAttempt, Process.ofProgress] <;>
    constructor

theorem debit_threw {stage : DebitSourceWallet.Stage} {error : DomainError}
    (h : Hosts reference process (.debit stage) after)
    (hresume : DebitSourceWallet.resume stage input now = .threw (.domain error)) :
    process.resume input now = after := by
  cases h <;>
    simp only [Process.resume, ReconciliationJob.resume, PaymentSaga.resume, hresume,
      ReconciliationJob.afterAttempt, Process.ofProgress]

end Hosts

def Ends (s₀ : State) (worker : ℕ) (q : Payment) (after : Process) (outcome : Outcome)
    (s : State) : Prop :=
  ∃ row, Checkpoint s₀ worker q row outcome.moved s ∧ row.status = outcome.status ∧
    row.failureReason = outcome.failureReason ∧ s.process worker = after

section

variable {maxAttempts worker : ℕ} {verdicts : Verdicts} {s₀ s : State} {q : Payment}
  {row : PaymentOrmEntity} {moved : Leg → Bool} {after : Process} {t : Tracked}

theorem Checkpoint.coherent (h : Checkpoint s₀ worker q row moved s) :
    row.toPaymentColumns.Coherent :=
  (h.invariant.payments.database.rows _ row h.found).coherent

theorem Checkpoint.await_leg (h : Checkpoint s₀ worker q row moved s) {command : Command}
    (hhost : Hosts q.reference.value (s.process worker) command after) (leg : Leg)
    (hcommand : command.await = .movement (t.payment.legCall leg))
    (hcolumns : t.payment.columns = row.toPaymentColumns) :
    (s.process worker).await = some (.movement (q.legCall leg)) := by
  have hidentity : t.payment.columns.identity = q.columns.identity :=
    (congrArg PaymentColumns.identity hcolumns).trans h.identity
  rw [hhost.await, hcommand, Payment.legCall_congr hidentity]

theorem Checkpoint.after_find (h : Checkpoint s₀ worker q row moved s) {P : State → Prop}
    (hawait : (s.process worker).await = some (.findByReference q.reference.value))
    (hP : ∀ s' t now, Checkpoint s₀ worker q row moved s' →
      t.payment.columns = row.toPaymentColumns → t.revision = some row.version →
      s'.process worker = (s.process worker).resume (.loaded (some t)) now →
      Inevitable (proceed maxAttempts verdicts worker) P s') :
    Inevitable (proceed maxAttempts verdicts worker) P s := by
  refine .step fun around => ?_
  obtain ⟨s', t, hproceed, hcheckpoint, hcolumns, hrevision, hprocess⟩ := h.find hawait
  exact ⟨s', hproceed, hP s' t _ hcheckpoint hcolumns hrevision hprocess⟩

theorem Checkpoint.after_transaction (h : Checkpoint s₀ worker q row moved s) {P : State → Prop}
    {command : Command} (hhost : Hosts q.reference.value (s.process worker) command after)
    {w : Work} (hcommand : command.await = .transaction w)
    (hidentity : w.aggregate.payment.columns.identity = row.identity)
    (hrevision : w.aggregate.revision = some row.version)
    (hP : ∀ s' t row' now, Checkpoint s₀ worker q row' moved s' →
      row'.toPaymentColumns = w.aggregate.payment.columns →
      t.payment.columns = row'.toPaymentColumns → t.revision = some row'.version →
      s'.process worker = (s.process worker).resume (.committed t) now →
      Inevitable (proceed maxAttempts verdicts worker) P s') :
    Inevitable (proceed maxAttempts verdicts worker) P s := by
  refine .step fun around => ?_
  obtain ⟨s', t, row', hproceed, hcheckpoint, hrow', hcolumns, hrevision', hprocess⟩ :=
    h.transaction hidentity hrevision (hhost.await.trans (congrArg some hcommand))
  exact ⟨s', hproceed, hP s' t row' _ hcheckpoint hrow' (hcolumns.trans hrow'.symm) hrevision'
    hprocess⟩

/-!
# The refund
-/

theorem resume_refund (now : Date) (m : MovementResult)
    (hstatus : t.payment.status = .compensationPending) :
    CompensatePayment.resume (.refund t) (.moved m) now = .awaiting (.saveCompensated
      { t with payment := (t.payment.compensate m.transactionReference now).payment } m now) := by
  simp [CompensatePayment.resume, Progress.ofMutated,
    Payment.compensate_error m.transactionReference now hstatus]

/-- A refund that is posted leads to its outcome. -/
theorem refund_ends (h : Checkpoint s₀ worker q row moved s)
    (hhost : Hosts q.reference.value (s.process worker) (.compensate (.refund t)) after)
    (hcolumns : t.payment.columns = row.toPaymentColumns)
    (hrevision : t.revision = some row.version) (hstatus : row.status = .compensationPending) :
    Inevitable (proceed maxAttempts verdicts worker)
      (Ends s₀ worker q after (.ofRefund verdicts q row.failureReason moved)) s := by
  have hstatus' : t.payment.status = .compensationPending :=
    (congrArg PaymentColumns.status hcolumns).trans hstatus
  refine (h.exchange (h.await_leg hhost .refund rfl hcolumns)).trans ?_
  rintro s₁ (⟨m, now, hrefusal, h₁, hprocess⟩ | ⟨refusal, now, hrefusal, h₁, hprocess⟩)
  · have houtcome : Outcome.ofRefund verdicts q row.failureReason moved =
        ⟨.compensated, row.failureReason, Function.update moved .refund true⟩ := by
      simp only [Outcome.ofRefund, hrefusal]
    have hhost₁ := hhost.compensate_awaiting (resume_refund now m hstatus')
    rw [← hprocess] at hhost₁
    obtain ⟨-, hok⟩ := Payment.compensate_ok
      (Payment.compensate_error m.transactionReference now hstatus')
    rw [houtcome]
    refine h₁.after_transaction hhost₁ rfl ?_ hrevision
      fun s₂ t₂ row₂ now₂ h₂ hrow₂ _ _ hprocess₂ => .now ⟨row₂, h₂, ?_, ?_, ?_⟩
    · rw [← hcolumns]
      simp only [compensateWork, hok]
      rfl
    · rw [hrow₂]
      simp only [compensateWork, hok]
      rfl
    · have hcoherent := h.coherent
      simp only [PaymentColumns.Coherent, hstatus] at hcoherent
      obtain ⟨reason, hreason⟩ := Option.ne_none_iff_exists'.mp hcoherent.2.1
      have hreason' : t.payment.failureReason = some reason :=
        (congrArg PaymentColumns.failureReason hcolumns).trans hreason
      rw [hrow₂, hreason]
      simp only [compensateWork, hok, hreason', PaymentOrmMapper.toPersistence_failureReason]
      rfl
    · rw [hprocess₂]
      exact hhost₁.compensate_returned rfl
  · have houtcome : Outcome.ofRefund verdicts q row.failureReason moved =
        ⟨.compensationPending, row.failureReason, moved⟩ := by
      simp only [Outcome.ofRefund, hrefusal]
    rw [houtcome]
    refine .now ⟨row, h₁, hstatus, rfl, ?_⟩
    rw [hprocess]
    exact hhost.compensate_returned rfl

theorem owed_ends (h : Checkpoint s₀ worker q row moved s)
    (hhost : Hosts q.reference.value (s.process worker)
      (.compensate (.find q.reference.value)) after)
    (hstatus : row.status = .compensationPending) :
    Inevitable (proceed maxAttempts verdicts worker)
      (Ends s₀ worker q after (.ofRefund verdicts q row.failureReason moved)) s := by
  refine h.after_find (by rw [hhost.await]; rfl)
    fun s₁ t now h₁ hcolumns hrevision hprocess => refund_ends h₁ ?_ hcolumns hrevision hstatus
  rw [hprocess]
  refine hhost.compensate_awaiting ?_
  have hstatus' : t.payment.status = .compensationPending :=
    (congrArg PaymentColumns.status hcolumns).trans hstatus
  have hdebit : t.payment.debitTransactionReference ≠ none := by
    have hcoherent := h.coherent
    simp only [PaymentColumns.Coherent, hstatus] at hcoherent
    exact fun hnone => hcoherent.1 ((Payment.debit_eq_none_iff hcolumns).mp hnone)
  simp [CompensatePayment.resume, CompensatePayment.afterDebit, hstatus', hdebit]

theorem decided_ends (h : Checkpoint s₀ worker q row moved s) {command : Command}
    (hhost : Hosts q.reference.value (s.process worker) command after) {now : Date}
    (hcommand : command.await = .transaction (saveWork
      { t with payment := (t.payment.markCompensationPending .creditFailed now).payment }))
    (hcolumns : t.payment.columns = row.toPaymentColumns)
    (hrevision : t.revision = some row.version) (hstatus : row.status = .processing)
    (hnext : ∀ t' now', Hosts q.reference.value
        ((s.process worker).resume (.committed t') now') (.compensate (.refund t')) after ∨
      Hosts q.reference.value ((s.process worker).resume (.committed t') now')
        (.compensate (.find q.reference.value)) after) :
    Inevitable (proceed maxAttempts verdicts worker)
      (Ends s₀ worker q after (.ofRefund verdicts q (some .creditFailed) moved)) s := by
  have hstatus' : t.payment.status = .processing :=
    (congrArg PaymentColumns.status hcolumns).trans hstatus
  obtain ⟨-, hok⟩ := Payment.markCompensationPending_ok
    (Payment.markCompensationPending_error .creditFailed now hstatus')
  refine h.after_transaction hhost hcommand ?_ hrevision
    fun s₁ t₁ row₁ now₁ h₁ hrow₁ hcolumns₁ hrevision₁ hprocess₁ => ?_
  · rw [← hcolumns]
    simp only [saveWork, hok]
    rfl
  · have hstatus₁ : row₁.status = .compensationPending := by
      rw [hrow₁]
      simp only [saveWork, hok]
      rfl
    have hreason₁ : row₁.failureReason = some .creditFailed := by
      rw [hrow₁]
      simp only [saveWork, hok]
      rfl
    rw [← hreason₁]
    rcases hnext t₁ now₁ with hhost₁ | hhost₁ <;> rw [← hprocess₁] at hhost₁
    · exact refund_ends h₁ hhost₁ hcolumns₁ hrevision₁ hstatus₁
    · exact owed_ends h₁ hhost₁ hstatus₁

/-!
# The credit and the debit
-/

theorem approved_ends (h : Checkpoint s₀ worker q row moved s) {command : Command}
    (hhost : Hosts q.reference.value (s.process worker) command after) {now : Date}
    {m : MovementResult}
    (hcommand : command.await = .transaction (approveWork
      { t with payment := (t.payment.approve m.transactionReference now).payment }
      m.transactionReference now))
    (hcolumns : t.payment.columns = row.toPaymentColumns)
    (hrevision : t.revision = some row.version) (hstatus : row.status = .processing)
    (hdebit : row.debitTransactionReference ≠ none)
    (hnext : ∀ t' now', (s.process worker).resume (.committed t') now' = after) :
    Inevitable (proceed maxAttempts verdicts worker)
      (Ends s₀ worker q after ⟨.approved, none, moved⟩) s := by
  have hstatus' : t.payment.status = .processing :=
    (congrArg PaymentColumns.status hcolumns).trans hstatus
  obtain ⟨debit, hdebit'⟩ : ∃ debit, t.payment.debitTransactionReference = some debit :=
    Option.ne_none_iff_exists'.mp fun hnone =>
      hdebit ((Payment.debit_eq_none_iff hcolumns).mp hnone)
  have herror : (t.payment.approve m.transactionReference now).error = none := by
    simp [Payment.approve, Payment.transitionTo, allowedTransitions, hstatus', hdebit']
  obtain ⟨-, _, -, hok⟩ := Payment.approve_ok herror
  have hcoherent := h.coherent
  simp only [PaymentColumns.Coherent, hstatus] at hcoherent
  have hreason : t.payment.failureReason = none :=
    (congrArg PaymentColumns.failureReason hcolumns).trans hcoherent.2.2.1
  refine h.after_transaction hhost hcommand ?_ hrevision
    fun s₁ t₁ row₁ now₁ h₁ hrow₁ _ _ hprocess₁ => .now ⟨row₁, h₁, ?_, ?_, ?_⟩
  · rw [← hcolumns]
    simp only [approveWork, hok]
    rfl
  · rw [hrow₁]
    simp only [approveWork, hok]
    rfl
  · rw [hrow₁]
    simp only [approveWork, hok]
    exact hreason
  · rw [hprocess₁]
    exact hnext ..

/-- The credit of a payment whose debit is recorded leads to its outcome. -/
theorem credit_ends (h : Checkpoint s₀ worker q row moved s)
    (hhost : Hosts q.reference.value (s.process worker)
      (.credit (.find q.reference.value)) after)
    (hstatus : row.status = .processing) (hdebit : row.debitTransactionReference ≠ none) :
    Inevitable (proceed maxAttempts verdicts worker)
      (Ends s₀ worker q after (.ofCredit verdicts q moved)) s := by
  refine h.after_find (by rw [hhost.await]; rfl) fun s₁ t now h₁ hcolumns hrevision hprocess => ?_
  have hstatus' : t.payment.status = .processing :=
    (congrArg PaymentColumns.status hcolumns).trans hstatus
  have hdebit' : t.payment.debitTransactionReference ≠ none :=
    fun hnone => hdebit ((Payment.debit_eq_none_iff hcolumns).mp hnone)
  have hresume : CreditDestinationWallet.resume (.find q.reference.value) (.loaded (some t)) now =
      .awaiting (.credit t) := by
    simp [CreditDestinationWallet.resume, hstatus', hdebit']
  have hhost₁ := hhost.credit_awaiting hresume
  rw [← hprocess] at hhost₁
  refine (h₁.exchange (h₁.await_leg hhost₁ .credit rfl hcolumns)).trans ?_
  rintro s₂ (⟨m, now₂, hrefusal, h₂, hprocess₂⟩ | ⟨refusal, now₂, hrefusal, h₂, hprocess₂⟩)
  · have houtcome : Outcome.ofCredit verdicts q moved =
        ⟨.approved, none, Function.update moved .credit true⟩ := by
      simp only [Outcome.ofCredit, hrefusal]
    obtain ⟨debit, hdebit⟩ := Option.ne_none_iff_exists'.mp hdebit'
    have hresume₂ : CreditDestinationWallet.resume (.credit t) (.moved m) now₂ =
        .awaiting (.saveApproved
          { t with payment := (t.payment.approve m.transactionReference now₂).payment } m
          now₂) := by
      simp [CreditDestinationWallet.resume, Progress.ofMutated, Payment.approve,
        Payment.transitionTo, allowedTransitions, hstatus', hdebit]
    have hhost₂ := hhost₁.credit_awaiting hresume₂
    rw [← hprocess₂] at hhost₂
    rw [houtcome]
    exact approved_ends h₂ hhost₂ rfl hcolumns hrevision hstatus ‹_›
      fun t' now' => hhost₂.credit_returned rfl
  · have houtcome : Outcome.ofCredit verdicts q moved =
        .ofRefund verdicts q (some .creditFailed) moved := by
      simp only [Outcome.ofCredit, hrefusal]
    have hresume₂ : CreditDestinationWallet.resume (.credit t) (.refused refusal) now₂ =
        .awaiting (.savePending
          { t with payment := (t.payment.markCompensationPending .creditFailed now₂).payment }
          (refusal.error t.payment.destination.value)) := by
      simp [CreditDestinationWallet.resume, Progress.ofMutated,
        Payment.markCompensationPending_error .creditFailed now₂ hstatus']
    have hhost₂ := hhost₁.credit_awaiting hresume₂
    rw [← hprocess₂] at hhost₂
    rw [houtcome]
    exact decided_ends h₂ hhost₂ rfl hcolumns hrevision hstatus
      fun t' now' => .inr (hhost₂.credit_threw rfl)

theorem declined_ends (h : Checkpoint s₀ worker q row moved s) {command : Command}
    (hhost : Hosts q.reference.value (s.process worker) command after) {now : Date}
    {reason : FailureReason}
    (hcommand : command.await = .transaction (declineWork
      { t with payment := (t.payment.decline reason now).payment }))
    (hcolumns : t.payment.columns = row.toPaymentColumns)
    (hrevision : t.revision = some row.version) (hstatus : row.status = .processing)
    (hnext : ∀ t' now', (s.process worker).resume (.committed t') now' = after) :
    Inevitable (proceed maxAttempts verdicts worker)
      (Ends s₀ worker q after ⟨.declined, some reason, moved⟩) s := by
  have hstatus' : t.payment.status = .processing :=
    (congrArg PaymentColumns.status hcolumns).trans hstatus
  have herror : (t.payment.decline reason now).error = none := by
    simp [Payment.decline, Payment.transitionTo, allowedTransitions, hstatus']
  obtain ⟨-, hok⟩ := Payment.decline_ok herror
  refine h.after_transaction hhost hcommand ?_ hrevision
    fun s₁ t₁ row₁ now₁ h₁ hrow₁ _ _ hprocess₁ => .now ⟨row₁, h₁, ?_, ?_, ?_⟩
  · rw [← hcolumns]
    simp only [declineWork, hok]
    rfl
  · rw [hrow₁]
    simp only [declineWork, hok]
    rfl
  · rw [hrow₁]
    simp only [declineWork, hok]
    rfl
  · rw [hprocess₁]
    exact hnext ..

/-- A posted debit leads to the outcome of the saga. -/
theorem posted_ends (h : Checkpoint s₀ worker q row moved s)
    (hhost : Hosts q.reference.value (s.process worker) (.debit (.debit t)) after)
    (hcolumns : t.payment.columns = row.toPaymentColumns)
    (hrevision : t.revision = some row.version) (hstatus : row.status = .processing) :
    Inevitable (proceed maxAttempts verdicts worker)
      (Ends s₀ worker q after (.ofSaga verdicts q moved)) s := by
  have hstatus' : t.payment.status = .processing :=
    (congrArg PaymentColumns.status hcolumns).trans hstatus
  refine (h.exchange (h.await_leg hhost .debit rfl hcolumns)).trans ?_
  rintro s₁ (⟨m, now, hrefusal, h₁, hprocess⟩ | ⟨refusal, now, hrefusal, h₁, hprocess⟩)
  · have houtcome : Outcome.ofSaga verdicts q moved =
        .ofCredit verdicts q (Function.update moved .debit true) := by
      simp only [Outcome.ofSaga, hrefusal]
    have herror := Payment.markDebited_error m.transactionReference now hstatus'
    obtain ⟨-, hok⟩ := Payment.markDebited_ok herror
    have hresume : DebitSourceWallet.resume (.debit t) (.moved m) now = .awaiting (.saveDebited
        { t with payment := (t.payment.markDebited m.transactionReference now).payment } m) := by
      simp only [DebitSourceWallet.resume, herror]
    have hhost₁ := hhost.debit_awaiting hresume
    rw [← hprocess] at hhost₁
    rw [houtcome]
    refine h₁.after_transaction hhost₁ rfl ?_ hrevision
      fun s₂ t₂ row₂ now₂ h₂ hrow₂ hcolumns₂ hrevision₂ hprocess₂ => credit_ends h₂ ?_ ?_ ?_
    · rw [← hcolumns]
      simp only [saveWork, hok]
      rfl
    · rw [hprocess₂]
      exact hhost₁.debit_returned rfl
    · rw [hrow₂]
      simp only [saveWork, hok]
      exact hstatus'
    · rw [hrow₂]
      simp [saveWork, hok]
  · have hsource : t.payment.source.value = q.source.value :=
      congrArg PaymentColumns.sourceWalletReference
        ((congrArg PaymentColumns.identity hcolumns).trans h.identity)
    have houtcome : Outcome.ofSaga verdicts q moved =
        ⟨.declined, some (failureReasonOf (refusal.error t.payment.source.value)), moved⟩ := by
      simp only [Outcome.ofSaga, hrefusal, hsource]
    have hresume : DebitSourceWallet.resume (.debit t) (.refused refusal) now =
        .awaiting (.saveDeclined
          { t with payment := (t.payment.decline
              (failureReasonOf (refusal.error t.payment.source.value)) now).payment }
          (refusal.error t.payment.source.value)) := by
      cases refusal <;>
        simp [DebitSourceWallet.resume, DebitSourceWallet.catchError, Refusal.error,
          Progress.ofMutated, Payment.decline, Payment.transitionTo, allowedTransitions, hstatus']
    have hhost₁ := hhost.debit_awaiting hresume
    rw [← hprocess] at hhost₁
    rw [houtcome]
    exact declined_ends h₁ hhost₁ rfl hcolumns hrevision hstatus
      fun t' now' => hhost₁.debit_threw rfl

/-- The saga of a Pending payment leads to its outcome. -/
theorem saga_ends (h : Checkpoint s₀ worker q row moved s)
    (hhost : Hosts q.reference.value (s.process worker)
      (PaymentSaga.start q.reference.value) after) (hstatus : row.status = .pending) :
    Inevitable (proceed maxAttempts verdicts worker)
      (Ends s₀ worker q after (.ofSaga verdicts q moved)) s := by
  refine h.after_find (by rw [hhost.await]; rfl) fun s₁ t now h₁ hcolumns hrevision hprocess => ?_
  have hstatus' : t.payment.status = .pending :=
    (congrArg PaymentColumns.status hcolumns).trans hstatus
  have herror : (t.payment.markProcessing now).error = none := by
    simp [Payment.markProcessing, Payment.transitionTo, allowedTransitions, hstatus']
  have hok := (Payment.transitionTo_ok herror).2
  have hresume : DebitSourceWallet.resume (.find q.reference.value) (.loaded (some t)) now =
      .awaiting (.saveProcessing
        { t with payment := (t.payment.markProcessing now).payment }) := by
    simp [DebitSourceWallet.resume, hstatus', Progress.ofMutated, herror]
  have hhost₁ := Hosts.debit_awaiting hhost hresume
  rw [← hprocess] at hhost₁
  refine h₁.after_transaction hhost₁ rfl ?_ hrevision
    fun s₂ t₂ row₂ now₂ h₂ hrow₂ hcolumns₂ hrevision₂ hprocess₂ =>
      posted_ends h₂ ?_ hcolumns₂ hrevision₂ ?_
  · rw [← hcolumns]
    simp only [saveWork, Payment.markProcessing, hok]
    rfl
  · rw [hprocess₂]
    exact hhost₁.debit_awaiting rfl
  · rw [hrow₂]
    simp only [saveWork, Payment.markProcessing, hok]
    rfl

theorem treated_ends (h : Checkpoint s₀ worker q row moved s)
    (hhost : Hosts q.reference.value (s.process worker)
      (PaymentSaga.start q.reference.value) after) (hstatus : row.status ≠ .pending) :
    Inevitable (proceed maxAttempts verdicts worker)
      (Ends s₀ worker q after ⟨row.status, row.failureReason, moved⟩) s := by
  refine h.after_find (by rw [hhost.await]; rfl) fun s₁ t now h₁ hcolumns _ hprocess =>
    .now ⟨row, h₁, rfl, rfl, ?_⟩
  have hstatus' : t.payment.status ≠ .pending := fun heq =>
    hstatus ((congrArg PaymentColumns.status hcolumns).symm.trans heq)
  have hresume : DebitSourceWallet.resume (.find q.reference.value) (.loaded (some t)) now =
      .threw (.domain (.invalidTransition t.payment.status .processing)) := by
    simp [DebitSourceWallet.resume, hstatus']
  rw [hprocess]
  exact Hosts.debit_threw hhost hresume

end

/-!
# The saga of an initiated payment
-/

def State.moved (s : State) (q : Payment) (leg : Leg) : Bool :=
  (Table.find Movement.identifier s.wire.records (q.columns.legKey leg)).isSome

/-- From `s` to `s'` a workflow has brought the payment to its outcome, and left its
worker idle and everything else as it was. -/
structure Concludes (s : State) (worker : ℕ) (q : Payment) (outcome : Outcome) (s' : State) :
    Prop where
  idle : s'.process worker = .idle
  settled : ∃ row, s'.row q.reference.value = some row ∧ row.identity = q.columns.identity ∧
    row.status = outcome.status ∧ row.failureReason = outcome.failureReason
  moved : ∀ leg, s'.moved q leg = outcome.moved leg
  others : ∀ reference, reference ≠ q.reference.value → s'.row reference = s.row reference
  foreign : ∀ k, (∀ leg, k ≠ q.columns.legKey leg) →
    (s'.wire.Recorded Movement.identifier k ↔ s.wire.Recorded Movement.identifier k)

section

variable {maxAttempts worker : ℕ} {verdicts : Verdicts} {s s' : State} {q : Payment}
  {row : PaymentOrmEntity}

/-- A worker that starts a workflow under a free lock stands at its first checkpoint. -/
theorem Invariant.enter (maxAttempts : ℕ) (event : Workers.Event) (hs : Invariant s)
    (hbefore : (s.process worker).await = none)
    (hlock : s.payments.locks q.reference.value = none)
    (hrow : s.row q.reference.value = some row) (hq : row.toPaymentColumns = q.columns)
    {process : Process}
    (hlocal : ∀ worker answer now, event ≠ .answer worker answer now)
    (hclients : clientsAfter s.clients event = s.clients)
    (hevent : Workers.step s.payments event =
      some (s.payments.execute worker q.reference.value process)) :
    ∃ s₁, Platform.step maxAttempts s (.internal event) = some s₁ ∧ s₁.process worker = process ∧
      Checkpoint s worker q row (s.moved q) s₁ := by
  have hstep : Platform.step maxAttempts s (.internal event) =
      some { s with payments := s.payments.execute worker q.reference.value process } := by
    cases event <;>
      first
        | exact absurd rfl (hlocal _ _ _)
        | simp only [Platform.step, hevent, Option.map_some, hclients]
  have hclient : s.clients worker = .idle := hs.client_idle fun call hawait => by
    cases hbefore.symm.trans hawait
  have hdatabase : (s.payments.execute worker q.reference.value process).database =
      s.payments.database := by
    simp [Workers.State.execute, hlock]
  refine ⟨_, hstep, ?_, ⟨⟨State.row_of_database hdatabase hrow, by rw [hq], by rw [hrow]; rfl,
    fun leg => ?_, fun reference _ => ?_, fun k _ => Iff.rfl⟩, hs.step hstep, hclient⟩⟩
  · simp [State.process, Workers.State.execute, hlock]
  · rw [State.moved, Wire.isSome_find_iff]
  · rw [State.row, hdatabase]

theorem Checkpoint.concludes {moved : Leg → Bool} {outcome : Outcome}
    (h : Checkpoint s worker q row moved s') (hmoved : outcome.moved = moved)
    (hstatus : row.status = outcome.status) (hreason : row.failureReason = outcome.failureReason)
    (hidle : s'.process worker = .idle) : Concludes s worker q outcome s' := by
  refine ⟨hidle, ⟨row, h.found, h.identity, hstatus, hreason⟩, ?_, h.others, h.foreign⟩
  intro leg
  rw [hmoved, Bool.eq_iff_iff, ← h.moved leg, State.moved, Wire.isSome_find_iff]

/-- The outcome of a saga that is started: nothing, once the payment has been treated. -/
def Outcome.ofStart (verdicts : Verdicts) (q : Payment) (c : PaymentColumns)
    (moved : Leg → Bool) : Outcome :=
  match c.status with
  | .pending => .ofSaga verdicts q moved
  | status => ⟨status, c.failureReason, moved⟩

/-- The saga of an initiated payment whose lock is free, undisturbed (nothing fails and no
other worker steps in), ends with the outcome that the row and the answers of `accounts`
decide, whatever the clock reads, and touches nothing else. -/
theorem saga_outcome (verdicts : Verdicts) (hreach : Reachable (step maxAttempts) init s)
    (hworker : s.process worker = .initiated q.reference.value)
    (hlock : s.payments.locks q.reference.value = none)
    (hrow : s.row q.reference.value = some row) (hq : row.toPaymentColumns = q.columns)
    (around : ℕ → Surroundings) :
    ∃ n s', (step maxAttempts s (.internal (.start worker))).bind
        (follow (proceed maxAttempts verdicts worker) around n) = some s' ∧
      Concludes s worker q (.ofStart verdicts q row.toPaymentColumns (s.moved q)) s' := by
  have hs := invariant_of_reachable hreach
  obtain ⟨s₁, hstart, hprocess, hcheckpoint⟩ := hs.enter maxAttempts (.start worker)
    (by rw [hworker]; rfl) hlock hrow hq (by rintro _ _ _ ⟨⟩) rfl
    (by simp only [Workers.step, show s.payments.workers worker = _ from hworker]; rfl)
  have hhost : Hosts q.reference.value (s₁.process worker)
      (PaymentSaga.start q.reference.value) .idle := by
    rw [hprocess]
    exact .saga _
  have hends : Inevitable (proceed maxAttempts verdicts worker)
      (Ends s worker q .idle (.ofStart verdicts q row.toPaymentColumns (s.moved q))) s₁ := by
    by_cases hstatus : row.status = .pending
    · simp only [Outcome.ofStart, hstatus]
      exact saga_ends hcheckpoint hhost hstatus
    · have houtcome : Outcome.ofStart verdicts q row.toPaymentColumns (s.moved q) =
          ⟨row.status, row.failureReason, s.moved q⟩ := by
        cases hs' : row.status <;> simp_all [Outcome.ofStart]
      rw [houtcome]
      exact treated_ends hcheckpoint hhost hstatus
  obtain ⟨n, s', hfollow, row', h', hstatus', hreason', hidle⟩ := hends.follow around
  refine ⟨n, s', ?_, h'.concludes rfl hstatus' hreason' hidle⟩
  rw [hstart]
  exact hfollow

end

def samplePayment : Payment where
  reference := Workers.sampleReference
  transactionId := Workers.sampleInput.transactionId
  money := Workers.sampleInput.money
  source := Workers.sampleInput.source
  destination := Workers.sampleInput.destination
  description := Workers.sampleInput.description
  metadata := Workers.sampleInput.metadata
  status := .pending
  createdAt := Workers.sampleMoment.now
  updatedAt := Workers.sampleMoment.now
  failureReason := none
  debitTransactionReference := none
  creditTransactionReference := none
  refundTransactionReference := none
  completedAt := none
  events := []

def initiatedRun : List Event :=
  [.internal (.initiate 0 Workers.sampleInput Workers.sampleReference Workers.sampleMoment .none)]

theorem initiatedRun_pending :
    ∃ s row, run (step 3) init initiatedRun = some s ∧
      s.process 0 = .initiated samplePayment.reference.value ∧
      s.payments.locks samplePayment.reference.value = none ∧
      s.row samplePayment.reference.value = some row ∧
      row.toPaymentColumns = samplePayment.columns ∧ ∀ leg, s.moved samplePayment leg = false :=
  ⟨_, _, rfl, rfl, rfl, rfl, rfl, fun _ => rfl⟩

def frozenDestination : Verdicts := fun call =>
  if call.idempotencyKey = movementKey samplePayment.reference.value .credit then
    some .walletFrozen
  else
    none

/-- With a frozen destination the sample payment is compensated, whatever surrounds it. -/
theorem saga_outcome_frozenDestination :
    ∃ s, run (step 3) init initiatedRun = some s ∧ ∀ around, ∃ n s' row,
      (step 3 s (.internal (.start 0))).bind
        (follow (proceed 3 frozenDestination 0) around n) = some s' ∧
      s'.row samplePayment.reference.value = some row ∧ row.status = .compensated ∧
      s'.moved samplePayment .refund = true ∧ s'.moved samplePayment .credit = false := by
  obtain ⟨s, row, hrun, hworker, hlock, hrow, hq, hmoved⟩ := initiatedRun_pending
  refine ⟨s, hrun, fun around => ?_⟩
  obtain ⟨n, s', hfollow, -, ⟨row', hrow', -, hstatus, -⟩, hmoved', -⟩ :=
    saga_outcome frozenDestination ⟨initiatedRun, hrun⟩ hworker hlock hrow hq around
  have hnone : s.moved samplePayment = fun _ => false := funext hmoved
  have houtcome : Outcome.ofStart frozenDestination samplePayment row.toPaymentColumns
      (s.moved samplePayment) = ⟨.compensated, some .creditFailed,
        Function.update (Function.update (fun _ => false) .debit true) .refund true⟩ := by
    rw [hnone, hq]
    rfl
  rw [houtcome] at hstatus hmoved'
  exact ⟨n, s', row', hfollow, hrow', hstatus, hmoved' .refund, hmoved' .credit⟩

end Platform

end Payments

end Paynad
