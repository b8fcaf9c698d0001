import Paynad.Payments.Infrastructure.Database

/-!
# The command handlers

A handler runs from one awaited call to the next. Its `Stage` is the await it is
suspended on together with what its local variables hold there, `await` is the
call itself and `resume` is the code between the answer and the next await. The
three handlers share the calls, the answers and the outcome types below.
-/

namespace Paynad

namespace Payments

open Shared

structure MovementResult where
  transactionReference : Reference .trx
  balanceAfter : ℤ

inductive Operation where
  | debit
  | credit
  deriving DecidableEq, Repr

def Operation.text : Operation → String
  | .debit => "debit"
  | .credit => "credit"

inductive Refusal where
  | insufficientBalance
  | walletNotFound
  | walletFrozen
  | currencyMismatch
  deriving DecidableEq, Repr

def Refusal.error : Refusal → String → DomainError
  | .insufficientBalance => .insufficientBalance
  | .walletNotFound => .walletNotFound
  | .walletFrozen => .walletFrozen
  | .currencyMismatch => .currencyMismatch

/-- The arguments of `AccountsPort.debit` and `AccountsPort.credit`. -/
structure MovementCall where
  operation : Operation
  wallet : Reference .wlt
  money : Money
  idempotencyKey : String
  description : String
  paymentReference : Reference .pay

inductive Await where
  | findByReference (reference : String)
  | transaction (work : Work)
  | movement (call : MovementCall)
  | findMovement (wallet : Reference .wlt) (idempotencyKey : String)
  | recordRecoveryAttempt (reference : String) (failure : Option String)

inductive Input where
  | loaded (t : Option Tracked)
  | queryFailed (message : String)
  | committed (t : Tracked)
  | failed (t : Tracked) (error : Thrown)
  | moved (movement : MovementResult)
  | refused (refusal : Refusal)
  | unavailable
  | found (movement : Option MovementResult)
  | lookupUnavailable
  | recorded

def Await.expects : Await → Input → Bool
  | .findByReference _, .loaded _ => true
  | .findByReference _, .queryFailed _ => true
  | .transaction _, .committed _ => true
  | .transaction _, .failed _ _ => true
  | .movement _, .moved _ => true
  | .movement _, .refused _ => true
  | .movement _, .unavailable => true
  | .findMovement _ _, .found _ => true
  | .findMovement _ _, .lookupUnavailable => true
  | .recordRecoveryAttempt _ _, .recorded => true
  | .recordRecoveryAttempt _ _, .queryFailed _ => true
  | _, _ => false

inductive Progress (σ α : Type) where
  | awaiting (stage : σ)
  | returned (value : α)
  | threw (error : Thrown)

namespace Progress

variable {σ α : Type}

def ofMutated (m : Mutated) (k : Payment → Progress σ α) : Progress σ α :=
  match m.error with
  | none => k m.payment
  | some error => .threw (.domain error)

theorem awaiting_of_ofMutated {m : Mutated} {k : Payment → Progress σ α} {stage : σ}
    (h : ofMutated m k = .awaiting stage) :
    m.error = none ∧ k m.payment = .awaiting stage := by
  unfold ofMutated at h
  split at h
  · exact ⟨‹_›, h⟩
  · cases h

end Progress

def movementsOf (p : Payment) (creditReference : Reference .trx) (now : Date) :
    List LedgerMovement :=
  let occurredAt := p.completedAt.getD now
  [{ transactionId := movementKey p.reference.value .debit
     paymentReference := p.reference
     type := .debit
     wallet := p.source
     movementReference := p.debitTransactionReference
     occurredAt := occurredAt },
   { transactionId := movementKey p.reference.value .credit
     paymentReference := p.reference
     type := .credit
     wallet := p.destination
     movementReference := some creditReference
     occurredAt := occurredAt }]

def refundMovementsOf (p : Payment) (refundReference : Reference .trx) (now : Date) :
    List LedgerMovement :=
  [{ transactionId := movementKey p.reference.value .refund
     paymentReference := p.reference
     type := .refund
     wallet := p.source
     movementReference := some refundReference
     occurredAt := p.completedAt.getD now }]

/-- `transaction.run(() => payments.save(payment))`. -/
def saveWork (t : Tracked) : Work := ⟨t, none, false⟩

def declineWork (t : Tracked) : Work := ⟨t, none, true⟩

def approveWork (t : Tracked) (creditReference : Reference .trx) (now : Date) : Work :=
  ⟨t, some (movementsOf t.payment creditReference now), true⟩

def compensateWork (t : Tracked) (refundReference : Reference .trx) (now : Date) : Work :=
  ⟨t, some (refundMovementsOf t.payment refundReference now), true⟩

namespace DebitSourceWallet

/-- The awaits of `DebitSourceWalletHandler.executeLocked`. -/
inductive Stage where
  | find (reference : String)
  | saveProcessing (t : Tracked)
  | debit (t : Tracked)
  | saveDebited (t : Tracked) (movement : MovementResult)
  | saveDeclined (t : Tracked) (error : DomainError)

def call (p : Payment) : MovementCall where
  operation := .debit
  wallet := p.source
  money := p.money
  idempotencyKey := movementKey p.reference.value .debit
  description := p.description
  paymentReference := p.reference

def Stage.await : Stage → Await
  | .find reference => .findByReference reference
  | .saveProcessing t => .transaction (saveWork t)
  | .debit t => .movement (call t.payment)
  | .saveDebited t _ => .transaction (saveWork t)
  | .saveDeclined t _ => .transaction (declineWork t)

/-- The `catch` block. Only an `AccountsUnavailableError` and an error from
outside the domain leave the payment as it is. -/
def catchError (t : Tracked) (error : Thrown) (now : Date) : Progress Stage String :=
  match error with
  | .other message => .threw (.other message)
  | .domain (.accountsUnavailable operation) =>
      .threw (.domain (.accountsUnavailable operation))
  | .domain error =>
      .ofMutated (t.payment.decline (failureReasonOf error) now) fun payment =>
        .awaiting (.saveDeclined { t with payment := payment } error)

def resume (stage : Stage) (input : Input) (now : Date) : Progress Stage String :=
  match stage, input with
  | .find reference, .loaded none => .threw (.domain (.paymentNotFound reference))
  | .find _, .loaded (some t) =>
      if t.payment.status ≠ .pending then
        .threw (.domain (.invalidTransition t.payment.status .processing))
      else
        .ofMutated (t.payment.markProcessing now) fun payment =>
          .awaiting (.saveProcessing { t with payment := payment })
  | .find _, .queryFailed message => .threw (.other message)
  | .saveProcessing _, .committed t => .awaiting (.debit t)
  | .saveProcessing _, .failed _ error => .threw error
  | .debit t, .moved movement =>
      let marked := t.payment.markDebited movement.transactionReference now
      match marked.error with
      | none => .awaiting (.saveDebited { t with payment := marked.payment } movement)
      | some error => catchError { t with payment := marked.payment } (.domain error) now
  | .debit t, .refused refusal =>
      catchError t (.domain (refusal.error t.payment.source.value)) now
  | .debit t, .unavailable =>
      catchError t (.domain (.accountsUnavailable Operation.debit.text)) now
  | .saveDebited _ movement, .committed _ => .returned movement.transactionReference.value
  | .saveDebited _ _, .failed t error => catchError t error now
  | .saveDeclined _ error, .committed _ => .threw (.domain error)
  | .saveDeclined _ _, .failed _ error => .threw error
  | stage, _ => .awaiting stage

end DebitSourceWallet

namespace CreditDestinationWallet

/-- The awaits of `CreditDestinationWalletHandler.executeLocked`. -/
inductive Stage where
  | find (reference : String)
  | credit (t : Tracked)
  | savePending (t : Tracked) (error : DomainError)
  | saveApproved (t : Tracked) (movement : MovementResult) (now : Date)

def call (p : Payment) : MovementCall where
  operation := .credit
  wallet := p.destination
  money := p.money
  idempotencyKey := movementKey p.reference.value .credit
  description := p.description
  paymentReference := p.reference

def Stage.await : Stage → Await
  | .find reference => .findByReference reference
  | .credit t => .movement (call t.payment)
  | .savePending t _ => .transaction (saveWork t)
  | .saveApproved t movement now =>
      .transaction (approveWork t movement.transactionReference now)

def resume (stage : Stage) (input : Input) (now : Date) : Progress Stage String :=
  match stage, input with
  | .find reference, .loaded none => .threw (.domain (.paymentNotFound reference))
  | .find _, .loaded (some t) =>
      if t.payment.status = .approved then
        match t.payment.creditTransactionReference with
        | some reference => .returned reference.value
        | none => .threw (.other "the credit reference is null")
      else if t.payment.status ≠ .processing ∨
          t.payment.debitTransactionReference = none then
        .threw (.domain (.invalidTransition t.payment.status .approved))
      else
        .awaiting (.credit t)
  | .find _, .queryFailed message => .threw (.other message)
  | .credit t, .moved movement =>
      .ofMutated (t.payment.approve movement.transactionReference now) fun payment =>
        .awaiting (.saveApproved { t with payment := payment } movement now)
  | .credit t, .refused refusal =>
      -- Only an explicit refusal makes a refund safe.
      .ofMutated (t.payment.markCompensationPending .creditFailed now) fun payment =>
        .awaiting (.savePending { t with payment := payment }
          (refusal.error t.payment.destination.value))
  | .credit _, .unavailable =>
      .threw (.domain (.accountsUnavailable Operation.credit.text))
  | .savePending _ error, .committed _ => .threw (.domain error)
  | .savePending _ _, .failed _ error => .threw error
  | .saveApproved _ movement _, .committed _ =>
      .returned movement.transactionReference.value
  | .saveApproved _ _ _, .failed _ error => .threw error
  | stage, _ => .awaiting stage

end CreditDestinationWallet

namespace CompensatePayment

/-- The awaits of `CompensatePaymentHandler.executeLocked`, with those of
`confirmDebit` and `reconcileCredit`. -/
inductive Stage where
  | find (reference : String)
  | findDebit (t : Tracked)
  | saveDebited (t : Tracked) (movement : MovementResult)
  | saveDeclined (t : Tracked)
  | findCredit (t : Tracked)
  | saveApproved (t : Tracked) (movement : MovementResult) (now : Date)
  | savePending (t : Tracked)
  | refund (t : Tracked)
  | saveCompensated (t : Tracked) (movement : MovementResult) (now : Date)

def call (p : Payment) : MovementCall where
  operation := .credit
  wallet := p.source
  money := p.money
  idempotencyKey := movementKey p.reference.value .refund
  description := "Refund of a failed payment"
  paymentReference := p.reference

def Stage.await : Stage → Await
  | .find reference => .findByReference reference
  | .findDebit t =>
      .findMovement t.payment.source (movementKey t.payment.reference.value .debit)
  | .saveDebited t _ => .transaction (saveWork t)
  | .saveDeclined t => .transaction (declineWork t)
  | .findCredit t =>
      .findMovement t.payment.destination (movementKey t.payment.reference.value .credit)
  | .saveApproved t movement now =>
      .transaction (approveWork t movement.transactionReference now)
  | .savePending t => .transaction (saveWork t)
  | .refund t => .movement (call t.payment)
  | .saveCompensated t movement now =>
      .transaction (compensateWork t movement.transactionReference now)

/-- `executeLocked` from the point where the debit is known to exist. -/
def afterDebit (t : Tracked) (debitWasRecorded : Bool) (now : Date) :
    Progress Stage (Option String) :=
  if t.payment.status = .processing ∧ debitWasRecorded then
    -- Even a missing credit can still be in flight: never refund on that evidence.
    .awaiting (.findCredit t)
  else if t.payment.status = .processing then
    -- The refund decision is persisted before the external call.
    .ofMutated (t.payment.markCompensationPending .creditFailed now) fun payment =>
      .awaiting (.savePending { t with payment := payment })
  else
    .awaiting (.refund t)

def resume (stage : Stage) (input : Input) (now : Date) :
    Progress Stage (Option String) :=
  match stage, input with
  | .find reference, .loaded none => .threw (.domain (.paymentNotFound reference))
  | .find _, .loaded (some t) =>
      if t.payment.status = .compensated then
        .returned (t.payment.refundTransactionReference.map Reference.value)
      else if t.payment.status ≠ .processing ∧ t.payment.status ≠ .compensationPending then
        .threw (.domain (.invalidTransition t.payment.status .compensated))
      else if t.payment.debitTransactionReference = none then
        .awaiting (.findDebit t)
      else
        afterDebit t true now
  | .find _, .queryFailed message => .threw (.other message)
  | .findDebit t, .found (some movement) =>
      if t.payment.status = .processing then
        .ofMutated (t.payment.markDebited movement.transactionReference now) fun payment =>
          .awaiting (.saveDebited { t with payment := payment } movement)
      else
        afterDebit t false now
  | .findDebit t, .found none =>
      .ofMutated (t.payment.decline .accountsUnavailable now) fun payment =>
        .awaiting (.saveDeclined { t with payment := payment })
  | .findDebit _, .lookupUnavailable => .returned none
  | .saveDebited _ _, .committed t => afterDebit t false now
  | .saveDebited _ _, .failed _ error => .threw error
  | .saveDeclined _, .committed _ => .returned none
  | .saveDeclined _, .failed _ error => .threw error
  | .findCredit t, .found (some movement) =>
      .ofMutated (t.payment.approve movement.transactionReference now) fun payment =>
        .awaiting (.saveApproved { t with payment := payment } movement now)
  | .findCredit _, .found none => .returned none
  | .findCredit _, .lookupUnavailable => .returned none
  | .saveApproved _ _ _, .committed _ => .returned none
  | .saveApproved _ _ _, .failed _ error => .threw error
  | .savePending _, .committed t => .awaiting (.refund t)
  | .savePending _, .failed _ error => .threw error
  | .refund t, .moved movement =>
      .ofMutated (t.payment.compensate movement.transactionReference now) fun payment =>
        .awaiting (.saveCompensated { t with payment := payment } movement now)
  | .refund _, .refused _ => .returned none
  | .refund _, .unavailable => .returned none
  | .saveCompensated _ movement _, .committed _ =>
      .returned (some movement.transactionReference.value)
  | .saveCompensated _ _ _, .failed _ error => .threw error
  | stage, _ => .awaiting stage

end CompensatePayment

end Payments

end Paynad
