import Paynad.Payments.Domain.Payment

/-!
# Snapshots and rows of a payment

A payment passes through three hand-written representations: the aggregate, its
flat `PaymentSnapshot` and the row of the `payments` table. The references of a
row are texts again, so reading one back validates them; a row written by
`toPersistence` always reads back, as the aggregate it was written from.
-/

namespace Paynad

namespace Payments

open Shared

structure PaymentSnapshot where
  reference : String
  transactionId : String
  amount : ℤ
  currency : Currency
  sourceWallet : String
  destinationWallet : String
  description : String
  status : PaymentStatus
  failureReason : Option FailureReason
  debitTransactionReference : Option String
  creditTransactionReference : Option String
  refundTransactionReference : Option String
  metadata : Option JsonObject
  createdAt : Date
  updatedAt : Date
  completedAt : Option Date

namespace Payment

def toSnapshot (p : Payment) : PaymentSnapshot where
  reference := p.reference.value
  transactionId := p.transactionId
  amount := p.money.amount
  currency := p.money.currency
  sourceWallet := p.source.value
  destinationWallet := p.destination.value
  description := p.description
  status := p.status
  failureReason := p.failureReason
  debitTransactionReference := p.debitTransactionReference.map Reference.value
  creditTransactionReference := p.creditTransactionReference.map Reference.value
  refundTransactionReference := p.refundTransactionReference.map Reference.value
  metadata := p.metadata
  createdAt := p.createdAt
  updatedAt := p.updatedAt
  completedAt := p.completedAt

def restoreReference : Option String →
    Except MalformedValueError (Option (Reference .trx))
  | none => .ok none
  | some value =>
      if value = "" then .ok none else (Reference.of .trx value).map some

/-- `Payment.restore`: rehydration is silent, it raises no event. -/
def restore (snapshot : PaymentSnapshot) : Except MalformedValueError Payment := do
  let reference ← Reference.of .pay snapshot.reference
  let money ← Money.of snapshot.amount snapshot.currency
  let source ← Reference.of .wlt snapshot.sourceWallet
  let destination ← Reference.of .wlt snapshot.destinationWallet
  let debit ← restoreReference snapshot.debitTransactionReference
  let credit ← restoreReference snapshot.creditTransactionReference
  let refund ← restoreReference snapshot.refundTransactionReference
  return {
    reference := reference
    transactionId := snapshot.transactionId
    money := money
    source := source
    destination := destination
    description := snapshot.description
    metadata := snapshot.metadata
    status := snapshot.status
    createdAt := snapshot.createdAt
    updatedAt := snapshot.updatedAt
    failureReason := snapshot.failureReason
    debitTransactionReference := debit
    creditTransactionReference := credit
    refundTransactionReference := refund
    completedAt := snapshot.completedAt
    events := [] }

@[simp] theorem restoreReference_map_value (r : Option (Reference .trx)) :
    restoreReference (r.map Reference.value) = .ok r := by
  cases r with
  | none => rfl
  | some r =>
      simp only [Option.map_some, restoreReference, if_neg r.value_ne_empty,
        Reference.of_value]
      rfl

theorem restore_toSnapshot (p : Payment) :
    restore p.toSnapshot = .ok { p with events := [] } := by
  simp [restore, toSnapshot, bind, Except.bind, pure, Except.pure]

theorem reference_of_restore {snapshot : PaymentSnapshot} {p : Payment}
    (h : restore snapshot = .ok p) : p.reference.value = snapshot.reference := by
  simp only [restore, bind, Except.bind] at h
  cases hreference : Reference.of .pay snapshot.reference with
  | error e =>
      rw [hreference] at h
      cases h
  | ok reference =>
      simp only [hreference] at h
      rw [← Reference.value_of_ok hreference]
      iterate 6
        split at h
        · cases h
      cases h
      rfl

end Payment

structure PaymentColumns where
  reference : String
  transactionId : String
  amount : ℤ
  currency : Currency
  sourceWalletReference : String
  destinationWalletReference : String
  description : String
  status : PaymentStatus
  failureReason : Option FailureReason
  debitTransactionReference : Option String
  creditTransactionReference : Option String
  refundTransactionReference : Option String
  metadata : Option JsonObject
  completedAt : Option Date

/-- A row of the `payments` table: the mapped columns and those the database and
the repository keep for themselves. -/
structure PaymentOrmEntity extends PaymentColumns where
  version : ℕ
  reconciliationAttempts : ℕ
  nextReconciliationAt : Date
  lastReconciliationError : Option String
  createdAt : Date
  updatedAt : Date

namespace PaymentOrmMapper

def toPersistence (p : Payment) : PaymentColumns :=
  let snapshot := p.toSnapshot
  { reference := snapshot.reference
    transactionId := snapshot.transactionId
    amount := snapshot.amount
    currency := snapshot.currency
    sourceWalletReference := snapshot.sourceWallet
    destinationWalletReference := snapshot.destinationWallet
    description := snapshot.description
    status := snapshot.status
    failureReason := snapshot.failureReason
    debitTransactionReference := snapshot.debitTransactionReference
    creditTransactionReference := snapshot.creditTransactionReference
    refundTransactionReference := snapshot.refundTransactionReference
    metadata := snapshot.metadata
    completedAt := snapshot.completedAt }

@[simp] theorem toPersistence_reference (p : Payment) :
    (toPersistence p).reference = p.reference.value := rfl

@[simp] theorem toPersistence_amount (p : Payment) :
    (toPersistence p).amount = p.money.amount := rfl

@[simp] theorem toPersistence_sourceWalletReference (p : Payment) :
    (toPersistence p).sourceWalletReference = p.source.value := rfl

@[simp] theorem toPersistence_destinationWalletReference (p : Payment) :
    (toPersistence p).destinationWalletReference = p.destination.value := rfl

@[simp] theorem toPersistence_status (p : Payment) :
    (toPersistence p).status = p.status := rfl

@[simp] theorem toPersistence_failureReason (p : Payment) :
    (toPersistence p).failureReason = p.failureReason := rfl

@[simp] theorem toPersistence_debitTransactionReference (p : Payment) :
    (toPersistence p).debitTransactionReference =
      p.debitTransactionReference.map Reference.value := rfl

@[simp] theorem toPersistence_creditTransactionReference (p : Payment) :
    (toPersistence p).creditTransactionReference =
      p.creditTransactionReference.map Reference.value := rfl

@[simp] theorem toPersistence_refundTransactionReference (p : Payment) :
    (toPersistence p).refundTransactionReference =
      p.refundTransactionReference.map Reference.value := rfl

@[simp] theorem toPersistence_completedAt (p : Payment) :
    (toPersistence p).completedAt = p.completedAt := rfl

def toDomain (row : PaymentOrmEntity) : Except MalformedValueError Payment :=
  Payment.restore
    { reference := row.reference
      transactionId := row.transactionId
      amount := row.amount
      currency := row.currency
      sourceWallet := row.sourceWalletReference
      destinationWallet := row.destinationWalletReference
      description := row.description
      status := row.status
      failureReason := row.failureReason
      debitTransactionReference := row.debitTransactionReference
      creditTransactionReference := row.creditTransactionReference
      refundTransactionReference := row.refundTransactionReference
      metadata := row.metadata
      createdAt := row.createdAt
      updatedAt := row.updatedAt
      completedAt := row.completedAt }

/-- A written row reads back as the aggregate it was written from, up to the
timestamps the database owns and the event buffer. -/
theorem toDomain_of_written {row : PaymentOrmEntity} {p : Payment}
    (h : row.toPaymentColumns = toPersistence p) :
    toDomain row =
      .ok { p with events := [], createdAt := row.createdAt, updatedAt := row.updatedAt } := by
  obtain ⟨columns, version, attempts, next, error, createdAt, updatedAt⟩ := row
  obtain rfl : columns = toPersistence p := h
  exact Payment.restore_toSnapshot { p with createdAt := createdAt, updatedAt := updatedAt }

end PaymentOrmMapper

end Payments

end Paynad
