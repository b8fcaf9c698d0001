import Paynad.Shared.Json
import Paynad.Payments.Domain.PaymentStatus

/-!
# The payment aggregate

The mutators of the aggregate check and write in turn, so an error can leave
earlier writes behind. Each returns a `Mutated`: the aggregate as it stands
afterwards together with the error thrown, if any.
-/

namespace Paynad

namespace Payments

open Shared

/-- The events an aggregate accumulates until its transaction enqueues them. -/
inductive DomainEvent where
  | paymentApproved (reference : Reference .pay) (money : Money)
      (debitTransactionReference creditTransactionReference : Reference .trx)
      (occurredAt : Date)
  | paymentDeclined (reference : Reference .pay) (money : Money)
      (reason : FailureReason) (occurredAt : Date)
  | paymentCompensated (reference : Reference .pay) (money : Money)
      (refundTransactionReference : Reference .trx) (occurredAt : Date)

namespace DomainEvent

def type : DomainEvent → String
  | .paymentApproved .. => "payment.approved"
  | .paymentDeclined .. => "payment.declined"
  | .paymentCompensated .. => "payment.compensated"

def aggregateReference : DomainEvent → String
  | .paymentApproved reference .. => reference.value
  | .paymentDeclined reference .. => reference.value
  | .paymentCompensated reference .. => reference.value

def occurredAt : DomainEvent → Date
  | .paymentApproved _ _ _ _ occurredAt => occurredAt
  | .paymentDeclined _ _ _ occurredAt => occurredAt
  | .paymentCompensated _ _ _ occurredAt => occurredAt

def payload : DomainEvent → JsonObject
  | .paymentApproved reference money debit credit _ =>
      [("payment_reference", .str reference.value),
        ("amount", .num money.amount),
        ("currency", .str money.currency.code),
        ("debit_transaction_reference", .str debit.value),
        ("credit_transaction_reference", .str credit.value)]
  | .paymentDeclined reference money reason _ =>
      [("payment_reference", .str reference.value),
        ("amount", .num money.amount),
        ("currency", .str money.currency.code),
        ("failure_reason", .str reason.value)]
  | .paymentCompensated reference money refund _ =>
      [("payment_reference", .str reference.value),
        ("amount", .num money.amount),
        ("currency", .str money.currency.code),
        ("refund_transaction_reference", .str refund.value)]

end DomainEvent

structure Payment where
  reference : Reference .pay
  transactionId : String
  money : Money
  source : Reference .wlt
  destination : Reference .wlt
  description : String
  metadata : Option JsonObject
  status : PaymentStatus
  createdAt : Date
  updatedAt : Date
  failureReason : Option FailureReason
  debitTransactionReference : Option (Reference .trx)
  creditTransactionReference : Option (Reference .trx)
  refundTransactionReference : Option (Reference .trx)
  completedAt : Option Date
  events : List DomainEvent

structure InitiatePaymentInput where
  transactionId : String
  money : Money
  source : Reference .wlt
  destination : Reference .wlt
  description : String
  metadata : Option JsonObject

inductive Leg where
  | debit
  | credit
  | refund
  deriving DecidableEq, Repr

def movementKey (reference : String) : Leg → String
  | .debit => reference
  | .credit => reference ++ ":credit"
  | .refund => reference ++ ":refund"

/-- Keys of thirty-character references never collide, across payments or legs. -/
theorem movementKey_inj {p q : Reference .pay} {leg leg' : Leg}
    (h : movementKey p.value leg = movementKey q.value leg') :
    p = q ∧ leg = leg' := by
  have hp := p.length_toList
  have hq := q.length_toList
  have hchars := congrArg String.toList h
  have hlength := congrArg List.length hchars
  cases leg <;> cases leg' <;>
    simp only [movementKey, String.toList_append, List.length_append, hp, hq] at hlength
  case debit.debit => exact ⟨Reference.ext h, rfl⟩
  case credit.credit =>
      refine ⟨Reference.ext (String.toList_inj.mp ?_), rfl⟩
      simpa [movementKey, String.toList_append] using hchars
  case refund.refund =>
      refine ⟨Reference.ext (String.toList_inj.mp ?_), rfl⟩
      simpa [movementKey, String.toList_append] using hchars
  case credit.refund =>
      have hdrop := congrArg (List.drop 30) hchars
      simp only [movementKey, String.toList_append, List.drop_append, hp, hq] at hdrop
      rw [List.drop_of_length_le hp.le, List.drop_of_length_le hq.le] at hdrop
      exact absurd hdrop (by decide)
  case refund.credit =>
      have hdrop := congrArg (List.drop 30) hchars
      simp only [movementKey, String.toList_append, List.drop_append, hp, hq] at hdrop
      rw [List.drop_of_length_le hp.le, List.drop_of_length_le hq.le] at hdrop
      exact absurd hdrop (by decide)
  all_goals exact absurd hlength (by decide)

/-- What a mutator leaves behind: the aggregate as it stands, and the error it
threw, if any. What was written before the error stays written. -/
structure Mutated where
  payment : Payment
  error : Option DomainError

namespace Mutated

/-- The next statements of a mutator, skipped once it has thrown. -/
def andThen (m : Mutated) (f : Payment → Mutated) : Mutated :=
  match m.error with
  | none => f m.payment
  | some _ => m

@[simp] theorem andThen_ok (p : Payment) (f : Payment → Mutated) :
    andThen ⟨p, none⟩ f = f p := rfl

@[simp] theorem andThen_error (p : Payment) (e : DomainError) (f : Payment → Mutated) :
    andThen ⟨p, some e⟩ f = ⟨p, some e⟩ := rfl

theorem error_of_andThen {m : Mutated} {f : Payment → Mutated}
    (h : (m.andThen f).error = none) : m.error = none := by
  obtain ⟨p, error⟩ := m
  cases error with
  | none => rfl
  | some e => exact h

end Mutated

namespace Payment

def initiate (input : InitiatePaymentInput) (reference : Reference .pay) (now : Date) :
    Except DomainError Payment :=
  if input.source = input.destination then
    .error (.sameWallet input.source.value)
  else
    .ok {
      reference := reference
      transactionId := input.transactionId
      money := input.money
      source := input.source
      destination := input.destination
      description := input.description
      metadata := input.metadata
      status := .pending
      createdAt := now
      updatedAt := now
      failureReason := none
      debitTransactionReference := none
      creditTransactionReference := none
      refundTransactionReference := none
      completedAt := none
      events := [] }

theorem of_initiate {input : InitiatePaymentInput} {reference : Reference .pay}
    {now : Date} {p : Payment} (h : initiate input reference now = .ok p) :
    p.reference = reference ∧ p.transactionId = input.transactionId ∧ p.money = input.money ∧
      p.source = input.source ∧ p.destination = input.destination ∧
      p.description = input.description ∧ p.metadata = input.metadata := by
  unfold initiate at h
  split_ifs at h
  · cases h
    exact ⟨rfl, rfl, rfl, rfl, rfl, rfl, rfl⟩

def transitionTo (p : Payment) (target : PaymentStatus) (now : Date) : Mutated :=
  if target ∈ allowedTransitions p.status then
    ⟨{ p with status := target, updatedAt := now }, none⟩
  else
    ⟨p, some (.invalidTransition p.status target)⟩

def assertCurrentlyIn (p : Payment) (expected : PaymentStatus) : Mutated :=
  if p.status ≠ expected then
    ⟨p, some (.invalidTransition p.status expected)⟩
  else
    ⟨p, none⟩

def markProcessing (p : Payment) (now : Date) : Mutated :=
  p.transitionTo .processing now

def markDebited (p : Payment) (debitReference : Reference .trx) (now : Date) : Mutated :=
  (p.assertCurrentlyIn .processing).andThen fun p =>
    ⟨{ p with debitTransactionReference := some debitReference, updatedAt := now }, none⟩

def approve (p : Payment) (creditReference : Reference .trx) (now : Date) : Mutated :=
  (p.transitionTo .approved now).andThen fun p =>
    let p := { p with
      creditTransactionReference := some creditReference
      completedAt := some now }
    -- `requireDebitReference` is evaluated before the event is pushed.
    match p.debitTransactionReference with
    | none => ⟨p, some (.invalidTransition p.status .approved)⟩
    | some debitReference =>
        ⟨{ p with events := p.events ++
            [.paymentApproved p.reference p.money debitReference creditReference now] }, none⟩

def decline (p : Payment) (reason : FailureReason) (now : Date) : Mutated :=
  (p.transitionTo .declined now).andThen fun p =>
    ⟨{ p with
        failureReason := some reason
        completedAt := some now
        events := p.events ++ [.paymentDeclined p.reference p.money reason now] }, none⟩

def compensate (p : Payment) (refundReference : Reference .trx) (now : Date) : Mutated :=
  (p.transitionTo .compensated now).andThen fun p =>
    ⟨{ p with
        refundTransactionReference := some refundReference
        failureReason := some (p.failureReason.getD .creditFailed)
        completedAt := some now
        events := p.events ++
          [.paymentCompensated p.reference p.money refundReference now] }, none⟩

def markCompensationPending (p : Payment) (reason : FailureReason) (now : Date) :
    Mutated :=
  (p.transitionTo .compensationPending now).andThen fun p =>
    ⟨{ p with failureReason := some reason }, none⟩

def pullEvents (p : Payment) : List DomainEvent × Payment :=
  (p.events, { p with events := [] })

/-!
A mutator that does not throw went through one transition of the table, and
these are the aggregates it leaves.
-/

theorem transitionTo_ok {p : Payment} {target : PaymentStatus} {now : Date}
    (h : (p.transitionTo target now).error = none) :
    target ∈ allowedTransitions p.status ∧
      p.transitionTo target now = ⟨{ p with status := target, updatedAt := now }, none⟩ := by
  unfold transitionTo at h ⊢
  split at h
  · rename_i hallowed
    exact ⟨hallowed, if_pos hallowed⟩
  · cases h

theorem markDebited_ok {p : Payment} {debitReference : Reference .trx} {now : Date}
    (h : (p.markDebited debitReference now).error = none) :
    p.status = .processing ∧ p.markDebited debitReference now =
      ⟨{ p with debitTransactionReference := some debitReference, updatedAt := now }, none⟩ := by
  unfold markDebited assertCurrentlyIn at h ⊢
  by_cases hstatus : p.status = .processing
  · exact ⟨hstatus, by simp [hstatus]⟩
  · simp [hstatus] at h

theorem markDebited_error {p : Payment} (debitReference : Reference .trx) (now : Date)
    (h : p.status = .processing) : (p.markDebited debitReference now).error = none := by
  simp [markDebited, assertCurrentlyIn, h]

theorem markCompensationPending_error {p : Payment} (reason : FailureReason) (now : Date)
    (h : p.status = .processing) : (p.markCompensationPending reason now).error = none := by
  simp [markCompensationPending, transitionTo, allowedTransitions, h]

theorem compensate_error {p : Payment} (refundReference : Reference .trx) (now : Date)
    (h : p.status = .compensationPending) : (p.compensate refundReference now).error = none := by
  simp [compensate, transitionTo, allowedTransitions, h]

theorem approve_ok {p : Payment} {creditReference : Reference .trx} {now : Date}
    (h : (p.approve creditReference now).error = none) :
    p.status = .processing ∧ ∃ debitReference,
      p.debitTransactionReference = some debitReference ∧
      p.approve creditReference now =
        ⟨{ p with
            status := .approved
            updatedAt := now
            creditTransactionReference := some creditReference
            completedAt := some now
            events := p.events ++
              [.paymentApproved p.reference p.money debitReference creditReference now] },
          none⟩ := by
  obtain ⟨hallowed, heq⟩ := transitionTo_ok (Mutated.error_of_andThen h)
  have hstatus : p.status = .processing := by
    cases hs : p.status <;> simp [hs, allowedTransitions] at hallowed ⊢
  cases hdebit : p.debitTransactionReference with
  | none => simp [approve, heq, hdebit] at h
  | some debitReference =>
      exact ⟨hstatus, debitReference, rfl, by simp [approve, heq, hdebit]⟩

theorem decline_ok {p : Payment} {reason : FailureReason} {now : Date}
    (h : (p.decline reason now).error = none) :
    .declined ∈ allowedTransitions p.status ∧ p.decline reason now =
      ⟨{ p with
          status := .declined
          updatedAt := now
          failureReason := some reason
          completedAt := some now
          events := p.events ++ [.paymentDeclined p.reference p.money reason now] },
        none⟩ := by
  obtain ⟨hallowed, heq⟩ := transitionTo_ok (Mutated.error_of_andThen h)
  exact ⟨hallowed, by simp [decline, heq]⟩

theorem compensate_ok {p : Payment} {refundReference : Reference .trx} {now : Date}
    (h : (p.compensate refundReference now).error = none) :
    .compensated ∈ allowedTransitions p.status ∧ p.compensate refundReference now =
      ⟨{ p with
          status := .compensated
          updatedAt := now
          refundTransactionReference := some refundReference
          failureReason := some (p.failureReason.getD .creditFailed)
          completedAt := some now
          events := p.events ++
            [.paymentCompensated p.reference p.money refundReference now] },
        none⟩ := by
  obtain ⟨hallowed, heq⟩ := transitionTo_ok (Mutated.error_of_andThen h)
  exact ⟨hallowed, by simp [compensate, heq]⟩

theorem markCompensationPending_ok {p : Payment} {reason : FailureReason} {now : Date}
    (h : (p.markCompensationPending reason now).error = none) :
    p.status = .processing ∧ p.markCompensationPending reason now =
      ⟨{ p with
          status := .compensationPending
          updatedAt := now
          failureReason := some reason }, none⟩ := by
  obtain ⟨hallowed, heq⟩ := transitionTo_ok (Mutated.error_of_andThen h)
  have hstatus : p.status = .processing := by
    cases hs : p.status <;> simp [hs, allowedTransitions] at hallowed ⊢
  exact ⟨hstatus, by simp [markCompensationPending, heq]⟩

end Payment

end Payments

end Paynad
