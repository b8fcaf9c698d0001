import Paynad.Payments.Infrastructure.PaymentMapper

/-!
# Operations of the aggregate that fail

An operation of the aggregate either goes through or throws, and its caller may catch the
error and go on with the aggregate. Every check comes before the first write, but for one:
`approve` asks for the debit reference when it builds its event, after it has moved the
payment to `Approved`.
-/

namespace Paynad

namespace Payments

open Shared

inductive PaymentOperation where
  | markProcessing (now : Date)
  | markDebited (debitReference : Reference .trx) (now : Date)
  | approve (creditReference : Reference .trx) (now : Date)
  | decline (reason : FailureReason) (now : Date)
  | compensate (refundReference : Reference .trx) (now : Date)
  | markCompensationPending (reason : FailureReason) (now : Date)
  | pullEvents

namespace PaymentOperation

def apply (payment : Payment) : PaymentOperation → Mutated
  | .markProcessing now => payment.markProcessing now
  | .markDebited debitReference now => payment.markDebited debitReference now
  | .approve creditReference now => payment.approve creditReference now
  | .decline reason now => payment.decline reason now
  | .compensate refundReference now => payment.compensate refundReference now
  | .markCompensationPending reason now => payment.markCompensationPending reason now
  | .pullEvents => ⟨payment.pullEvents.2, none⟩

def after (payment : Payment) : List PaymentOperation → Payment
  | [] => payment
  | operation :: operations => after (operation.apply payment).payment operations

/-- An approval of a payment that is being processed and has no recorded debit. -/
def Premature (payment : Payment) : PaymentOperation → Prop
  | .approve _ _ =>
      payment.status = .processing ∧ payment.debitTransactionReference = none
  | _ => False

end PaymentOperation

def Mutated.Unchanged (m : Mutated) (payment : Payment) : Prop :=
  m.error ≠ none → m.payment.toSnapshot = payment.toSnapshot ∧ m.payment.events = payment.events

namespace Payment

variable {payment : Payment} {m : Mutated}

theorem transitionTo_unchanged (target : PaymentStatus) (now : Date) :
    (payment.transitionTo target now).Unchanged payment := by
  unfold transitionTo
  split_ifs
  · exact fun h => absurd rfl h
  · exact fun _ => ⟨rfl, rfl⟩

theorem assertCurrentlyIn_unchanged (expected : PaymentStatus) :
    (payment.assertCurrentlyIn expected).Unchanged payment := by
  unfold assertCurrentlyIn
  split_ifs
  · exact fun _ => ⟨rfl, rfl⟩
  · exact fun h => absurd rfl h

end Payment

/-- Statements that do not throw come after the check without harm. -/
theorem Mutated.Unchanged.andThen {payment : Payment} {m : Mutated} (hm : m.Unchanged payment)
    {f : Payment → Mutated} (hf : ∀ p, (f p).error = none) :
    (m.andThen f).Unchanged payment := by
  obtain ⟨p, error⟩ := m
  cases error with
  | none =>
      intro h
      rw [Mutated.andThen_ok] at h
      exact absurd (hf p) h
  | some error => exact hm

namespace PaymentOperation

variable {payment : Payment}

/-- The approval is the operation whose last check comes too late. -/
theorem approve_unchanged_iff (creditReference : Reference .trx) (now : Date) :
    (payment.approve creditReference now).Unchanged payment ↔
      ¬ (payment.status = .processing ∧ payment.debitTransactionReference = none) := by
  by_cases hprocessing : payment.status = .processing
  · have htransition : payment.transitionTo .approved now =
        ⟨{ payment with status := .approved, updatedAt := now }, none⟩ := by
      unfold Payment.transitionTo
      rw [hprocessing]
      rfl
    cases hdebit : payment.debitTransactionReference with
    | none =>
        simp only [hprocessing, true_and, not_true_eq_false, iff_false]
        intro hunchanged
        have hstatus := (hunchanged (by simp [Payment.approve, htransition, hdebit])).1
        have hsame := congrArg PaymentSnapshot.status hstatus
        simp [Payment.approve, htransition, hdebit, Payment.toSnapshot, hprocessing] at hsame
    | some debitReference =>
        simp only [reduceCtorEq, and_false, not_false_eq_true, iff_true]
        intro h
        simp [Payment.approve, htransition, hdebit] at h
  · have hrefused : payment.transitionTo .approved now =
        ⟨payment, some (.invalidTransition payment.status .approved)⟩ := by
      unfold Payment.transitionTo
      refine if_neg fun hallowed => hprocessing ?_
      cases hstatus : payment.status <;> simp [hstatus, allowedTransitions] at hallowed ⊢
    simp only [hprocessing, false_and, not_false_eq_true, iff_true]
    rw [Payment.approve, hrefused]
    exact fun _ => ⟨rfl, rfl⟩

theorem apply_unchanged_iff (operation : PaymentOperation) :
    (operation.apply payment).Unchanged payment ↔ ¬ operation.Premature payment := by
  have hsafe {m : Mutated} (h : m.Unchanged payment) : m.Unchanged payment ↔ ¬ False :=
    ⟨fun _ => not_false, fun _ => h⟩
  cases operation with
  | markProcessing now => exact hsafe (Payment.transitionTo_unchanged _ _)
  | markDebited debitReference now =>
      exact hsafe ((Payment.assertCurrentlyIn_unchanged _).andThen fun _ => rfl)
  | approve creditReference now => exact approve_unchanged_iff creditReference now
  | decline reason now => exact hsafe ((Payment.transitionTo_unchanged _ _).andThen fun _ => rfl)
  | compensate refundReference now =>
      exact hsafe ((Payment.transitionTo_unchanged _ _).andThen fun _ => rfl)
  | markCompensationPending reason now =>
      exact hsafe ((Payment.transitionTo_unchanged _ _).andThen fun _ => rfl)
  | pullEvents => exact hsafe fun h => absurd rfl h

/-- From any aggregate, a new or a restored one in particular, and after any operations, the
failed ones included: an operation that throws leaves the snapshot and the pending events
as they were, unless it approves a payment in progress without a recorded debit. -/
theorem failed_operation_unchanged_iff (start : Payment) (operations : List PaymentOperation)
    (operation : PaymentOperation) :
    (operation.apply (after start operations)).Unchanged (after start operations) ↔
      ¬ operation.Premature (after start operations) :=
  apply_unchanged_iff operation

def sampleInput : InitiatePaymentInput where
  transactionId := "tx-00000001"
  money := ⟨500, .XOF, Money.minimum_le_fiveHundred, Money.step_dvd_fiveHundred⟩
  source := ⟨"wlt_00000000000000000000000001", Eq.refl true⟩
  destination := ⟨"wlt_00000000000000000000000002", Eq.refl true⟩
  description := "Order 1"
  metadata := none

def sampleReference : Reference .pay := ⟨"pay_00000000000000000000000001", Eq.refl true⟩

def sampleCredit : Reference .trx := ⟨"trx_00000000000000000000000001", Eq.refl true⟩

/-- A payment is initiated, marked as processing and approved before its debit. -/
theorem premature_approval_not_unchanged :
    ¬ ∀ input reference now start operations operation,
      Payment.initiate input reference now = .ok start →
      (PaymentOperation.apply (after start operations) operation).Unchanged
        (after start operations) := by
  intro h
  have hunchanged := h sampleInput sampleReference 0 _ [.markProcessing 1]
    (.approve sampleCredit 2) rfl
  rw [apply_unchanged_iff] at hunchanged
  exact hunchanged ⟨rfl, rfl⟩

end PaymentOperation

end Payments

end Paynad
