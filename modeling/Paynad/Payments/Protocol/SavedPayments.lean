import Paynad.Payments.Infrastructure.Database
import Paynad.Payments.Presentation.InitiatePaymentRequest
import Paynad.Payments.Protocol.FailedOperations
import Paynad.Shared.BigintTransformer
import Paynad.Shared.JsonValue

/-!
# Saving and reloading a payment

The handlers read a payment back from its row between their steps. The row has what
`toPersistence` wrote, in columns that hand it back in their own way: the amount as a text,
the metadata without the order of its keys, and timestamps that the database sets. The
aggregate that comes back agrees with the one that was saved, and goes on as that one would.
-/

namespace Paynad

namespace Payments

open Shared

/-- What a `jsonb` column keeps of an object. -/
def metadataValue (metadata : Option JsonObject) : Option Json.Value :=
  metadata.map fun entries => (Json.obj entries).meaning

structure PaymentOrmEntity.Stores (row : PaymentOrmEntity) (written : PaymentColumns) :
    Prop where
  columns : row.toPaymentColumns =
    { written with
      amount := BigintTransformer.toColumn written.amount
      metadata := row.metadata }
  metadata : metadataValue row.metadata = metadataValue written.metadata

def PaymentOrmEntity.load (row : PaymentOrmEntity) : PaymentOrmEntity :=
  { row with amount := BigintTransformer.fromColumn (some row.amount) }

namespace Payment

/-- The two aggregates differ at most in the order of the keys of their metadata, in the
timestamps of their rows and in their pending events. -/
structure Agrees (p q : Payment) : Prop where
  reference : p.reference = q.reference
  transactionId : p.transactionId = q.transactionId
  amount : p.money.amount = q.money.amount
  currency : p.money.currency = q.money.currency
  source : p.source = q.source
  destination : p.destination = q.destination
  description : p.description = q.description
  metadata : metadataValue p.metadata = metadataValue q.metadata
  status : p.status = q.status
  failureReason : p.failureReason = q.failureReason
  debitTransactionReference : p.debitTransactionReference = q.debitTransactionReference
  creditTransactionReference : p.creditTransactionReference = q.creditTransactionReference
  refundTransactionReference : p.refundTransactionReference = q.refundTransactionReference
  completedAt : p.completedAt = q.completedAt

/-- What an aggregate has from the row alone that it is loaded from. -/
structure LoadedFrom (p : Payment) (row : PaymentOrmEntity) : Prop where
  metadata : p.metadata = row.metadata
  createdAt : p.createdAt = row.createdAt
  updatedAt : p.updatedAt = row.updatedAt
  events : p.events = []

end Payment

/-- The two aggregates agree, and the same was thrown. -/
structure Mutated.Agrees (m m' : Mutated) : Prop where
  payment : m.payment.Agrees m'.payment
  error : m.error = m'.error

def PaymentOperation.errors (payment : Payment) : List PaymentOperation → List (Option DomainError)
  | [] => []
  | operation :: operations =>
      (operation.apply payment).error :: errors (operation.apply payment).payment operations

/-! ## What agrees behaves the same -/

namespace Payment.Agrees

variable {p q : Payment} (h : p.Agrees q)
include h

theorem transitionTo (target : PaymentStatus) (now : Date) :
    (p.transitionTo target now).Agrees (q.transitionTo target now) := by
  unfold Payment.transitionTo
  rw [h.status]
  split_ifs
  · exact ⟨{ h with status := rfl }, rfl⟩
  · exact ⟨h, rfl⟩

theorem assertCurrentlyIn (expected : PaymentStatus) :
    (p.assertCurrentlyIn expected).Agrees (q.assertCurrentlyIn expected) := by
  unfold Payment.assertCurrentlyIn
  rw [h.status]
  split_ifs
  · exact ⟨h, rfl⟩
  · exact ⟨h, rfl⟩

end Payment.Agrees

theorem Mutated.Agrees.andThen {m m' : Mutated} (h : m.Agrees m') {f : Payment → Mutated}
    (hf : ∀ p q : Payment, p.Agrees q → (f p).Agrees (f q)) :
    (m.andThen f).Agrees (m'.andThen f) := by
  obtain ⟨p, error⟩ := m
  obtain ⟨q, error'⟩ := m'
  obtain ⟨hpayment, rfl⟩ : p.Agrees q ∧ error = error' := ⟨h.payment, h.error⟩
  cases error with
  | none => exact hf p q hpayment
  | some error => exact h

namespace PaymentOperation

variable {p q : Payment}

/-- An operation throws the same on two aggregates that agree, and leaves two that agree. -/
theorem apply_agrees (h : p.Agrees q) (operation : PaymentOperation) :
    (operation.apply p).Agrees (operation.apply q) := by
  cases operation with
  | markProcessing now => exact h.transitionTo _ _
  | markDebited debitReference now =>
      simp only [apply, Payment.markDebited]
      refine (h.assertCurrentlyIn _).andThen fun p q h => ?_
      exact ⟨{ h with debitTransactionReference := rfl }, rfl⟩
  | approve creditReference now =>
      simp only [apply, Payment.approve]
      refine (h.transitionTo _ _).andThen fun p q h => ?_
      rw [h.debitTransactionReference]
      cases q.debitTransactionReference with
      | none =>
          have herror : some (DomainError.invalidTransition p.status .approved) =
              some (DomainError.invalidTransition q.status .approved) := by rw [h.status]
          exact ⟨{ h with
            debitTransactionReference := rfl
            creditTransactionReference := rfl
            completedAt := rfl }, herror⟩
      | some debitReference =>
          exact ⟨{ h with
            debitTransactionReference := rfl
            creditTransactionReference := rfl
            completedAt := rfl }, rfl⟩
  | decline reason now =>
      simp only [apply, Payment.decline]
      refine (h.transitionTo _ _).andThen fun p q h => ?_
      exact ⟨{ h with failureReason := rfl, completedAt := rfl }, rfl⟩
  | compensate refundReference now =>
      simp only [apply, Payment.compensate]
      refine (h.transitionTo _ _).andThen fun p q h => ?_
      have hreason : some (p.failureReason.getD .creditFailed) =
          some (q.failureReason.getD .creditFailed) := by rw [h.failureReason]
      exact ⟨{ h with
        refundTransactionReference := rfl
        failureReason := hreason
        completedAt := rfl }, rfl⟩
  | markCompensationPending reason now =>
      simp only [apply, Payment.markCompensationPending]
      refine (h.transitionTo _ _).andThen fun p q h => ?_
      exact ⟨{ h with failureReason := rfl }, rfl⟩
  | pullEvents => exact ⟨{ h with }, rfl⟩

/-- Aggregates that agree accept and reject the same operations, one after the other. -/
theorem errors_eq (h : p.Agrees q) (operations : List PaymentOperation) :
    errors p operations = errors q operations := by
  induction operations generalizing p q with
  | nil => rfl
  | cons operation operations ih =>
      have happly := apply_agrees h operation
      rw [errors, errors, happly.error, ih happly.payment]

end PaymentOperation

/-! ## The amount of a payment -/

section

variable {payment p : Payment} {m : Mutated}

theorem Mutated.money_andThen (hm : m.payment.money = p.money) {f : Payment → Mutated}
    (hf : ∀ q, (f q).payment.money = q.money) : (m.andThen f).payment.money = p.money := by
  obtain ⟨q, error⟩ := m
  cases error with
  | none => exact (hf q).trans hm
  | some error => exact hm

theorem Payment.money_transitionTo (target : PaymentStatus) (now : Date) :
    (payment.transitionTo target now).payment.money = payment.money := by
  unfold Payment.transitionTo
  split_ifs <;> rfl

theorem Payment.money_assertCurrentlyIn (expected : PaymentStatus) :
    (payment.assertCurrentlyIn expected).payment.money = payment.money := by
  unfold Payment.assertCurrentlyIn
  split_ifs <;> rfl

namespace PaymentOperation

theorem money_apply (operation : PaymentOperation) :
    (operation.apply payment).payment.money = payment.money := by
  cases operation with
  | markProcessing now => exact Payment.money_transitionTo _ _
  | markDebited debitReference now =>
      exact Mutated.money_andThen (Payment.money_assertCurrentlyIn _) fun _ => rfl
  | approve creditReference now =>
      refine Mutated.money_andThen (Payment.money_transitionTo _ _) fun q => ?_
      cases q.debitTransactionReference <;> rfl
  | decline reason now =>
      exact Mutated.money_andThen (Payment.money_transitionTo _ _) fun _ => rfl
  | compensate refundReference now =>
      exact Mutated.money_andThen (Payment.money_transitionTo _ _) fun _ => rfl
  | markCompensationPending reason now =>
      exact Mutated.money_andThen (Payment.money_transitionTo _ _) fun _ => rfl
  | pullEvents => rfl

theorem money_after (operations : List PaymentOperation) :
    (after payment operations).money = payment.money := by
  induction operations generalizing payment with
  | nil => rfl
  | cons operation operations ih =>
      rw [after, ih]
      exact money_apply operation

end PaymentOperation

end

/-- The payment that a valid request initiates has an amount that passes the check. -/
theorem isValidAmount_of_payment {unicode : Unicode} {request : InitiatePaymentRequest}
    {reference : Reference .pay} {now : Date} {start : Payment} (hvalid : request.Valid unicode)
    (h : request.toCommand.payment reference now = .ok start) :
    isValidAmount (.num start.money.amount) = true := by
  obtain ⟨input, hyields⟩ := hvalid.yields
  rw [hyields.payment] at h
  have hmoney : start.money = input.money := by
    cases hinitiate : Payment.initiate input reference now with
    | error error =>
        rw [hinitiate] at h
        cases h
    | ok payment =>
        rw [hinitiate] at h
        cases h
        exact (Payment.of_initiate hinitiate).2.2.1
  obtain ⟨money, hof, hamount⟩ :=
    InitiatePaymentRequest.money_of_isValidAmount request.currency hvalid.amount
  obtain rfl : money = input.money := by
    have heq := hof.symm.trans hyields.money
    cases heq
    rfl
  rw [hmoney, hamount]
  exact hvalid.amount

theorem PaymentOrmEntity.load_eq {row : PaymentOrmEntity}
    (h : isValidAmount (.num row.amount) = true) : row.load = row :=
  congrArg (fun amount => { row with amount := amount }) (BigintTransformer.fromColumn_amount h)

theorem toDomain_load {row : PaymentOrmEntity} {p : Payment}
    (hamount : isValidAmount (.num p.money.amount) = true)
    (hrow : row.Stores (PaymentOrmMapper.toPersistence p)) :
    ∃ q, PaymentOrmMapper.toDomain row.load = .ok q ∧ q.Agrees p ∧ q.LoadedFrom row := by
  have hload : row.load = row := by
    refine PaymentOrmEntity.load_eq ?_
    rw [congrArg PaymentColumns.amount hrow.columns]
    exact hamount
  have hwritten : row.toPaymentColumns =
      PaymentOrmMapper.toPersistence { p with metadata := row.metadata } := hrow.columns
  rw [hload]
  refine ⟨_, PaymentOrmMapper.toDomain_of_written hwritten, ?_, ⟨rfl, rfl, rfl, rfl⟩⟩
  exact ⟨rfl, rfl, rfl, rfl, rfl, rfl, rfl, hrow.metadata, rfl, rfl, rfl, rfl, rfl, rfl⟩

/-- A payment that a validated request initiates, after any operations, the failed ones
included: the row it is saved in loads, as an aggregate that agrees with it and has no pending
events, and that accepts and rejects what it would from there on. -/
theorem saved_payment_reloads {unicode : Unicode} {body : Json}
    {request : InitiatePaymentRequest} {reference : Reference .pay} {now : Date}
    {start : Payment} (hrequest : InitiatePaymentRequest.parse unicode body = some request)
    (hstart : request.toCommand.payment reference now = .ok start)
    (operations : List PaymentOperation) {row : PaymentOrmEntity}
    (hrow : row.Stores (PaymentOrmMapper.toPersistence (PaymentOperation.after start operations))) :
    ∃ payment, PaymentOrmMapper.toDomain row.load = .ok payment ∧
      payment.Agrees (PaymentOperation.after start operations) ∧ payment.LoadedFrom row ∧
      ∀ next, PaymentOperation.errors payment next =
        PaymentOperation.errors (PaymentOperation.after start operations) next := by
  have hvalid := InitiatePaymentRequest.valid_of_parse hrequest
  have hamount : isValidAmount (.num (PaymentOperation.after start operations).money.amount) =
      true := by
    rw [PaymentOperation.money_after]
    exact isValidAmount_of_payment hvalid hstart
  obtain ⟨payment, hload, hagrees, hloaded⟩ := toDomain_load hamount hrow
  exact ⟨payment, hload, hagrees, hloaded, PaymentOperation.errors_eq hagrees⟩

def orderMetadata : JsonObject :=
  [("user_reference", .str "usr_00000000000000000000000001"), ("order", .str "7")]

def orderBody : Json :=
  .obj [("transaction_id", .str "order-0001"),
    ("source_wallet_reference", .str "wlt_00000000000000000000000001"),
    ("destination_wallet_reference", .str "wlt_00000000000000000000000002"),
    ("amount", .num 500),
    ("currency", .str "XOF"),
    ("description", .str "Order 1"),
    ("lang", .str "fr"),
    ("metadata", .obj orderMetadata)]

def orderRequest : InitiatePaymentRequest where
  transactionId := "order-0001"
  sourceWalletReference := "wlt_00000000000000000000000001"
  destinationWalletReference := "wlt_00000000000000000000000002"
  amount := 500
  currency := .XOF
  description := "Order 1"
  lang := .fr
  metadata := some orderMetadata

def orderDebit : Reference .trx := ⟨"trx_00000000000000000000000007", Eq.refl true⟩

def orderOperations : List PaymentOperation :=
  [.markProcessing 1, .markDebited orderDebit 2, .markProcessing 3,
    .markCompensationPending .creditFailed 4]

/-- The column hands the keys of the metadata back in the other order. -/
theorem saved_payment_reloads_orderRequest :
    ∃ (start : Payment) (row : PaymentOrmEntity) (payment : Payment),
      orderRequest.toCommand.payment PaymentOperation.sampleReference 0 = .ok start ∧
      row.Stores (PaymentOrmMapper.toPersistence (PaymentOperation.after start orderOperations)) ∧
      PaymentOrmMapper.toDomain row.load = .ok payment ∧
      payment.metadata = some orderMetadata.reverse ∧ payment.status = .compensationPending := by
  obtain ⟨start, hstart, hmetadata, hstatus⟩ :
      ∃ start, orderRequest.toCommand.payment PaymentOperation.sampleReference 0 = .ok start ∧
        (PaymentOperation.after start orderOperations).metadata = some orderMetadata ∧
        (PaymentOperation.after start orderOperations).status = .compensationPending :=
    ⟨_, rfl, rfl, rfl⟩
  let row := TypeOrmPaymentRepository.insertedRow
    { PaymentOrmMapper.toPersistence (PaymentOperation.after start orderOperations) with
      metadata := some orderMetadata.reverse } 5
  have hmeaning : (Json.obj orderMetadata.reverse).meaning = (Json.obj orderMetadata).meaning :=
    Json.meaning_obj_of_perm (f := id) (by decide) (by simp)
      fun _ _ => rfl
  have hrow : row.Stores
      (PaymentOrmMapper.toPersistence (PaymentOperation.after start orderOperations)) := by
    refine ⟨rfl, ?_⟩
    rw [show (PaymentOrmMapper.toPersistence (PaymentOperation.after start
      orderOperations)).metadata = some orderMetadata from hmetadata]
    exact congrArg some hmeaning
  have hparse : InitiatePaymentRequest.parse Unicode.ascii orderBody = some orderRequest := rfl
  obtain ⟨payment, hload, hagrees, hloaded, -⟩ :=
    saved_payment_reloads hparse hstart orderOperations hrow
  exact ⟨start, row, payment, hstart, hrow, hload, hloaded.metadata,
    hagrees.status.trans hstatus⟩

end Payments

end Paynad
