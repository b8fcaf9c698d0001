import Paynad.Payments.Domain.Payment

/-!
# Messages of the outbox

Two writers fill the outbox: `PaymentEvents.enqueue` with the lifecycle events
of the aggregate and `TransactionsOutboxAdapter.record` with the movements for
the ledger. `reading` is what a consumer learns from a message of either kind.
-/

namespace Paynad

namespace Payments

open Shared

structure OutboxMessage where
  aggregateReference : String
  eventType : String
  payload : JsonObject

inductive MovementType where
  | debit
  | credit
  | refund
  deriving DecidableEq, Repr

def MovementType.text : MovementType → String
  | .debit => "DEBIT"
  | .credit => "CREDIT"
  | .refund => "REFUND"

structure LedgerMovement where
  transactionId : String
  paymentReference : Reference .pay
  type : MovementType
  wallet : Reference .wlt
  movementReference : Option (Reference .trx)
  occurredAt : Date

/-- What the environment supplies while a workflow runs: the clock and the
correlation id of the request. -/
structure Moment where
  now : Date
  correlationId : String

def transactionRecorded : String := "payment.transaction.recorded"

def outboxMessageStatus : String := "Approved"

/-- `UNKNOWN_USER`: the ledger row of a wallet whose owner the caller left out. -/
def unknownUser : String := "usr_00000000000000000000000000"

/-- The message `TransactionsOutboxAdapter.record` writes for one movement. -/
def recordMessage (p : Payment) (moment : Moment) (movement : LedgerMovement) :
    OutboxMessage where
  aggregateReference := p.reference.value
  eventType := transactionRecorded
  payload :=
    [("transaction_id", .str movement.transactionId),
      ("payment_reference", .str movement.paymentReference.value),
      ("type", .str movement.type.text),
      ("wallet_reference", .str movement.wallet.value),
      ("user_reference",
        Json.orElse (p.metadata.bind (·.lookup "user_reference")) (.str unknownUser)),
      ("amount", .num p.money.amount),
      ("currency", .str p.money.currency.code),
      ("description", .str p.description),
      ("status", .str outboxMessageStatus),
      ("occurred_at", .str (toISOString movement.occurredAt)),
      ("correlation_id", .str moment.correlationId),
      ("emitted_at", .str (toISOString moment.now))]

def eventMessage (event : DomainEvent) : OutboxMessage where
  aggregateReference := event.aggregateReference
  eventType := event.type
  payload := event.payload ++ [("occurred_at", .str (toISOString event.occurredAt))]

abbrev LedgerLine := String × String × ℚ

namespace OutboxMessage

def ledgerLine (m : OutboxMessage) : Option LedgerLine := do
  let type ← (m.payload.lookup "type").bind Json.str?
  let wallet ← (m.payload.lookup "wallet_reference").bind Json.str?
  let amount ← (m.payload.lookup "amount").bind Json.num?
  return (type, wallet, amount)

/-- What a message announces: its event type and the movement it carries. -/
def reading (m : OutboxMessage) : String × Option LedgerLine :=
  (m.eventType, m.ledgerLine)

end OutboxMessage

@[simp] theorem aggregateReference_recordMessage (p : Payment) (moment : Moment)
    (movement : LedgerMovement) :
    (recordMessage p moment movement).aggregateReference = p.reference.value := rfl

@[simp] theorem aggregateReference_eventMessage (event : DomainEvent) :
    (eventMessage event).aggregateReference = event.aggregateReference := rfl

@[simp] theorem reading_recordMessage (p : Payment) (moment : Moment) (movement : LedgerMovement) :
    (recordMessage p moment movement).reading =
      (transactionRecorded,
        some (movement.type.text, movement.wallet.value, (p.money.amount : ℚ))) := by
  simp [OutboxMessage.reading, OutboxMessage.ledgerLine, recordMessage, List.lookup_cons,
    Json.str?, Json.num?]

@[simp] theorem reading_eventMessage (event : DomainEvent) :
    (eventMessage event).reading = (event.type, none) := by
  cases event <;>
    simp [OutboxMessage.reading, OutboxMessage.ledgerLine, eventMessage,
      DomainEvent.payload, List.lookup_cons]

end Payments

end Paynad
