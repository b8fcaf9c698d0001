import Paynad.Library.Locks
import Paynad.Payments.Infrastructure.Database

/-!
# The initiation of payments under concurrency

Any number of executions of `InitiatePaymentHandler` are in progress at once over
the committed tables. An execution rests at one of its awaits with the rows its
transaction has written; `resume` lets that await return. An insertion under a
unique index waits for the transaction that has inserted the same value, and holds
its slot of the index until its own transaction ends.

`IdempotencyService.hash` is a parameter: a digest of the command.
-/

namespace Paynad

namespace Payments

open Shared

inductive Lang where
  | fr
  | en
  deriving DecidableEq, Repr

structure InitiatePaymentCommand where
  transactionId : String
  sourceWallet : String
  destinationWallet : String
  amount : ℚ
  currency : Currency
  description : String
  lang : Lang
  metadata : Option JsonObject

structure InitiatePaymentResult where
  reference : String
  deriving DecidableEq, Repr

inductive InitiationError where
  | malformed (error : MalformedValueError)
  | domain (error : DomainError)
  | idempotencyConflict (key : String)
  | requestInProgress (key : String)
  | other (message : String)
  deriving DecidableEq

inductive IdempotencyStatus where
  | IN_PROGRESS
  | COMPLETED
  deriving DecidableEq, Repr

structure IdempotencyRecord where
  key : String
  requestHash : String
  status : IdempotencyStatus
  paymentReference : Option String
  responseBody : Option InitiatePaymentResult
  deriving DecidableEq, Repr

namespace InitiatePaymentCommand

def payment (command : InitiatePaymentCommand) (reference : Reference .pay) (now : Date) :
    Except InitiationError Payment :=
  match Money.of command.amount command.currency,
    Reference.of .wlt command.sourceWallet, Reference.of .wlt command.destinationWallet with
  | .error error, _, _ => .error (.malformed error)
  | .ok _, .error error, _ => .error (.malformed error)
  | .ok _, .ok _, .error error => .error (.malformed error)
  | .ok money, .ok source, .ok destination =>
      (Payment.initiate ⟨command.transactionId, money, source, destination,
        command.description, command.metadata⟩ reference now).mapError .domain

theorem of_payment {command : InitiatePaymentCommand} {reference : Reference .pay}
    {now : Date} {payment : Payment} (h : command.payment reference now = .ok payment) :
    payment.transactionId = command.transactionId ∧ payment.reference = reference := by
  unfold InitiatePaymentCommand.payment at h
  split at h
  case h_4 =>
    unfold Payment.initiate at h
    split_ifs at h
    · cases h
    · cases h
      exact ⟨rfl, rfl⟩
  all_goals cases h

end InitiatePaymentCommand

namespace Initiation

/-- A value of a unique index: of a key, of the reference or of the transaction id of
a payment. -/
inductive Slot where
  | key (key : String)
  | reference (reference : String)
  | transaction (transactionId : String)
  deriving DecidableEq

/-- The awaits of `InitiatePaymentHandler.execute`. -/
inductive Stage where
  /-- `keys.claim`. -/
  | claiming
  /-- `keys.find`, when the key is another's. -/
  | finding
  /-- The key is inserted as `record`: the callback saves its payment. -/
  | working (record : IdempotencyRecord)
  /-- `keys.complete`. -/
  | completing (record : IdempotencyRecord) (payment : PaymentOrmEntity)
  /-- COMMIT of the creation. -/
  | committing (record : IdempotencyRecord) (payment : PaymentOrmEntity)
  /-- COMMIT of a transaction that found its key completed. -/
  | replaying (result : Option InitiatePaymentResult)
  /-- An error was thrown in the transaction: ROLLBACK. -/
  | failing (error : InitiationError)
  /-- The creation is committed; the saga has not started yet. -/
  | initiated (result : InitiatePaymentResult)
  /-- `saga.run`. -/
  | saga (result : InitiatePaymentResult)
  | answered (result : Option InitiatePaymentResult)
  | failed (error : InitiationError)
  | crashed

structure Execution where
  command : InitiatePaymentCommand
  stage : Stage

def Execution.key (x : Execution) : String := x.command.transactionId

structure Creation where
  execution : ℕ
  key : String
  reference : String
  deriving DecidableEq, Repr

/-- The committed tables, the unique values inserted by open transactions, the
executions; and, as history, which of them created a payment and started a saga. -/
structure State where
  keys : List IdempotencyRecord
  payments : List PaymentOrmEntity
  locks : Locks Slot ℕ
  executions : ℕ → Option Execution
  creations : List Creation
  sagas : List Creation

def init : State := ⟨[], [], .empty, fun _ => none, [], []⟩

namespace State

def find (s : State) (key : String) : Option IdempotencyRecord :=
  Table.find IdempotencyRecord.key s.keys key

def goTo (s : State) (c : ℕ) (x : Execution) (stage : Stage) : State :=
  { s with executions := Function.update s.executions c (some { x with stage := stage }) }

def unlock (s : State) (c : ℕ) : State := { s with locks := s.locks.release c }

def commit (s : State) (c : ℕ) (record : IdempotencyRecord) (payment : PaymentOrmEntity) :
    State :=
  { s with
    keys := Table.insert s.keys record
    payments := Table.insert s.payments payment
    locks := s.locks.release c
    creations := s.creations ++ [⟨c, record.key, payment.reference⟩] }

def startSaga (s : State) (saga : Creation) : State := { s with sagas := s.sagas ++ [saga] }

end State

inductive Event where
  /-- A request is handled: its transaction is open. -/
  | execute (execution : ℕ) (command : InitiatePaymentCommand)
  /-- The await of an execution returns; `reference` is what `Reference.generate` draws. -/
  | resume (execution : ℕ) (reference : Reference .pay) (now : Date)
  /-- A statement of an open transaction fails, its COMMIT included. -/
  | fail (execution : ℕ) (message : String)
  /-- The COMMIT of a creation succeeds and its answer is lost. -/
  | unacknowledge (execution : ℕ) (message : String)
  /-- `saga.run` ends. -/
  | finish (execution : ℕ) (error : Option InitiationError)
  | crash (execution : ℕ)
  /-- Another transaction updates the row of a payment. -/
  | rewrite (reference : String) (columns : PaymentColumns) (now : Date)

def Event.execution : Event → Option ℕ
  | .execute c _ => some c
  | .resume c _ _ => some c
  | .fail c _ => some c
  | .unacknowledge c _ => some c
  | .finish c _ => some c
  | .crash c => some c
  | .rewrite _ _ _ => none

def Stage.open : Stage → Bool
  | .claiming | .finding | .working _ | .completing _ _ | .committing _ _ | .replaying _
  | .failing _ => true
  | _ => false

def Stage.over : Stage → Bool
  | .answered _ | .failed _ | .crashed => true
  | _ => false

section

variable (hash : InitiatePaymentCommand → String)

def claimed (command : InitiatePaymentCommand) : IdempotencyRecord :=
  ⟨command.transactionId, hash command, .IN_PROGRESS, none, none⟩

/-- `TypeOrmIdempotencyRepository.complete`, on the row of the own transaction. -/
def completed (record : IdempotencyRecord) (paymentReference : String)
    (responseBody : InitiatePaymentResult) : IdempotencyRecord :=
  { record with
    status := .COMPLETED
    paymentReference := some paymentReference
    responseBody := some responseBody }

/-- `IdempotencyService.resolveExisting`, once `find` has answered. -/
def resolveExisting (key requestHash : String) (existing : Option IdempotencyRecord) :
    Except InitiationError (Option InitiatePaymentResult) :=
  match existing with
  | none => .error (.requestInProgress key)
  | some existing =>
      if existing.requestHash ≠ requestHash then
        .error (.idempotencyConflict key)
      else if existing.status = .IN_PROGRESS then
        .error (.requestInProgress key)
      else
        .ok existing.responseBody

/-- `INSERT … ON CONFLICT DO NOTHING` of `claim`. -/
def claim (s : State) (c : ℕ) (x : Execution) : Option State :=
  match s.find x.key with
  | some _ => some (s.goTo c x .finding)
  | none =>
      if s.locks.available c (.key x.key) then
        some ({ s with locks := s.locks.acquire c (.key x.key) }.goTo c x
          (.working (claimed hash x.command)))
      else
        none

def work (s : State) (c : ℕ) (x : Execution) (record : IdempotencyRecord)
    (reference : Reference .pay) (now : Date) : Option State :=
  match x.command.payment reference now with
  | .error error => some (s.goTo c x (.failing error))
  | .ok payment =>
      match TypeOrmPaymentRepository.save s.payments ⟨payment, none⟩ now with
      | .error error => some (s.goTo c x (.failing (.domain error)))
      | .ok _ =>
          let slots := [Slot.reference payment.reference.value, .transaction payment.transactionId]
          if slots.all (s.locks.available c) then
            some ({ s with locks := s.locks.acquireAll c slots }.goTo c x
              (.completing record (TypeOrmPaymentRepository.insertedRow
                (PaymentOrmMapper.toPersistence payment) now)))
          else
            none

def resume (s : State) (c : ℕ) (x : Execution) (reference : Reference .pay) (now : Date) :
    Option State :=
  match x.stage with
  | .claiming => claim hash s c x
  | .finding =>
      match resolveExisting x.key (hash x.command) (s.find x.key) with
      | .error error => some (s.goTo c x (.failing error))
      | .ok result => some (s.goTo c x (.replaying result))
  | .working record => work s c x record reference now
  | .completing record payment =>
      let result : InitiatePaymentResult := ⟨payment.reference⟩
      some (s.goTo c x (.committing (completed record payment.reference result) payment))
  | .committing record payment =>
      some ((s.commit c record payment).goTo c x (.initiated ⟨payment.reference⟩))
  | .replaying result => some ((s.unlock c).goTo c x (.answered result))
  | .failing error => some ((s.unlock c).goTo c x (.failed error))
  -- `outcome.replayed` is false: the saga is run.
  | .initiated result =>
      match Reference.of .pay result.reference with
      | .error error => some (s.goTo c x (.failed (.malformed error)))
      | .ok reference =>
          some ((s.startSaga ⟨c, x.key, reference.value⟩).goTo c x (.saga result))
  | .saga _ => none
  | .answered _ => none
  | .failed _ => none
  | .crashed => none

def step (s : State) : Event → Option State
  | .execute c command =>
      match s.executions c with
      | none => some (s.goTo c ⟨command, .claiming⟩ .claiming)
      | some _ => none
  | .resume c reference now => (s.executions c).bind fun x => resume hash s c x reference now
  | .fail c message =>
      (s.executions c).bind fun x =>
        if x.stage.open then some (s.goTo c x (.failing (.other message))) else none
  | .unacknowledge c message =>
      (s.executions c).bind fun x =>
        match x.stage with
        | .committing record payment =>
            some ((s.commit c record payment).goTo c x (.failed (.other message)))
        | _ => none
  | .finish c error =>
      (s.executions c).bind fun x =>
        match x.stage, error with
        | .saga result, none => some (s.goTo c x (.answered (some result)))
        | .saga _, some error => some (s.goTo c x (.failed error))
        | _, _ => none
  | .crash c =>
      (s.executions c).bind fun x =>
        if x.stage.over then none else some ((s.unlock c).goTo c x .crashed)
  | .rewrite reference columns now =>
      some { s with
        payments := Table.modify (fun row => row.reference) s.payments reference
          (TypeOrmPaymentRepository.updatedRow columns now) }

end

end Initiation

end Payments

end Paynad
