import Paynad.Library.Locks
import Paynad.Library.Transition
import Paynad.Payments.Infrastructure.Database

/-!
# Saves in interleaved transactions

Here the transactions of `TransactionContext.run` are not taken as one step. A
worker begins a transaction, saves aggregates in it and commits or rolls back,
while the others do the same. A statement sees the committed rows and the writes
of its own transaction; an `UPDATE` or an `INSERT` holds its lock until the end of
its transaction, and one that needs a lock of another transaction waits, so it is
not enabled. The aggregates are objects in the memory of one worker; what the
repository knows of their revisions does not follow the transactions.
-/

namespace Paynad

namespace Payments

open Shared Transition TypeOrmPaymentRepository

/-- What a writing statement locks: a row through its reference, or a value of the
unique index on `transaction_id`. -/
inductive RowKey where
  | reference (value : String)
  | transactionId (value : String)
  deriving DecidableEq

def Tracked.rowKeys (t : Tracked) : List RowKey :=
  match t.revision with
  | none => [.reference t.payment.reference.value, .transactionId t.payment.transactionId]
  | some _ => [.reference t.payment.reference.value]

namespace TransactionContext

/-- An aggregate in the memory of a worker. -/
structure Object where
  worker : ℕ
  aggregate : Tracked

namespace Object

abbrev reference (object : Object) : String := object.aggregate.payment.reference.value

end Object

structure State where
  /-- The committed rows. -/
  payments : List PaymentOrmEntity
  /-- The rows each open transaction has written, the last one first. -/
  transactions : ℕ → Option (List PaymentOrmEntity)
  locks : Locks RowKey ℕ
  objects : ℕ → Option Object

def init : State := ⟨[], fun _ => none, .empty, fun _ => none⟩

inductive Event where
  /-- An aggregate that is not in the database yet. -/
  | create (worker id : ℕ) (payment : Payment)
  /-- A read of a row through the repository. -/
  | hydrate (worker id : ℕ) (reference : String)
  /-- The domain changes an aggregate; its identity stays. -/
  | mutate (id : ℕ) (payment : Payment)
  /-- `TransactionContext.run` opens a transaction. -/
  | start (worker : ℕ)
  | save (worker id : ℕ) (now : Date)
  | commit (worker : ℕ)
  | rollback (worker : ℕ)

namespace State

def view (s : State) (worker : ℕ) : List PaymentOrmEntity :=
  match s.transactions worker with
  | some writes => Table.merge (fun row => row.reference) writes s.payments
  | none => s.payments

/-- `TypeOrmPaymentRepository.save` of an object in the transaction of its worker:
the row it writes and the object with its new revision, or the error it raises;
`none` while it waits for a lock. -/
def save (s : State) (worker id : ℕ) (now : Date) :
    Option (Except DomainError (PaymentOrmEntity × Tracked)) :=
  match s.transactions worker, s.objects id with
  | some _, some object =>
      if object.worker = worker then
        match TypeOrmPaymentRepository.save (s.view worker) object.aggregate now with
        | .error error => some (.error error)
        | .ok (rows, t) =>
            if object.aggregate.rowKeys.all (s.locks.available worker) then
              (rowOf rows object.reference).map fun row => .ok (row, t)
            else
              none
      else
        none
  | _, _ => none

def close (s : State) (worker : ℕ) : State :=
  { s with
    transactions := Function.update s.transactions worker none
    locks := s.locks.release worker }

end State

def step (s : State) : Event → Option State
  | .create worker id payment =>
      match s.objects id with
      | none => some { s with
          objects := Function.update s.objects id (some ⟨worker, payment, none⟩) }
      | some _ => none
  | .hydrate worker id reference =>
      match s.objects id, rowOf (s.view worker) reference with
      | none, some row =>
          match TypeOrmPaymentRepository.hydrate row with
          | .ok t => some { s with
              objects := Function.update s.objects id (some ⟨worker, t⟩) }
          | .error _ => some s
      | _, _ => none
  | .mutate id payment =>
      match s.objects id with
      | some object =>
          if payment.reference = object.aggregate.payment.reference ∧
              payment.transactionId = object.aggregate.payment.transactionId then
            some { s with
              objects := Function.update s.objects id
                (some { object with aggregate := { object.aggregate with payment := payment } }) }
          else
            none
      | none => none
  | .start worker =>
      match s.transactions worker with
      | none => some { s with transactions := Function.update s.transactions worker (some []) }
      | some _ => none
  | .save worker id now =>
      match s.save worker id now, s.transactions worker, s.objects id with
      | some (.ok (row, t)), some writes, some object =>
          some { s with
            transactions := Function.update s.transactions worker (some (row :: writes))
            locks := s.locks.acquireAll worker object.aggregate.rowKeys
            objects := Function.update s.objects id (some { object with aggregate := t }) }
      | some (.error _), _, _ => some s
      | _, _, _ => none
  | .commit worker =>
      match s.transactions worker with
      | some _ => some { s.close worker with payments := s.view worker }
      | none => none
  | .rollback worker =>
      match s.transactions worker with
      | some _ => some (s.close worker)
      | none => none

end TransactionContext

end Payments

end Paynad
