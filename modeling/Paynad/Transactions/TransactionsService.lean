import Mathlib.Algebra.Ring.Int.Defs
import Paynad.Library.Table
import Paynad.Transactions.RecordTransactionRequest

/-!
# Recording a movement

`TransactionsService.record` awaits up to three calls to the database: the preliminary
lookup, the append and, when the append lost a race, the lookup of the winner. A call
rests at one of these awaits; `resume` is what the await returns and the code up to the
next one. The append is one transaction, so it takes effect as one step.
-/

namespace Paynad

namespace Transactions

open Shared

structure Transaction where
  id : String
  reference : String
  transactionId : String
  paymentReference : String
  type : TransactionType
  walletReference : String
  userReference : String
  amount : ℤ
  currency : Currency
  description : String
  status : TransactionStatus
  occurredAt : ℤ
  recordedAt : Date
  deriving DecidableEq

/-- What the server generates for a row: its id, a `generateReference` and the clock of
the insertion. -/
structure Generated where
  id : String
  reference : String
  recordedAt : Date
  wellFormed : referencePattern .TRANSACTION reference = true

def sampleGenerated : Generated :=
  ⟨"9f1c2b7e-4d10-4f2a-9a4c-8f7d3c2b1a05", "trx_00000000000000000000000001", 1788689702412,
    by decide⟩

structure DriverError where
  code : Option String
  constraint : Option String
  message : String
  deriving DecidableEq

def isUniqueViolation (error : DriverError) (constraint : String) : Bool :=
  error.code == some "23505" && error.constraint == some constraint

def DriverError.uniqueViolation (constraint : String) : DriverError :=
  ⟨some "23505", some constraint, "duplicate key value violates unique constraint"⟩

def uqTransactionId : String := "uq_transactions_transaction_id"

def uqReference : String := "uq_transactions_reference"

def pkId : String := "PK_a219afd8dd77ed80f5a862f1db9"

def findByTransactionId (rows : List Transaction) (transactionId : String) :
    Option Transaction :=
  Table.find (·.transactionId) rows transactionId

namespace Transaction

/-- The widths of the text columns and the range of `bigint`. -/
def fits (row : Transaction) : Bool :=
  decide (row.reference.toList.length ≤ 32) && decide (row.transactionId.toList.length ≤ 64) &&
    decide (row.paymentReference.toList.length ≤ 32) &&
    decide (row.type.text.toList.length ≤ 16) &&
    decide (row.walletReference.toList.length ≤ 32) &&
    decide (row.userReference.toList.length ≤ 32) &&
    decide (-2 ^ 63 ≤ row.amount) && decide (row.amount < 2 ^ 63) &&
    decide (row.currency.code.toList.length ≤ 3) &&
    decide (row.description.toList.length ≤ 255) &&
    decide (row.status.text.toList.length ≤ 16)

/-- The row of a request; `none` is an `Invalid Date`. -/
def ofRequest (timestamps : Timestamps) (request : RecordTransactionRequest)
    (generated : Generated) : Option Transaction :=
  (timestamps.parse request.occurredAt).map fun occurredAt =>
    { id := generated.id
      reference := generated.reference
      transactionId := request.transactionId
      paymentReference := request.paymentReference
      type := request.type
      walletReference := request.walletReference
      userReference := request.userReference
      amount := request.amount
      currency := request.currency
      description := request.description
      status := request.status
      occurredAt := occurredAt
      recordedAt := generated.recordedAt }

end Transaction

/-- `TransactionRepository.append`: the row the insertion stores, or its error. -/
def append (timestamps : Timestamps) (rows : List Transaction) :
    Option Transaction → Except DriverError Transaction
  | none => .error ⟨some "22007", none, "invalid input syntax for type timestamp"⟩
  | some row =>
      if !timestamps.storable row.occurredAt then
        .error ⟨some "22008", none, "timestamp out of range"⟩
      else if !row.fits then
        .error ⟨some "22001", none, "value too long"⟩
      else if rows.any (·.id = row.id) then
        .error (.uniqueViolation pkId)
      else if rows.any (·.reference = row.reference) then
        .error (.uniqueViolation uqReference)
      else if rows.any (·.transactionId = row.transactionId) then
        .error (.uniqueViolation uqTransactionId)
      else
        .ok row

structure RecordOutcome where
  transaction : Transaction
  created : Bool
  deriving DecidableEq

/-- How a call to the database goes: as it should, not at all, or with its answer lost. -/
inductive Fault where
  | none
  | failed (error : DriverError)
  | lost (error : DriverError)
  deriving DecidableEq

/-- The awaits of `record`, and its ends. -/
inductive Stage where
  | looking
  | appending
  /-- The append has violated the index of `transaction_id` with this error. -/
  | rereading (error : DriverError)
  | returned (outcome : RecordOutcome)
  | thrown (error : DriverError)
  | crashed
  deriving DecidableEq

def Stage.over : Stage → Bool
  | .returned _ => true
  | .thrown _ => true
  | .crashed => true
  | _ => false

def catchError (error : DriverError) : Stage :=
  if isUniqueViolation error uqTransactionId then .rereading error else .thrown error

/-- The end of an await: the row it has committed, if any, and the next stage. -/
def resume (timestamps : Timestamps) (request : RecordTransactionRequest)
    (rows : List Transaction) (generated : Generated) (fault : Fault) :
    Stage → Option Transaction × Stage
  | .looking =>
      match fault with
      | .none =>
          match findByTransactionId rows request.transactionId with
          | some known => (none, .returned ⟨known, false⟩)
          | none => (none, .appending)
      | .failed error => (none, .thrown error)
      | .lost error => (none, .thrown error)
  | .appending =>
      match fault, append timestamps rows (Transaction.ofRequest timestamps request generated) with
      | .failed error, _ => (none, catchError error)
      | .none, .ok row => (some row, .returned ⟨row, true⟩)
      | .none, .error error => (none, catchError error)
      | .lost error, .ok row => (some row, catchError error)
      | .lost error, .error _ => (none, catchError error)
  | .rereading error =>
      match fault with
      | .none =>
          match findByTransactionId rows request.transactionId with
          | some winner => (none, .returned ⟨winner, false⟩)
          | none => (none, .thrown error)
      | .failed error => (none, .thrown error)
      | .lost error => (none, .thrown error)
  | stage => (none, stage)

/-! ## What one await can do -/

section

variable {timestamps : Timestamps} {request : RecordTransactionRequest}
  {rows : List Transaction} {generated : Generated} {row : Transaction} {fault : Fault}
  {stage stage' : Stage} {error : DriverError}

theorem append_ok {candidate : Option Transaction}
    (h : append timestamps rows candidate = .ok row) :
    candidate = some row ∧ findByTransactionId rows row.transactionId = none := by
  cases candidate with
  | none => cases h
  | some row' =>
      simp only [append] at h
      split_ifs at h with _ _ _ _ hany
      cases h
      refine ⟨rfl, Table.find_eq_none_iff.mpr fun r hr heq => hany ?_⟩
      exact List.any_eq_true.mpr ⟨r, hr, decide_eq_true heq⟩

theorem append_id {candidate : Option Transaction}
    (h : append timestamps rows candidate = .ok row) : ∀ other ∈ rows, other.id ≠ row.id := by
  cases candidate with
  | none => cases h
  | some row' =>
      simp only [append] at h
      split_ifs at h with _ _ hany
      cases h
      intro other hother heq
      exact hany (List.any_eq_true.mpr ⟨other, hother, decide_eq_true heq⟩)

theorem catchError_ne_returned {outcome : RecordOutcome} :
    catchError error ≠ .returned outcome := by
  unfold catchError
  split_ifs <;> nofun

theorem transactionId_ofRequest
    (h : Transaction.ofRequest timestamps request generated = some row) :
    row.transactionId = request.transactionId := by
  obtain ⟨instant, -, rfl⟩ := Option.map_eq_some_iff.mp h
  rfl

/-- An await writes nothing, and then returns only a row it has found; or it is the append,
which returns the row it has written unless its answer is lost. -/
theorem resume_cases (timestamps : Timestamps) (request : RecordTransactionRequest)
    (rows : List Transaction) (generated : Generated) (fault : Fault) (stage : Stage)
    (hover : stage.over = false) :
    ((resume timestamps request rows generated fault stage).1 = none ∧
      ∀ outcome, (resume timestamps request rows generated fault stage).2 = .returned outcome →
        outcome.created = false ∧
          findByTransactionId rows request.transactionId = some outcome.transaction) ∨
    ∃ row, (resume timestamps request rows generated fault stage).1 = some row ∧
      Transaction.ofRequest timestamps request generated = some row ∧
      findByTransactionId rows row.transactionId = none ∧
      ((resume timestamps request rows generated fault stage).2 = .returned ⟨row, true⟩ ∨
        ∃ error, fault = .lost error ∧
          (resume timestamps request rows generated fault stage).2 = catchError error) := by
  have hfinds : ∀ ends : Stage, (∀ outcome, ends ≠ .returned outcome) → ∀ outcome,
      (match findByTransactionId rows request.transactionId with
        | some known => ((none : Option Transaction), Stage.returned ⟨known, false⟩)
        | none => (none, ends)).2 = .returned outcome →
      outcome.created = false ∧
        findByTransactionId rows request.transactionId = some outcome.transaction := by
    intro ends hends outcome h
    split at h
    · next known hfound =>
        cases h
        exact ⟨rfl, hfound⟩
    · exact absurd h (hends outcome)
  cases stage with
  | looking =>
      left
      cases fault with
      | none =>
          simp only [resume]
          refine ⟨?_, hfinds .appending nofun⟩
          split <;> rfl
      | failed error | lost error => exact ⟨rfl, nofun⟩
  | rereading error =>
      left
      cases fault with
      | none =>
          simp only [resume]
          refine ⟨?_, hfinds (.thrown error) nofun⟩
          split <;> rfl
      | failed error' | lost error' => exact ⟨rfl, nofun⟩
  | appending =>
      cases happend : append timestamps rows
          (Transaction.ofRequest timestamps request generated) with
      | error error =>
          left
          cases fault <;> simp only [resume, happend] <;>
            exact ⟨trivial, fun outcome h => absurd h catchError_ne_returned⟩
      | ok row =>
          obtain ⟨hrow, hnone⟩ := append_ok happend
          cases fault with
          | failed error =>
              left
              simp only [resume]
              exact ⟨trivial, fun outcome h => absurd h catchError_ne_returned⟩
          | none =>
              right
              simp only [resume, happend]
              exact ⟨row, rfl, hrow, hnone, .inl rfl⟩
          | lost error =>
              right
              simp only [resume, happend]
              exact ⟨row, rfl, hrow, hnone, .inr ⟨error, rfl, rfl⟩⟩
  | returned | thrown | crashed => cases hover

/-- What an await writes is what the append has stored. -/
theorem resume_append (h : (resume timestamps request rows generated fault stage).1 = some row) :
    append timestamps rows (Transaction.ofRequest timestamps request generated) = .ok row := by
  cases stage with
  | looking =>
      cases fault with
      | none =>
          simp only [resume] at h
          split at h <;> cases h
      | failed error | lost error => cases h
  | appending =>
      simp only [resume] at h
      split at h
      · cases h
      · next row' happend =>
          obtain rfl := Option.some.inj h
          exact happend
      · cases h
      · next row' happend =>
          obtain rfl := Option.some.inj h
          exact happend
      · cases h
  | rereading error =>
      cases fault with
      | none =>
          simp only [resume] at h
          split at h <;> cases h
      | failed error' | lost error' => cases h
  | returned | thrown | crashed => cases h

end

end Transactions

end Paynad
