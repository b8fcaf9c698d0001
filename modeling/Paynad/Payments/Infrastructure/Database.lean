import Paynad.Library.Table
import Paynad.Payments.Infrastructure.PaymentMapper
import Paynad.Payments.Infrastructure.Outbox

/-!
# The payments database

The repository keeps the revision of every aggregate it handed out in memory and
saves through a version check; `TransactionContext.run` runs a callback of
statements that commit or roll back together. A row lock is held from the
version check to the end of its transaction, so a committed transaction acts on
the tables as one step; `Fault` says where a transaction may break off.
-/

namespace Paynad

namespace Payments

open Shared

/-- An aggregate in memory, with its entry in the `revisions` of the repository. -/
structure Tracked where
  payment : Payment
  revision : Option ℕ

structure Database where
  payments : List PaymentOrmEntity
  outbox : List OutboxMessage

def Database.empty : Database := ⟨[], []⟩

namespace TypeOrmPaymentRepository

def rowOf (payments : List PaymentOrmEntity) (reference : String) :
    Option PaymentOrmEntity :=
  Table.find (fun row => row.reference) payments reference

def insertedRow (columns : PaymentColumns) (now : Date) : PaymentOrmEntity where
  toPaymentColumns := columns
  version := 1
  reconciliationAttempts := 0
  nextReconciliationAt := now
  lastReconciliationError := none
  createdAt := now
  updatedAt := now

/-- The row an update stores: every mapped column but the two keys. -/
def updatedRow (columns : PaymentColumns) (now : Date) (row : PaymentOrmEntity) :
    PaymentOrmEntity :=
  { row with
    toPaymentColumns :=
      { columns with reference := row.reference, transactionId := row.transactionId }
    version := row.version + 1
    updatedAt := now }

/-- `TypeOrmPaymentRepository.save`. Without a revision the row is inserted
unless a unique index already holds its reference or transaction id; with one it
is updated where the version still is that revision. -/
def save (payments : List PaymentOrmEntity) (t : Tracked) (now : Date) :
    Except DomainError (List PaymentOrmEntity × Tracked) :=
  let columns := PaymentOrmMapper.toPersistence t.payment
  match t.revision with
  | none =>
      if payments.any fun row =>
          row.reference = columns.reference || row.transactionId = columns.transactionId then
        .error (.concurrentPayment columns.reference)
      else
        .ok (Table.insert payments (insertedRow columns now), { t with revision := some 1 })
  | some revision =>
      match rowOf payments columns.reference with
      | none => .error (.concurrentPayment columns.reference)
      | some row =>
          if row.version = revision then
            .ok (Table.modify (fun row => row.reference) payments columns.reference
                (updatedRow columns now),
              { t with revision := some (revision + 1) })
          else
            .error (.concurrentPayment columns.reference)

def hydrate (row : PaymentOrmEntity) : Except MalformedValueError Tracked :=
  (PaymentOrmMapper.toDomain row).map fun payment => ⟨payment, some row.version⟩

def findByReference (payments : List PaymentOrmEntity) (reference : String) :
    Except MalformedValueError (Option Tracked) :=
  match rowOf payments reference with
  | none => .ok none
  | some row => (hydrate row).map some

def reconciliationDelay (attempts : ℕ) : ℕ := min 3600 (60 * 2 ^ min attempts 6)

/-- The row `recordRecoveryAttempt` stores; the version is not touched. -/
def attemptedRow (error : Option String) (now : Date) (row : PaymentOrmEntity) :
    PaymentOrmEntity :=
  { row with
    reconciliationAttempts := row.reconciliationAttempts + 1
    lastReconciliationError := error.map fun text => slice text 2000
    nextReconciliationAt := now + reconciliationDelay row.reconciliationAttempts * 1000 }

def recordRecoveryAttempt (payments : List PaymentOrmEntity) (reference : String)
    (error : Option String) (now : Date) : List PaymentOrmEntity :=
  Table.modify (fun row => row.reference) payments reference (attemptedRow error now)

end TypeOrmPaymentRepository

inductive Statement where
  | save
  | record (movements : List LedgerMovement)
  | enqueueEvents

/-- The callback of one local transaction: it saves the aggregate, then hands
movements to the ledger and enqueues the pulled events, where it does. -/
structure Work where
  aggregate : Tracked
  movements : Option (List LedgerMovement)
  enqueues : Bool

/-- Where a transaction breaks off. -/
inductive Fault where
  | none
  /-- The statement of this index fails. -/
  | statement (index : ℕ) (message : String)
  /-- `COMMIT` fails and the transaction rolls back. -/
  | commit (message : String)
  /-- `COMMIT` succeeds and its answer is lost. -/
  | acknowledgement (message : String)
  deriving DecidableEq

inductive TransactionResult where
  | committed (database : Database) (aggregate : Tracked)
  | unacknowledged (database : Database) (aggregate : Tracked) (message : String)
  | rolledBack (aggregate : Tracked) (error : Thrown)

namespace Work

def statements (w : Work) : List Statement :=
  .save :: (w.movements.toList.map Statement.record ++
    if w.enqueues then [.enqueueEvents] else [])

def messages (w : Work) (moment : Moment) : List OutboxMessage :=
  (w.movements.getD []).map (recordMessage w.aggregate.payment moment) ++
    if w.enqueues then w.aggregate.payment.events.map eventMessage else []

/-- The aggregate in memory once every statement has run. -/
def afterwards (w : Work) (t : Tracked) : Tracked :=
  if w.enqueues then { t with payment := t.payment.pullEvents.2 } else t

end Work

def Statement.run (moment : Moment) (database : Database) (t : Tracked) :
    Statement → Except DomainError (Database × Tracked)
  | .save =>
      (TypeOrmPaymentRepository.save database.payments t moment.now).map
        fun saved => ({ database with payments := saved.1 }, saved.2)
  | .record movements =>
      .ok ({ database with
        outbox := database.outbox ++ movements.map (recordMessage t.payment moment) }, t)
  | .enqueueEvents =>
      let pulled := t.payment.pullEvents
      .ok ({ database with outbox := database.outbox ++ pulled.1.map eventMessage },
        { t with payment := pulled.2 })

/-- The failure that breaks the statement of this index, if any. -/
def Fault.breaks (fault : Fault) (index : ℕ) : Option String :=
  match fault with
  | .statement broken message => if broken = index then some message else Option.none
  | _ => Option.none

def runStatements (moment : Moment) (fault : Fault) :
    ℕ → List Statement → Database → Tracked →
      Except (Tracked × Thrown) (Database × Tracked)
  | _, [], database, t => .ok (database, t)
  | index, statement :: rest, database, t =>
      match fault.breaks index, statement.run moment database t with
      | some message, _ => .error (t, .other message)
      | none, .error error => .error (t, .domain error)
      | none, .ok (database', t') => runStatements moment fault (index + 1) rest database' t'

/-- `TransactionContext.run` on a callback: all of its statements or none. -/
def Work.run (w : Work) (moment : Moment) (fault : Fault) (database : Database) :
    TransactionResult :=
  match runStatements moment fault 0 w.statements database w.aggregate with
  | .error (t, error) => .rolledBack t error
  | .ok (database', t) =>
      match fault with
      | .commit message => .rolledBack t (.other message)
      | .acknowledgement message => .unacknowledged database' t message
      | _ => .committed database' t

/-!
# What a save and a transaction do

A save either inserts, updates the row whose version it carries, or raises
`ConcurrentPaymentError`; a committed transaction is its save together with its
messages, and one that ends in a domain error is a save that was refused.
-/

namespace TypeOrmPaymentRepository

theorem save_cases {payments rows : List PaymentOrmEntity} {t t' : Tracked} {now : Date}
    (h : save payments t now = .ok (rows, t')) :
    (t.revision = none ∧
      (∀ row ∈ payments, row.reference ≠ t.payment.reference.value ∧
        row.transactionId ≠ t.payment.transactionId) ∧
      rows = Table.insert payments
        (insertedRow (PaymentOrmMapper.toPersistence t.payment) now) ∧
      t' = { t with revision := some 1 }) ∨
    ∃ row, t.revision = some row.version ∧
      rowOf payments t.payment.reference.value = some row ∧
      rows = Table.modify (fun row => row.reference) payments t.payment.reference.value
        (updatedRow (PaymentOrmMapper.toPersistence t.payment) now) ∧
      t' = { t with revision := some (row.version + 1) } := by
  unfold save at h
  cases hrev : t.revision with
  | none =>
      simp only [hrev] at h
      split at h
      · cases h
      · rename_i hany
        cases h
        refine Or.inl ⟨rfl, ?_, rfl, rfl⟩
        intro row hrow
        simp only [List.any_eq_true, not_exists, not_and, Bool.or_eq_true,
          decide_eq_true_eq, not_or] at hany
        exact hany row hrow
  | some revision =>
      simp only [hrev] at h
      split at h
      · cases h
      · rename_i row hrow
        split at h
        · rename_i hversion
          cases h
          exact Or.inr ⟨row, by rw [hversion], hrow, rfl, by rw [hversion]⟩
        · cases h

/-- A refused update found another version, or no row at all. -/
theorem save_error {payments : List PaymentOrmEntity} {t : Tracked} {now : Date}
    {e : DomainError} (h : save payments t now = .error e) :
    e = .concurrentPayment t.payment.reference.value ∧
      ∀ row, t.revision = some row.version →
        rowOf payments t.payment.reference.value ≠ some row := by
  unfold save at h
  cases hrev : t.revision with
  | none =>
      simp only [hrev] at h
      split at h <;> cases h
      exact ⟨rfl, fun row hrow => by simp at hrow⟩
  | some revision =>
      simp only [hrev] at h
      split at h
      · rename_i hnone
        cases h
        refine ⟨rfl, fun row _ hrow => ?_⟩
        cases hnone.symm.trans hrow
      · rename_i row' hrow'
        split at h
        · cases h
        · rename_i hversion
          cases h
          refine ⟨rfl, fun row hrev' hrow => ?_⟩
          have heq : row' = row := Option.some.inj (hrow'.symm.trans hrow)
          rw [heq] at hversion
          exact hversion (Option.some.inj hrev').symm

theorem updatedRow_reference {columns : PaymentColumns} {now : Date} {reference : String}
    (row : PaymentOrmEntity) (h : row.reference = reference) :
    (updatedRow columns now row).reference = reference := h

theorem attemptedRow_reference {error : Option String} {now : Date} {reference : String}
    (row : PaymentOrmEntity) (h : row.reference = reference) :
    (attemptedRow error now row).reference = reference := h

theorem rowOf_update_self {payments : List PaymentOrmEntity} {columns : PaymentColumns}
    {reference : String} {now : Date} {row : PaymentOrmEntity}
    (h : rowOf payments reference = some row) :
    rowOf (Table.modify (fun row => row.reference) payments reference
      (updatedRow columns now)) reference = some (updatedRow columns now row) := by
  rw [rowOf, Table.find_modify_self updatedRow_reference, ← rowOf, h]
  rfl

theorem rowOf_update_ne {payments : List PaymentOrmEntity} {columns : PaymentColumns}
    {reference other : String} {now : Date} (h : other ≠ reference) :
    rowOf (Table.modify (fun row => row.reference) payments reference
      (updatedRow columns now)) other = rowOf payments other :=
  Table.find_modify_of_ne updatedRow_reference h payments

theorem reference_of_rowOf {payments : List PaymentOrmEntity} {reference : String}
    {row : PaymentOrmEntity} (h : rowOf payments reference = some row) :
    row.reference = reference := by
  have hkey := Table.key_of_find h
  exact hkey

theorem rowOf_insert_self {payments : List PaymentOrmEntity} {row : PaymentOrmEntity}
    (h : rowOf payments row.reference = none) :
    rowOf (Table.insert payments row) row.reference = some row :=
  Table.find_insert_self h

theorem rowOf_insert_ne {payments : List PaymentOrmEntity} {row : PaymentOrmEntity}
    {other : String} (h : row.reference ≠ other) :
    rowOf (Table.insert payments row) other = rowOf payments other :=
  Table.find_insert_of_ne h

theorem rowOf_recordRecoveryAttempt (payments : List PaymentOrmEntity)
    (reference : String) (error : Option String) (now : Date) (other : String) :
    rowOf (recordRecoveryAttempt payments reference error now) other =
      if other = reference then (rowOf payments other).map (attemptedRow error now)
      else rowOf payments other := by
  by_cases h : other = reference
  · subst h
    rw [if_pos rfl, recordRecoveryAttempt, rowOf,
      Table.find_modify_self attemptedRow_reference]
    rfl
  · rw [if_neg h]
    exact Table.find_modify_of_ne attemptedRow_reference h payments

/-- A row the mapper wrote hydrates to the aggregate it was written from. -/
theorem hydrate_of_written {row : PaymentOrmEntity} {p : Payment}
    (h : row.toPaymentColumns = PaymentOrmMapper.toPersistence p) :
    hydrate row = .ok
      ⟨{ p with events := [], createdAt := row.createdAt, updatedAt := row.updatedAt },
        some row.version⟩ := by
  rw [hydrate, PaymentOrmMapper.toDomain_of_written h]
  rfl

theorem hydrate_ok {row : PaymentOrmEntity} {t : Tracked} (h : hydrate row = .ok t) :
    t.payment.reference.value = row.reference ∧ t.revision = some row.version := by
  unfold hydrate at h
  cases hdomain : PaymentOrmMapper.toDomain row with
  | error e =>
      rw [hdomain] at h
      cases h
  | ok p =>
      rw [hdomain] at h
      cases h
      exact ⟨Payment.reference_of_restore hdomain, rfl⟩

end TypeOrmPaymentRepository

namespace Work

open TypeOrmPaymentRepository

/-- Only a save can raise a domain error. -/
theorem runStatements_error_other {moment : Moment} {fault : Fault}
    {statements : List Statement} (hsave : Statement.save ∉ statements)
    {index : ℕ} {database : Database} {t t' : Tracked} {error : Thrown}
    (h : runStatements moment fault index statements database t = .error (t', error)) :
    ∃ message, error = .other message := by
  induction statements generalizing index database t with
  | nil => cases h
  | cons statement rest ih =>
      obtain ⟨hne, hrest⟩ := not_or.mp (List.mem_cons.not.mp hsave)
      unfold runStatements at h
      split at h
      · cases h
        exact ⟨_, rfl⟩
      · rename_i e _ hrun
        cases statement with
        | save => exact absurd rfl hne
        | record movements => cases hrun
        | enqueueEvents => cases hrun
      · exact ih hrest h

theorem runStatements_cons_ok {moment : Moment} {fault : Fault} {index : ℕ}
    {statement : Statement} {rest : List Statement} {database : Database} {t : Tracked}
    {result : Database × Tracked}
    (h : runStatements moment fault index (statement :: rest) database t = .ok result) :
    ∃ database' t', statement.run moment database t = .ok (database', t') ∧
      runStatements moment fault (index + 1) rest database' t' = .ok result := by
  unfold runStatements at h
  split at h
  · cases h
  · cases h
  · rename_i database' t' _ hrun
    exact ⟨database', t', hrun, h⟩

theorem runStatements_tail {w : Work} {moment : Moment} {fault : Fault} {index : ℕ}
    {database : Database} {t : Tracked} {result : Database × Tracked}
    (hpayment : t.payment = w.aggregate.payment)
    (h : runStatements moment fault index
      (w.movements.toList.map Statement.record ++
        if w.enqueues then [.enqueueEvents] else []) database t = .ok result) :
    result = (⟨database.payments, database.outbox ++ w.messages moment⟩,
      w.afterwards t) := by
  obtain ⟨aggregate, movements, enqueues⟩ := w
  obtain ⟨rows, outbox⟩ := database
  simp only at hpayment
  have henqueue : ∀ (i : ℕ) (outbox : List OutboxMessage),
      runStatements moment fault i (if enqueues then [.enqueueEvents] else [])
        ⟨rows, outbox⟩ t = .ok result →
      result = (⟨rows, outbox ++
        if enqueues then aggregate.payment.events.map eventMessage else []⟩,
        afterwards ⟨aggregate, movements, enqueues⟩ t) := by
    intro i outbox hrun
    cases enqueues with
    | false =>
        cases hrun
        simp [afterwards]
    | true =>
        obtain ⟨database', t', hstatement, hrest⟩ := runStatements_cons_ok hrun
        cases hstatement
        cases hrest
        simp [afterwards, Payment.pullEvents, hpayment]
  cases movements with
  | none => simpa [messages] using henqueue index outbox h
  | some movements =>
      obtain ⟨database', t', hstatement, hrest⟩ := runStatements_cons_ok h
      cases hstatement
      rw [henqueue _ _ hrest]
      simp [messages, hpayment]

theorem runStatements_statements {w : Work} {moment : Moment} {fault : Fault}
    {database database' : Database} {t : Tracked}
    (h : runStatements moment fault 0 w.statements database w.aggregate =
      .ok (database', t)) :
    ∃ rows saved, save database.payments w.aggregate moment.now = .ok (rows, saved) ∧
      database' = ⟨rows, database.outbox ++ w.messages moment⟩ ∧
      t = w.afterwards saved := by
  obtain ⟨database₁, t₁, hsave, hrest⟩ := runStatements_cons_ok h
  simp only [Statement.run] at hsave
  cases hs : save database.payments w.aggregate moment.now with
  | error e => simp [hs, Except.map] at hsave
  | ok saved =>
      have hpayment : saved.2.payment = w.aggregate.payment := by
        rcases save_cases hs with ⟨_, _, _, ht⟩ | ⟨_, _, _, _, ht⟩ <;> rw [ht]
      simp only [hs, Except.map, Except.ok.injEq, Prod.mk.injEq] at hsave
      obtain ⟨rfl, rfl⟩ := hsave
      have htail := runStatements_tail hpayment hrest
      simp only [Prod.mk.injEq] at htail
      exact ⟨saved.1, saved.2, rfl, htail.1, htail.2⟩

/-- A transaction that changed the tables did so by its save and its messages. -/
theorem run_changes {w : Work} {moment : Moment} {fault : Fault}
    {database database' : Database} {t : Tracked}
    (h : w.run moment fault database = .committed database' t ∨
      ∃ message, w.run moment fault database = .unacknowledged database' t message) :
    ∃ rows saved, save database.payments w.aggregate moment.now = .ok (rows, saved) ∧
      database' = ⟨rows, database.outbox ++ w.messages moment⟩ ∧
      t = w.afterwards saved := by
  unfold run at h
  split at h
  · simp at h
  · rename_i database₁ t₁ hrun
    have hstatements := runStatements_statements hrun
    cases fault <;> simp at h <;> obtain ⟨rfl, rfl⟩ := h <;> exact hstatements

/-- A transaction that ends in a domain error is a refused save, and leaves the
aggregate in memory as it was. -/
theorem run_rolledBack_domain {w : Work} {moment : Moment} {fault : Fault}
    {database : Database} {t : Tracked} {e : DomainError}
    (h : w.run moment fault database = .rolledBack t (.domain e)) :
    save database.payments w.aggregate moment.now = .error e ∧ t = w.aggregate := by
  obtain ⟨aggregate, movements, enqueues⟩ := w
  unfold run at h
  split at h
  · rename_i t₁ error hrun
    cases h
    unfold statements runStatements at hrun
    split at hrun
    · cases hrun
    · rename_i error hsave
      simp only [Statement.run] at hsave
      cases hs : save database.payments aggregate moment.now with
      | ok saved => simp [hs, Except.map] at hsave
      | error e' =>
          simp only [hs, Except.map, Except.error.injEq] at hsave
          subst hsave
          cases hrun
          exact ⟨rfl, rfl⟩
    · obtain ⟨message, hmessage⟩ := runStatements_error_other
        (by cases movements <;> cases enqueues <;> simp) hrun
      cases hmessage
  · cases fault <;> simp at h

end Work

end Payments

end Paynad
