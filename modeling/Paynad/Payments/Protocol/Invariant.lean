import Paynad.Payments.Protocol.Rows
import Paynad.Payments.Protocol.Workers

/-!
# The invariant of the workers

`Command.Fits` says, await by await, what a suspended command knows: the status
and the columns of its aggregate, and what its row looked like when the
aggregate was last read or saved. `Await.Heard` says what the answer of a
database call adds. Every answer leads from a command that fits to one that
fits, and every save a fitting command asks for is one the tables allow.
-/

namespace Paynad

namespace Payments

open Shared TypeOrmPaymentRepository

structure Payment.Standing (p : Payment) (status : PaymentStatus) : Prop where
  status : p.status = status
  events : p.events = []
  coherent : p.columns.Coherent

namespace Payment

def Declining (p : Payment) : Prop :=
  p.status = .declined ∧ p.columns.Coherent ∧
    ∃ reason at', p.events = [.paymentDeclined p.reference p.money reason at']

def Approving (p : Payment) : Prop :=
  p.status = .approved ∧ p.columns.Coherent ∧
    ∃ debit credit at', p.events = [.paymentApproved p.reference p.money debit credit at']

def Compensating (p : Payment) : Prop :=
  p.status = .compensated ∧ p.columns.Coherent ∧
    ∃ refund at', p.events = [.paymentCompensated p.reference p.money refund at']

end Payment

/-!
# What the mutators do to a coherent aggregate
-/

namespace Payment

variable {p : Payment} {now : Date}

theorem markProcessing_standing (hstatus : p.status = .pending) (hevents : p.events = [])
    (hcoherent : p.columns.Coherent) (h : (p.markProcessing now).error = none) :
    (p.markProcessing now).payment.Standing .processing ∧
      (p.markProcessing now).payment.debitTransactionReference = none ∧
      (p.markProcessing now).payment.columns.identity = p.columns.identity := by
  have hok : p.markProcessing now =
      ⟨{ p with status := .processing, updatedAt := now }, none⟩ := (transitionTo_ok h).2
  rw [hok]
  have hcolumns : p.columns.status = .pending := hstatus
  simp only [PaymentColumns.Coherent, hcolumns] at hcoherent
  obtain ⟨hdebit, hrest⟩ := hcoherent
  exact ⟨⟨rfl, hevents, hrest⟩, Option.map_eq_none_iff.mp hdebit, rfl⟩

theorem markDebited_standing (hp : p.Standing .processing) {reference : Reference .trx}
    (h : (p.markDebited reference now).error = none) :
    (p.markDebited reference now).payment.Standing .processing ∧
      (p.markDebited reference now).payment.debitTransactionReference =
        some reference ∧
      (p.markDebited reference now).payment.columns.identity =
        p.columns.identity := by
  obtain ⟨-, hok⟩ := markDebited_ok h
  rw [hok]
  have hcoherent := hp.coherent
  have hcolumns : p.columns.status = .processing := hp.status
  simp only [PaymentColumns.Coherent, hcolumns] at hcoherent
  refine ⟨⟨hp.status, hp.events, ?_⟩, rfl, rfl⟩
  simpa only [PaymentColumns.Coherent, Payment.columns, PaymentOrmMapper.toPersistence,
    toSnapshot, hp.status] using hcoherent

theorem decline_declining (hp : p.Standing .processing)
    (hdebit : p.debitTransactionReference = none) {reason : FailureReason}
    (h : (p.decline reason now).error = none) :
    (p.decline reason now).payment.Declining := by
  obtain ⟨-, hok⟩ := decline_ok h
  rw [hok]
  have hcoherent := hp.coherent
  have hcolumns : p.columns.status = .processing := hp.status
  simp only [PaymentColumns.Coherent, hcolumns] at hcoherent
  refine ⟨rfl, ⟨by simp, by simp, ?_, hcoherent.1, hcoherent.2.1⟩, reason, now, ?_⟩
  · exact Option.map_eq_none_iff.mpr hdebit
  · simp [hp.events]

theorem decline_identity {reason : FailureReason}
    (h : (p.decline reason now).error = none) :
    (p.decline reason now).payment.columns.identity = p.columns.identity := by
  rw [(decline_ok h).2]
  rfl

theorem approve_approving (hp : p.Standing .processing) {reference : Reference .trx}
    (h : (p.approve reference now).error = none) :
    (p.approve reference now).payment.Approving ∧
      (p.approve reference now).payment.creditTransactionReference =
        some reference ∧
      (p.approve reference now).payment.columns.debitTransactionReference =
        p.columns.debitTransactionReference ∧
      (p.approve reference now).payment.columns.identity =
        p.columns.identity := by
  obtain ⟨-, debitReference, hdebit, hok⟩ := approve_ok h
  rw [hok]
  have hcoherent := hp.coherent
  have hcolumns : p.columns.status = .processing := hp.status
  simp only [PaymentColumns.Coherent, hcolumns] at hcoherent
  obtain ⟨-, hrefund, hreason, -⟩ := hcoherent
  refine ⟨⟨rfl, ⟨?_, by simp, by simp, hrefund, hreason⟩, debitReference, reference, now, ?_⟩,
    rfl, rfl, rfl⟩
  · simp [hdebit]
  · simp [hp.events]

theorem compensate_compensating (hp : p.Standing .compensationPending)
    {reference : Reference .trx}
    (h : (p.compensate reference now).error = none) :
    (p.compensate reference now).payment.Compensating ∧
      (p.compensate reference now).payment.refundTransactionReference =
        some reference ∧
      (p.compensate reference now).payment.columns.debitTransactionReference =
        p.columns.debitTransactionReference ∧
      (p.compensate reference now).payment.columns.identity =
        p.columns.identity := by
  obtain ⟨-, hok⟩ := compensate_ok h
  rw [hok]
  have hcoherent := hp.coherent
  have hcolumns : p.columns.status = .compensationPending := hp.status
  simp only [PaymentColumns.Coherent, hcolumns] at hcoherent
  obtain ⟨hdebit, -, hcredit, -⟩ := hcoherent
  refine ⟨⟨rfl, ⟨hdebit, by simp, by simp, by simp, hcredit⟩, reference, now, ?_⟩,
    rfl, rfl, rfl⟩
  simp [hp.events]

theorem markCompensationPending_standing (hp : p.Standing .processing)
    (hdebit : p.debitTransactionReference ≠ none) {reason : FailureReason}
    (h : (p.markCompensationPending reason now).error = none) :
    (p.markCompensationPending reason now).payment.Standing .compensationPending ∧
      (p.markCompensationPending reason now).payment.columns.debitTransactionReference =
        p.columns.debitTransactionReference ∧
      (p.markCompensationPending reason now).payment.columns.identity =
        p.columns.identity := by
  obtain ⟨-, hok⟩ := markCompensationPending_ok h
  rw [hok]
  have hcoherent := hp.coherent
  have hcolumns : p.columns.status = .processing := hp.status
  simp only [PaymentColumns.Coherent, hcolumns] at hcoherent
  obtain ⟨hcredit, hrefund, -, hcompleted⟩ := hcoherent
  refine ⟨⟨rfl, hp.events, ⟨?_, by simp, hcredit, hrefund, hcompleted⟩⟩, rfl, rfl⟩
  simpa using hdebit

end Payment

/-!
# What a command knows at its await
-/

namespace Command

def aggregate : Command → Option Tracked
  | .debit (.find _) => none
  | .debit (.saveProcessing t) => some t
  | .debit (.debit t) => some t
  | .debit (.saveDebited t _) => some t
  | .debit (.saveDeclined t _) => some t
  | .credit (.find _) => none
  | .credit (.credit t) => some t
  | .credit (.savePending t _) => some t
  | .credit (.saveApproved t _ _) => some t
  | .compensate (.find _) => none
  | .compensate (.findDebit t) => some t
  | .compensate (.saveDebited t _) => some t
  | .compensate (.saveDeclined t) => some t
  | .compensate (.findCredit t) => some t
  | .compensate (.saveApproved t _ _) => some t
  | .compensate (.savePending t) => some t
  | .compensate (.refund t) => some t
  | .compensate (.saveCompensated t _ _) => some t

def reference : Command → String
  | .debit (.find reference) => reference
  | .credit (.find reference) => reference
  | .compensate (.find reference) => reference
  | c => (c.aggregate.map (·.payment.reference.value)).getD ""

/-- What the aggregate of a command looks like. -/
def Shape : Command → Prop
  | .debit (.saveProcessing t) =>
      t.payment.Standing .processing ∧ t.payment.debitTransactionReference = none
  | .debit (.debit t) =>
      t.payment.Standing .processing ∧ t.payment.debitTransactionReference = none
  | .debit (.saveDebited t movement) =>
      t.payment.Standing .processing ∧
        t.payment.debitTransactionReference = some movement.transactionReference
  | .credit (.credit t) =>
      t.payment.Standing .processing ∧ t.payment.debitTransactionReference ≠ none
  | .credit (.savePending t _) => t.payment.Standing .compensationPending
  | .credit (.saveApproved t movement _) =>
      t.payment.Approving ∧
        t.payment.creditTransactionReference = some movement.transactionReference
  | .compensate (.findDebit t) =>
      t.payment.Standing .processing ∧ t.payment.debitTransactionReference = none
  | .compensate (.saveDebited t movement) =>
      t.payment.Standing .processing ∧
        t.payment.debitTransactionReference = some movement.transactionReference
  | .compensate (.saveDeclined t) => t.payment.Declining
  | .compensate (.findCredit t) =>
      t.payment.Standing .processing ∧ t.payment.debitTransactionReference ≠ none
  | .compensate (.saveApproved t movement _) =>
      t.payment.Approving ∧
        t.payment.creditTransactionReference = some movement.transactionReference
  | .compensate (.savePending t) => t.payment.Standing .compensationPending
  | .compensate (.refund t) => t.payment.Standing .compensationPending
  | .compensate (.saveCompensated t movement _) =>
      t.payment.Compensating ∧
        t.payment.refundTransactionReference = some movement.transactionReference
  | _ => True

/-- What the row looks like as long as nobody saved since the aggregate was last
read or saved. -/
def Base (c : PaymentColumns) : Command → Prop
  | .debit (.saveProcessing _) =>
      c.status = .pending ∧ c.debitTransactionReference = none
  | .debit (.saveDebited _ _) =>
      c.status = .processing ∧ c.debitTransactionReference = none
  -- After a refused save the aggregate can be declined with its debit recorded;
  -- somebody saved since, so that aggregate is never saved.
  | .debit (.saveDeclined t _) =>
      c.status = .processing ∧ c.debitTransactionReference = none ∧ t.payment.Declining
  | .credit (.savePending t _) =>
      c.status = .processing ∧
        c.debitTransactionReference = t.payment.columns.debitTransactionReference
  | .credit (.saveApproved t _ _) =>
      c.status = .processing ∧
        c.debitTransactionReference = t.payment.columns.debitTransactionReference
  | .compensate (.saveDebited _ _) =>
      c.status = .processing ∧ c.debitTransactionReference = none
  | .compensate (.saveDeclined _) =>
      c.status = .processing ∧ c.debitTransactionReference = none
  | .compensate (.saveApproved t _ _) =>
      c.status = .processing ∧
        c.debitTransactionReference = t.payment.columns.debitTransactionReference
  | .compensate (.savePending t) =>
      c.status = .processing ∧
        c.debitTransactionReference = t.payment.columns.debitTransactionReference
  | .compensate (.saveCompensated t _ _) =>
      c.status = .compensationPending ∧
        c.debitTransactionReference = t.payment.columns.debitTransactionReference
  -- Between its saves an aggregate is what its row is.
  | command => ∀ t, command.aggregate = some t → c = t.payment.columns

/-- What a command knows at its await. -/
structure Fits (rows : List PaymentOrmEntity) (command : Command) : Prop where
  shape : command.Shape
  based : ∀ t, command.aggregate = some t → Based rows t fun c => command.Base c

theorem Fits.evolve {rows rows' : List PaymentOrmEntity} {command : Command}
    (h : command.Fits rows) (hrows : Evolves rows rows') : command.Fits rows' :=
  ⟨h.shape, fun t ht => (h.based t ht).evolve hrows⟩

end Command

/-!
# What a command saves
-/

/-- A transaction the tables allow: if its save commits, the row advances to
coherent columns and the messages complete its journal. -/
def Work.Prepared (rows : List PaymentOrmEntity) (w : Work) : Prop :=
  Based rows w.aggregate fun c =>
    c.Advances w.aggregate.payment.columns ∧ w.aggregate.payment.columns.Coherent ∧
      c.journal = [] ∧ ∀ moment,
        (w.messages moment).map OutboxMessage.reading = w.aggregate.payment.columns.journal ∧
          ∀ m ∈ w.messages moment,
            m.aggregateReference = w.aggregate.payment.reference.value

theorem saveWork_prepared {rows : List PaymentOrmEntity} {t : Tracked}
    {status : PaymentStatus} {Q : PaymentColumns → Prop} (ht : t.payment.Standing status)
    (hstatus : status ∉ terminalStatuses) (h : Based rows t Q)
    (hQ : ∀ c, Q c → c.journal = [] ∧ c.Advances t.payment.columns) :
    (saveWork t).Prepared rows := by
  refine h.imp fun c hc => ⟨(hQ c hc).2, ht.coherent, (hQ c hc).1, fun moment => ?_⟩
  have hjournal : t.payment.columns.journal = [] := by
    have hcolumns : t.payment.columns.status = status := ht.status
    simp only [PaymentColumns.journal, hcolumns]
    cases status <;> simp [terminalStatuses] at hstatus ⊢
  simp [saveWork, Work.messages, hjournal]

theorem declineWork_prepared {rows : List PaymentOrmEntity} {t : Tracked}
    {Q : PaymentColumns → Prop} (h : Based rows t Q)
    (hQ : ∀ c, Q c → c.status = .processing ∧ c.debitTransactionReference = none ∧
      t.payment.Declining) :
    (declineWork t).Prepared rows := by
  refine h.imp fun c hc => ?_
  obtain ⟨hstatus, hdebit, hdeclined, hcoherent, reason, at', hevents⟩ := hQ c hc
  refine ⟨⟨.inr ?_, .inl hdebit⟩, hcoherent, ?_, fun moment => ?_⟩
  · simp [hstatus, allowedTransitions, declineWork, hdeclined]
  · simp [PaymentColumns.journal, hstatus]
  · simp [declineWork, Work.messages, hevents, PaymentColumns.journal, hdeclined,
      DomainEvent.type, DomainEvent.aggregateReference]

theorem approveWork_prepared {rows : List PaymentOrmEntity} {t : Tracked}
    (ht : t.payment.Approving) (creditReference : Reference .trx) (now : Date)
    (h : Based rows t fun c => c.status = .processing ∧
      c.debitTransactionReference = t.payment.columns.debitTransactionReference) :
    (approveWork t creditReference now).Prepared rows := by
  refine h.imp fun c hc => ?_
  obtain ⟨happroved, hcoherent, debit, credit, at', hevents⟩ := ht
  refine ⟨⟨.inr ?_, .inr hc.2.symm⟩, hcoherent, ?_, fun moment => ?_⟩
  · simp [hc.1, allowedTransitions, approveWork, happroved]
  · simp [PaymentColumns.journal, hc.1]
  · simp [approveWork, Work.messages, hevents, PaymentColumns.journal, happroved, movementsOf,
      DomainEvent.type, DomainEvent.aggregateReference, MovementType.text]

theorem compensateWork_prepared {rows : List PaymentOrmEntity} {t : Tracked}
    (ht : t.payment.Compensating) (refundReference : Reference .trx) (now : Date)
    (h : Based rows t fun c => c.status = .compensationPending ∧
      c.debitTransactionReference = t.payment.columns.debitTransactionReference) :
    (compensateWork t refundReference now).Prepared rows := by
  refine h.imp fun c hc => ?_
  obtain ⟨hcompensated, hcoherent, refund, at', hevents⟩ := ht
  refine ⟨⟨.inr ?_, .inr hc.2.symm⟩, hcoherent, ?_, fun moment => ?_⟩
  · simp [hc.1, allowedTransitions, compensateWork, hcompensated]
  · simp [PaymentColumns.journal, hc.1]
  · simp [compensateWork, Work.messages, hevents, PaymentColumns.journal, hcompensated,
      refundMovementsOf, DomainEvent.type, DomainEvent.aggregateReference, MovementType.text]

/-- Whatever transaction a fitting command asks for, the tables allow it. -/
theorem Command.Fits.prepared {rows : List PaymentOrmEntity} {command : Command}
    (h : command.Fits rows) {w : Work} (hw : command.await = .transaction w) :
    w.Prepared rows := by
  have stays : ∀ {t : Tracked}, t.payment.Standing .processing →
      (Based rows t fun c => c.status = .processing ∧ c.debitTransactionReference = none) →
      (saveWork t).Prepared rows := by
    intro t ht hbased
    refine saveWork_prepared ht (by simp [terminalStatuses]) hbased fun c hc => ⟨?_, ?_, ?_⟩
    · simp [PaymentColumns.journal, hc.1]
    · exact .inl (ht.status.trans hc.1.symm)
    · exact .inl hc.2
  have owes : ∀ {t : Tracked}, t.payment.Standing .compensationPending →
      (Based rows t fun c => c.status = .processing ∧
        c.debitTransactionReference = t.payment.columns.debitTransactionReference) →
      (saveWork t).Prepared rows := by
    intro t ht hbased
    refine saveWork_prepared ht (by simp [terminalStatuses]) hbased fun c hc => ⟨?_, ?_, ?_⟩
    · simp [PaymentColumns.journal, hc.1]
    · exact .inr (by simp [hc.1, allowedTransitions, ht.status])
    · exact .inr hc.2.symm
  obtain ⟨hshape, hbased⟩ := h
  rcases command with (_ | t | t | ⟨t, m⟩ | ⟨t, e⟩) | (_ | t | ⟨t, e⟩ | ⟨t, m, now⟩) |
    (_ | t | ⟨t, m⟩ | t | t | ⟨t, m, now⟩ | t | t | ⟨t, m, now⟩) <;>
    cases hw
  case debit.saveProcessing =>
      refine saveWork_prepared hshape.1 (by simp [terminalStatuses]) (hbased t rfl)
        fun c hc => ⟨?_, ?_, ?_⟩
      · simp [PaymentColumns.journal, hc.1]
      · exact .inr (by simp [hc.1, allowedTransitions, hshape.1.status])
      · exact .inl hc.2
  case debit.saveDebited => exact stays hshape.1 (hbased t rfl)
  case debit.saveDeclined => exact declineWork_prepared (hbased t rfl) fun c hc => hc
  case credit.savePending => exact owes hshape (hbased t rfl)
  case credit.saveApproved => exact approveWork_prepared hshape.1 _ _ (hbased t rfl)
  case compensate.saveDebited => exact stays hshape.1 (hbased t rfl)
  case compensate.saveDeclined =>
      exact declineWork_prepared (hbased t rfl) fun c hc => ⟨hc.1, hc.2, hshape⟩
  case compensate.saveApproved => exact approveWork_prepared hshape.1 _ _ (hbased t rfl)
  case compensate.savePending => exact owes hshape (hbased t rfl)
  case compensate.saveCompensated => exact compensateWork_prepared hshape.1 _ _ (hbased t rfl)

theorem Command.aggregate_of_transaction {command : Command} {w : Work}
    (h : command.await = .transaction w) : command.aggregate = some w.aggregate := by
  rcases command with stage | stage | stage <;> cases stage <;> cases h <;> rfl

theorem Command.await_ne_record (command : Command) (reference : String)
    (failure : Option String) : command.await ≠ .recordRecoveryAttempt reference failure := by
  rcases command with stage | stage | stage <;> cases stage <;> exact fun h => nomatch h

/-- What the answer of a database call tells a command. -/
def Await.Heard (rows : List PaymentOrmEntity) : Await → Input → Prop
  | .findByReference reference, .loaded (some t) =>
      t.payment.reference.value = reference ∧ t.payment.events = [] ∧
        t.payment.columns.Coherent ∧ Based rows t (· = t.payment.columns)
  | .transaction work, .committed t =>
      t.payment = (work.afterwards work.aggregate).payment ∧
        Based rows t (· = work.aggregate.payment.columns)
  | .transaction work, .failed t (.domain _) =>
      t = work.aggregate ∧ Based rows t fun _ => False
  | _, _ => True

/-!
# From one await to the next

`Command.Moves` is the table of all moves a command can make, with the mutator
each of them goes through; what the invariant says of the next await, and what
later invariants say of it, is read off this table.
-/

inductive Command.Moves (reference : String) (now : Date) :
    Command → Input → Command → Prop
  | stays {command : Command} {input : Input} (h : command.await.expects input = false) :
      Moves reference now command input command
  | claim {r : String} {t : Tracked} (hstatus : t.payment.status = .pending)
      (hok : (t.payment.markProcessing now).error = none) :
      Moves reference now (.debit (.find r)) (.loaded (some t))
        (.debit (.saveProcessing { t with payment := (t.payment.markProcessing now).payment }))
  | post {t₀ t : Tracked} :
      Moves reference now (.debit (.saveProcessing t₀)) (.committed t) (.debit (.debit t))
  | debited {t : Tracked} {m : MovementResult}
      (hok : (t.payment.markDebited m.transactionReference now).error = none) :
      Moves reference now (.debit (.debit t)) (.moved m)
        (.debit (.saveDebited
          { t with payment := (t.payment.markDebited m.transactionReference now).payment } m))
  | refused {t : Tracked} {refusal : Refusal} {reason : FailureReason} {e : DomainError}
      (hok : (t.payment.decline reason now).error = none) :
      Moves reference now (.debit (.debit t)) (.refused refusal)
        (.debit (.saveDeclined { t with payment := (t.payment.decline reason now).payment } e))
  | overtaken {t₀ t : Tracked} {m : MovementResult} {reason : FailureReason} {e e' : DomainError}
      (hok : (t.payment.decline reason now).error = none) :
      Moves reference now (.debit (.saveDebited t₀ m)) (.failed t (.domain e'))
        (.debit (.saveDeclined { t with payment := (t.payment.decline reason now).payment } e))
  | handOver {t₀ t : Tracked} {m : MovementResult} :
      Moves reference now (.debit (.saveDebited t₀ m)) (.committed t)
        (.credit (.find reference))
  | credit {r : String} {t : Tracked} (hstatus : t.payment.status = .processing)
      (hdebit : t.payment.debitTransactionReference ≠ none) :
      Moves reference now (.credit (.find r)) (.loaded (some t)) (.credit (.credit t))
  | credited {t : Tracked} {m : MovementResult}
      (hok : (t.payment.approve m.transactionReference now).error = none) :
      Moves reference now (.credit (.credit t)) (.moved m)
        (.credit (.saveApproved
          { t with payment := (t.payment.approve m.transactionReference now).payment } m now))
  | creditRefused {t : Tracked} {refusal : Refusal} {e : DomainError}
      (hok : (t.payment.markCompensationPending .creditFailed now).error = none) :
      Moves reference now (.credit (.credit t)) (.refused refusal)
        (.credit (.savePending
          { t with payment := (t.payment.markCompensationPending .creditFailed now).payment } e))
  | resolve {stage : CreditDestinationWallet.Stage} {input : Input} :
      Moves reference now (.credit stage) input (.compensate (.find reference))
  | lookUpDebit {r : String} {t : Tracked} (hstatus : t.payment.status = .processing)
      (hdebit : t.payment.debitTransactionReference = none) :
      Moves reference now (.compensate (.find r)) (.loaded (some t))
        (.compensate (.findDebit t))
  | lookUpCredit {r : String} {t : Tracked} (hstatus : t.payment.status = .processing)
      (hdebit : t.payment.debitTransactionReference ≠ none) :
      Moves reference now (.compensate (.find r)) (.loaded (some t))
        (.compensate (.findCredit t))
  | owed {r : String} {t : Tracked} (hstatus : t.payment.status = .compensationPending) :
      Moves reference now (.compensate (.find r)) (.loaded (some t)) (.compensate (.refund t))
  | debitFound {t : Tracked} {m : MovementResult}
      (hok : (t.payment.markDebited m.transactionReference now).error = none) :
      Moves reference now (.compensate (.findDebit t)) (.found (some m))
        (.compensate (.saveDebited
          { t with payment := (t.payment.markDebited m.transactionReference now).payment } m))
  | debitAbsent {t : Tracked}
      (hok : (t.payment.decline .accountsUnavailable now).error = none) :
      Moves reference now (.compensate (.findDebit t)) (.found none)
        (.compensate (.saveDeclined
          { t with payment := (t.payment.decline .accountsUnavailable now).payment }))
  | recovered {t₀ t : Tracked} {m : MovementResult}
      (hok : (t.payment.markCompensationPending .creditFailed now).error = none) :
      Moves reference now (.compensate (.saveDebited t₀ m)) (.committed t)
        (.compensate (.savePending
          { t with payment := (t.payment.markCompensationPending .creditFailed now).payment }))
  | creditFound {t : Tracked} {m : MovementResult}
      (hok : (t.payment.approve m.transactionReference now).error = none) :
      Moves reference now (.compensate (.findCredit t)) (.found (some m))
        (.compensate (.saveApproved
          { t with payment := (t.payment.approve m.transactionReference now).payment } m now))
  | decided {t₀ t : Tracked} :
      Moves reference now (.compensate (.savePending t₀)) (.committed t)
        (.compensate (.refund t))
  | refunded {t : Tracked} {m : MovementResult}
      (hok : (t.payment.compensate m.transactionReference now).error = none) :
      Moves reference now (.compensate (.refund t)) (.moved m)
        (.compensate (.saveCompensated
          { t with payment := (t.payment.compensate m.transactionReference now).payment } m now))

theorem DebitSourceWallet.moves_of_resume {stage stage' : Stage} {input : Input} {now : Date}
    (reference : String) (hshape : (Command.debit stage).Shape)
    (h : resume stage input now = .awaiting stage') :
    Command.Moves reference now (.debit stage) input (.debit stage') := by
  -- The `catch` block goes on only where it declines.
  have declines : ∀ {t : Tracked} {error : Thrown}, catchError t error now = .awaiting stage' →
      ∃ reason e, (t.payment.decline reason now).error = none ∧
        stage' = .saveDeclined { t with payment := (t.payment.decline reason now).payment } e := by
    intro t error hcatch
    unfold catchError at hcatch
    split at hcatch <;> try cases hcatch
    obtain ⟨hok, hstage⟩ := Progress.awaiting_of_ofMutated hcatch
    cases hstage
    exact ⟨_, _, hok, rfl⟩
  unfold resume at h
  split at h
  case h_2 r t =>
      split at h <;> try cases h
      rename_i hstatus
      obtain ⟨hok, hstage⟩ := Progress.awaiting_of_ofMutated h
      cases hstage
      exact .claim (not_not.mp hstatus) hok
  case h_4 => cases h; exact .post
  case h_6 t m =>
      have hok := Payment.markDebited_error m.transactionReference now hshape.1.status
      simp only [hok] at h
      cases h
      exact .debited hok
  case h_7 t refusal =>
      obtain ⟨reason, e, hok, rfl⟩ := declines h
      exact .refused hok
  case h_10 t₀ m t error =>
      obtain ⟨reason, e, hok, rfl⟩ := declines h
      cases error with
      | other message => cases h
      | domain e' => exact .overtaken hok
  case h_13 =>
      cases h
      refine .stays ?_
      rcases stage with _ | _ | _ | _ | _ <;>
        rcases input with (_ | _) | _ | _ | _ | _ | _ | _ | _ | _ | _ <;>
        first | rfl | (exfalso; grind)
  all_goals cases h

theorem DebitSourceWallet.moves_of_return {stage : Stage} {input : Input} {now : Date}
    {value reference : String} (h : resume stage input now = .returned value) :
    Command.Moves reference now (.debit stage) input (.credit (.find reference)) := by
  have never : ∀ {t : Tracked} {error : Thrown} {value : String},
      catchError t error now ≠ .returned value := by
    intro t error value hcatch
    unfold catchError at hcatch
    split at hcatch <;> try cases hcatch
    unfold Progress.ofMutated at hcatch
    split at hcatch <;> cases hcatch
  unfold resume at h
  split at h
  case h_2 =>
      split at h
      · cases h
      · unfold Progress.ofMutated at h
        split at h <;> cases h
  case h_6 =>
      dsimp only at h
      split at h
      · cases h
      · exact absurd h never
  case h_7 => exact absurd h never
  case h_9 => exact .handOver
  case h_10 => exact absurd h never
  all_goals cases h

theorem CreditDestinationWallet.moves_of_resume {stage stage' : Stage} {input : Input}
    {now : Date} (reference : String) (h : resume stage input now = .awaiting stage') :
    Command.Moves reference now (.credit stage) input (.credit stage') := by
  unfold resume at h
  split at h
  case h_2 r t =>
      split at h
      · split at h <;> cases h
      split at h <;> cases h
      rename_i hready
      obtain ⟨hstatus, hdebit⟩ := not_or.mp hready
      exact .credit (not_not.mp hstatus) hdebit
  case h_4 t m =>
      obtain ⟨hok, hstage⟩ := Progress.awaiting_of_ofMutated h
      cases hstage
      exact .credited hok
  case h_5 t refusal =>
      obtain ⟨hok, hstage⟩ := Progress.awaiting_of_ofMutated h
      cases hstage
      exact .creditRefused hok
  case h_11 =>
      cases h
      refine .stays ?_
      rcases stage with _ | _ | _ | _ <;>
        rcases input with (_ | _) | _ | _ | _ | _ | _ | _ | _ | _ | _ <;>
        first | rfl | (exfalso; grind)
  all_goals cases h

theorem CompensatePayment.moves_of_resume {rows : List PaymentOrmEntity}
    {stage stage' : Stage} {input : Input} {now : Date} (reference : String)
    (hshape : (Command.compensate stage).Shape) (hheard : stage.await.Heard rows input)
    (h : resume stage input now = .awaiting stage') :
    Command.Moves reference now (.compensate stage) input (.compensate stage') := by
  unfold resume at h
  split at h
  case h_2 r t =>
      split at h
      · cases h
      split at h
      · cases h
      rename_i hnot hstatus
      have hrecoverable :
          t.payment.status = .processing ∨ t.payment.status = .compensationPending := by
        by_contra hneither
        exact hstatus (not_or.mp hneither)
      split at h
      · rename_i hdebit
        cases h
        refine .lookUpDebit (hrecoverable.resolve_right fun hpending => ?_) hdebit
        obtain ⟨-, -, hcoherent, -⟩ := hheard
        have hcolumns : t.payment.columns.status = .compensationPending := hpending
        simp only [PaymentColumns.Coherent, hcolumns] at hcoherent
        exact hcoherent.1 (Option.map_eq_none_iff.mpr hdebit)
      · rename_i hdebit
        unfold afterDebit at h
        rcases hrecoverable with hprocessing | hpending
        · rw [if_pos ⟨hprocessing, rfl⟩] at h
          cases h
          exact .lookUpCredit hprocessing hdebit
        · rw [if_neg (by simp [hpending]), if_neg (by simp [hpending])] at h
          cases h
          exact .owed hpending
  case h_4 t m =>
      rw [if_pos hshape.1.status] at h
      obtain ⟨hok, hstage⟩ := Progress.awaiting_of_ofMutated h
      cases hstage
      exact .debitFound hok
  case h_5 t =>
      obtain ⟨hok, hstage⟩ := Progress.awaiting_of_ofMutated h
      cases hstage
      exact .debitAbsent hok
  case h_7 t₀ m t =>
      have hpayment : t.payment = t₀.payment := hheard.1
      have hstatus : t.payment.status = .processing := by
        rw [hpayment]
        exact hshape.1.status
      unfold afterDebit at h
      rw [if_neg (by simp), if_pos hstatus] at h
      obtain ⟨hok, hstage⟩ := Progress.awaiting_of_ofMutated h
      cases hstage
      exact .recovered hok
  case h_11 t m =>
      obtain ⟨hok, hstage⟩ := Progress.awaiting_of_ofMutated h
      cases hstage
      exact .creditFound hok
  case h_16 => cases h; exact .decided
  case h_18 t m =>
      obtain ⟨hok, hstage⟩ := Progress.awaiting_of_ofMutated h
      cases hstage
      exact .refunded hok
  case h_23 =>
      cases h
      refine .stays ?_
      cases stage <;> rcases input with (_ | _) | _ | _ | _ | _ | _ | _ | (_ | _) | _ | _ <;>
        first | rfl | (exfalso; grind)
  all_goals cases h

theorem Command.Next.moves {rows : List PaymentOrmEntity} {reference : String}
    {command command' : Command} {input : Input} {now : Date}
    (h : Command.Next reference input now command command') (hshape : command.Shape)
    (hheard : command.await.Heard rows input) :
    Command.Moves reference now command input command' := by
  cases h with
  | debit h => exact DebitSourceWallet.moves_of_resume reference hshape h
  | debited h => exact DebitSourceWallet.moves_of_return h
  | credit h => exact CreditDestinationWallet.moves_of_resume reference h
  | creditFailed h => exact .resolve
  | compensate h => exact CompensatePayment.moves_of_resume reference hshape hheard h

theorem reference_of_identity {p q : Payment}
    (h : p.columns.identity = q.columns.identity) : p.reference.value = q.reference.value :=
  congrArg PaymentColumns.reference h

namespace Command

variable {rows : List PaymentOrmEntity}

theorem fits_of_based {command : Command} {t : Tracked} {Q : PaymentColumns → Prop}
    (haggregate : command.aggregate = some t) (hshape : command.Shape)
    (hbased : Based rows t Q) (hQ : ∀ c, Q c → command.Base c) : command.Fits rows := by
  refine ⟨hshape, fun t' ht' => ?_⟩
  obtain rfl : t = t' := Option.some.inj (haggregate.symm.trans ht')
  exact hbased.imp hQ

theorem fits_of_find {command : Command} (haggregate : command.aggregate = none)
    (hshape : command.Shape) : command.Fits rows := by
  refine ⟨hshape, fun t ht => ?_⟩
  rw [haggregate] at ht
  cases ht

theorem reference_of_aggregate {command : Command} {t : Tracked}
    (h : command.aggregate = some t) : command.reference = t.payment.reference.value := by
  rcases command with stage | stage | stage <;> cases stage <;> cases h <;> rfl

theorem continues_of_based {command : Command} {t : Tracked} {Q : PaymentColumns → Prop}
    {reference : String} (haggregate : command.aggregate = some t)
    (hreference : t.payment.reference.value = reference) (hshape : command.Shape)
    (hbased : Based rows t Q) (hQ : ∀ c, Q c → command.Base c) :
    command.Fits rows ∧ command.reference = reference :=
  ⟨fits_of_based haggregate hshape hbased hQ,
    (reference_of_aggregate haggregate).trans hreference⟩

theorem continues_of_mutated {command command' : Command} {t : Tracked} {p : Payment}
    (haggregate : command.aggregate = some t)
    (haggregate' : command'.aggregate = some { t with payment := p })
    (hcurrent : ∀ c, command.Base c → c = t.payment.columns) (hfits : command.Fits rows)
    (hidentity : p.columns.identity = t.payment.columns.identity) (hshape : command'.Shape)
    (hbase : command'.Base t.payment.columns) :
    command'.Fits rows ∧ command'.reference = command.reference := by
  refine continues_of_based haggregate' ?_ hshape
    ((hfits.based t haggregate).withPayment hidentity) fun c hc => ?_
  · exact (reference_of_identity hidentity).trans (reference_of_aggregate haggregate).symm
  · rw [hcurrent c hc]
    exact hbase

theorem continues_of_saved {command : Command} {t₀ t : Tracked} {p : Payment}
    (haggregate : command.aggregate = some { t with payment := p })
    (hpayment : t.payment = t₀.payment) (hsaved : Based rows t (· = t₀.payment.columns))
    (hidentity : p.columns.identity = t.payment.columns.identity) (hshape : command.Shape)
    (hbase : command.Base t.payment.columns) :
    command.Fits rows ∧ command.reference = t₀.payment.reference.value := by
  refine continues_of_based haggregate ?_ hshape (hsaved.withPayment hidentity) fun c hc => ?_
  · exact (reference_of_identity hidentity).trans (congrArg (·.reference.value) hpayment)
  · rw [hc, ← hpayment]
    exact hbase

theorem current_of_eq {t : Tracked} (c : PaymentColumns) (h : c = t.payment.columns)
    (t' : Tracked) (ht' : some t = some t') : c = t'.payment.columns := by
  obtain rfl := Option.some.inj ht'
  exact h

section

variable {reference : String} {command command' : Command} {now : Date}

theorem Moves.continues_of_loaded {loaded : Option Tracked}
    (h : Moves reference now command (.loaded loaded) command')
    (hreference : command.reference = reference) (hfits : command.Fits rows)
    (hheard : command.await.Heard rows (.loaded loaded)) :
    command'.Fits rows ∧ command'.reference = reference := by
  subst hreference
  cases h with
  | stays => exact ⟨hfits, rfl⟩
  | resolve => exact ⟨fits_of_find rfl trivial, rfl⟩
  | claim hstatus hok =>
      rename_i r t
      obtain ⟨href, hevents, hcoherent, hloaded⟩ := hheard
      obtain ⟨hstanding, hdebit, hidentity⟩ :=
        Payment.markProcessing_standing hstatus hevents hcoherent hok
      refine continues_of_based rfl ((reference_of_identity hidentity).trans href)
        ⟨hstanding, hdebit⟩ (hloaded.withPayment hidentity) ?_
      rintro c rfl
      have hcolumns : t.payment.columns.status = .pending := hstatus
      simp only [PaymentColumns.Coherent, hcolumns] at hcoherent
      exact ⟨hcolumns, hcoherent.1⟩
  | credit hstatus hdebit =>
      obtain ⟨href, hevents, hcoherent, hloaded⟩ := hheard
      exact continues_of_based rfl href ⟨⟨hstatus, hevents, hcoherent⟩, hdebit⟩ hloaded
        current_of_eq
  | lookUpDebit hstatus hdebit =>
      obtain ⟨href, hevents, hcoherent, hloaded⟩ := hheard
      exact continues_of_based rfl href ⟨⟨hstatus, hevents, hcoherent⟩, hdebit⟩ hloaded
        current_of_eq
  | lookUpCredit hstatus hdebit =>
      obtain ⟨href, hevents, hcoherent, hloaded⟩ := hheard
      exact continues_of_based rfl href ⟨⟨hstatus, hevents, hcoherent⟩, hdebit⟩ hloaded
        current_of_eq
  | owed hstatus =>
      obtain ⟨href, hevents, hcoherent, hloaded⟩ := hheard
      exact continues_of_based rfl href ⟨hstatus, hevents, hcoherent⟩ hloaded current_of_eq

theorem Moves.continues_of_committed {t : Tracked}
    (h : Moves reference now command (.committed t) command')
    (hreference : command.reference = reference) (hfits : command.Fits rows)
    (hheard : command.await.Heard rows (.committed t)) :
    command'.Fits rows ∧ command'.reference = reference := by
  subst hreference
  cases h with
  | stays => exact ⟨hfits, rfl⟩
  | resolve => exact ⟨fits_of_find rfl trivial, rfl⟩
  | handOver => exact ⟨fits_of_find rfl trivial, rfl⟩
  | post =>
      rename_i t₀
      obtain ⟨hpayment, hsaved⟩ := hheard
      have hpayment : t.payment = t₀.payment := hpayment
      refine continues_of_saved (p := t.payment) rfl hpayment hsaved rfl ?_
        (current_of_eq _ rfl)
      simpa only [Shape, hpayment] using hfits.shape
  | decided =>
      rename_i t₀
      obtain ⟨hpayment, hsaved⟩ := hheard
      have hpayment : t.payment = t₀.payment := hpayment
      refine continues_of_saved (p := t.payment) rfl hpayment hsaved rfl ?_
        (current_of_eq _ rfl)
      simpa only [Shape, hpayment] using hfits.shape
  | recovered hok =>
      rename_i t₀ m
      obtain ⟨hpayment, hsaved⟩ := hheard
      have hpayment : t.payment = t₀.payment := hpayment
      obtain ⟨hstanding, hdebit⟩ := hfits.shape
      rw [← hpayment] at hstanding hdebit
      obtain ⟨hstanding', hdebit', hidentity⟩ :=
        Payment.markCompensationPending_standing hstanding (by simp [hdebit]) hok
      exact continues_of_saved rfl hpayment hsaved hidentity hstanding'
        ⟨hstanding.status, hdebit'.symm⟩

theorem Moves.continues_of_answer (answer : Answer)
    (h : Moves reference now command answer.input command')
    (hreference : command.reference = reference) (hfits : command.Fits rows) :
    command'.Fits rows ∧ command'.reference = reference := by
  subst hreference
  generalize hinput : answer.input = input at h
  cases h with
  | stays => exact ⟨hfits, rfl⟩
  | resolve => exact ⟨fits_of_find rfl trivial, rfl⟩
  | debited hok =>
      obtain ⟨hstanding, hdebit⟩ := hfits.shape
      obtain ⟨hstanding', hdebit', hidentity⟩ := Payment.markDebited_standing hstanding hok
      exact continues_of_mutated rfl rfl (fun c hc => hc _ rfl) hfits hidentity
        ⟨hstanding', hdebit'⟩ ⟨hstanding.status, Option.map_eq_none_iff.mpr hdebit⟩
  | debitFound hok =>
      obtain ⟨hstanding, hdebit⟩ := hfits.shape
      obtain ⟨hstanding', hdebit', hidentity⟩ := Payment.markDebited_standing hstanding hok
      exact continues_of_mutated rfl rfl (fun c hc => hc _ rfl) hfits hidentity
        ⟨hstanding', hdebit'⟩ ⟨hstanding.status, Option.map_eq_none_iff.mpr hdebit⟩
  | refused hok =>
      obtain ⟨hstanding, hdebit⟩ := hfits.shape
      exact continues_of_mutated rfl rfl (fun c hc => hc _ rfl) hfits
        (Payment.decline_identity hok) trivial ⟨hstanding.status,
          Option.map_eq_none_iff.mpr hdebit, Payment.decline_declining hstanding hdebit hok⟩
  | debitAbsent hok =>
      obtain ⟨hstanding, hdebit⟩ := hfits.shape
      exact continues_of_mutated rfl rfl (fun c hc => hc _ rfl) hfits
        (Payment.decline_identity hok) (Payment.decline_declining hstanding hdebit hok)
        ⟨hstanding.status, Option.map_eq_none_iff.mpr hdebit⟩
  | credited hok =>
      obtain ⟨happroving, hcredit, hdebit, hidentity⟩ :=
        Payment.approve_approving hfits.shape.1 hok
      exact continues_of_mutated rfl rfl (fun c hc => hc _ rfl) hfits hidentity
        ⟨happroving, hcredit⟩ ⟨hfits.shape.1.status, hdebit.symm⟩
  | creditFound hok =>
      obtain ⟨happroving, hcredit, hdebit, hidentity⟩ :=
        Payment.approve_approving hfits.shape.1 hok
      exact continues_of_mutated rfl rfl (fun c hc => hc _ rfl) hfits hidentity
        ⟨happroving, hcredit⟩ ⟨hfits.shape.1.status, hdebit.symm⟩
  | creditRefused hok =>
      obtain ⟨hstanding, hdebit, hidentity⟩ :=
        Payment.markCompensationPending_standing hfits.shape.1 hfits.shape.2 hok
      exact continues_of_mutated rfl rfl (fun c hc => hc _ rfl) hfits hidentity
        hstanding ⟨hfits.shape.1.status, hdebit.symm⟩
  | refunded hok =>
      obtain ⟨hcompensating, hrefund, hdebit, hidentity⟩ :=
        Payment.compensate_compensating hfits.shape hok
      exact continues_of_mutated rfl rfl (fun c hc => hc _ rfl) hfits hidentity
        ⟨hcompensating, hrefund⟩ ⟨hfits.shape.status, hdebit.symm⟩
  | _ => cases answer <;> cases hinput

/-- Whatever the workflow, an answer leads to a command that fits its payment. -/
theorem Moves.continues {input : Input} (h : Moves reference now command input command')
    (hreference : command.reference = reference) (hfits : command.Fits rows)
    (hheard : command.await.Heard rows input) :
    command'.Fits rows ∧ command'.reference = reference := by
  cases input with
  | loaded loaded => exact h.continues_of_loaded hreference hfits hheard
  | committed t => exact h.continues_of_committed hreference hfits hheard
  | failed t error =>
      subst hreference
      cases h with
      | stays => exact ⟨hfits, rfl⟩
      | resolve => exact ⟨fits_of_find rfl trivial, rfl⟩
      | overtaken hok =>
          obtain ⟨rfl, hrefused⟩ := hheard
          have hidentity := Payment.decline_identity hok
          exact continues_of_based rfl (reference_of_identity hidentity) trivial
            (hrefused.withPayment hidentity) fun c hc => hc.elim
  | moved m => exact continues_of_answer (.moved m) h hreference hfits
  | refused refusal => exact continues_of_answer (.refused refusal) h hreference hfits
  | found m => exact continues_of_answer (.found m) h hreference hfits
  | unavailable => exact continues_of_answer .unavailable h hreference hfits
  | lookupUnavailable =>
      exact continues_of_answer .lookupUnavailable h hreference hfits
  | queryFailed message =>
      subst hreference
      cases h with
      | stays => exact ⟨hfits, rfl⟩
      | resolve => exact ⟨fits_of_find rfl trivial, rfl⟩
  | recorded =>
      subst hreference
      cases h with
      | stays => exact ⟨hfits, rfl⟩
      | resolve => exact ⟨fits_of_find rfl trivial, rfl⟩

end

end Command

end Payments

end Paynad
