import Paynad.Payments.Protocol.Effects

/-!
# The messages for the ledger

A message that records a movement is written for a leg of a payment, by the
transaction that settles the payment. The settled statuses are final, so whatever
the outbox holds stays true of the committed rows.
-/

namespace Paynad

namespace Payments

open Shared Transition TypeOrmPaymentRepository

/-- The status that hands the movement of a leg to the ledger. -/
def Leg.settled : Leg → PaymentStatus
  | .debit => .approved
  | .credit => .approved
  | .refund => .compensated

namespace Payment

def legMovement (p : Payment) (leg : Leg) (movementReference : Option (Reference .trx))
    (occurredAt : Date) : LedgerMovement where
  transactionId := movementKey p.reference.value leg
  paymentReference := p.reference
  type := leg.movementType
  wallet := p.legWallet leg
  movementReference := movementReference
  occurredAt := occurredAt

end Payment

/-- A message hands a leg of a settled payment to the ledger. -/
structure Recorded (rows : List PaymentOrmEntity) (m : OutboxMessage) (p : Payment)
    (moment : Moment) (leg : Leg) (movementReference : Option (Reference .trx))
    (occurredAt : Date) : Prop where
  message : m = recordMessage p moment (p.legMovement leg movementReference occurredAt)
  row : ∃ row, rowOf rows p.reference.value = some row ∧ row.identity = p.columns.identity ∧
    row.status = leg.settled

theorem allowedTransitions_settled (leg : Leg) : allowedTransitions leg.settled = [] := by
  cases leg <;> rfl

theorem Recorded.evolve {rows rows' : List PaymentOrmEntity} {m : OutboxMessage} {p : Payment}
    {moment : Moment} {leg : Leg} {movementReference : Option (Reference .trx)}
    {occurredAt : Date} (h : Recorded rows m p moment leg movementReference occurredAt)
    (hrows : Evolves rows rows') :
    Recorded rows' m p moment leg movementReference occurredAt := by
  obtain ⟨hmessage, row, hrow, hidentity, hstatus⟩ := h
  obtain ⟨row', hrow', hprecedes⟩ := hrows _ row hrow
  refine ⟨hmessage, row', hrow', hprecedes.identity.trans hidentity, ?_⟩
  rcases hprecedes.advances.1 with heq | hallowed
  · exact heq.trans hstatus
  · rw [hstatus, allowedTransitions_settled] at hallowed
    cases hallowed

theorem eventType_eventMessage (event : DomainEvent) :
    (eventMessage event).eventType ≠ transactionRecorded := by
  cases event <;> simp [eventMessage, DomainEvent.type, transactionRecorded]

/-- The movements a command hands over are legs that its aggregate has settled. -/
theorem Command.movements_of_transaction {command : Command} {work : Work}
    (hshape : command.Shape) (hawait : command.await = .transaction work) :
    ∀ movement ∈ work.movements.getD [], ∃ leg movementReference occurredAt,
      movement = work.aggregate.payment.legMovement leg movementReference occurredAt ∧
        work.aggregate.payment.status = leg.settled := by
  have happroved : ∀ (t : Tracked) (reference : Reference .trx) (now : Date),
      t.payment.Approving → ∀ movement ∈ movementsOf t.payment reference now,
      ∃ leg movementReference occurredAt,
        movement = t.payment.legMovement leg movementReference occurredAt ∧
          t.payment.status = leg.settled := by
    intro t reference now ht movement hmovement
    simp only [movementsOf, List.mem_cons, List.not_mem_nil, or_false] at hmovement
    rcases hmovement with rfl | rfl
    · exact ⟨.debit, _, _, rfl, ht.1⟩
    · exact ⟨.credit, _, _, rfl, ht.1⟩
  have hcompensated : ∀ (t : Tracked) (reference : Reference .trx) (now : Date),
      t.payment.Compensating → ∀ movement ∈ refundMovementsOf t.payment reference now,
      ∃ leg movementReference occurredAt,
        movement = t.payment.legMovement leg movementReference occurredAt ∧
          t.payment.status = leg.settled := by
    intro t reference now ht movement hmovement
    simp only [refundMovementsOf, List.mem_cons, List.not_mem_nil, or_false] at hmovement
    subst hmovement
    exact ⟨.refund, _, _, rfl, ht.1⟩
  rcases command with (_ | t | t | ⟨t, m⟩ | ⟨t, e⟩) | (_ | t | ⟨t, e⟩ | ⟨t, m, now⟩) |
    (_ | t | ⟨t, m⟩ | t | t | ⟨t, m, now⟩ | t | t | ⟨t, m, now⟩) <;>
    cases hawait
  case credit.saveApproved => exact happroved t _ now hshape.1
  case compensate.saveApproved => exact happroved t _ now hshape.1
  case compensate.saveCompensated => exact hcompensated t _ now hshape.1
  all_goals rintro movement ⟨⟩

namespace Workers

/-- What a step appends to the outbox is what its transaction enqueues. -/
theorem outbox_of_step {s t : State} {e : Event} (hs : Invariant s) (h : step s e = some t) :
    t.database.outbox = s.database.outbox ∨
    ∃ worker command work moment, (s.workers worker).command = some command ∧
      command.await = .transaction work ∧
      t.database.outbox = s.database.outbox ++ work.messages moment ∧
      Saved s.database.payments t.database.payments work.aggregate fun c => command.Base c := by
  obtain ⟨-, heffect⟩ := step_cases h
  cases heffect with
  | quiet _ _ hdatabase => exact .inl (by rw [hdatabase])
  | crashed _ hdatabase => exact .inl (by rw [hdatabase])
  | started _ hdatabase => exact .inl (by rw [hdatabase])
  | initiated _ hdatabase =>
      obtain ⟨-, -, -, -, -, rows, saved, -, hdatabase⟩ := hdatabase
      exact .inl (by rw [hdatabase])
  | answered _ _ _ _ _ _ hdatabase => exact .inl (by rw [hdatabase])
  | queried await moment fault input hawait hquery =>
      cases await with
      | findByReference reference =>
          simp only [Await.query] at hquery
          split at hquery <;> obtain ⟨hdatabase, -⟩ := Prod.mk.inj (Option.some.inj hquery) <;>
            exact .inl (by rw [← hdatabase])
      | recordRecoveryAttempt reference failure =>
          simp only [Await.query] at hquery
          split at hquery <;> obtain ⟨hdatabase, -⟩ := Prod.mk.inj (Option.some.inj hquery) <;>
            exact .inl (by rw [← hdatabase])
      | movement call => cases hquery
      | findMovement wallet key => cases hquery
      | transaction work =>
          obtain ⟨command, hcommand, hcall⟩ := command_of_await hawait
          have hbased := (hs.fits _ command hcommand).based _
            (Command.aggregate_of_transaction hcall)
          have hchanges : ∀ {database : Database} {tracked : Tracked},
              (work.run moment fault s.database = .committed database tracked ∨
                ∃ message, work.run moment fault s.database =
                  .unacknowledged database tracked message) → database = t.database →
              t.database.outbox = s.database.outbox ++ work.messages moment ∧
                Saved s.database.payments t.database.payments work.aggregate
                  fun c => command.Base c := by
            intro database tracked hrun hdatabase
            obtain ⟨rows, saved, hsave, rfl, -⟩ := Work.run_changes hrun
            rw [← hdatabase]
            exact ⟨rfl, hbased.saved_rows hsave⟩
          simp only [Await.query, Option.some.injEq] at hquery
          cases hrun : work.run moment fault s.database with
          | committed database tracked =>
              simp only [hrun, TransactionResult.outcome, Prod.mk.injEq] at hquery
              exact .inr ⟨_, command, work, moment, hcommand, hcall,
                hchanges (.inl hrun) hquery.1⟩
          | unacknowledged database tracked message =>
              simp only [hrun, TransactionResult.outcome, Prod.mk.injEq] at hquery
              exact .inr ⟨_, command, work, moment, hcommand, hcall,
                hchanges (.inr ⟨message, hrun⟩) hquery.1⟩
          | rolledBack tracked error =>
              simp only [hrun, TransactionResult.outcome, Prod.mk.injEq] at hquery
              exact .inl (by rw [hquery.1])

def Told (s : State) : Prop :=
  ∀ m ∈ s.database.outbox, m.eventType = transactionRecorded →
    ∃ p moment leg movementReference occurredAt,
      Recorded s.database.payments m p moment leg movementReference occurredAt

theorem Told.step {s t : State} {e : Event} (hs : Invariant s) (h : Told s)
    (hstep : Workers.step s e = some t) : Told t := by
  have hevolves := ((step_cases hstep).2.sound hs).2
  have hkept : ∀ m ∈ s.database.outbox, m.eventType = transactionRecorded →
      ∃ p moment leg movementReference occurredAt,
        Recorded t.database.payments m p moment leg movementReference occurredAt := by
    intro m hm htype
    obtain ⟨p, moment, leg, movementReference, occurredAt, hrecorded⟩ := h m hm htype
    exact ⟨p, moment, leg, movementReference, occurredAt, hrecorded.evolve hevolves⟩
  rcases outbox_of_step hs hstep with hsame |
    ⟨worker, command, work, moment, hcommand, hawait, houtbox, hsaved⟩
  · intro m hm
    exact hkept m (hsame ▸ hm)
  · intro m hm htype
    rw [houtbox, List.mem_append] at hm
    rcases hm with hm | hm
    · exact hkept m hm htype
    · rw [Work.messages, List.mem_append] at hm
      rcases hm with hm | hm
      · obtain ⟨movement, hmovement, rfl⟩ := List.mem_map.mp hm
        obtain ⟨leg, movementReference, occurredAt, rfl, hstatus⟩ :=
          Command.movements_of_transaction (hs.fits worker command hcommand).shape hawait
            movement hmovement
        obtain ⟨-, row, -, -, -, -, hrow, -, hcolumns, -⟩ := hsaved
        refine ⟨_, moment, leg, movementReference, occurredAt, rfl, row, hrow, ?_, ?_⟩
        · rw [hcolumns]
        · exact (congrArg PaymentColumns.status hcolumns).trans hstatus
      · split at hm
        · obtain ⟨event, -, rfl⟩ := List.mem_map.mp hm
          exact absurd htype (eventType_eventMessage event)
        · cases hm

theorem told_of_reachable {s : State} (h : Reachable Workers.step init s) : Told s := by
  have hboth : Invariant s ∧ Told s := h.invariant
    (I := fun s => Invariant s ∧ Told s) ⟨invariant_init, fun m hm => nomatch hm⟩
    fun s e t hs hstep => ⟨hs.1.step hstep, hs.2.step hs.1 hstep⟩
  exact hboth.2

end Workers

end Payments

end Paynad
