import Paynad.Payments.Protocol.Invariant

/-!
# Persisted payments over whole runs

The tables are sound when their rows are, when a reference has one row, and when
the outbox holds exactly the journal of every row. Every query a fitting worker
performs keeps them sound, so the invariant of the workers holds in every
reachable state, and with it what the rows and the outbox say of each other.
-/

namespace Paynad

namespace Payments

open Shared TypeOrmPaymentRepository Transition

/-- Sound rows under a unique index, with their journals in the outbox. -/
structure Database.Sound (database : Database) : Prop where
  unique : Table.Unique (fun row => row.reference) database.payments
  rows : ∀ reference row, rowOf database.payments reference = some row → row.Sound
  journal : ∀ reference,
    (database.outbox.filter (·.aggregateReference = reference)).map OutboxMessage.reading =
      ((rowOf database.payments reference).map
        fun row => row.toPaymentColumns.journal).getD []

namespace Database

theorem sound_empty : Database.empty.Sound :=
  ⟨.nil _, (fun _ _ hrow => nomatch hrow), fun _ => rfl⟩

/-- A committed transaction of a fitting command keeps the tables sound. -/
theorem Sound.save {database : Database} {w : Work} {moment : Moment}
    {rows : List PaymentOrmEntity} {saved : Tracked} (h : database.Sound)
    (hprepared : w.Prepared database.payments)
    (hsave : save database.payments w.aggregate moment.now = .ok (rows, saved)) :
    (Database.mk rows (database.outbox ++ w.messages moment)).Sound ∧
      Evolves database.payments rows := by
  refine ⟨?_, hprepared.evolves_save (fun c hc => hc.1) hsave⟩
  obtain ⟨row, hrow, ⟨-, hcoherent, hjournal, hmessages⟩, hidentity, rfl, -⟩ :=
    hprepared.save hsave
  obtain ⟨hreadings, hreferences⟩ := hmessages moment
  have hupdated := Based.updatedRow_columns moment.now hidentity
  have hself : rowOf (Table.modify (fun row => row.reference) database.payments
      w.aggregate.payment.reference.value
      (updatedRow w.aggregate.payment.columns moment.now))
        w.aggregate.payment.reference.value =
      some (updatedRow w.aggregate.payment.columns moment.now row) := rowOf_update_self hrow
  refine ⟨h.unique.modify updatedRow_reference, ?_, ?_⟩
  · intro reference row' hrow'
    by_cases heq : reference = w.aggregate.payment.reference.value
    · subst heq
      obtain rfl := Option.some.inj (hself.symm.trans hrow')
      exact ⟨⟨w.aggregate.payment, hupdated⟩, hupdated ▸ hcoherent⟩
    · rw [rowOf_update_ne heq] at hrow'
      exact h.rows reference row' hrow'
  · intro reference
    have hbefore := h.journal reference
    simp only [List.filter_append, List.map_append, hbefore]
    by_cases heq : reference = w.aggregate.payment.reference.value
    · subst heq
      rw [List.filter_eq_self.mpr (by simpa using hreferences), hreadings, hself, hrow]
      simp [hupdated, hjournal]
    · have hnone : (w.messages moment).filter (·.aggregateReference = reference) = [] := by
        rw [List.filter_eq_nil_iff]
        intro m hm
        simpa [hreferences m hm] using Ne.symm heq
      rw [hnone, rowOf_update_ne heq]
      simp

/-- An initiation adds a Pending row without any message. -/
theorem Sound.inserted {database database' : Database} (h : database.Sound)
    (hinserted : Workers.Inserted database database') :
    database'.Sound ∧ Evolves database.payments database'.payments := by
  obtain ⟨input, reference, now, payment, hinitiate, rows, saved, hsave, rfl⟩ := hinserted
  obtain ⟨hpending, hcoherent⟩ := Payment.columns_initiate hinitiate
  rcases save_cases hsave with ⟨-, hfree, rfl, -⟩ | ⟨row, hrevision, -⟩
  · have hcolumns : (insertedRow payment.columns now).toPaymentColumns = payment.columns := rfl
    have hnone : rowOf database.payments (insertedRow payment.columns now).reference = none :=
      Table.find_eq_none_iff.mpr fun row' hrow' => (hfree row' hrow').1
    have hself := rowOf_insert_self hnone
    refine ⟨⟨h.unique.insert hnone, ?_, ?_⟩, evolves_insert _ _⟩
    · intro other row' hrow'
      by_cases heq : (insertedRow payment.columns now).reference = other
      · subst heq
        obtain rfl := Option.some.inj (hself.symm.trans hrow')
        exact ⟨⟨payment, hcolumns⟩, hcoherent⟩
      · rw [rowOf_insert_ne heq] at hrow'
        exact h.rows other row' hrow'
    · intro other
      rw [h.journal other]
      by_cases heq : (insertedRow payment.columns now).reference = other
      · subst heq
        rw [hnone, hself, Option.map_some, hcolumns]
        simp only [PaymentColumns.journal, hpending]
        rfl
      · rw [rowOf_insert_ne heq]
  · cases hrevision

theorem Sound.recordRecoveryAttempt {database : Database} (h : database.Sound)
    (reference : String) (failure : Option String) (now : Date) :
    (Database.mk (TypeOrmPaymentRepository.recordRecoveryAttempt database.payments reference
      failure now) database.outbox).Sound := by
  refine ⟨h.unique.modify attemptedRow_reference, ?_, ?_⟩
  · intro other row hrow
    rw [rowOf_recordRecoveryAttempt] at hrow
    by_cases heq : other = reference
    · rw [if_pos heq, Option.map_eq_some_iff] at hrow
      obtain ⟨row', hrow', rfl⟩ := hrow
      exact ⟨(h.rows other row' hrow').written, (h.rows other row' hrow').coherent⟩
    · rw [if_neg heq] at hrow
      exact h.rows other row hrow
  · intro other
    rw [h.journal other, rowOf_recordRecoveryAttempt]
    by_cases heq : other = reference
    · rw [if_pos heq, Option.map_map]
      rfl
    · rw [if_neg heq]

/-- What a query of a fitting worker does to sound tables, and what it answers. -/
theorem Sound.query {database database' : Database} {await : Await} {moment : Moment}
    {fault : Fault} {input : Input} (h : database.Sound)
    (hprepared : ∀ w, await = .transaction w → w.Prepared database.payments)
    (hquery : await.query database moment fault = some (database', input)) :
    database'.Sound ∧ Evolves database.payments database'.payments ∧
      await.Heard database'.payments input := by
  cases await with
  | findByReference reference =>
      simp only [Await.query] at hquery
      split at hquery <;> cases hquery
      · exact ⟨h, .refl _, trivial⟩
      · exact ⟨h, .refl _, trivial⟩
      · rename_i t _ hfind
        cases t with
        | none => exact ⟨h, .refl _, trivial⟩
        | some t => exact ⟨h, .refl _, based_of_find (h.rows reference) hfind⟩
  | transaction w =>
      have hw := hprepared w rfl
      have hchanges : ∀ {database' : Database} {t : Tracked},
          (w.run moment fault database = .committed database' t ∨
            ∃ message, w.run moment fault database = .unacknowledged database' t message) →
          database'.Sound ∧ Evolves database.payments database'.payments ∧
            Await.Heard database'.payments (.transaction w) (.committed t) := by
        intro database' t hrun
        obtain ⟨rows, saved, hsave, rfl, rfl⟩ := Work.run_changes hrun
        obtain ⟨hsound, hevolves⟩ := h.save hw hsave
        obtain ⟨hpayment, hbased⟩ := hw.saved hsave
        refine ⟨hsound, hevolves, ?_, ?_⟩
        · cases hw : w.enqueues <;> simp [Work.afterwards, hw, hpayment]
        · cases hw : w.enqueues
          · simpa [Work.afterwards, hw] using hbased
          · simpa [Work.afterwards, hw] using
              hbased.withPayment (p := saved.payment.pullEvents.2) rfl
      simp only [Await.query, Option.some.injEq] at hquery
      cases hrun : w.run moment fault database with
      | committed database₁ t =>
          simp only [hrun, TransactionResult.outcome, Prod.mk.injEq] at hquery
          obtain ⟨rfl, rfl⟩ := hquery
          exact hchanges (.inl hrun)
      | unacknowledged database₁ t message =>
          simp only [hrun, TransactionResult.outcome, Prod.mk.injEq] at hquery
          obtain ⟨rfl, rfl⟩ := hquery
          obtain ⟨hsound, hevolves, -⟩ := hchanges (.inr ⟨message, hrun⟩)
          exact ⟨hsound, hevolves, trivial⟩
      | rolledBack t error =>
          simp only [hrun, TransactionResult.outcome, Prod.mk.injEq] at hquery
          obtain ⟨rfl, rfl⟩ := hquery
          refine ⟨h, .refl _, ?_⟩
          cases error with
          | other message => trivial
          | domain e =>
              obtain ⟨hsave, rfl⟩ := Work.run_rolledBack_domain hrun
              exact ⟨rfl, hw.refused hsave⟩
  | recordRecoveryAttempt reference failure =>
      simp only [Await.query] at hquery
      split at hquery <;> cases hquery
      · exact ⟨h, .refl _, trivial⟩
      · exact ⟨h, .refl _, trivial⟩
      · exact ⟨h.recordRecoveryAttempt _ _ _, evolves_recordRecoveryAttempt _ _ _ _, trivial⟩
      · exact ⟨h.recordRecoveryAttempt _ _ _, evolves_recordRecoveryAttempt _ _ _ _, trivial⟩
  | movement call => cases hquery
  | findMovement wallet key => cases hquery

end Database

/-!
# The invariant over runs
-/

namespace Workers

/-- Sound tables, and workers whose commands fit the payment they treat. -/
structure Invariant (s : State) : Prop where
  database : s.database.Sound
  fits : ∀ worker command, (s.workers worker).command = some command →
    command.Fits s.database.payments
  reference : ∀ worker command, (s.workers worker).command = some command →
    (s.workers worker).reference = some command.reference

theorem invariant_init : Invariant init :=
  ⟨Database.sound_empty, (fun _ _ h => nomatch h), (fun _ _ h => nomatch h)⟩

theorem command_of_await {process : Process} {w : Work}
    (h : process.await = some (.transaction w)) :
    ∃ command, process.command = some command ∧ command.await = .transaction w := by
  cases process with
  | idle => cases h
  | initiated reference => cases h
  | saga reference command => exact ⟨command, rfl, Option.some.inj h⟩
  | recovery reference stage =>
      cases stage with
      | saga command => exact ⟨command, rfl, Option.some.inj h⟩
      | compensate stage => exact ⟨_, rfl, Option.some.inj h⟩
      | find => cases h
      | refind => cases h
      | record failure => cases h

theorem await_of_command {process : Process} {command : Command}
    (h : process.command = some command) : process.await = some command.await := by
  cases process with
  | idle => cases h
  | initiated reference => cases h
  | saga reference c => cases h; rfl
  | recovery reference stage => cases stage <;> cases h <;> rfl

theorem reference_of_command {process : Process} {command : Command}
    (h : process.command = some command) : ∃ reference, process.reference = some reference := by
  cases process with
  | idle => cases h
  | initiated reference => exact ⟨reference, rfl⟩
  | saga reference c => exact ⟨reference, rfl⟩
  | recovery reference stage => exact ⟨reference, rfl⟩

theorem fits_resume {rows : List PaymentOrmEntity} {process : Process} {await : Await}
    {input : Input} {now : Date} {command' : Command}
    (hfits : ∀ command, process.command = some command → command.Fits rows)
    (hreference : ∀ command, process.command = some command →
      process.reference = some command.reference)
    (hawait : process.await = some await) (hheard : await.Heard rows input)
    (h : (process.resume input now).command = some command') :
    command'.Fits rows ∧
      (process.resume input now).reference = some command'.reference := by
  have hstays : process.reference = some command'.reference →
      (process.resume input now).reference = some command'.reference := by
    intro hbefore
    obtain ⟨reference, hafter⟩ := reference_of_command h
    rw [hafter, ← hbefore]
    exact (Process.reference_resume hafter).symm
  rcases Process.next_of_resume h with
    ⟨reference, command, hr, hcommand, hnext⟩ | ⟨reference, hr, rfl | rfl⟩
  · have hcall := await_of_command hcommand
    obtain rfl : command.await = await := Option.some.inj (hcall.symm.trans hawait)
    have hsame : command.reference = reference :=
      Option.some.inj ((hreference command hcommand).symm.trans hr)
    have hmoves := hnext.moves (hfits command hcommand).shape hheard
    obtain ⟨hfits', href'⟩ := hmoves.continues hsame (hfits command hcommand) hheard
    exact ⟨hfits', hstays (hr.trans (congrArg some href'.symm))⟩
  · exact ⟨⟨trivial, fun t ht => nomatch ht⟩, hstays hr⟩
  · exact ⟨⟨trivial, fun t ht => nomatch ht⟩, hstays hr⟩

theorem Effect.sound {s s' : State} {e : Event} {worker : ℕ} (hs : Invariant s)
    (heffect : Effect s s' e worker) :
    s'.database.Sound ∧ Evolves s.database.payments s'.database.payments := by
  cases heffect with
  | quiet hcrash hanswer hdatabase hworker =>
      rw [hdatabase]
      exact ⟨hs.database, .refl _⟩
  | crashed hevent hdatabase hworker =>
      rw [hdatabase]
      exact ⟨hs.database, .refl _⟩
  | started hbefore hdatabase hworker =>
      rw [hdatabase]
      exact ⟨hs.database, .refl _⟩
  | initiated hbefore hdatabase hworker => exact hs.database.inserted hdatabase
  | queried await moment fault input hawait hquery hworker =>
      obtain ⟨hsound, hevolves, -⟩ := hs.database.query (fun w hw => by
        subst hw
        obtain ⟨command, hcommand, hcall⟩ := command_of_await hawait
        exact (hs.fits worker command hcommand).prepared hcall) hquery
      exact ⟨hsound, hevolves⟩
  | answered await answer now hevent hawait hcall hdatabase hworker =>
      rw [hdatabase]
      exact ⟨hs.database, .refl _⟩

theorem Effect.fits {s s' : State} {e : Event} {worker : ℕ} (hs : Invariant s)
    (heffect : Effect s s' e worker) {command : Command}
    (hcommand : (s'.workers worker).command = some command) :
    command.Fits s'.database.payments ∧
      (s'.workers worker).reference = some command.reference := by
  obtain ⟨-, hevolves⟩ := heffect.sound hs
  have hresumed : ∀ {await : Await} {input : Input} {now : Date},
      (s.workers worker).await = some await → await.Heard s'.database.payments input →
      s'.workers worker = (s.workers worker).resume input now →
      command.Fits s'.database.payments ∧
        (s'.workers worker).reference = some command.reference := by
    intro await input now hawait hheard hworker
    rw [hworker] at hcommand ⊢
    exact fits_resume (fun c hc => (hs.fits worker c hc).evolve hevolves)
      (hs.reference worker) hawait hheard hcommand
  cases heffect with
  | quiet hcrash hanswer hdatabase hworker =>
      rw [hworker] at hcommand ⊢
      exact ⟨(hs.fits worker command hcommand).evolve hevolves,
        hs.reference worker command hcommand⟩
  | crashed hevent hdatabase hworker =>
      rw [hworker] at hcommand
      cases hcommand
  | started hbefore hdatabase hworker =>
      rcases hworker with hnone | ⟨reference, heq⟩
      · rw [hnone] at hcommand
        cases hcommand
      · rw [heq] at hcommand ⊢
        cases hcommand
        exact ⟨⟨trivial, fun t ht => nomatch ht⟩, rfl⟩
  | initiated hbefore hdatabase hworker =>
      rw [hworker] at hcommand
      cases hcommand
  | queried await moment fault input hawait hquery hworker =>
      obtain ⟨-, -, hheard⟩ := hs.database.query (fun w hw => by
        subst hw
        obtain ⟨c, hc, hcall⟩ := command_of_await hawait
        exact (hs.fits worker c hc).prepared hcall) hquery
      exact hresumed hawait hheard hworker
  | answered await answer now hevent hawait hcall hdatabase hworker =>
      refine hresumed hawait ?_ hworker
      rcases hcall with ⟨call, rfl⟩ | ⟨wallet, key, rfl⟩ <;> trivial

theorem Invariant.step {s s' : State} {e : Event} (hs : Invariant s)
    (h : Workers.step s e = some s') : Invariant s' := by
  obtain ⟨hothers, heffect⟩ := step_cases h
  obtain ⟨hsound, hevolves⟩ := heffect.sound hs
  refine ⟨hsound, fun other command hcommand => ?_, fun other command hcommand => ?_⟩
  · by_cases heq : other = e.worker
    · subst heq
      exact (heffect.fits hs hcommand).1
    · rw [hothers other heq] at hcommand
      exact (hs.fits other command hcommand).evolve hevolves
  · by_cases heq : other = e.worker
    · subst heq
      exact (heffect.fits hs hcommand).2
    · rw [hothers other heq] at hcommand ⊢
      exact hs.reference other command hcommand

theorem invariant_of_reachable {s : State} (h : Reachable step init s) : Invariant s :=
  h.invariant invariant_init fun _ _ _ hs hstep => hs.step hstep

/-!
One payment from its initiation to its approval, the reference run of the
statements below.
-/

def sampleReference : Reference .pay := ⟨"pay_00000000000000000000000001", Eq.refl true⟩

def sampleInput : InitiatePaymentInput where
  transactionId := "order-1"
  money := ⟨500, .XOF, Money.minimum_le_fiveHundred, Money.step_dvd_fiveHundred⟩
  source := ⟨"wlt_00000000000000000000000001", Eq.refl true⟩
  destination := ⟨"wlt_00000000000000000000000002", Eq.refl true⟩
  description := "Order 1"
  metadata := none

def sampleMovement : MovementResult :=
  ⟨⟨"trx_00000000000000000000000001", Eq.refl true⟩, 0⟩

def sampleMoment : Moment := ⟨1788689700000, "correlation-1"⟩

/-- Initiation, debit and credit without any incident. -/
def approvedRun : List Event :=
  [.initiate 0 sampleInput sampleReference sampleMoment .none, .start 0,
    .query 0 sampleMoment .none, .query 0 sampleMoment .none,
    .answer 0 (.moved sampleMovement) sampleMoment.now, .query 0 sampleMoment .none,
    .query 0 sampleMoment .none, .answer 0 (.moved sampleMovement) sampleMoment.now,
    .query 0 sampleMoment .none]

theorem approvedRun_statuses :
    ∃ s, run step init approvedRun = some s ∧
      s.database.payments.map (·.status) = [.approved] := by
  have h : (run step init approvedRun).map (fun s => s.database.payments.map (·.status)) =
      some [.approved] := by decide
  obtain ⟨s, hs, hstatuses⟩ := Option.map_eq_some_iff.mp h
  exact ⟨s, hs, hstatuses⟩

/-- The statuses committed for a payment along a run, equal neighbours merged. -/
def committedStatuses (reference : String) (es : List Event) : List PaymentStatus :=
  ((trace step init es).filterMap fun s =>
    (rowOf s.database.payments reference).map (·.status)).destutter (· ≠ ·)

theorem isChain_committedStatuses (reference : String) (es : List Event) :
    (committedStatuses reference es).IsChain fun status status' =>
      status' ∈ allowedTransitions status := by
  refine isChain_destutter_of_stutter (isChain_filterMap
    (R := fun s s' : State => Evolves s.database.payments s'.database.payments) ?_ ?_)
  · intro s s' status hevolves hstatus
    obtain ⟨row, hrow, rfl⟩ := Option.map_eq_some_iff.mp hstatus
    obtain ⟨row', hrow', hprecedes⟩ := hevolves _ _ hrow
    exact ⟨row'.status, by rw [hrow']; rfl, hprecedes.advances.1.imp_left Eq.symm⟩
  · refine isChain_trace (I := Invariant) (fun s e s' hs h => hs.step h) ?_ es invariant_init
    intro s e s' hs h
    exact ((step_cases h).2.sound hs).2

/-- Every row a run commits is coherent, its statuses follow the transition table
and end where the table lets nothing leave, and `confirmDebit` only ever looks a
Processing payment up. -/
theorem persisted_payments_coherent {es : List Event} {s : State}
    (h : run step init es = some s) :
    (∀ row ∈ s.database.payments, row.toPaymentColumns.Coherent) ∧
      (∀ reference, (committedStatuses reference es).IsChain fun status status' =>
        status' ∈ allowedTransitions status) ∧
      (∀ reference, ∀ status ∈ terminalStatuses, status ∈ committedStatuses reference es →
        (committedStatuses reference es).getLast? = some status) ∧
      ∀ worker t, (s.workers worker).command = some (.compensate (.findDebit t)) →
        t.payment.status = .processing := by
  have hs := invariant_of_reachable ⟨es, h⟩
  refine ⟨?_, fun reference => isChain_committedStatuses reference es, ?_, ?_⟩
  · intro row hrow
    exact (hs.database.rows _ row (hs.database.unique.find_of_mem hrow)).coherent
  · intro reference status hterminal hmem
    refine getLast?_of_isChain (isChain_committedStatuses reference es) hmem fun status' => ?_
    rw [(mem_terminalStatuses_iff status).mp hterminal]
    simp
  · intro worker t hcommand
    exact (hs.fits worker _ hcommand).shape.1.status

theorem persisted_payments_coherent_approvedRun :
    ∃ s, run step init approvedRun = some s ∧
      s.database.payments.map (·.status) = [.approved] ∧
      ∀ row ∈ s.database.payments, row.toPaymentColumns.Coherent := by
  obtain ⟨s, hrun, hstatuses⟩ := approvedRun_statuses
  exact ⟨s, hrun, hstatuses, (persisted_payments_coherent hrun).1⟩

/-- What each status has put into the outbox: event types, with the direction of
a recorded movement. -/
def expectedMessages : PaymentStatus → List (String × Option String)
  | .approved =>
      [(transactionRecorded, some MovementType.debit.text),
        (transactionRecorded, some MovementType.credit.text), ("payment.approved", none)]
  | .compensated =>
      [(transactionRecorded, some MovementType.refund.text), ("payment.compensated", none)]
  | .declined => [("payment.declined", none)]
  | _ => []

/-- The event type of a message, with the direction of the movement it records. -/
def messageKind (m : OutboxMessage) : String × Option String :=
  (m.eventType, m.ledgerLine.map Prod.fst)

/-- In every committed state the outbox holds, payment by payment, exactly the
messages of its status, and no message of anything else. -/
theorem outbox_matches_statuses {s : State} (h : Reachable step init s) :
    (∀ row ∈ s.database.payments,
      (s.database.outbox.filter (·.aggregateReference = row.reference)).map messageKind =
        expectedMessages row.status) ∧
      ∀ m ∈ s.database.outbox, ∃ row ∈ s.database.payments,
        row.reference = m.aggregateReference := by
  have hs := (invariant_of_reachable h).database
  refine ⟨fun row hrow => ?_, fun m hm => ?_⟩
  · have hjournal := hs.journal row.reference
    rw [show rowOf s.database.payments row.reference = some row from
      hs.unique.find_of_mem hrow] at hjournal
    have hkinds : ∀ messages : List OutboxMessage, messages.map messageKind =
        (messages.map OutboxMessage.reading).map fun reading =>
          (reading.1, reading.2.map Prod.fst) := by
      intro messages
      rw [List.map_map]
      rfl
    rw [hkinds, hjournal]
    cases hstatus : row.status <;>
      simp [PaymentColumns.journal, hstatus, expectedMessages, MovementType.text]
  · have hjournal := hs.journal m.aggregateReference
    cases hrow : rowOf s.database.payments m.aggregateReference with
    | some row => exact ⟨row, Table.mem_of_find hrow, reference_of_rowOf hrow⟩
    | none =>
        rw [hrow, Option.map_none, Option.getD_none, List.map_eq_nil_iff,
          List.filter_eq_nil_iff] at hjournal
        exact absurd (decide_eq_true rfl) (hjournal m hm)

theorem outbox_matches_statuses_approvedRun :
    ∃ s, run step init approvedRun = some s ∧
      s.database.payments.map (·.status) = [.approved] ∧
      ∀ row ∈ s.database.payments,
        (s.database.outbox.filter (·.aggregateReference = row.reference)).map messageKind =
          expectedMessages row.status := by
  obtain ⟨s, hrun, hstatuses⟩ := approvedRun_statuses
  exact ⟨s, hrun, hstatuses, (outbox_matches_statuses ⟨_, hrun⟩).1⟩

end Workers

end Payments

end Paynad
