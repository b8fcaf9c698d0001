import Paynad.Payments.Protocol.Recovery

/-!
# One more attempt, uninterrupted

`carryOn` runs a worker without any failure: the database and `accounts` answer
every call, and `accounts` accepts what is posted. From what interrupted attempts
leave, such an attempt brings the payment to Compensated, unless it is stuck.
-/

namespace Paynad

namespace Payments

open Shared Transition TypeOrmPaymentRepository

namespace Platform

/-- What surrounds a step: the clock, and how `accounts` would record a movement. -/
structure Surroundings where
  moment : Moment
  reference : Reference .trx
  balanceAfter : ℤ

/-- What comes next when nothing fails. -/
def nextEvent (around : Surroundings) (worker : ℕ) (s : State) : Event :=
  match (s.process worker).await, s.clients worker with
  | some (.movement _), .ready _ _ => .send worker
  | some (.movement _), .waiting id _ _ =>
      if id ∈ s.wire.inFlight then
        .serve id (.apply around.reference around.balanceAfter)
      else
        .receive worker around.moment.now
  | some (.findMovement _ _), _ => .lookUp worker true around.moment.now
  | _, _ => .internal (.query worker around.moment .none)

/-- `n` steps of a worker, none of which fails. -/
def carryOn (maxAttempts : ℕ) (around : ℕ → Surroundings) (worker : ℕ) :
    ℕ → State → Option State
  | 0, s => some s
  | n + 1, s =>
      (step maxAttempts s (nextEvent (around n) worker s)).bind
        (carryOn maxAttempts around worker n)

/-- One uninterrupted attempt ends with the payment Compensated and one refund. -/
def Recovers (maxAttempts worker : ℕ) (p : Reference .pay) (s : State) : Prop :=
  ∀ around, ∃ n s' row,
    (step maxAttempts s (.internal (.recover worker p))).bind
      (carryOn maxAttempts around worker n) = some s' ∧
    s'.process worker = .idle ∧ s'.row p.value = some row ∧ row.status = .compensated ∧
    (s'.movements row.toPaymentColumns .refund).length = 1

/-!
# Steps that do not fail
-/

structure Advance (maxAttempts : ℕ) (around : Surroundings) (worker : ℕ) (s s' : State)
    (input : Input) : Prop where
  step : step maxAttempts s (nextEvent around worker s) = some s'
  process : s'.process worker = (s.process worker).resume input around.moment.now
  wire : s'.wire = s.wire

section

variable {maxAttempts worker : ℕ} {s : State} {around : Surroundings} {p : Reference .pay}
  {row : PaymentOrmEntity}

theorem advance_query (maxAttempts : ℕ) {await : Await} {database : Database} {input : Input}
    (hawait : (s.process worker).await = some await)
    (hquery : await.query s.payments.database around.moment .none = some (database, input)) :
    ∃ s', Advance maxAttempts around worker s s' input ∧ s'.payments.database = database ∧
      s'.clients = s.clients := by
  have hevent : nextEvent around worker s = .internal (.query worker around.moment .none) := by
    cases await with
    | movement call => cases hquery
    | findMovement wallet key => cases hquery
    | _ => simp [nextEvent, hawait]
  refine ⟨⟨Workers.State.put { s.payments with database := database } worker
    ((s.process worker).resume input around.moment.now), s.clients, s.wire⟩, ⟨?_, ?_, rfl⟩, ?_, rfl⟩
  · simp only [hevent, Platform.step, Workers.step,
      show (s.payments.workers worker).await = _ from hawait, Option.bind_some, hquery]
    rfl
  · simp [State.process]
  · simp

theorem advance_answer {await : Await} {answer : Answer}
    (hawait : (s.process worker).await = some await)
    (hcall : (∃ call, await = .movement call) ∨ ∃ wallet key, await = .findMovement wallet key)
    (hstep : step maxAttempts s (nextEvent around worker s) =
      finish s worker answer around.moment.now) :
    ∃ s', Advance maxAttempts around worker s s' answer.input ∧
      s'.payments.database = s.payments.database := by
  refine ⟨{ s with
    payments := s.payments.put worker ((s.process worker).resume answer.input around.moment.now)
    clients := clientsAfter s.clients (.answer worker answer around.moment.now) },
    ⟨hstep.trans ?_, ?_, rfl⟩, ?_⟩
  · rcases hcall with ⟨call, rfl⟩ | ⟨wallet, key, rfl⟩ <;>
      simp only [finish, Workers.step, show (s.payments.workers worker).await = _ from hawait] <;>
      rfl
  · simp [State.process]
  · simp

theorem advance_find (hs : Invariant s) (hrow : s.row p.value = some row)
    (hawait : (s.process worker).await = some (.findByReference p.value)) :
    ∃ s' t, Advance maxAttempts around worker s s' (.loaded (some t)) ∧
      s'.row p.value = some row ∧ s'.clients = s.clients ∧
      t.payment.status = row.status ∧
      (t.payment.debitTransactionReference = none ↔ row.debitTransactionReference = none) ∧
      t.revision = some row.version := by
  obtain ⟨t, hfind, hcolumns, hrevision⟩ :=
    findByReference_of_row (hs.payments.database.rows p.value row hrow) hrow
  have hquery : (Await.findByReference p.value).query s.payments.database around.moment .none =
      some (s.payments.database, .loaded (some t)) := by
    simp only [Await.query, hfind, Fault.breaks]
  obtain ⟨s', hadvance, hdatabase, hclients⟩ := advance_query maxAttempts hawait hquery
  exact ⟨s', t, hadvance, State.row_of_database hdatabase hrow, hclients,
    congrArg PaymentColumns.status hcolumns, Payment.debit_eq_none_iff hcolumns, hrevision⟩

theorem advance_record {failure : Option String} (hrow : s.row p.value = some row)
    (hawait : (s.process worker).await = some (.recordRecoveryAttempt p.value failure)) :
    ∃ s' row', Advance maxAttempts around worker s s' .recorded ∧
      s'.row p.value = some row' ∧ row'.toPaymentColumns = row.toPaymentColumns := by
  have hquery : (Await.recordRecoveryAttempt p.value failure).query s.payments.database
      around.moment .none = some ({ s.payments.database with
        payments := TypeOrmPaymentRepository.recordRecoveryAttempt s.payments.database.payments
          p.value failure around.moment.now }, .recorded) := rfl
  obtain ⟨s', hadvance, hdatabase, -⟩ := advance_query maxAttempts hawait hquery
  refine ⟨s', attemptedRow failure around.moment.now row, hadvance, ?_, rfl⟩
  rw [State.row, hdatabase]
  exact (rowOf_recordRecoveryAttempt ..).trans (by rw [if_pos rfl, ← State.row, hrow]; rfl)

theorem advance_transaction {w : Work} (hrow : s.row p.value = some row)
    (href : w.aggregate.payment.reference.value = p.value)
    (hrevision : w.aggregate.revision = some row.version)
    (hidentity : row.identity = w.aggregate.payment.columns.identity)
    (hawait : (s.process worker).await = some (.transaction w)) :
    ∃ s' t row', Advance maxAttempts around worker s s' (.committed t) ∧
      s'.row p.value = some row' ∧ s'.clients = s.clients ∧
      row'.toPaymentColumns = w.aggregate.payment.columns ∧
      t.payment.columns = w.aggregate.payment.columns ∧ t.revision = some row'.version := by
  rw [← href] at hrow
  obtain ⟨⟨database, input⟩, hquery⟩ : ∃ result, (Await.transaction w).query
      s.payments.database around.moment .none = some result := ⟨_, rfl⟩
  obtain ⟨s', hadvance, rfl, hclients⟩ := advance_query maxAttempts hawait hquery
  rcases query_transaction hrow hrevision hidentity hquery with
    ⟨-, hnone, -⟩ | ⟨t, ⟨⟨row', hrow', hcolumns, hrevision'⟩, hcolumns'⟩, -, hends⟩
  · exact absurd rfl hnone
  · rcases hends with ⟨message, hfault, -⟩ | ⟨-, rfl⟩
    · cases hfault
    · exact ⟨s', t, row', hadvance, href ▸ hrow', hclients, hcolumns, hcolumns', hrevision'⟩

theorem advance_lookUp {wallet : Reference .wlt} {key : String}
    (hrecorded : s.wire.Recorded Movement.identifier (wallet.value, key))
    (hawait : (s.process worker).await = some (.findMovement wallet key)) :
    ∃ s' m, Advance maxAttempts around worker s s' (.found (some m)) ∧
      s'.payments.database = s.payments.database := by
  have hfind : ∃ m, Table.find Movement.identifier s.wire.records (wallet.value, key) = some m := by
    obtain ⟨m, hm, hkey⟩ := hrecorded
    rw [← Option.ne_none_iff_exists']
    exact fun hnone => Table.find_eq_none_iff.mp hnone m hm hkey
  obtain ⟨m, hfind⟩ := hfind
  have hstep : step maxAttempts s (nextEvent around worker s) =
      finish s worker (.found (some m.result)) around.moment.now := by
    simp only [nextEvent, hawait, Platform.step, if_true, hfind, Option.map_some]
  obtain ⟨s', hadvance, hdatabase⟩ := advance_answer hawait (.inr ⟨_, _, rfl⟩) hstep
  exact ⟨s', m.result, hadvance, hdatabase⟩

end

/-- How far an uninterrupted attempt still has to go. -/
inductive Stage (worker : ℕ) (p : Reference .pay) (s : State) (row : PaymentOrmEntity) :
    ℕ → Prop
  | done (hstatus : row.status = .compensated) (hprocess : s.process worker = .idle) :
      Stage worker p s row 0
  | record (hstatus : row.status = .compensated) (failure : Option String)
      (hprocess : s.process worker = .recovery p.value (.record failure)) :
      Stage worker p s row 1
  | pickDone (hstatus : row.status = .compensated)
      (hprocess : s.process worker = .recovery p.value .find) : Stage worker p s row 1
  | refind (hstatus : row.status = .compensated)
      (hprocess : s.process worker = .recovery p.value .refind) : Stage worker p s row 2
  | saveCompensated (t : Tracked) (m : MovementResult) (now : Date)
      (hrevision : t.revision = some row.version)
      (hprocess : s.process worker =
        .recovery p.value (.compensate (.saveCompensated t m now))) : Stage worker p s row 3
  | answered (t : Tracked) (id attempt : ℕ) (uncertain : Bool) (m : Movement)
      (hrevision : t.revision = some row.version)
      (hclient : s.clients worker = .waiting id attempt uncertain)
      (hserved : id ∉ s.wire.inFlight)
      (hanswer : Table.find Prod.fst s.wire.answers id = some (id, .inl m))
      (hprocess : s.process worker = .recovery p.value (.compensate (.refund t))) :
      Stage worker p s row 4
  | posted (t : Tracked) (id attempt : ℕ) (uncertain : Bool)
      (hrevision : t.revision = some row.version)
      (hclient : s.clients worker = .waiting id attempt uncertain)
      (hid : id ∈ s.wire.inFlight)
      (hprocess : s.process worker = .recovery p.value (.compensate (.refund t))) :
      Stage worker p s row 5
  | refund (t : Tracked) (hrevision : t.revision = some row.version)
      (hclient : s.clients worker = .idle)
      (hprocess : s.process worker = .recovery p.value (.compensate (.refund t))) :
      Stage worker p s row 6
  | findOwed (hstatus : row.status = .compensationPending)
      (hprocess : s.process worker = .recovery p.value (.compensate (.find p.value))) :
      Stage worker p s row 7
  | pickOwed (hstatus : row.status = .compensationPending)
      (hprocess : s.process worker = .recovery p.value .find) : Stage worker p s row 8
  | savePending (t : Tracked) (hrevision : t.revision = some row.version)
      (hprocess : s.process worker = .recovery p.value (.compensate (.savePending t))) :
      Stage worker p s row 7
  | saveDebited (t : Tracked) (m : MovementResult) (hrevision : t.revision = some row.version)
      (hprocess : s.process worker = .recovery p.value (.compensate (.saveDebited t m))) :
      Stage worker p s row 8
  | findDebit (t : Tracked) (hrevision : t.revision = some row.version)
      (hmoved : s.wire.Recorded Movement.identifier (row.legKey .debit))
      (hprocess : s.process worker = .recovery p.value (.compensate (.findDebit t))) :
      Stage worker p s row 9
  | findLost (hstatus : row.status = .processing) (hdebit : row.debitTransactionReference = none)
      (hmoved : s.wire.Recorded Movement.identifier (row.legKey .debit))
      (hprocess : s.process worker = .recovery p.value (.compensate (.find p.value))) :
      Stage worker p s row 10
  | pickLost (hstatus : row.status = .processing) (hdebit : row.debitTransactionReference = none)
      (hmoved : s.wire.Recorded Movement.identifier (row.legKey .debit))
      (hprocess : s.process worker = .recovery p.value .find) : Stage worker p s row 11

section

variable {worker n : ℕ} {p : Reference .pay} {s : State} {row : PaymentOrmEntity}

theorem resume_picked {t : Tracked} {now : Date} (hterminal : t.payment.status ∉ terminalStatuses)
    (hpending : t.payment.status ≠ .pending) :
    (Process.recovery p.value .find).resume (.loaded (some t)) now =
      .recovery p.value (.compensate (.find p.value)) := by
  simp [Process.resume, ReconciliationJob.resume, hterminal, hpending, Process.ofProgress]

theorem await_refund {t : Tracked}
    (hprocess : s.process worker = .recovery p.value (.compensate (.refund t))) :
    (s.process worker).await = some (.movement (CompensatePayment.call t.payment)) := by
  rw [hprocess]
  rfl

/-- The next event takes an attempt to a stage with `n` more to go. -/
def LeadsTo (maxAttempts : ℕ) (around : Surroundings) (worker : ℕ) (p : Reference .pay)
    (s : State) (n : ℕ) : Prop :=
  ∃ s' row', step maxAttempts s (nextEvent around worker s) = some s' ∧
    s'.row p.value = some row' ∧ Stage worker p s' row' n

variable (maxAttempts : ℕ) (around : Surroundings)

theorem leadsTo_refund_of_find (hs : Invariant s) (hrow : s.row p.value = some row)
    (hstatus : row.status = .compensationPending)
    (hprocess : s.process worker = .recovery p.value (.compensate (.find p.value))) :
    LeadsTo maxAttempts around worker p s 6 := by
  have hawait : (s.process worker).await = some (.findByReference p.value) := by
    rw [hprocess]
    rfl
  obtain ⟨s', t, hadvance, hrow', hclients, hread, hdebit, hrevision⟩ :=
    advance_find hs hrow hawait
  have hcoherent := (hs.payments.database.rows p.value row hrow).coherent
  simp only [PaymentColumns.Coherent, hstatus] at hcoherent
  refine ⟨s', row, hadvance.step, hrow', .refund t hrevision ?_ ?_⟩
  · rw [hclients]
    exact hs.client_idle fun call hcall => by cases hawait.symm.trans hcall
  · rw [hadvance.process, hprocess]
    exact afterFind_owed (hread.trans hstatus) fun hnone => hcoherent.1 (hdebit.mp hnone)

theorem leadsTo_refund_of_save (hs : Invariant s) (hrow : s.row p.value = some row) (t : Tracked)
    (hrevision : t.revision = some row.version)
    (hprocess : s.process worker = .recovery p.value (.compensate (.savePending t))) :
    LeadsTo maxAttempts around worker p s 6 := by
  obtain ⟨href, hidentity, -⟩ := hs.aggregate hprocess rfl hrow
  have hawait : (s.process worker).await = some (.transaction (saveWork t)) := by
    rw [hprocess]
    rfl
  obtain ⟨s', t', row', hadvance, hrow', hclients, -, -, hrevision'⟩ :=
    advance_transaction hrow href hrevision hidentity hawait
  refine ⟨s', row', hadvance.step, hrow', .refund t' hrevision' ?_ ?_⟩
  · rw [hclients]
    exact hs.client_idle fun call hcall => by cases hawait.symm.trans hcall
  · rw [hadvance.process, hprocess]
    rfl

theorem leadsTo_posted (hrow : s.row p.value = some row) (t : Tracked)
    (hrevision : t.revision = some row.version) (hclient : s.clients worker = .idle)
    (hprocess : s.process worker = .recovery p.value (.compensate (.refund t))) :
    LeadsTo maxAttempts around worker p s 5 := by
  have hawait := await_refund hprocess
  refine ⟨{ s with
    clients := Function.update s.clients worker (.waiting s.wire.next 1 false)
    wire := s.wire.send (CompensatePayment.call t.payment) }, row, ?_, hrow,
    .posted t s.wire.next 1 false hrevision (by simp) (List.mem_cons_self ..) hprocess⟩
  simp only [nextEvent, hawait, hclient, Client.idle, Platform.step]

theorem leadsTo_answered (hs : Invariant s) (hrow : s.row p.value = some row) (t : Tracked)
    {id attempt : ℕ} {uncertain : Bool} (hrevision : t.revision = some row.version)
    (hclient : s.clients worker = .waiting id attempt uncertain) (hid : id ∈ s.wire.inFlight)
    (hprocess : s.process worker = .recovery p.value (.compensate (.refund t))) :
    LeadsTo maxAttempts around worker p s 4 := by
  have hawait := await_refund hprocess
  have hrequest : s.wire.request? id = some (CompensatePayment.call t.payment) := by
    rw [Wire.request?, if_pos hid]
    exact hs.waiting worker id attempt uncertain _ hclient hawait
  obtain ⟨hserved, m, hanswer⟩ := Wire.answered_apply Movement.identifier s.wire id
    ((CompensatePayment.call t.payment).movement around.reference around.balanceAfter)
  refine ⟨{ s with
    wire := s.wire.apply Movement.identifier id
      ((CompensatePayment.call t.payment).movement around.reference around.balanceAfter) },
    row, ?_, hrow, .answered t id attempt uncertain m hrevision hclient hserved hanswer hprocess⟩
  simp only [nextEvent, hawait, hclient, if_pos hid, Platform.step, hrequest]

theorem leadsTo_saveCompensated (hs : Invariant s) (hrow : s.row p.value = some row)
    (t : Tracked) {id attempt : ℕ} {uncertain : Bool} (m : Movement)
    (hrevision : t.revision = some row.version)
    (hclient : s.clients worker = .waiting id attempt uncertain) (hserved : id ∉ s.wire.inFlight)
    (hanswer : Table.find Prod.fst s.wire.answers id = some (id, .inl m))
    (hprocess : s.process worker = .recovery p.value (.compensate (.refund t))) :
    LeadsTo maxAttempts around worker p s 3 := by
  obtain ⟨-, -, hstanding⟩ := hs.aggregate hprocess rfl hrow
  have hawait := await_refund hprocess
  have hstep : step maxAttempts s (nextEvent around worker s) =
      finish s worker (.moved m.result) around.moment.now := by
    simp only [nextEvent, hawait, hclient, hserved, if_false, Platform.step, hanswer]
  obtain ⟨s', hadvance, hdatabase⟩ := advance_answer hawait (.inl ⟨_, rfl⟩) hstep
  refine ⟨s', row, hadvance.step, State.row_of_database hdatabase hrow,
    .saveCompensated { t with payment :=
        (t.payment.compensate m.result.transactionReference around.moment.now).payment }
      m.result around.moment.now hrevision ?_⟩
  rw [hadvance.process, hprocess]
  exact resume_refunded hstanding.status

theorem leadsTo_refind (hs : Invariant s) (hrow : s.row p.value = some row) (t : Tracked)
    (m : MovementResult) (now : Date) (hrevision : t.revision = some row.version)
    (hprocess : s.process worker =
      .recovery p.value (.compensate (.saveCompensated t m now))) :
    LeadsTo maxAttempts around worker p s 2 := by
  obtain ⟨href, hidentity, hcompensating, -⟩ := hs.aggregate hprocess rfl hrow
  obtain ⟨s', t', row', hadvance, hrow', -, hcolumns, -, -⟩ :=
    advance_transaction (w := compensateWork t m.transactionReference now) hrow href hrevision
      hidentity (by rw [hprocess]; rfl)
  refine ⟨s', row', hadvance.step, hrow', .refind ?_ ?_⟩
  · exact (congrArg PaymentColumns.status hcolumns).trans hcompensating.1
  · rw [hadvance.process, hprocess]
    rfl

theorem leadsTo_savePending (hs : Invariant s) (hrow : s.row p.value = some row) (t : Tracked)
    (m : MovementResult) (hrevision : t.revision = some row.version)
    (hprocess : s.process worker = .recovery p.value (.compensate (.saveDebited t m))) :
    LeadsTo maxAttempts around worker p s 7 := by
  obtain ⟨href, hidentity, hstanding, -⟩ := hs.aggregate hprocess rfl hrow
  obtain ⟨s', t', row', hadvance, hrow', -, -, hcolumns, hrevision'⟩ :=
    advance_transaction (w := saveWork t) hrow href hrevision hidentity
      (by rw [hprocess]; rfl)
  have hstatus : t'.payment.status = .processing :=
    (congrArg PaymentColumns.status hcolumns).trans hstanding.status
  refine ⟨s', row', hadvance.step, hrow', .savePending _ ?_
    (hadvance.process.trans (hprocess ▸ resume_recovered hstatus))⟩
  exact hrevision'

theorem leadsTo_saveDebited (hs : Invariant s) (hrow : s.row p.value = some row) (t : Tracked)
    (hrevision : t.revision = some row.version)
    (hmoved : s.wire.Recorded Movement.identifier (row.legKey .debit))
    (hprocess : s.process worker = .recovery p.value (.compensate (.findDebit t))) :
    LeadsTo maxAttempts around worker p s 8 := by
  obtain ⟨-, hidentity, hstanding, -⟩ := hs.aggregate hprocess rfl hrow
  rw [PaymentColumns.legKey_congr hidentity] at hmoved
  obtain ⟨s', m, hadvance, hdatabase⟩ := advance_lookUp hmoved (by rw [hprocess]; rfl)
  refine ⟨s', row, hadvance.step, State.row_of_database hdatabase hrow,
    .saveDebited _ m ?_ (hadvance.process.trans (hprocess ▸ resume_debitFound hstanding.status))⟩
  exact hrevision

/-- Without failures every stage of an attempt is followed by the next one. -/
theorem Stage.next (hs : Invariant s) (hrow : s.row p.value = some row)
    (h : Stage worker p s row (n + 1)) :
    ∃ s' row', step maxAttempts s (nextEvent around worker s) = some s' ∧
      s'.row p.value = some row' ∧ Stage worker p s' row' n := by
  cases h with
  | record hstatus failure hprocess =>
      obtain ⟨s', row', hadvance, hrow', hcolumns⟩ :=
        advance_record hrow (by rw [hprocess]; rfl)
      refine ⟨s', row', hadvance.step, hrow', .done (hcolumns ▸ hstatus) ?_⟩
      rw [hadvance.process, hprocess]
      rfl
  | pickDone hstatus hprocess =>
      obtain ⟨s', t, hadvance, hrow', -, hread, -⟩ :=
        advance_find hs hrow (by rw [hprocess]; rfl)
      refine ⟨s', row, hadvance.step, hrow', .done hstatus ?_⟩
      rw [hadvance.process, hprocess]
      simp [Process.resume, ReconciliationJob.resume, hread, hstatus, terminalStatuses,
        Process.ofProgress]
  | refind hstatus hprocess =>
      obtain ⟨s', t, hadvance, hrow', -, hread, -⟩ :=
        advance_find hs hrow (by rw [hprocess]; rfl)
      refine ⟨s', row, hadvance.step, hrow', .record hstatus none ?_⟩
      rw [hadvance.process, hprocess]
      simp [Process.resume, ReconciliationJob.resume, hread, hstatus, terminalStatuses,
        Process.ofProgress]
  | saveCompensated t m now hrevision hprocess =>
      exact leadsTo_refind maxAttempts around hs hrow t m now hrevision hprocess
  | answered t id attempt uncertain m hrevision hclient hserved hanswer hprocess =>
      exact leadsTo_saveCompensated maxAttempts around hs hrow t m hrevision hclient hserved
        hanswer hprocess
  | posted t id attempt uncertain hrevision hclient hid hprocess =>
      exact leadsTo_answered maxAttempts around hs hrow t hrevision hclient hid hprocess
  | refund t hrevision hclient hprocess =>
      exact leadsTo_posted maxAttempts around hrow t hrevision hclient hprocess
  | findOwed hstatus hprocess =>
      exact leadsTo_refund_of_find maxAttempts around hs hrow hstatus hprocess
  | pickOwed hstatus hprocess =>
      obtain ⟨s', t, hadvance, hrow', -, hread, -⟩ :=
        advance_find hs hrow (by rw [hprocess]; rfl)
      refine ⟨s', row, hadvance.step, hrow', .findOwed hstatus ?_⟩
      rw [hadvance.process, hprocess]
      exact resume_picked (by rw [hread, hstatus]; decide) (by rw [hread, hstatus]; decide)
  | savePending t hrevision hprocess =>
      exact leadsTo_refund_of_save maxAttempts around hs hrow t hrevision hprocess
  | saveDebited t m hrevision hprocess =>
      exact leadsTo_savePending maxAttempts around hs hrow t m hrevision hprocess
  | findDebit t hrevision hmoved hprocess =>
      exact leadsTo_saveDebited maxAttempts around hs hrow t hrevision hmoved hprocess
  | findLost hstatus hdebit hmoved hprocess =>
      obtain ⟨s', t, hadvance, hrow', -, hread, hdebit', hrevision⟩ :=
        advance_find hs hrow (by rw [hprocess]; rfl)
      refine ⟨s', row, hadvance.step, hrow', .findDebit t hrevision (hadvance.wire ▸ hmoved) ?_⟩
      rw [hadvance.process, hprocess]
      exact afterFind_confirming (hread.trans hstatus) (hdebit'.mpr hdebit)
  | pickLost hstatus hdebit hmoved hprocess =>
      obtain ⟨s', t, hadvance, hrow', -, hread, -⟩ :=
        advance_find hs hrow (by rw [hprocess]; rfl)
      refine ⟨s', row, hadvance.step, hrow', .findLost hstatus hdebit (hadvance.wire ▸ hmoved) ?_⟩
      rw [hadvance.process, hprocess]
      exact resume_picked (by rw [hread, hstatus]; decide) (by rw [hread, hstatus]; decide)

end

end Platform

end Payments

end Paynad
