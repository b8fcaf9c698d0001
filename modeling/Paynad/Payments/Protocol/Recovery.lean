import Paynad.Payments.Protocol.Attempt

/-!
# What interrupted attempts leave

`Phase` says what the attempts on a lost debit can leave behind: the debit still
to confirm, the refund about to be decided, or decided. An attempt that breaks
off between the commit of the recovered debit and that of the decision leaves the
payment `Stuck`: the next attempts take it for a payment whose credit may be in
flight.
-/

namespace Paynad

namespace Payments

open Shared Transition TypeOrmPaymentRepository

namespace Platform

/-- The step does not part the commit of a recovered debit from the commit of the
decision to refund it. -/
def Unsplit (worker : ℕ) (s : State) (e : Event) : Prop :=
  (∀ t m, s.command worker = some (.compensate (.saveDebited t m)) →
    ∀ moment message, e ≠ .internal (.query worker moment (.acknowledgement message))) ∧
  ∀ t, s.command worker = some (.compensate (.savePending t)) →
    e ≠ .internal (.crash worker) ∧
    ∀ moment fault, e = .internal (.query worker moment fault) → fault.fails = false

/-- Between attempts, or in an attempt that holds no aggregate. -/
inductive Resting (p : Reference .pay) : Process → Prop
  | idle : Resting p .idle
  | find : Resting p (.recovery p.value .find)
  | compensate : Resting p (.recovery p.value (.compensate (.find p.value)))
  | refind : Resting p (.recovery p.value .refind)
  | record (failure : Option String) : Resting p (.recovery p.value (.record failure))

/-- An attempt on a payment whose debit is not recorded. -/
inductive Confirming (p : Reference .pay) (version : ℕ) : Process → Prop
  | resting {process : Process} (h : Resting p process) : Confirming p version process
  | findDebit (t : Tracked) (h : t.revision = some version) :
      Confirming p version (.recovery p.value (.compensate (.findDebit t)))
  | saveDebited (t : Tracked) (m : MovementResult) (h : t.revision = some version) :
      Confirming p version (.recovery p.value (.compensate (.saveDebited t m)))

/-- An attempt on a payment whose refund is decided. -/
inductive Refunding (p : Reference .pay) : Process → Prop
  | resting {process : Process} (h : Resting p process) : Refunding p process
  | refund (t : Tracked) : Refunding p (.recovery p.value (.compensate (.refund t)))
  | saveCompensated (t : Tracked) (m : MovementResult) (now : Date) :
      Refunding p (.recovery p.value (.compensate (.saveCompensated t m now)))

inductive Waiting (p : Reference .pay) : Process → Prop
  | resting {process : Process} (h : Resting p process) : Waiting p process
  | findCredit (t : Tracked) : Waiting p (.recovery p.value (.compensate (.findCredit t)))

inductive Phase (worker : ℕ) (p : Reference .pay) (s : State) : Prop
  | confirming (row : PaymentOrmEntity) (hrow : s.row p.value = some row)
      (hstatus : row.status = .processing) (hdebit : row.debitTransactionReference = none)
      (hmoved : s.wire.Recorded Movement.identifier (row.legKey .debit))
      (hprocess : Confirming p row.version (s.process worker))
  | deciding (row : PaymentOrmEntity) (hrow : s.row p.value = some row)
      (hstatus : row.status = .processing) (hdebit : row.debitTransactionReference ≠ none)
      (hunsent : ¬ s.wire.Sent MovementCall.identifier (row.legKey .credit)) (t : Tracked)
      (hrevision : t.revision = some row.version)
      (hprocess : s.process worker = .recovery p.value (.compensate (.savePending t)))
  | refunding (row : PaymentOrmEntity) (hrow : s.row p.value = some row)
      (hready : row.Ready .refund) (hprocess : Refunding p (s.process worker))

/-- A recorded debit, no decision, and no credit to wait for. -/
structure Stuck (worker : ℕ) (p : Reference .pay) (s : State) : Prop where
  row : ∃ row, s.row p.value = some row ∧ row.status = .processing ∧
    row.debitTransactionReference ≠ none ∧
    ¬ s.wire.Sent MovementCall.identifier (row.legKey .credit)
  process : Waiting p (s.process worker)

/-!
# Attempts without an aggregate
-/

theorem Resting.command {p : Reference .pay} {process : Process} (h : Resting p process) :
    process.command = none ∨ process.command = some (.compensate (.find p.value)) := by
  cases h <;> first | exact .inl rfl | exact .inr rfl

theorem Resting.await_ne {p : Reference .pay} {process : Process} (h : Resting p process)
    {answer : Answer} {await : Await} (hawait : process.await = some await) :
    await.expects answer.input = false := by
  cases h <;> cases hawait <;> cases answer <;> rfl

theorem Resting.unsplit {worker : ℕ} {p : Reference .pay} {s : State} {e : Event}
    (h : Resting p (s.process worker)) : Unsplit worker s e := by
  rcases h.command with hnone | hfind
  · exact ⟨(fun t m hcommand => nomatch hnone.symm.trans hcommand),
      (fun t hcommand => nomatch hnone.symm.trans hcommand)⟩
  · exact ⟨(fun t m hcommand => nomatch hfind.symm.trans hcommand),
      (fun t hcommand => nomatch hfind.symm.trans hcommand)⟩

theorem Calm.unsplit {worker : ℕ} {s : State} {e : Event} (h : Calm worker e) :
    Unsplit worker s e :=
  ⟨fun _ _ _ moment message => h.2 moment (.acknowledgement message),
    fun _ _ => ⟨h.1, fun moment fault hevent => absurd hevent (h.2 moment fault)⟩⟩

theorem State.row_of_database {reference : String} {row : PaymentOrmEntity} {s s' : State}
    (hdatabase : s'.payments.database = s.payments.database)
    (hrow : s.row reference = some row) : s'.row reference = some row := by
  rw [State.row, hdatabase]
  exact hrow

theorem Learned.expects {worker : ℕ} {s : State} {answer : Answer} {await : Await}
    (hs : Invariant s) (h : Learned s worker answer)
    (hawait : (s.process worker).await = some await) : await.expects answer.input = true := by
  obtain ⟨await', hawait', hexpected⟩ := h.expected (hs.busy worker)
  obtain rfl : await = await' := Option.some.inj (hawait.symm.trans hawait')
  exact hexpected

theorem Learned.await_ne_transaction {worker : ℕ} {s : State} {answer : Answer} (hs : Invariant s)
    (h : Learned s worker answer) (w : Work) :
    (s.process worker).await ≠ some (.transaction w) := by
  intro hawait
  have hexpected := h.expects hs hawait
  cases answer <;> cases hexpected

def afterFind (p : Reference .pay) (t : Tracked) (now : Date) : Process :=
  (Process.recovery p.value (.compensate (.find p.value))).resume (.loaded (some t)) now

theorem SoloEffect.wire {worker : ℕ} {p : Reference .pay} {s s' : State} {e : Event}
    (h : SoloEffect worker p s s' e)
    (hawait : ∀ call, (s.process worker).await ≠ some (.movement call)) :
    (∀ k, s'.wire.Sent MovementCall.identifier k → s.wire.Sent MovementCall.identifier k) ∧
      ∀ m ∈ s.wire.records, m ∈ s'.wire.records := by
  have hsame : s'.wire = s.wire →
      (∀ k, s'.wire.Sent MovementCall.identifier k → s.wire.Sent MovementCall.identifier k) ∧
        ∀ m ∈ s.wire.records, m ∈ s'.wire.records := by
    intro hwire
    rw [hwire]
    exact ⟨fun k hk => hk, fun m hm => hm⟩
  cases h with
  | calm _ _ _ hsent hrecords =>
      exact ⟨fun k hk => (hsent k hk).resolve_right fun ⟨call, hcall⟩ => hawait call hcall,
        hrecords⟩
  | crashed hwire => exact hsame hwire
  | picked hwire => exact hsame hwire
  | queried hwire => exact hsame hwire
  | answered hwire => exact hsame hwire

/-- A step of an attempt that holds no aggregate leaves the columns and the version
of its row, and holds at most the aggregate of that row. -/
theorem Resting.step {worker : ℕ} {p : Reference .pay} {s s' : State} {e : Event}
    (hs : Invariant s) (h : Resting p (s.process worker)) (heffect : SoloEffect worker p s s' e)
    {row : PaymentOrmEntity} (hrow : s.row p.value = some row)
    (hpending : row.status ≠ .pending) :
    (∃ row', s'.row p.value = some row' ∧ row'.toPaymentColumns = row.toPaymentColumns ∧
      row'.version = row.version) ∧
    (Resting p (s'.process worker) ∨ ∃ t now, t.payment.columns = row.toPaymentColumns ∧
      t.revision = some row.version ∧ s'.process worker = afterFind p t now) := by
  have hsound := hs.payments.database.rows p.value row hrow
  have hsame : s'.payments.database = s.payments.database →
      ∃ row', s'.row p.value = some row' ∧ row'.toPaymentColumns = row.toPaymentColumns ∧
        row'.version = row.version := by
    intro hdatabase
    exact ⟨row, State.row_of_database hdatabase hrow, rfl, rfl⟩
  cases heffect with
  | calm hcalm hdatabase hprocess => exact ⟨hsame hdatabase, .inl (hprocess ▸ h)⟩
  | crashed hwire hdatabase hprocess => exact ⟨hsame hdatabase, .inl (hprocess ▸ .idle)⟩
  | picked hwire hdatabase hidle hprocess => exact ⟨hsame hdatabase, .inl (hprocess ▸ .find)⟩
  | answered hwire hdatabase answer now hlearned hprocess =>
      obtain ⟨await, hawait, hexpected⟩ := hlearned.expected (hs.busy worker)
      exact absurd hexpected (by rw [h.await_ne hawait]; decide)
  | queried hwire await moment fault input hevent hawait hquery hprocess =>
      generalize hbefore : s.process worker = process at *
      cases h with
      | idle => cases hawait
      | find =>
          cases hawait
          obtain ⟨hdatabase, hinput⟩ := query_find hsound hrow hquery
          refine ⟨hsame hdatabase, .inl ?_⟩
          rcases hinput with ⟨message, -, rfl⟩ | ⟨t, rfl, hcolumns, -⟩
          · rw [hprocess]
            exact .idle
          · have hstatus : t.payment.status = row.status :=
              congrArg PaymentColumns.status hcolumns
            rw [hprocess]
            simp only [Process.resume, ReconciliationJob.resume]
            split
            · exact .idle
            · rw [if_neg (by rw [hstatus]; exact hpending)]
              exact .compensate
      | compensate =>
          cases hawait
          obtain ⟨hdatabase, hinput⟩ := query_find hsound hrow hquery
          refine ⟨hsame hdatabase, ?_⟩
          rcases hinput with ⟨message, -, rfl⟩ | ⟨t, rfl, hcolumns, hrevision⟩
          · left
            rw [hprocess]
            exact .record _
          · exact .inr ⟨t, moment.now, hcolumns, hrevision, hprocess⟩
      | refind =>
          cases hawait
          obtain ⟨hdatabase, hinput⟩ := query_find hsound hrow hquery
          refine ⟨hsame hdatabase, .inl ?_⟩
          rcases hinput with ⟨message, -, rfl⟩ | ⟨t, rfl, -, -⟩
          · rw [hprocess]
            exact .record _
          · rw [hprocess]
            simp only [Process.resume, ReconciliationJob.resume]
            split <;> exact .record _
      | record failure =>
          cases hawait
          obtain ⟨hkept, hinput⟩ := query_record hrow hquery
          refine ⟨hkept, .inl ?_⟩
          rw [hprocess]
          rcases hinput with rfl | ⟨message, rfl⟩ <;> exact .idle

/-!
# From one await of an attempt to the next
-/

section

variable {p : Reference .pay} {t t' : Tracked} {m : MovementResult} {now : Date}

theorem afterFind_confirming (hstatus : t.payment.status = .processing)
    (hdebit : t.payment.debitTransactionReference = none) :
    afterFind p t now = .recovery p.value (.compensate (.findDebit t)) := by
  simp [afterFind, Process.resume, ReconciliationJob.resume, CompensatePayment.resume, hstatus,
    hdebit, ReconciliationJob.afterAttempt, Process.ofProgress]

theorem afterFind_waiting (hstatus : t.payment.status = .processing)
    (hdebit : t.payment.debitTransactionReference ≠ none) :
    afterFind p t now = .recovery p.value (.compensate (.findCredit t)) := by
  simp [afterFind, Process.resume, ReconciliationJob.resume, CompensatePayment.resume, hstatus,
    hdebit, CompensatePayment.afterDebit, ReconciliationJob.afterAttempt, Process.ofProgress]

theorem afterFind_owed (hstatus : t.payment.status = .compensationPending)
    (hdebit : t.payment.debitTransactionReference ≠ none) :
    afterFind p t now = .recovery p.value (.compensate (.refund t)) := by
  simp [afterFind, Process.resume, ReconciliationJob.resume, CompensatePayment.resume, hstatus,
    hdebit, CompensatePayment.afterDebit, ReconciliationJob.afterAttempt, Process.ofProgress]

theorem afterFind_compensated (hstatus : t.payment.status = .compensated) :
    afterFind p t now = .recovery p.value .refind := by
  simp [afterFind, Process.resume, ReconciliationJob.resume, CompensatePayment.resume, hstatus,
    ReconciliationJob.afterAttempt, Process.ofProgress]

theorem resume_debitFound (hstatus : t.payment.status = .processing) :
    (Process.recovery p.value (.compensate (.findDebit t))).resume (.found (some m)) now =
      .recovery p.value (.compensate (.saveDebited
        { t with payment := (t.payment.markDebited m.transactionReference now).payment } m)) := by
  simp [Process.resume, ReconciliationJob.resume, CompensatePayment.resume, hstatus,
    Progress.ofMutated, Payment.markDebited_error m.transactionReference now hstatus,
    ReconciliationJob.afterAttempt, Process.ofProgress]

theorem resume_recovered (hstatus : t'.payment.status = .processing) :
    (Process.recovery p.value (.compensate (.saveDebited t m))).resume (.committed t') now =
      .recovery p.value (.compensate (.savePending
        { t' with
          payment := (t'.payment.markCompensationPending .creditFailed now).payment })) := by
  simp [Process.resume, ReconciliationJob.resume, CompensatePayment.resume,
    CompensatePayment.afterDebit, hstatus, Progress.ofMutated,
    Payment.markCompensationPending_error .creditFailed now hstatus,
    ReconciliationJob.afterAttempt, Process.ofProgress]

theorem resume_refunded (hstatus : t.payment.status = .compensationPending) :
    (Process.recovery p.value (.compensate (.refund t))).resume (.moved m) now =
      .recovery p.value (.compensate (.saveCompensated
        { t with payment := (t.payment.compensate m.transactionReference now).payment } m
        now)) := by
  simp [Process.resume, ReconciliationJob.resume, CompensatePayment.resume,
    Progress.ofMutated, Payment.compensate_error m.transactionReference now hstatus,
    ReconciliationJob.afterAttempt, Process.ofProgress]

end

/-- What an attempt that holds an aggregate knows of its row. -/
theorem Invariant.aggregate {worker : ℕ} {p : Reference .pay} {s : State} (hs : Invariant s)
    {stage : CompensatePayment.Stage} {t : Tracked} {row : PaymentOrmEntity}
    (hprocess : s.process worker = .recovery p.value (.compensate stage))
    (ht : (Command.compensate stage).aggregate = some t) (hrow : s.row p.value = some row) :
    t.payment.reference.value = p.value ∧ row.identity = t.payment.columns.identity ∧
      (Command.compensate stage).Shape := by
  have hcommand : s.command worker = some (.compensate stage) := by
    rw [State.command, show s.payments.workers worker = _ from hprocess]
    rfl
  have hreference : (Command.compensate stage).reference = p.value := by
    have h := hs.payments.reference worker _ hcommand
    rw [show s.payments.workers worker = _ from hprocess] at h
    exact (Option.some.inj h).symm
  obtain ⟨row', hrow', hidentity⟩ := hs.row_of_aggregate hcommand ht
  rw [hreference, hrow] at hrow'
  cases hrow'
  exact ⟨(Command.reference_of_aggregate ht).symm.trans hreference, hidentity,
    (hs.payments.fits worker _ hcommand).shape⟩

theorem Resting.await_ne_movement {p : Reference .pay} {process : Process}
    (h : Resting p process) (call : MovementCall) :
    process.await ≠ some (.movement call) := by
  cases h <;> exact nofun

/-!
# From one phase to the next
-/

section

variable {worker : ℕ} {p : Reference .pay} {s s' : State} {e : Event}

theorem Phase.of_kept {row row' : PaymentOrmEntity} (hstatus : row.status = .processing)
    (hdebit : row.debitTransactionReference = none)
    (hmoved : s.wire.Recorded Movement.identifier (row.legKey .debit))
    (hrow' : s'.row p.value = some row') (hcolumns : row'.toPaymentColumns = row.toPaymentColumns)
    (hrecords : ∀ m ∈ s.wire.records, m ∈ s'.wire.records)
    (hprocess' : Confirming p row'.version (s'.process worker)) : Phase worker p s' := by
  obtain ⟨m, hm, hkey⟩ := hmoved
  refine .confirming row' hrow' ?_ ?_ ⟨m, hrecords m hm, ?_⟩ hprocess' <;> rw [hcolumns]
  · exact hstatus
  · exact hdebit
  · exact hkey

/-- The look-up of a debit that `accounts` has recorded finds it, or is tried again. -/
theorem findDebit_step (hs : Invariant s) (heffect : SoloEffect worker p s s' e)
    {row : PaymentOrmEntity} (hrow : s.row p.value = some row)
    (hmoved : s.wire.Recorded Movement.identifier (row.legKey .debit)) {t : Tracked}
    (hrevision : t.revision = some row.version)
    (hprocess : s.process worker = .recovery p.value (.compensate (.findDebit t))) :
    Unsplit worker s e ∧ s'.row p.value = some row ∧
      (∀ m ∈ s.wire.records, m ∈ s'.wire.records) ∧
      Confirming p row.version (s'.process worker) := by
  obtain ⟨-, hidentity, hstanding, -⟩ := hs.aggregate hprocess rfl hrow
  have hsplits : Unsplit worker s e := by
    constructor <;> intro t' <;>
      simp [State.command, show s.payments.workers worker = _ from hprocess, Process.command]
  refine ⟨hsplits, ?_⟩
  cases heffect with
  | calm hcalm hdatabase hkept hsent hrecords =>
      refine ⟨State.row_of_database hdatabase hrow, hrecords, ?_⟩
      rw [hkept, hprocess]
      exact .findDebit t hrevision
  | crashed hwire hdatabase hidle =>
      refine ⟨State.row_of_database hdatabase hrow, hwire ▸ fun m hm => hm, ?_⟩
      rw [hidle]
      exact .resting .idle
  | picked hwire hdatabase hidle => cases hprocess.symm.trans hidle
  | queried hwire await moment fault input hevent hawait hquery =>
      rw [hprocess] at hawait
      cases hawait
      cases hquery
  | answered hwire hdatabase answer now hlearned hnext =>
      refine ⟨State.row_of_database hdatabase hrow, hwire ▸ fun m hm => hm, ?_⟩
      rw [hnext, hprocess]
      have hexpected := hlearned.expects hs (by rw [hprocess]; rfl)
      cases hlearned with
      | found _ _ m =>
          rw [Answer.input, resume_debitFound hstanding.status]
          exact .saveDebited _ _ hrevision
      | absent wallet key hawait hnone =>
          rw [show s.payments.workers worker = _ from hprocess] at hawait
          cases hawait
          rw [PaymentColumns.legKey_congr hidentity] at hmoved
          exact absurd hmoved hnone
      | lookupUnavailable => exact .resting .refind
      | moved => cases hexpected
      | refused => cases hexpected
      | unavailable => cases hexpected

/-- A recovered debit is committed, or the attempt begins again; when the acknowledgement of
the commit is lost, the payment is stuck. -/
theorem saveDebited_step (hs : Invariant s) (heffect : SoloEffect worker p s s' e)
    {row : PaymentOrmEntity} (hrow : s.row p.value = some row)
    (hstatus : row.status = .processing) (hdebit : row.debitTransactionReference = none)
    (hmoved : s.wire.Recorded Movement.identifier (row.legKey .debit)) {t : Tracked}
    {m : MovementResult} (hrevision : t.revision = some row.version)
    (hprocess : s.process worker = .recovery p.value (.compensate (.saveDebited t m))) :
    (Unsplit worker s e ∧ Phase worker p s') ∨ (¬ Unsplit worker s e ∧ Stuck worker p s') := by
  obtain ⟨href, hidentity, hstanding, hrecorded⟩ := hs.aggregate hprocess rfl hrow
  have hcommand : s.command worker = some (.compensate (.saveDebited t m)) := by
    rw [State.command, show s.payments.workers worker = _ from hprocess]
    rfl
  have hsplits : (∀ moment message,
      e ≠ .internal (.query worker moment (.acknowledgement message))) → Unsplit worker s e := by
    intro hack
    refine ⟨fun _ _ _ => hack, fun t' hcommand' => ?_⟩
    cases hcommand.symm.trans hcommand'
  have hstays : s'.row p.value = some row → (∀ m ∈ s.wire.records, m ∈ s'.wire.records) →
      Confirming p row.version (s'.process worker) → Phase worker p s' :=
    fun hrow' hrecords => .of_kept hstatus hdebit hmoved hrow' rfl hrecords
  cases heffect with
  | calm hcalm hdatabase hkept hsent hrecords =>
      refine .inl ⟨hcalm.unsplit,
        hstays (State.row_of_database hdatabase hrow) hrecords ?_⟩
      rw [hkept, hprocess]
      exact .saveDebited t m hrevision
  | crashed hwire hdatabase hidle hevent =>
      refine .inl ⟨hsplits fun _ _ heq => ?_, hstays (State.row_of_database hdatabase hrow)
        (hwire ▸ fun m hm => hm) ?_⟩
      · cases hevent.symm.trans heq
      · rw [hidle]
        exact .resting .idle
  | picked hwire hdatabase hidle => cases hprocess.symm.trans hidle
  | answered hwire hdatabase answer now hlearned hnext =>
      exact absurd (by rw [hprocess]; rfl) (hlearned.await_ne_transaction hs (saveWork t))
  | queried hwire await moment fault input hevent hawait hquery hnext =>
      rw [hprocess] at hawait hnext
      cases hawait
      have hrow' : rowOf s.payments.database.payments t.payment.reference.value = some row :=
        href ▸ hrow
      rcases query_transaction hrow' hrevision hidentity hquery with
        ⟨hdatabase, -, t', message, rfl, hrun⟩ |
        ⟨t', ⟨⟨row', hrow'', hcolumns, hrevision'⟩, hcolumns'⟩, hfails, hends⟩
      · refine .inl ⟨hsplits fun _ _ heq => ?_, hstays
          (State.row_of_database hdatabase hrow) (hwire ▸ fun m hm => hm) ?_⟩
        · cases hevent.symm.trans heq
          cases fails_of_rolledBack hrow' hrevision hrun
        · rw [hnext]
          exact .resting (.record _)
      · have hrow₁ : s'.row p.value = some row' := href ▸ hrow''
        have hstatus' : row'.status = .processing :=
          (congrArg PaymentColumns.status hcolumns).trans hstanding.status
        have hdebit' : row'.debitTransactionReference ≠ none := by
          rw [hcolumns]
          simp [saveWork, hrecorded]
        have hidentity' : row'.identity = row.identity := by
          rw [hcolumns, hidentity]
          rfl
        have hunsent' : ¬ s'.wire.Sent MovementCall.identifier (row'.legKey .credit) := by
          rw [hwire, PaymentColumns.legKey_congr hidentity']
          exact fun hsent => hs.ready_of_sent hrow hsent hdebit
        rcases hends with ⟨message, rfl, rfl⟩ | ⟨hack, rfl⟩
        · refine .inr ⟨fun hunsplit => hunsplit.1 t m hcommand moment message hevent,
            ⟨row', hrow₁, hstatus', hdebit', hunsent'⟩, ?_⟩
          rw [hnext]
          exact .resting (.record _)
        · have hstatus'' : t'.payment.status = .processing :=
            (congrArg PaymentColumns.status hcolumns').trans hstanding.status
          refine .inl ⟨hsplits fun _ message heq => ?_,
            .deciding row' hrow₁ hstatus' hdebit' hunsent' _ ?_
              (hnext.trans (resume_recovered hstatus''))⟩
          · cases hevent.symm.trans heq
            exact hack message rfl
          · exact hrevision'

/-- The debit is confirmed, and then its commit decides. -/
theorem confirming_step (hs : Invariant s) (heffect : SoloEffect worker p s s' e)
    {row : PaymentOrmEntity} (hrow : s.row p.value = some row)
    (hstatus : row.status = .processing) (hdebit : row.debitTransactionReference = none)
    (hmoved : s.wire.Recorded Movement.identifier (row.legKey .debit))
    (hprocess : Confirming p row.version (s.process worker)) :
    (Unsplit worker s e ∧ Phase worker p s') ∨ (¬ Unsplit worker s e ∧ Stuck worker p s') := by
  generalize hbefore : s.process worker = process at hprocess
  cases hprocess with
  | resting hrest =>
      rw [← hbefore] at hrest
      obtain ⟨⟨row', hrow', hcolumns, hversion⟩, hnext⟩ :=
        hrest.step hs heffect hrow (by rw [hstatus]; exact nofun)
      have hrecords := (heffect.wire hrest.await_ne_movement).2
      refine .inl ⟨hrest.unsplit, .of_kept hstatus hdebit hmoved hrow' hcolumns hrecords ?_⟩
      rcases hnext with hrest' | ⟨t, now, ht, hrevision, hnext⟩
      · exact .resting hrest'
      · rw [hnext, afterFind_confirming]
        · exact .findDebit t (hversion ▸ hrevision)
        · exact (congrArg PaymentColumns.status ht).trans hstatus
        · exact (Payment.debit_eq_none_iff ht).mpr hdebit
  | findDebit t hrevision =>
      obtain ⟨hunsplit, hrow', hrecords, hprocess'⟩ :=
        findDebit_step hs heffect hrow hmoved hrevision hbefore
      exact .inl ⟨hunsplit, .of_kept hstatus hdebit hmoved hrow' rfl hrecords hprocess'⟩
  | saveDebited t m hrevision =>
      exact saveDebited_step hs heffect hrow hstatus hdebit hmoved hrevision hbefore

theorem deciding_step (hs : Invariant s) (heffect : SoloEffect worker p s s' e)
    {row : PaymentOrmEntity} (hrow : s.row p.value = some row)
    (hstatus : row.status = .processing) (hdebit : row.debitTransactionReference ≠ none)
    (hunsent : ¬ s.wire.Sent MovementCall.identifier (row.legKey .credit)) {t : Tracked}
    (hrevision : t.revision = some row.version)
    (hprocess : s.process worker = .recovery p.value (.compensate (.savePending t))) :
    (Unsplit worker s e ∧ Phase worker p s') ∨ (¬ Unsplit worker s e ∧ Stuck worker p s') := by
  obtain ⟨href, hidentity, hstanding⟩ := hs.aggregate hprocess rfl hrow
  have hcommand : s.command worker = some (.compensate (.savePending t)) := by
    rw [State.command, show s.payments.workers worker = _ from hprocess]
    rfl
  have hsplits : (e ≠ .internal (.crash worker) ∧ ∀ moment fault,
      e = .internal (.query worker moment fault) → fault.fails = false) → Unsplit worker s e := by
    intro hcalm
    refine ⟨fun _ _ hcommand' => ?_, fun _ _ => hcalm⟩
    cases hcommand.symm.trans hcommand'
  have hwire : (∀ k, s'.wire.Sent MovementCall.identifier k →
      s.wire.Sent MovementCall.identifier k) := by
    refine (heffect.wire fun call hcall => ?_).1
    rw [hprocess] at hcall
    cases hcall
  have hstuck : s'.row p.value = some row → Waiting p (s'.process worker) → Stuck worker p s' :=
    fun hrow' hwaiting => ⟨⟨row, hrow', hstatus, hdebit, fun hsent => hunsent (hwire _ hsent)⟩,
      hwaiting⟩
  cases heffect with
  | calm hcalm hdatabase hkept hsent hrecords =>
      refine .inl ⟨hcalm.unsplit, .deciding row (State.row_of_database hdatabase hrow) hstatus
        hdebit (fun hsent' => hunsent (hwire _ hsent')) t hrevision (hkept.trans hprocess)⟩
  | crashed _ hdatabase hidle hevent =>
      refine .inr ⟨fun hunsplit => (hunsplit.2 t hcommand).1 hevent,
        hstuck (State.row_of_database hdatabase hrow) ?_⟩
      rw [hidle]
      exact .resting .idle
  | picked _ _ hidle => cases hprocess.symm.trans hidle
  | answered _ _ answer now hlearned =>
      exact absurd (by rw [hprocess]; rfl) (hlearned.await_ne_transaction hs (saveWork t))
  | queried _ await moment fault input hevent hawait hquery hnext =>
      rw [hprocess] at hawait hnext
      cases hawait
      have hrow' : rowOf s.payments.database.payments t.payment.reference.value = some row :=
        href ▸ hrow
      rcases query_transaction hrow' hrevision hidentity hquery with
        ⟨hdatabase, -, t', message, rfl, hrun⟩ |
        ⟨t', ⟨⟨row', hrow'', hcolumns, -⟩, -⟩, hfails, hends⟩
      · refine .inr ⟨fun hunsplit => ?_, hstuck (State.row_of_database hdatabase hrow) ?_⟩
        · have hfalse := (hunsplit.2 t hcommand).2 moment fault hevent
          rw [fails_of_rolledBack hrow' hrevision hrun] at hfalse
          cases hfalse
        · rw [hnext]
          exact .resting (.record _)
      · have hready : row'.Ready .refund :=
          .inl ((congrArg PaymentColumns.status hcolumns).trans hstanding.status)
        refine .inl ⟨hsplits ⟨?_, ?_⟩, .refunding row' (href ▸ hrow'') hready ?_⟩
        · rw [hevent]
          rintro ⟨⟩
        · intro moment' fault' heq
          cases hevent.symm.trans heq
          exact hfails
        · rw [hnext]
          rcases hends with ⟨message, -, rfl⟩ | ⟨-, rfl⟩
          · exact .resting (.record _)
          · exact .refund t'

theorem input_of_transaction {database database' : Database} {w : Work} {moment : Moment}
    {fault : Fault} {input : Input}
    (hquery : (Await.transaction w).query database moment fault = some (database', input)) :
    (∃ t, input = .committed t) ∨ ∃ t error, input = .failed t error := by
  simp only [Await.query, Option.some.injEq] at hquery
  cases hrun : w.run moment fault database with
  | committed database₁ t =>
      rw [hrun] at hquery
      exact .inl ⟨t, (Prod.mk.inj hquery).2.symm⟩
  | unacknowledged database₁ t message =>
      rw [hrun] at hquery
      exact .inr ⟨t, _, (Prod.mk.inj hquery).2.symm⟩
  | rolledBack t error =>
      rw [hrun] at hquery
      exact .inr ⟨t, _, (Prod.mk.inj hquery).2.symm⟩

theorem refunding_step {maxAttempts : ℕ} (hs : Invariant s)
    (hstep : step maxAttempts s e = some s') (heffect : SoloEffect worker p s s' e)
    {row : PaymentOrmEntity} (hrow : s.row p.value = some row) (hready : row.Ready .refund)
    (hprocess : Refunding p (s.process worker)) : Unsplit worker s e ∧ Phase worker p s' := by
  obtain ⟨row₁, hrow₁, -, hready₁⟩ := hs.ready_step hstep hrow hready
  refine ⟨?_, .refunding row₁ hrow₁ hready₁ ?_⟩
  · generalize hbefore : s.process worker = process at hprocess
    cases hprocess with
    | resting hrest => exact (hbefore ▸ hrest).unsplit
    | refund t =>
        constructor <;> intro t' <;>
          simp [State.command, show s.payments.workers worker = _ from hbefore, Process.command]
    | saveCompensated t m now =>
        constructor <;> intro t' <;>
          simp [State.command, show s.payments.workers worker = _ from hbefore, Process.command]
  · generalize hbefore : s.process worker = process at hprocess
    cases hprocess with
    | resting hrest =>
        rw [← hbefore] at hrest
        have hpending : row.status ≠ .pending := by
          intro heq
          rcases hready with hstatus | hstatus <;> cases heq.symm.trans hstatus
        obtain ⟨-, hnext⟩ := hrest.step hs heffect hrow hpending
        rcases hnext with hrest' | ⟨t, now, ht, -, hnext⟩
        · exact .resting hrest'
        · rw [hnext]
          have hstatus' : t.payment.status = row.status := congrArg PaymentColumns.status ht
          rcases hready with hstatus | hstatus
          · have hcoherent := (hs.payments.database.rows p.value row hrow).coherent
            simp only [PaymentColumns.Coherent, hstatus] at hcoherent
            rw [afterFind_owed (hstatus'.trans hstatus)]
            · exact .refund t
            · exact fun hnone => hcoherent.1 ((Payment.debit_eq_none_iff ht).mp hnone)
          · rw [afterFind_compensated (hstatus'.trans hstatus)]
            exact .resting .refind
    | refund t =>
        obtain ⟨-, -, hstanding⟩ := hs.aggregate hbefore rfl hrow
        cases heffect with
        | calm _ _ hkept =>
            rw [hkept, hbefore]
            exact .refund t
        | crashed _ _ hidle => exact hidle ▸ .resting .idle
        | picked _ _ hidle => cases hbefore.symm.trans hidle
        | queried _ await moment fault input _ hawait hquery =>
            rw [hbefore] at hawait
            cases hawait
            cases hquery
        | answered _ _ answer now hlearned hnext =>
            have hexpected := hlearned.expects hs (by rw [hbefore]; rfl)
            rw [hnext, hbefore]
            cases answer with
            | moved m =>
                rw [Answer.input, resume_refunded hstanding.status]
                exact .saveCompensated _ _ _
            | refused refusal => exact .resting .refind
            | unavailable => exact .resting .refind
            | found movement => cases hexpected
            | lookupUnavailable => cases hexpected
    | saveCompensated t m now =>
        cases heffect with
        | calm _ _ hkept =>
            rw [hkept, hbefore]
            exact .saveCompensated t m now
        | crashed _ _ hidle => exact hidle ▸ .resting .idle
        | picked _ _ hidle => cases hbefore.symm.trans hidle
        | answered _ _ answer now hlearned =>
            exact absurd (by rw [hbefore]; rfl) (hlearned.await_ne_transaction hs _)
        | queried _ await moment fault input _ hawait hquery hnext =>
            rw [hbefore] at hawait hnext
            cases hawait
            rw [hnext]
            rcases input_of_transaction hquery with ⟨t', rfl⟩ | ⟨t', error, rfl⟩
            · exact .resting .refind
            · exact .resting (.record _)

/-- A stuck payment stays stuck: its attempts wait for a credit nobody sends. -/
theorem stuck_step (hs : Invariant s) (heffect : SoloEffect worker p s s' e)
    (hstuck : Stuck worker p s) : Stuck worker p s' := by
  obtain ⟨⟨row, hrow, hstatus, hdebit, hunsent⟩, hprocess⟩ := hstuck
  have hstays : ∀ {row' : PaymentOrmEntity}, s'.row p.value = some row' →
      row'.toPaymentColumns = row.toPaymentColumns →
      (∀ k, s'.wire.Sent MovementCall.identifier k → s.wire.Sent MovementCall.identifier k) →
      Waiting p (s'.process worker) → Stuck worker p s' := by
    intro row' hrow' hcolumns hsent hwaiting
    refine ⟨⟨row', hrow', ?_, ?_, fun h => hunsent (hsent _ ?_)⟩, hwaiting⟩
    · rw [hcolumns]
      exact hstatus
    · rw [hcolumns]
      exact hdebit
    · rw [← hcolumns]
      exact h
  generalize hbefore : s.process worker = process at hprocess
  cases hprocess with
  | resting hrest =>
      rw [← hbefore] at hrest
      obtain ⟨⟨row', hrow', hcolumns, -⟩, hnext⟩ :=
        hrest.step hs heffect hrow (by rw [hstatus]; exact nofun)
      refine hstays hrow' hcolumns (heffect.wire hrest.await_ne_movement).1 ?_
      rcases hnext with hrest' | ⟨t, now, ht, -, hnext⟩
      · exact .resting hrest'
      · rw [hnext, afterFind_waiting]
        · exact .findCredit t
        · exact (congrArg PaymentColumns.status ht).trans hstatus
        · exact fun hnone => hdebit ((Payment.debit_eq_none_iff ht).mp hnone)
  | findCredit t =>
      obtain ⟨-, hidentity, -⟩ := hs.aggregate hbefore rfl hrow
      have hwire := (heffect.wire fun call hcall => by
        rw [hbefore] at hcall
        cases hcall).1
      cases heffect with
      | calm _ hdatabase hkept =>
          refine hstays (State.row_of_database hdatabase hrow) rfl hwire ?_
          rw [hkept, hbefore]
          exact .findCredit t
      | crashed _ hdatabase hidle =>
          refine hstays (State.row_of_database hdatabase hrow) rfl hwire ?_
          exact hidle ▸ .resting .idle
      | picked _ _ hidle => cases hbefore.symm.trans hidle
      | queried _ await moment fault input _ hawait hquery =>
          rw [hbefore] at hawait
          cases hawait
          cases hquery
      | answered _ hdatabase answer now hlearned hnext =>
          refine hstays (State.row_of_database hdatabase hrow) rfl hwire ?_
          rw [hnext, hbefore]
          have hexpected := hlearned.expects hs (by rw [hbefore]; rfl)
          cases hlearned with
          | found wallet key m hawait hrecord hkey =>
              rw [show s.payments.workers worker = _ from hbefore] at hawait
              cases hawait
              obtain ⟨call, hcall, hsame, -⟩ := hs.wire.origin m hrecord
              refine absurd ⟨call, hcall, hsame.trans (hkey.trans ?_)⟩ hunsent
              rw [PaymentColumns.legKey_congr hidentity]
              rfl
          | absent => exact .resting .refind
          | lookupUnavailable => exact .resting .refind
          | moved => cases hexpected
          | refused => cases hexpected
          | unavailable => cases hexpected

end

end Platform

end Payments

end Paynad
