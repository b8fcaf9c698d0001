import Paynad.Payments.Protocol.Coherence

/-!
# What a step does to the rows and to the command of its worker

Two readings of a step of the workers, for the invariants that relate them to
`accounts`. The rows are kept, gain a Pending payment, or take the save of the
worker's command on the row its base describes; and the worker's next command is
a first one or a move of the table, on an answer whose origin is known.
-/

namespace Paynad

namespace Payments

open Shared TypeOrmPaymentRepository

def PaymentOrmEntity.essence (row : PaymentOrmEntity) : PaymentColumns × ℕ :=
  (row.toPaymentColumns, row.version)

/-- The save of `t` found its row satisfying `Q` and wrote the next version. -/
def Saved (rows rows' : List PaymentOrmEntity) (t : Tracked) (Q : PaymentColumns → Prop) :
    Prop :=
  ∃ row row', rowOf rows t.payment.reference.value = some row ∧ Q row.toPaymentColumns ∧
    t.revision = some row.version ∧ row.identity = t.payment.columns.identity ∧
    rowOf rows' t.payment.reference.value = some row' ∧ row'.version = row.version + 1 ∧
    row'.toPaymentColumns = t.payment.columns ∧
    ∀ other, other ≠ t.payment.reference.value → rowOf rows' other = rowOf rows other

theorem Based.saved_rows {rows rows' : List PaymentOrmEntity} {t t' : Tracked}
    {Q : PaymentColumns → Prop} {now : Date} (h : Based rows t Q)
    (hsave : TypeOrmPaymentRepository.save rows t now = .ok (rows', t')) :
    Saved rows rows' t Q := by
  obtain ⟨row, hrow, hQ, hidentity, rfl, -⟩ := h.save hsave
  refine ⟨row, _, hrow, hQ, ?_, hidentity, rowOf_update_self hrow, rfl,
    updatedRow_columns now hidentity, fun other hother => rowOf_update_ne hother⟩
  obtain ⟨row', revision, hrow', hrevision, -, -, -⟩ := h
  rcases save_cases hsave with ⟨hnone, -⟩ | ⟨row'', hrevision'', hrow'', -⟩
  · rw [hnone] at hrevision
    cases hrevision
  · obtain rfl := Option.some.inj (hrow''.symm.trans hrow)
    exact hrevision''

namespace Workers

/-- What a step does to the rows. -/
inductive RowEffect (s s' : State) (worker : ℕ) : Prop
  | kept (h : ∀ reference, (rowOf s'.database.payments reference).map (·.essence) =
      (rowOf s.database.payments reference).map (·.essence))
  | inserted (row : PaymentOrmEntity)
      (hnone : rowOf s.database.payments row.reference = none)
      (hsome : rowOf s'.database.payments row.reference = some row)
      (hpending : row.status = .pending) (hcoherent : row.toPaymentColumns.Coherent)
      (hothers : ∀ other, other ≠ row.reference →
        rowOf s'.database.payments other = rowOf s.database.payments other)
  | saved (command : Command) (work : Work)
      (hcommand : (s.workers worker).command = some command)
      (hawait : command.await = .transaction work)
      (hsaved : Saved s.database.payments s'.database.payments work.aggregate
        fun c => command.Base c)

/-- The answer a command hears, with where it comes from. -/
inductive Heard (s s' : State) (e : Event) (worker : ℕ) (command : Command) :
    Input → Prop
  | loaded (t : Tracked) (row : PaymentOrmEntity)
      (hrow : rowOf s'.database.payments t.payment.reference.value = some row)
      (hcolumns : row.toPaymentColumns = t.payment.columns) :
      Heard s s' e worker command (.loaded (some t))
  | committed (work : Work) (t : Tracked) (hawait : command.await = .transaction work)
      (hsaved : Saved s.database.payments s'.database.payments work.aggregate
        fun c => command.Base c)
      (hcolumns : t.payment.columns = work.aggregate.payment.columns) :
      Heard s s' e worker command (.committed t)
  | failed (t : Tracked) (error : Thrown)
      (haggregate : ∀ e', error = .domain e' → command.aggregate = some t) :
      Heard s s' e worker command (.failed t error)
  | answered (answer : Answer) (now : Date) (hevent : e = .answer worker answer now) :
      Heard s s' e worker command answer.input
  | nothing (input : Input) (hinput : input = .loaded none ∨
      ∃ message, input = .queryFailed message) : Heard s s' e worker command input

theorem row_of_find {rows : List PaymentOrmEntity} {reference : String} {t : Tracked}
    (hsound : ∀ row, rowOf rows reference = some row → row.Sound)
    (h : findByReference rows reference = .ok (some t)) :
    ∃ row, rowOf rows t.payment.reference.value = some row ∧
      row.toPaymentColumns = t.payment.columns := by
  obtain ⟨hreference, -, -, row, revision, hrow, hrevision, -, hle, hcolumns⟩ :=
    based_of_find hsound h
  refine ⟨row, hrow, hcolumns ?_⟩
  -- A hydrated aggregate carries the version of its row.
  unfold findByReference at h
  rw [← hreference, hrow] at h
  simp only [hydrate] at h
  cases hdomain : PaymentOrmMapper.toDomain row with
  | error error => simp [hdomain, Except.map] at h
  | ok payment =>
      simp only [hdomain, Except.map, Except.ok.injEq, Option.some.injEq] at h
      subst h
      exact (Option.some.inj hrevision).symm

theorem query_effect {s s' : State} {e : Event} {worker : ℕ} (hs : Invariant s)
    {command : Command} (hcommand : (s.workers worker).command = some command)
    {moment : Moment} {fault : Fault} {input : Input}
    (hquery : command.await.query s.database moment fault = some (s'.database, input)) :
    RowEffect s s' worker ∧ Heard s s' e worker command input := by
  have hfits := hs.fits worker command hcommand
  cases hawait : command.await with
  | findByReference reference =>
      rw [hawait] at hquery
      simp only [Await.query] at hquery
      have hkept : s'.database = s.database → RowEffect s s' worker := by
        intro hdatabase
        exact .kept fun reference => by rw [hdatabase]
      split at hquery <;> obtain ⟨hdatabase, rfl⟩ := Prod.mk.inj (Option.some.inj hquery)
      · exact ⟨hkept hdatabase.symm, .nothing _ (.inr ⟨_, rfl⟩)⟩
      · exact ⟨hkept hdatabase.symm, .nothing _ (.inr ⟨_, rfl⟩)⟩
      · rename_i t _ hfind
        refine ⟨hkept hdatabase.symm, ?_⟩
        cases t with
        | none => exact .nothing _ (.inl rfl)
        | some t =>
            obtain ⟨row, hrow, hcolumns⟩ := row_of_find (hs.database.rows reference) hfind
            exact .loaded t row (hdatabase ▸ hrow) hcolumns
  | transaction work =>
      have hprepared := hfits.prepared hawait
      have hbased : Based s.database.payments work.aggregate fun c => command.Base c :=
        hfits.based _ (Command.aggregate_of_transaction hawait)
      rw [hawait] at hquery
      have hchanges : ∀ {database : Database} {t : Tracked},
          (work.run moment fault s.database = .committed database t ∨
            ∃ message, work.run moment fault s.database =
              .unacknowledged database t message) → database = s'.database →
          RowEffect s s' worker ∧ Heard s s' e worker command (.committed t) := by
        intro database t hrun hdatabase
        obtain ⟨rows, saved, hsave, hrows, rfl⟩ := Work.run_changes hrun
        have hsaved := hbased.saved_rows hsave
        have hpayments : s'.database.payments = rows := by rw [← hdatabase, hrows]
        rw [← hpayments] at hsaved
        refine ⟨.saved command work hcommand hawait hsaved, .committed work _ hawait hsaved ?_⟩
        have hpayment := (hbased.saved hsave).1
        cases hw : work.enqueues <;>
          simp [Work.afterwards, hw, hpayment, Payment.pullEvents, Payment.columns,
            PaymentOrmMapper.toPersistence, Payment.toSnapshot]
      simp only [Await.query, Option.some.injEq] at hquery
      cases hrun : work.run moment fault s.database with
      | committed database t =>
          simp only [hrun, TransactionResult.outcome, Prod.mk.injEq] at hquery
          obtain ⟨hdatabase, rfl⟩ := hquery
          exact hchanges (.inl hrun) hdatabase
      | unacknowledged database t message =>
          simp only [hrun, TransactionResult.outcome, Prod.mk.injEq] at hquery
          obtain ⟨hdatabase, rfl⟩ := hquery
          exact ⟨(hchanges (.inr ⟨message, hrun⟩) hdatabase).1,
            .failed t _ (by rintro _ ⟨⟩)⟩
      | rolledBack t error =>
          simp only [hrun, TransactionResult.outcome, Prod.mk.injEq] at hquery
          obtain ⟨hdatabase, rfl⟩ := hquery
          refine ⟨.kept fun reference => by rw [hdatabase], .failed t error ?_⟩
          rintro e' rfl
          rw [(Work.run_rolledBack_domain hrun).2]
          exact Command.aggregate_of_transaction hawait
  | movement call =>
      rw [hawait] at hquery
      cases hquery
  | findMovement wallet key =>
      rw [hawait] at hquery
      cases hquery
  | recordRecoveryAttempt reference failure =>
      exact absurd hawait (Command.await_ne_record _ _ _)

theorem query_kept {s s' : State} {worker : ℕ} {await : Await}
    (hnone : (s.workers worker).command = none) (hawait : (s.workers worker).await = some await)
    {moment : Moment} {fault : Fault} {input : Input}
    (hquery : await.query s.database moment fault = some (s'.database, input)) :
    RowEffect s s' worker := by
  cases await with
  | findByReference reference =>
      simp only [Await.query] at hquery
      split at hquery <;> obtain ⟨hdatabase, -⟩ := Prod.mk.inj (Option.some.inj hquery) <;>
        exact .kept fun reference => by rw [hdatabase]
  | transaction work =>
      obtain ⟨command, hcommand, -⟩ := command_of_await hawait
      rw [hnone] at hcommand
      cases hcommand
  | recordRecoveryAttempt reference failure =>
      have hattempt : ∀ other, (rowOf (TypeOrmPaymentRepository.recordRecoveryAttempt
          s.database.payments reference failure moment.now) other).map (·.essence) =
          (rowOf s.database.payments other).map (·.essence) := by
        intro other
        rw [rowOf_recordRecoveryAttempt]
        split
        · rw [Option.map_map]
          rfl
        · rfl
      simp only [Await.query] at hquery
      split at hquery <;> obtain ⟨hdatabase, -⟩ := Prod.mk.inj (Option.some.inj hquery) <;>
        refine .kept fun other => ?_ <;> rw [← hdatabase]
      · exact hattempt other
      · exact hattempt other
  | movement call => cases hquery
  | findMovement wallet key => cases hquery

theorem Effect.rows {s s' : State} {e : Event} {worker : ℕ} (hs : Invariant s)
    (heffect : Effect s s' e worker) : RowEffect s s' worker := by
  have hkept : s'.database = s.database → RowEffect s s' worker := by
    intro hdatabase
    exact .kept fun reference => by rw [hdatabase]
  cases heffect with
  | quiet _ _ hdatabase => exact hkept hdatabase
  | crashed _ hdatabase => exact hkept hdatabase
  | started _ hdatabase => exact hkept hdatabase
  | initiated _ hdatabase =>
      obtain ⟨input, reference, now, payment, hinitiate, rows, saved, hsave, hdatabase⟩ :=
        hdatabase
      obtain ⟨hpending, hcoherent⟩ := Payment.columns_initiate hinitiate
      rcases save_cases hsave with ⟨-, hfree, rfl, -⟩ | ⟨row, hrevision, -⟩
      · have hnone : rowOf s.database.payments (insertedRow payment.columns now).reference =
            none := Table.find_eq_none_iff.mpr fun row' hrow' => (hfree row' hrow').1
        have hpayments : s'.database.payments =
            Table.insert s.database.payments (insertedRow payment.columns now) := by
          rw [hdatabase]
        refine .inserted (insertedRow payment.columns now) hnone ?_ hpending hcoherent
          fun other hother => ?_
        · rw [hpayments]
          exact rowOf_insert_self hnone
        · rw [hpayments]
          exact rowOf_insert_ne (Ne.symm hother)
      · cases hrevision
  | queried await moment fault input hawait hquery hworker =>
      cases hcommand : (s.workers worker).command with
      | none => exact query_kept hcommand hawait hquery
      | some command =>
          obtain rfl : command.await = await :=
            Option.some.inj ((await_of_command hcommand).symm.trans hawait)
          exact (query_effect (e := e) hs hcommand hquery).1
  | answered _ _ _ _ _ _ hdatabase => exact hkept hdatabase

/-- Where the command a step leaves on its worker comes from. A call to `accounts`
that ends does so with the input its worker hears. -/
theorem Effect.command {s s' : State} {e : Event} {worker : ℕ} (hs : Invariant s)
    (heffect : Effect s s' e worker) {command' : Command}
    (hcommand' : (s'.workers worker).command = some command') :
    (s'.workers worker = s.workers worker ∧ s'.database = s.database ∧
      e ≠ .crash worker ∧ ∀ answer now, e ≠ .answer worker answer now) ∨
    (∃ reference, command' = .debit (.find reference) ∨
      command' = .compensate (.find reference)) ∨
    ∃ command input now, (s.workers worker).command = some command ∧
      Command.Moves command.reference now command input command' ∧
      command'.reference = command.reference ∧ Heard s s' e worker command input ∧
      e ≠ .crash worker ∧
      ∀ answer now, e = .answer worker answer now → input = answer.input := by
  have hresumed : ∀ {await : Await} {input : Input} {now : Date},
      (s.workers worker).await = some await → await.Heard s'.database.payments input →
      (∀ command, (s.workers worker).command = some command →
        Heard s s' e worker command input) →
      s'.workers worker = (s.workers worker).resume input now →
      (∃ reference, command' = .debit (.find reference) ∨
        command' = .compensate (.find reference)) ∨
      ∃ command now, (s.workers worker).command = some command ∧
        Command.Moves command.reference now command input command' ∧
        command'.reference = command.reference ∧ Heard s s' e worker command input := by
    intro await input now hawait hheard horigin hworker
    rw [hworker] at hcommand'
    rcases Process.next_of_resume hcommand' with
      ⟨reference, command, hr, hcommand, hnext⟩ | ⟨reference, hr, hstart⟩
    · obtain rfl : command.await = await :=
        Option.some.inj ((await_of_command hcommand).symm.trans hawait)
      obtain rfl : command.reference = reference :=
        Option.some.inj ((hs.reference worker command hcommand).symm.trans hr)
      have hfits := hs.fits worker command hcommand
      have hmoves := hnext.moves hfits.shape hheard
      exact .inr ⟨command, now, hcommand, hmoves,
        (hmoves.continues rfl (hfits.evolve (heffect.sound hs).2) hheard).2,
        horigin command hcommand⟩
    · exact .inl ⟨reference, hstart⟩
  cases heffect with
  | quiet hcrash hanswer hdatabase hworker =>
      exact .inl ⟨hworker, hdatabase, hcrash, hanswer⟩
  | crashed _ _ hworker =>
      rw [hworker] at hcommand'
      cases hcommand'
  | started _ _ hworker =>
      rcases hworker with hnone | ⟨reference, heq⟩
      · rw [hnone] at hcommand'
        cases hcommand'
      · rw [heq] at hcommand'
        exact .inr (.inl ⟨reference, .inl (Option.some.inj hcommand').symm⟩)
  | initiated _ _ hworker =>
      rw [hworker] at hcommand'
      cases hcommand'
  | queried await moment fault input hawait hquery hworker hevent =>
      obtain ⟨-, -, hheard⟩ := hs.database.query (fun w hw => by
        subst hw
        obtain ⟨c, hc, hcall⟩ := command_of_await hawait
        exact (hs.fits worker c hc).prepared hcall) hquery
      rcases hresumed hawait hheard (fun command hcommand => by
        obtain rfl : command.await = await :=
          Option.some.inj ((await_of_command hcommand).symm.trans hawait)
        exact (query_effect hs hcommand hquery).2) hworker with
        hfirst | ⟨command, now, hcommand, hmoves, hreference, horigin⟩
      · exact .inr (.inl hfirst)
      · subst hevent
        exact .inr (.inr ⟨command, input, now, hcommand, hmoves, hreference, horigin,
          (nofun), (nofun)⟩)
  | answered await answer now hevent hawait hcall hdatabase hworker =>
      have hheard : await.Heard s'.database.payments answer.input := by
        rcases hcall with ⟨call, rfl⟩ | ⟨wallet, key, rfl⟩ <;> trivial
      rcases hresumed hawait hheard (fun command _ => .answered answer now hevent) hworker with
        hfirst | ⟨command, now', hcommand, hmoves, hreference, horigin⟩
      · exact .inr (.inl hfirst)
      · subst hevent
        refine .inr (.inr ⟨command, answer.input, now', hcommand, hmoves, hreference, horigin,
          (nofun), ?_⟩)
        rintro _ _ ⟨⟩
        rfl

theorem RowEffect.origin {s s' : State} {worker : ℕ} (h : RowEffect s s' worker)
    {reference : String} {row' : PaymentOrmEntity}
    (hrow' : rowOf s'.database.payments reference = some row') :
    (∃ row, rowOf s.database.payments reference = some row ∧
      row'.toPaymentColumns = row.toPaymentColumns ∧ row'.version = row.version) ∨
    (rowOf s.database.payments reference = none ∧ row'.status = .pending ∧
      row'.toPaymentColumns.Coherent) ∨
    ∃ command work row, (s.workers worker).command = some command ∧
      command.await = .transaction work ∧ command.aggregate = some work.aggregate ∧
      work.aggregate.payment.reference.value = reference ∧
      rowOf s.database.payments reference = some row ∧ command.Base row.toPaymentColumns ∧
      work.aggregate.revision = some row.version ∧
      row.identity = work.aggregate.payment.columns.identity ∧
      row'.version = row.version + 1 ∧
      row'.toPaymentColumns = work.aggregate.payment.columns := by
  have unchanged : rowOf s'.database.payments reference = rowOf s.database.payments reference →
      ∃ row, rowOf s.database.payments reference = some row ∧
        row'.toPaymentColumns = row.toPaymentColumns ∧ row'.version = row.version :=
    fun heq => ⟨row', heq ▸ hrow', rfl, rfl⟩
  cases h with
  | kept hkept =>
      have hessence := hkept reference
      rw [hrow', Option.map_some] at hessence
      obtain ⟨row, hrow, heq⟩ := Option.map_eq_some_iff.mp hessence.symm
      obtain ⟨hcolumns, hversion⟩ := Prod.mk.inj heq
      exact .inl ⟨row, hrow, hcolumns.symm, hversion.symm⟩
  | inserted row hnone hsome hpending hcoherent hothers =>
      by_cases heq : reference = row.reference
      · subst heq
        obtain rfl := Option.some.inj (hsome.symm.trans hrow')
        exact .inr (.inl ⟨hnone, hpending, hcoherent⟩)
      · exact .inl (unchanged (hothers reference heq))
  | saved command work hcommand hawait hsaved =>
      obtain ⟨row, row₁, hrow, hbase, hrevision, hidentity, hrow₁, hversion, hcolumns,
        hothers⟩ := hsaved
      by_cases heq : reference = work.aggregate.payment.reference.value
      · subst heq
        obtain rfl := Option.some.inj (hrow₁.symm.trans hrow')
        exact .inr (.inr ⟨command, work, row, hcommand, hawait,
          Command.aggregate_of_transaction hawait, rfl, hrow, hbase, hrevision, hidentity,
          hversion, hcolumns⟩)
      · exact .inl (unchanged (hothers reference heq))

/-- A committed save: the row its command was based on, and the row it wrote. -/
theorem Heard.row_of_committed {s s' : State} {e : Event} {worker : ℕ} {command : Command}
    {t : Tracked} (h : Heard s s' e worker command (.committed t)) :
    ∃ aggregate row row', command.aggregate = some aggregate ∧
      rowOf s.database.payments aggregate.payment.reference.value = some row ∧
      command.Base row.toPaymentColumns ∧
      rowOf s'.database.payments aggregate.payment.reference.value = some row' ∧
      row'.toPaymentColumns = aggregate.payment.columns ∧
      t.payment.columns = aggregate.payment.columns := by
  generalize hinput : Input.committed t = input at h
  cases h with
  | loaded => cases hinput
  | failed => cases hinput
  | answered answer => cases answer <;> cases hinput
  | nothing input hnothing => rcases hnothing with rfl | ⟨_, rfl⟩ <;> cases hinput
  | committed work t hawait hsaved hcolumns =>
      cases hinput
      obtain ⟨row, row', hrow, hbase, -, -, hrow', -, hcolumns', -⟩ := hsaved
      exact ⟨work.aggregate, row, row', Command.aggregate_of_transaction hawait, hrow, hbase,
        hrow', hcolumns', hcolumns⟩

theorem Heard.row_of_loaded {s s' : State} {e : Event} {worker : ℕ} {command : Command}
    {t : Tracked} (h : Heard s s' e worker command (.loaded (some t))) :
    ∃ row, rowOf s'.database.payments t.payment.reference.value = some row ∧
      row.toPaymentColumns = t.payment.columns := by
  generalize hinput : Input.loaded (some t) = input at h
  cases h with
  | committed => cases hinput
  | failed => cases hinput
  | answered answer => cases answer <;> cases hinput
  | nothing input hnothing => rcases hnothing with rfl | ⟨_, rfl⟩ <;> cases hinput
  | loaded t row hrow hcolumns =>
      cases hinput
      exact ⟨row, hrow, hcolumns⟩

theorem Heard.aggregate_of_failed {s s' : State} {e : Event} {worker : ℕ} {command : Command}
    {t : Tracked} {error : DomainError}
    (h : Heard s s' e worker command (.failed t (.domain error))) :
    command.aggregate = some t := by
  generalize hinput : Input.failed t (.domain error) = input at h
  cases h with
  | loaded => cases hinput
  | committed => cases hinput
  | answered answer => cases answer <;> cases hinput
  | nothing input hnothing => rcases hnothing with rfl | ⟨_, rfl⟩ <;> cases hinput
  | failed t thrown haggregate =>
      cases hinput
      exact haggregate error rfl

/-- Only `accounts` answers a call to `accounts`. -/
theorem Heard.of_answer {s s' : State} {e : Event} {worker : ℕ} {command : Command}
    {input : Input} (h : Heard s s' e worker command input) {answer : Answer}
    (hanswer : answer.input = input) : ∃ now, e = .answer worker answer now := by
  cases h with
  | loaded => cases answer <;> cases hanswer
  | committed => cases answer <;> cases hanswer
  | failed => cases answer <;> cases hanswer
  | answered answer' now hevent =>
      obtain rfl : answer = answer' := by
        cases answer <;> cases answer' <;> cases hanswer <;> rfl
      exact ⟨now, hevent⟩
  | nothing input hinput =>
      rcases hinput with rfl | ⟨message, rfl⟩ <;> cases answer <;> cases hanswer

end Workers

end Payments

end Paynad
