import Paynad.Payments.Protocol.MoneySafety

/-!
# One worker that recovers one payment

One worker keeps executing `CompensatePaymentCommand` on one payment, through the
reconciler. An attempt may break off at any await: the worker crashes, a local
transaction fails, a call to `accounts` fails. Here are the database calls of such
a worker on a row nobody else saves, and what each of its steps can do.
-/

namespace Paynad

namespace Payments

open Shared Transition TypeOrmPaymentRepository

def Fault.fails : Fault → Bool
  | .statement 0 _ => true
  | .commit _ => true
  | _ => false

/-!
# Database calls on a known row
-/

theorem findByReference_of_row {rows : List PaymentOrmEntity} {reference : String}
    {row : PaymentOrmEntity} (hsound : row.Sound) (hrow : rowOf rows reference = some row) :
    ∃ t : Tracked, findByReference rows reference = .ok (some t) ∧
      t.payment.columns = row.toPaymentColumns ∧ t.revision = some row.version := by
  obtain ⟨p, hp⟩ := hsound.written
  refine ⟨⟨{ p with events := [], createdAt := row.createdAt, updatedAt := row.updatedAt },
    some row.version⟩, ?_, hp.symm, rfl⟩
  simp only [findByReference, hrow, hydrate_of_written hp]
  rfl

theorem query_find {database database' : Database} {reference : String} {moment : Moment}
    {fault : Fault} {input : Input} {row : PaymentOrmEntity} (hsound : row.Sound)
    (hrow : rowOf database.payments reference = some row)
    (hquery : (Await.findByReference reference).query database moment fault =
      some (database', input)) :
    database' = database ∧
      ((∃ message, fault.breaks 0 = some message ∧ input = .queryFailed message) ∨
        ∃ t, input = .loaded (some t) ∧ t.payment.columns = row.toPaymentColumns ∧
          t.revision = some row.version) := by
  obtain ⟨t, hfind, hcolumns, hrevision⟩ := findByReference_of_row hsound hrow
  simp only [Await.query, hfind] at hquery
  split at hquery
  · rename_i hbreaks
    cases hquery
    exact ⟨rfl, .inl ⟨_, hbreaks, rfl⟩⟩
  · rename_i heq
    cases heq
  · rename_i t' _ heq
    cases heq
    cases hquery
    exact ⟨rfl, .inr ⟨t, rfl, hcolumns, hrevision⟩⟩

theorem query_record {database database' : Database} {reference : String}
    {failure : Option String} {moment : Moment} {fault : Fault} {input : Input}
    {row : PaymentOrmEntity} (hrow : rowOf database.payments reference = some row)
    (hquery : (Await.recordRecoveryAttempt reference failure).query database moment fault =
      some (database', input)) :
    (∃ row', rowOf database'.payments reference = some row' ∧
      row'.toPaymentColumns = row.toPaymentColumns ∧ row'.version = row.version) ∧
      (input = .recorded ∨ ∃ message, input = .queryFailed message) := by
  have hattempted : ∃ row', rowOf (TypeOrmPaymentRepository.recordRecoveryAttempt
      database.payments reference failure moment.now) reference = some row' ∧
      row'.toPaymentColumns = row.toPaymentColumns ∧ row'.version = row.version := by
    rw [rowOf_recordRecoveryAttempt, if_pos rfl, hrow]
    exact ⟨_, rfl, rfl, rfl⟩
  simp only [Await.query] at hquery
  split at hquery <;> cases hquery
  · exact ⟨⟨row, hrow, rfl, rfl⟩, .inr ⟨_, rfl⟩⟩
  · exact ⟨⟨row, hrow, rfl, rfl⟩, .inr ⟨_, rfl⟩⟩
  · exact ⟨hattempted, .inr ⟨_, rfl⟩⟩
  · exact ⟨hattempted, .inl rfl⟩

/-- A current aggregate is saved, with the next version, unless the fault rolls it back. -/
theorem save_of_current {rows : List PaymentOrmEntity} {t : Tracked} {row : PaymentOrmEntity}
    {now : Date} (hrow : rowOf rows t.payment.reference.value = some row)
    (hrevision : t.revision = some row.version) :
    save rows t now =
      .ok (Table.modify (fun row => row.reference) rows t.payment.reference.value
        (updatedRow t.payment.columns now), { t with revision := some (row.version + 1) }) := by
  have hcolumns : t.payment.columns.reference = t.payment.reference.value := rfl
  simp only [save, hrevision, hcolumns, hrow, if_true]

theorem runStatements_of_none (moment : Moment) {statements : List Statement}
    (hsave : Statement.save ∉ statements) (index : ℕ) (database : Database) (t : Tracked) :
    ∃ result, runStatements moment .none index statements database t = .ok result := by
  induction statements generalizing index database t with
  | nil => exact ⟨_, rfl⟩
  | cons statement rest ih =>
      obtain ⟨hne, hrest⟩ := not_or.mp (List.mem_cons.not.mp hsave)
      cases statement with
      | save => exact absurd rfl hne
      | record movements => exact ih hrest ..
      | enqueueEvents => exact ih hrest ..

theorem fails_of_changes {database database' : Database} {w : Work} {moment : Moment}
    {fault : Fault} {t : Tracked}
    (h : w.run moment fault database = .committed database' t ∨
      ∃ message, w.run moment fault database = .unacknowledged database' t message) :
    fault.fails = false := by
  cases fault with
  | none => rfl
  | statement index message =>
      cases index with
      | zero => simp [Work.run, Work.statements, runStatements, Fault.breaks] at h
      | succ index => rfl
  | commit message =>
      unfold Work.run at h
      split at h <;> simp at h
  | acknowledgement message => rfl

/-- What a committed transaction of a current aggregate leaves. -/
structure Stored (database' : Database) (aggregate t : Tracked) : Prop where
  row : ∃ row', rowOf database'.payments aggregate.payment.reference.value = some row' ∧
    row'.toPaymentColumns = aggregate.payment.columns ∧ t.revision = some row'.version
  columns : t.payment.columns = aggregate.payment.columns

theorem stored_of_changes {database database' : Database} {w : Work} {moment : Moment}
    {fault : Fault} {t : Tracked} {row : PaymentOrmEntity}
    (hrow : rowOf database.payments w.aggregate.payment.reference.value = some row)
    (hrevision : w.aggregate.revision = some row.version)
    (hidentity : row.identity = w.aggregate.payment.columns.identity)
    (h : w.run moment fault database = .committed database' t ∨
      ∃ message, w.run moment fault database = .unacknowledged database' t message) :
    Stored database' w.aggregate t := by
  obtain ⟨rows, saved, hsave, rfl, rfl⟩ := Work.run_changes h
  rw [save_of_current hrow hrevision] at hsave
  obtain ⟨rfl, rfl⟩ := Prod.mk.inj (Except.ok.inj hsave)
  have hupdated := Based.updatedRow_columns moment.now hidentity
  refine ⟨⟨_, rowOf_update_self hrow, hupdated, ?_⟩, ?_⟩
  · cases hw : w.enqueues <;> simp [Work.afterwards, hw, updatedRow]
  · cases hw : w.enqueues <;>
      simp [Work.afterwards, hw, Payment.columns, PaymentOrmMapper.toPersistence,
        Payment.toSnapshot, Payment.pullEvents]

/-- The transaction of a current aggregate ends as its fault says. -/
theorem query_transaction {database database' : Database} {w : Work} {moment : Moment}
    {fault : Fault} {input : Input} {row : PaymentOrmEntity}
    (hrow : rowOf database.payments w.aggregate.payment.reference.value = some row)
    (hrevision : w.aggregate.revision = some row.version)
    (hidentity : row.identity = w.aggregate.payment.columns.identity)
    (hquery : (Await.transaction w).query database moment fault = some (database', input)) :
    (database' = database ∧ fault ≠ .none ∧ ∃ t message, input = .failed t (.other message) ∧
      w.run moment fault database = .rolledBack t (.other message)) ∨
    ∃ t, Stored database' w.aggregate t ∧ fault.fails = false ∧
      ((∃ message, fault = .acknowledgement message ∧ input = .failed t (.other message)) ∨
        (∀ message, fault ≠ .acknowledgement message) ∧ input = .committed t) := by
  simp only [Await.query, Option.some.injEq] at hquery
  cases hrun : w.run moment fault database with
  | committed database₁ t =>
      simp only [hrun, TransactionResult.outcome, Prod.mk.injEq] at hquery
      obtain ⟨rfl, rfl⟩ := hquery
      refine .inr ⟨t, stored_of_changes hrow hrevision hidentity (.inl hrun),
        fails_of_changes (.inl hrun), .inr ⟨?_, rfl⟩⟩
      rintro message rfl
      unfold Work.run at hrun
      split at hrun <;> cases hrun
  | unacknowledged database₁ t message =>
      simp only [hrun, TransactionResult.outcome, Prod.mk.injEq] at hquery
      obtain ⟨rfl, rfl⟩ := hquery
      refine .inr ⟨t, stored_of_changes hrow hrevision hidentity (.inr ⟨_, hrun⟩),
        fails_of_changes (.inr ⟨_, hrun⟩), .inl ⟨message, ?_, rfl⟩⟩
      unfold Work.run at hrun
      split at hrun
      · cases hrun
      · cases fault <;> cases hrun
        rfl
  | rolledBack t error =>
      simp only [hrun, TransactionResult.outcome, Prod.mk.injEq] at hquery
      obtain ⟨rfl, rfl⟩ := hquery
      have hother : ∃ message, error = .other message := by
        cases error with
        | other message => exact ⟨message, rfl⟩
        | domain e =>
            have hrefused := (Work.run_rolledBack_domain hrun).1
            rw [save_of_current hrow hrevision] at hrefused
            cases hrefused
      obtain ⟨message, rfl⟩ := hother
      refine .inl ⟨rfl, ?_, t, message, rfl, rfl⟩
      · rintro rfl
        have hsave : Statement.save ∉ w.movements.toList.map Statement.record ++
            if w.enqueues then [.enqueueEvents] else [] := by
          cases w.movements <;> cases w.enqueues <;> simp
        obtain ⟨result, hrest⟩ := runStatements_of_none moment hsave 1
          { database with payments := (Table.modify (fun row => row.reference)
              database.payments w.aggregate.payment.reference.value
              (updatedRow w.aggregate.payment.columns moment.now)) }
          { w.aggregate with revision := some (row.version + 1) }
        simp only [Work.run, Work.statements, runStatements, Fault.breaks, Statement.run,
          save_of_current hrow hrevision, Except.map, hrest] at hrun
        cases hrun

theorem fails_of_rolledBack {database : Database} {t t' : Tracked} {moment : Moment}
    {fault : Fault} {message : String} {row : PaymentOrmEntity}
    (hrow : rowOf database.payments t.payment.reference.value = some row)
    (hrevision : t.revision = some row.version)
    (h : (saveWork t).run moment fault database = .rolledBack t' (.other message)) :
    fault.fails = true := by
  cases fault with
  | commit message => rfl
  | statement index message =>
      cases index with
      | zero => rfl
      | succ index =>
          simp [Work.run, Work.statements, saveWork, runStatements, Fault.breaks, Statement.run,
            save_of_current hrow hrevision, Except.map] at h
  | _ =>
      simp [Work.run, Work.statements, saveWork, runStatements, Fault.breaks, Statement.run,
        save_of_current hrow hrevision, Except.map] at h

namespace Workers

def Holds (s : State) (worker : ℕ) (reference : String) : Prop :=
  s.locks reference = none ∨ s.locks reference = some worker ∧ s.workers worker ≠ .idle

theorem holds_put {s : State} {worker : ℕ} {reference : String} (process : Process)
    (h : Holds s worker reference) : Holds (s.put worker process) worker reference := by
  have hlocks : s.locks reference = none ∨ s.locks reference = some worker :=
    h.imp_right And.left
  cases process with
  | idle =>
      refine .inl ?_
      rcases hlocks with hnone | hsome <;> simp [State.put, State.release, *]
  | _ =>
      refine hlocks.imp (fun hnone => by simpa [State.put] using hnone) fun hsome =>
        ⟨by simpa [State.put] using hsome, by simp⟩

theorem holds_release {s : State} {worker : ℕ} {reference : String}
    (h : Holds s worker reference) : Holds (s.release worker) worker reference := by
  refine .inl ?_
  rcases h with hnone | ⟨hsome, -⟩ <;> simp [State.release, *]

end Workers

namespace Platform

/-!
# The steps of one worker
-/

/-- The labels of one worker that recovers one payment, and those of `accounts`. -/
def Solo (worker : ℕ) (p : Reference .pay) : Event → Prop
  | .internal (.recover w p') => w = worker ∧ p' = p
  | .internal (.query w _ _) => w = worker
  | .internal (.crash w) => w = worker
  | .internal (.loseLock w) => w = worker
  | .internal _ => False
  | .send w => w = worker
  | .serve _ _ => True
  | .receive w _ => w = worker
  | .fail w _ _ => w = worker
  | .circuitOpen w _ => w = worker
  | .lookUp w _ _ => w = worker

abbrev State.process (s : State) (worker : ℕ) : Process := s.payments.workers worker

def Calm (worker : ℕ) (e : Event) : Prop :=
  e ≠ .internal (.crash worker) ∧ ∀ moment fault, e ≠ .internal (.query worker moment fault)

/-- What a step of one worker does to it, to the tables and to the wire. -/
inductive SoloEffect (worker : ℕ) (p : Reference .pay) (s s' : State) (e : Event) : Prop
  | calm (hcalm : Calm worker e) (hdatabase : s'.payments.database = s.payments.database)
      (hprocess : s'.process worker = s.process worker)
      (hsent : ∀ k, s'.wire.Sent MovementCall.identifier k →
        s.wire.Sent MovementCall.identifier k ∨
          ∃ call, (s.process worker).await = some (.movement call))
      (hrecords : ∀ m ∈ s.wire.records, m ∈ s'.wire.records)
  | crashed (hwire : s'.wire = s.wire) (hdatabase : s'.payments.database = s.payments.database)
      (hprocess : s'.process worker = .idle) (hevent : e = .internal (.crash worker))
  | picked (hwire : s'.wire = s.wire) (hdatabase : s'.payments.database = s.payments.database)
      (hidle : s.process worker = .idle)
      (hprocess : s'.process worker = .recovery p.value .find)
  | queried (hwire : s'.wire = s.wire) (await : Await) (moment : Moment) (fault : Fault)
      (input : Input) (hevent : e = .internal (.query worker moment fault))
      (hawait : (s.process worker).await = some await)
      (hquery : await.query s.payments.database moment fault =
        some (s'.payments.database, input))
      (hprocess : s'.process worker = (s.process worker).resume input moment.now)
  | answered (hwire : s'.wire = s.wire)
      (hdatabase : s'.payments.database = s.payments.database) (answer : Answer) (now : Date)
      (hlearned : Learned s worker answer)
      (hprocess : s'.process worker = (s.process worker).resume answer.input now)

section

variable {maxAttempts worker : ℕ} {p : Reference .pay} {s s' : State} {e : Event}

theorem State.of_put {database : Database} {process : Process}
    (hput : s'.payments = Workers.State.put { s.payments with database := database } worker process)
    (hholds : Workers.Holds s.payments worker p.value) :
    s'.payments.database = database ∧ s'.process worker = process ∧
      Workers.Holds s'.payments worker p.value := by
  rw [State.process, hput]
  exact ⟨by simp, by simp, Workers.holds_put _ hholds⟩

theorem solo_answered {answer : Answer} {now : Date}
    (hholds : Workers.Holds s.payments worker p.value) (hlearned : Learned s worker answer)
    (hinternal : Internal s s' (.answer worker answer now)) :
    SoloEffect worker p s s' e ∧ Workers.Holds s'.payments worker p.value := by
  have h := hinternal.step
  simp only [Workers.step] at h
  have hput : s'.payments = s.payments.put worker
      ((s.process worker).resume answer.input now) := by
    split at h
    · exact (Option.some.inj h).symm
    · exact (Option.some.inj h).symm
    · cases h
  obtain ⟨hdatabase, hprocess, hholds'⟩ := State.of_put hput hholds
  exact ⟨.answered hinternal.wire hdatabase answer now hlearned hprocess, hholds'⟩

theorem solo_internal {event : Workers.Event} (hsolo : Solo worker p (.internal event))
    (hlocal : ∀ w answer now, event ≠ .answer w answer now)
    (hholds : Workers.Holds s.payments worker p.value) (hinternal : Internal s s' event) :
    SoloEffect worker p s s' (.internal event) ∧ Workers.Holds s'.payments worker p.value := by
  have h := hinternal.step
  cases event with
  | recover w p' =>
      obtain ⟨rfl, rfl⟩ := hsolo
      simp only [Workers.step] at h
      cases hidle : s.payments.workers w with
      | idle =>
          simp only [hidle, Option.some.injEq] at h
          have hfree : s.payments.locks p'.value = none := by
            rcases hholds with hnone | ⟨-, hbusy⟩
            · exact hnone
            · exact absurd hidle hbusy
          simp only [Workers.State.execute, hfree] at h
          refine ⟨.picked hinternal.wire ?_ hidle ?_, .inr ⟨?_, ?_⟩⟩ <;>
            simp [← h, State.process]
      | _ => simp [hidle] at h
  | query w moment fault =>
      obtain rfl : w = worker := hsolo
      simp only [Workers.step] at h
      split at h
      · rename_i database input hquery
        obtain ⟨await, hawait, hquery⟩ := Option.bind_eq_some_iff.mp hquery
        obtain ⟨hdatabase, hprocess, hholds'⟩ :=
          State.of_put (Option.some.inj h).symm hholds
        subst hdatabase
        exact ⟨.queried hinternal.wire await moment fault input rfl hawait hquery hprocess, hholds'⟩
      · cases h
  | crash w =>
      obtain rfl : w = worker := hsolo
      have hput : s'.payments = s.payments.put w .idle := (Option.some.inj h).symm
      obtain ⟨hdatabase, hprocess, hholds'⟩ := State.of_put hput hholds
      exact ⟨.crashed hinternal.wire hdatabase hprocess rfl, hholds'⟩
  | loseLock w =>
      obtain rfl : w = worker := hsolo
      have hrelease := (Option.some.inj h).symm
      refine ⟨.calm ⟨by rintro ⟨⟩, by rintro _ _ ⟨⟩⟩ ?_ ?_ (fun k hk => .inl (hinternal.wire ▸ hk))
        (fun m hm => hinternal.wire ▸ hm), ?_⟩
      · rw [hrelease]
        rfl
      · rw [State.process, hrelease]
        rfl
      · rw [hrelease]
        exact Workers.holds_release hholds
  | initiate => exact hsolo.elim
  | start => exact hsolo.elim
  | answer w answer now => exact absurd rfl (hlocal w answer now)

theorem solo_cases (hsolo : Solo worker p e) (hholds : Workers.Holds s.payments worker p.value)
    (hstep : step maxAttempts s e = some s') :
    SoloEffect worker p s s' e ∧ Workers.Holds s'.payments worker p.value := by
  have hnetwork : s'.payments = s.payments → Calm worker e →
      (∀ k, s'.wire.Sent MovementCall.identifier k → s.wire.Sent MovementCall.identifier k ∨
        ∃ call, (s.process worker).await = some (.movement call)) →
      (∀ m ∈ s.wire.records, m ∈ s'.wire.records) →
      SoloEffect worker p s s' e ∧ Workers.Holds s'.payments worker p.value := by
    intro hpayments hcalm hsent hrecords
    refine ⟨.calm hcalm (by rw [hpayments]) ?_ hsent hrecords, hpayments ▸ hholds⟩
    rw [State.process, hpayments]
  cases step_cases hstep with
  | moved event hinternal hlabel =>
      cases hlabel with
      | internal event hlocal => exact solo_internal hsolo hlocal hholds hinternal
      | receive w answer now hpresent =>
          obtain rfl : w = worker := hsolo
          exact solo_answered hholds (hinternal.learned _ _ _ rfl) hinternal
      | fail w retryable now =>
          obtain rfl : w = worker := hsolo
          exact solo_answered hholds (hinternal.learned _ _ _ rfl) hinternal
      | circuitOpen w now =>
          obtain rfl : w = worker := hsolo
          exact solo_answered hholds (hinternal.learned _ _ _ rfl) hinternal
      | lookUp w available answer now habsent =>
          obtain rfl : w = worker := hsolo
          exact solo_answered hholds (hinternal.learned _ _ _ rfl) hinternal
  | sent w attempt uncertain call hawait hclient hpayments hclients hwire hevent =>
      subst hevent
      obtain rfl : w = worker := hsolo
      refine hnetwork hpayments ⟨nofun, nofun⟩ (fun k hk => .inr ⟨call, hawait⟩) fun m hm => ?_
      rw [hwire]
      exact hm
  | applied id call reference balanceAfter hrequest hpayments hclients hwire hevent =>
      refine hnetwork hpayments ⟨hevent _, fun _ _ => hevent _⟩ (fun k hk => .inl ?_)
        fun m hm => ?_
      · simpa only [hwire, Wire.Sent, Wire.sent_apply] using hk
      · rw [hwire]
        exact Wire.mem_records_apply hm
  | refused id call refusal hrequest hrefusable hpayments hclients hwire hevent =>
      refine hnetwork hpayments ⟨hevent _, fun _ _ => hevent _⟩ (fun k hk => .inl ?_)
        fun m hm => ?_
      · rw [hwire] at hk
        exact hk
      · rw [hwire]
        exact hm
  | retried w id attempt uncertain hclient hpayments hclients hwire hevent =>
      refine hnetwork hpayments ⟨hevent _, fun _ _ => hevent _⟩ (fun k hk => .inl ?_)
        fun m hm => ?_
      · rw [hwire] at hk
        exact hk
      · rw [hwire]
        exact hm

end

end Platform

end Payments

end Paynad
