import Mathlib.Logic.Function.Basic
import Paynad.Library.Transition
import Paynad.Payments.Application.Workflows

/-!
# Any number of workers on one database

The state is the committed tables, the advisory locks and the process of every
worker. One step is one awaited call of one worker, so the steps of the workers
interleave at every await; a label resolves what the environment decides: the
clock, the failures, the answers of `accounts`. A worker can crash before any
step, and its lock can be lost while it keeps running.
-/

namespace Paynad

namespace Payments

open Shared

inductive Answer where
  | moved (movement : MovementResult)
  | refused (refusal : Refusal)
  | unavailable
  | found (movement : Option MovementResult)
  | lookupUnavailable

def Answer.input : Answer → Input
  | .moved movement => .moved movement
  | .refused refusal => .refused refusal
  | .unavailable => .unavailable
  | .found movement => .found movement
  | .lookupUnavailable => .lookupUnavailable

def TransactionResult.outcome (database : Database) : TransactionResult → Database × Input
  | .committed database' t => (database', .committed t)
  | .unacknowledged database' t message => (database', .failed t (.other message))
  | .rolledBack t error => (database, .failed t error)

def Await.query (database : Database) (moment : Moment) (fault : Fault) :
    Await → Option (Database × Input)
  | .findByReference reference =>
      match fault.breaks 0,
        TypeOrmPaymentRepository.findByReference database.payments reference with
      | some message, _ => some (database, .queryFailed message)
      | none, .error error => some (database, .queryFailed error.message)
      | none, .ok t => some (database, .loaded t)
  | .transaction work => some ((work.run moment fault database).outcome database)
  | .recordRecoveryAttempt reference failure =>
      let attempted := { database with
        payments := TypeOrmPaymentRepository.recordRecoveryAttempt database.payments
          reference failure moment.now }
      match fault.breaks 0, fault with
      | some message, _ => some (database, .queryFailed message)
      | none, .commit message => some (database, .queryFailed message)
      | none, .acknowledgement message => some (attempted, .queryFailed message)
      | none, _ => some (attempted, .recorded)
  | .movement _ => none
  | .findMovement _ _ => none

namespace Workers

structure State where
  database : Database
  locks : String → Option ℕ
  workers : ℕ → Process

def init : State := ⟨Database.empty, fun _ => none, fun _ => .idle⟩

inductive Event where
  /-- `InitiatePaymentHandler.execute` up to the commit of its transaction. A key
  already reserved ends it like a transaction that rolls back. -/
  | initiate (worker : ℕ) (input : InitiatePaymentInput) (reference : Reference .pay)
      (moment : Moment) (fault : Fault)
  /-- `PaymentSaga.run` after the initiation, through `PaymentExecution.run`. -/
  | start (worker : ℕ)
  /-- `ReconciliationJob.recover` on a payment of its batch. -/
  | recover (worker : ℕ) (reference : Reference .pay)
  /-- The database call a worker is suspended on. -/
  | query (worker : ℕ) (moment : Moment) (fault : Fault)
  /-- The end of the call to `accounts` a worker is suspended on. -/
  | answer (worker : ℕ) (answer : Answer) (now : Date)
  | crash (worker : ℕ)
  | loseLock (worker : ℕ)

def Event.worker : Event → ℕ
  | .initiate worker _ _ _ _ => worker
  | .start worker => worker
  | .recover worker _ => worker
  | .query worker _ _ => worker
  | .answer worker _ _ => worker
  | .crash worker => worker
  | .loseLock worker => worker

namespace State

def release (s : State) (worker : ℕ) : State :=
  { s with locks := fun reference =>
      if s.locks reference = some worker then none else s.locks reference }

/-- A worker goes on with `process`; at the end of a workflow its lock is freed. -/
def put (s : State) (worker : ℕ) (process : Process) : State :=
  let s := { s with workers := Function.update s.workers worker process }
  match process with
  | .idle => s.release worker
  | _ => s

/-- `PaymentExecution.run` at the top of a workflow: without the lock it throws. -/
def execute (s : State) (worker : ℕ) (reference : String) (process : Process) : State :=
  match s.locks reference with
  | some _ => s.put worker .idle
  | none =>
      { s with
        locks := Function.update s.locks reference (some worker)
        workers := Function.update s.workers worker process }

@[simp] theorem release_database (s : State) (worker : ℕ) :
    (s.release worker).database = s.database := rfl

@[simp] theorem release_workers (s : State) (worker : ℕ) :
    (s.release worker).workers = s.workers := rfl

@[simp] theorem put_database (s : State) (worker : ℕ) (process : Process) :
    (s.put worker process).database = s.database := by
  cases process <;> rfl

@[simp] theorem put_workers (s : State) (worker : ℕ) (process : Process) :
    (s.put worker process).workers = Function.update s.workers worker process := by
  cases process <;> rfl

end State

def step (s : State) : Event → Option State
  | .initiate worker input reference moment fault =>
      match s.workers worker with
      | .idle =>
          match Payment.initiate input reference moment.now with
          | .error _ => some s
          | .ok payment =>
              match (saveWork ⟨payment, none⟩).run moment fault s.database with
              | .committed database _ =>
                  some ({ s with database := database }.put worker
                    (.initiated reference.value))
              | .unacknowledged database _ _ => some { s with database := database }
              | .rolledBack _ _ => some s
      | _ => none
  | .start worker =>
      match s.workers worker with
      | .initiated reference =>
          some (s.execute worker reference (.saga reference (PaymentSaga.start reference)))
      | _ => none
  | .recover worker reference =>
      match s.workers worker with
      | .idle => some (s.execute worker reference.value (.recovery reference.value .find))
      | _ => none
  | .query worker moment fault =>
      match (s.workers worker).await.bind (Await.query s.database moment fault) with
      | some (database, input) =>
          some ({ s with database := database }.put worker
            ((s.workers worker).resume input moment.now))
      | none => none
  | .answer worker answer now =>
      match (s.workers worker).await with
      | some (.movement _) =>
          some (s.put worker ((s.workers worker).resume answer.input now))
      | some (.findMovement _ _) =>
          some (s.put worker ((s.workers worker).resume answer.input now))
      | _ => none
  | .crash worker => some (s.put worker .idle)
  | .loseLock worker => some (s.release worker)

/-!
# What one step can do

Whatever its label, a step rewrites at most one worker. It leaves the tables
alone, or inserts a new payment, or performs the query of that worker; and the
worker ends up idle, at the start of a workflow, or where its answer takes it.
-/

def Inserted (database database' : Database) : Prop :=
  ∃ (input : InitiatePaymentInput) (reference : Reference .pay) (now : Date)
    (payment : Payment), Payment.initiate input reference now = .ok payment ∧
    ∃ rows saved, TypeOrmPaymentRepository.save database.payments ⟨payment, none⟩ now =
      .ok (rows, saved) ∧ database' = ⟨rows, database.outbox⟩

inductive Effect (s s' : State) (e : Event) (worker : ℕ) : Prop
  | quiet (hcrash : e ≠ .crash worker) (hanswer : ∀ answer now, e ≠ .answer worker answer now)
      (hdatabase : s'.database = s.database) (hworker : s'.workers worker = s.workers worker)
  | crashed (hevent : e = .crash worker) (hdatabase : s'.database = s.database)
      (hworker : s'.workers worker = .idle)
  /-- No command runs afterwards but the first one of a saga. -/
  | started (hbefore : (s.workers worker).await = none) (hdatabase : s'.database = s.database)
      (hworker : (s'.workers worker).command = none ∨
        ∃ reference, s'.workers worker = .saga reference (PaymentSaga.start reference))
  | initiated (hbefore : (s.workers worker).await = none)
      (hdatabase : Inserted s.database s'.database)
      (hworker : (s'.workers worker).command = none)
  | queried (await : Await) (moment : Moment) (fault : Fault) (input : Input)
      (hawait : (s.workers worker).await = some await)
      (hquery : await.query s.database moment fault = some (s'.database, input))
      (hworker : s'.workers worker = (s.workers worker).resume input moment.now)
      (hevent : e = .query worker moment fault)
  | answered (await : Await) (answer : Answer) (now : Date)
      (hevent : e = .answer worker answer now)
      (hawait : (s.workers worker).await = some await)
      (hcall : (∃ call, await = .movement call) ∨ ∃ wallet key, await = .findMovement wallet key)
      (hdatabase : s'.database = s.database)
      (hworker : s'.workers worker = (s.workers worker).resume answer.input now)

theorem execute_effect {s : State} {e : Event} {worker : ℕ} (reference : String)
    {process : Process} (hbefore : (s.workers worker).await = none)
    (hprocess : process.command = none ∨
      process = .saga reference (PaymentSaga.start reference)) :
    Effect s (s.execute worker reference process) e worker := by
  unfold State.execute
  split
  · exact .started hbefore (by simp) (.inl (by simp [Process.command]))
  · refine .started hbefore rfl ?_
    rcases hprocess with hprocess | rfl
    · exact .inl (by simpa using hprocess)
    · exact .inr ⟨reference, by simp⟩

/-- Every step is one of the effects, on one worker; the others are untouched. -/
theorem step_cases {s s' : State} {e : Event} (h : step s e = some s') :
    (∀ other, other ≠ e.worker → s'.workers other = s.workers other) ∧
      Effect s s' e e.worker := by
  have hframe : ∀ (database : Database) (worker : ℕ) (process : Process) (other : ℕ),
      other ≠ worker →
      (({ s with database := database } : State).put worker process).workers other =
        s.workers other := by
    intro database worker process other hne
    simp [hne]
  have hexecute : ∀ (worker : ℕ) (reference : String) (process : Process) (other : ℕ),
      other ≠ worker → (s.execute worker reference process).workers other =
        s.workers other := by
    intro worker reference process other hne
    unfold State.execute
    split <;> simp [hne]
  cases e with
  | initiate worker input reference moment fault =>
      simp only [step] at h
      cases hidle : s.workers worker <;> simp only [hidle] at h <;> try cases h
      have hbefore : (s.workers worker).await = none := by rw [hidle]; rfl
      cases hinit : Payment.initiate input reference moment.now with
      | error error =>
          simp only [hinit] at h
          cases h
          exact ⟨fun _ _ => rfl, .quiet (by rintro ⟨⟩) (by rintro _ _ ⟨⟩) rfl rfl⟩
      | ok payment =>
          simp only [hinit] at h
          have hinserted : ∀ {database : Database} {t : Tracked},
              ((saveWork ⟨payment, none⟩).run moment fault s.database = .committed database t ∨
                ∃ message, (saveWork ⟨payment, none⟩).run moment fault s.database =
                  .unacknowledged database t message) → Inserted s.database database := by
            intro database t hrun
            obtain ⟨rows, saved, hsave, hdatabase, -⟩ := Work.run_changes hrun
            refine ⟨input, reference, moment.now, payment, hinit, rows, saved, hsave, ?_⟩
            simpa [Work.messages, saveWork] using hdatabase
          cases hrun : (saveWork ⟨payment, none⟩).run moment fault s.database with
          | committed database t =>
              simp only [hrun] at h
              cases h
              exact ⟨hframe _ _ _, .initiated hbefore (hinserted (.inl hrun))
                (by simp [Event.worker, Process.command])⟩
          | unacknowledged database t message =>
              simp only [hrun] at h
              cases h
              exact ⟨fun _ _ => rfl, .initiated hbefore (hinserted (.inr ⟨message, hrun⟩))
                (by simp [Event.worker, hidle, Process.command])⟩
          | rolledBack t error =>
              simp only [hrun] at h
              cases h
              exact ⟨fun _ _ => rfl, .quiet (by rintro ⟨⟩) (by rintro _ _ ⟨⟩) rfl rfl⟩
  | start worker =>
      simp only [step] at h
      cases hworker : s.workers worker <;> simp only [hworker] at h <;> cases h
      exact ⟨hexecute _ _ _, execute_effect _ (by rw [hworker]; rfl) (.inr rfl)⟩
  | recover worker reference =>
      simp only [step] at h
      cases hworker : s.workers worker <;> simp only [hworker] at h <;> cases h
      exact ⟨hexecute _ _ _, execute_effect _ (by rw [hworker]; rfl) (.inl rfl)⟩
  | query worker moment fault =>
      simp only [step] at h
      split at h
      · rename_i database input hquery
        cases h
        obtain ⟨await, hawait, hquery⟩ := Option.bind_eq_some_iff.mp hquery
        exact ⟨hframe _ _ _,
          .queried await moment fault input hawait (by simpa using hquery) (by simp [Event.worker])
            rfl⟩
      · cases h
  | answer worker answer now =>
      simp only [step] at h
      split at h <;> cases h
      · exact ⟨hframe _ _ _,
          .answered _ answer now rfl ‹_› (.inl ⟨_, rfl⟩) (by simp) (by simp [Event.worker])⟩
      · exact ⟨hframe _ _ _,
          .answered _ answer now rfl ‹_› (.inr ⟨_, _, rfl⟩) (by simp) (by simp [Event.worker])⟩
  | crash worker =>
      cases h
      exact ⟨hframe _ _ _, .crashed rfl (by simp) (by simp [Event.worker])⟩
  | loseLock worker =>
      cases h
      exact ⟨fun _ _ => rfl, .quiet (by rintro ⟨⟩) (by rintro _ _ ⟨⟩) rfl rfl⟩

end Workers

end Payments

end Paynad
