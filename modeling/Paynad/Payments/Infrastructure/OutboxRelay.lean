import Paynad.Library.Locks
import Paynad.Payments.Infrastructure.Outbox

/-!
# The relay of the outbox

Workers publish the rows of the outbox one by one: each row inside a transaction
that has locked it and stays open until the broker has answered. A worker rests at
an await of `publishBatch` with the version of the row it has read. The emissions
and those the broker has accepted are the history of the queue: the broker may
accept an emission long after its worker has given up on it. A row is identified
by its position in the table.
-/

namespace Paynad

namespace Payments

open Shared

def outboxBatchSize : ℕ := 50

def outboxMaxAttempts : ℕ := 10

structure OutboxRow where
  message : OutboxMessage
  publishedAt : Option Date
  attempts : ℕ
  lastError : Option String
  nextAttemptAt : Date

namespace OutboxRow

def enqueued (message : OutboxMessage) (now : Date) : OutboxRow where
  message := message
  publishedAt := none
  attempts := 0
  lastError := none
  nextAttemptAt := now

/-- The `WHERE` of `publishBatch`. -/
def selectable (row : OutboxRow) (now : Date) : Bool :=
  row.publishedAt.isNone && decide (row.attempts < outboxMaxAttempts) &&
    decide (row.nextAttemptAt ≤ now)

/-- The `WHERE` of `retryOutbox`. -/
def exhausted (row : OutboxRow) : Bool :=
  row.publishedAt.isNone && decide (outboxMaxAttempts ≤ row.attempts)

/-- The update after an acknowledged emission of `message`, the version read. -/
def published (row message : OutboxRow) (now : Date) : OutboxRow :=
  { row with
    publishedAt := some now
    attempts := message.attempts + 1
    lastError := none }

/-- The update after a failed emission of `message`, the version read. -/
def deferred (row message : OutboxRow) (error : String) (now : Date) : OutboxRow :=
  { row with
    attempts := message.attempts + 1
    lastError := some error
    nextAttemptAt := now + min 3600 (2 ^ (message.attempts + 1)) * 1000 }

def reset (row : OutboxRow) (now : Date) : OutboxRow :=
  { row with
    attempts := 0
    lastError := none
    nextAttemptAt := now }

end OutboxRow

namespace OutboxRelay

/-- What `client.emit` was called with, for which row and by which worker. -/
structure Emission where
  worker : ℕ
  id : ℕ
  eventType : String
  payload : JsonObject

/-- The awaits of `publishBatch`; `index` counts the rows of the pass. -/
inductive Stage where
  /-- `draining` is false. -/
  | idle
  /-- `SELECT … FOR UPDATE SKIP LOCKED`. -/
  | selecting (index : ℕ)
  | selected (index id : ℕ) (message : OutboxRow)
  /-- `client.emit`. -/
  | emitting (index id : ℕ) (message : OutboxRow) (emission : ℕ)
  /-- The emission has completed: UPDATE. -/
  | publishing (index id : ℕ) (message : OutboxRow) (emission : ℕ)
  /-- The emission has failed or timed out: UPDATE. -/
  | deferring (index id : ℕ) (message : OutboxRow) (error : String)
  /-- COMMIT; `emission` is the one a publication rests on. -/
  | committing (index id : ℕ) (version : OutboxRow) (emission : Option ℕ)

def Stage.row : Stage → Option ℕ
  | .idle | .selecting _ => none
  | .selected _ id _ | .emitting _ id _ _ | .publishing _ id _ _ | .deferring _ id _ _
  | .committing _ id _ _ => some id

structure State where
  rows : List OutboxRow
  locks : Locks ℕ ℕ
  workers : ℕ → Stage
  emissions : List Emission
  accepted : List ℕ

def init : State := ⟨[], .empty, fun _ => .idle, [], []⟩

namespace State

def goTo (s : State) (w : ℕ) (stage : Stage) : State :=
  { s with workers := Function.update s.workers w stage }

def unlock (s : State) (w : ℕ) : State := { s with locks := s.locks.release w }

def enqueue (s : State) (messages : List OutboxMessage) (now : Date) : State :=
  { s with rows := s.rows ++ messages.map fun message => .enqueued message now }

def emit (s : State) (emission : Emission) : State :=
  { s with emissions := s.emissions ++ [emission] }

end State

inductive Event where
  | enqueue (messages : List OutboxMessage) (now : Date)
  /-- The tick of a worker that is not draining. -/
  | drain (worker : ℕ)
  /-- The SELECT returns a row; which of those that qualify is left open. -/
  | select (worker id : ℕ) (now : Date)
  /-- The SELECT returns nothing. -/
  | nothing (worker : ℕ)
  | emit (worker : ℕ)
  /-- The broker accepts an emission, at any time after it. -/
  | accept (emission : ℕ)
  /-- The emission a worker awaits completes. -/
  | complete (worker : ℕ)
  /-- The emission a worker awaits fails, or times out. -/
  | reject (worker : ℕ) (error : String)
  /-- The UPDATE of a worker. -/
  | update (worker : ℕ) (now : Date)
  | commit (worker : ℕ)
  /-- A statement fails and ends the pass, or the process dies: ROLLBACK. -/
  | stop (worker : ℕ)
  /-- `retryOutbox`. -/
  | retry (id : ℕ) (now : Date)

def next (index : ℕ) : Stage :=
  if index + 1 < outboxBatchSize then .selecting (index + 1) else .idle

def step (s : State) : Event → Option State
  | .enqueue messages now => some (s.enqueue messages now)
  | .drain w =>
      match s.workers w with
      | .idle => some (s.goTo w (.selecting 0))
      | _ => none
  | .select w id now =>
      match s.workers w, s.rows[id]? with
      | .selecting index, some row =>
          if row.selectable now && s.locks.available w id then
            some ({ s with locks := s.locks.acquire w id }.goTo w (.selected index id row))
          else
            none
      | _, _ => none
  | .nothing w =>
      match s.workers w with
      | .selecting _ => some ((s.unlock w).goTo w .idle)
      | _ => none
  | .emit w =>
      match s.workers w with
      | .selected index id message =>
          some ((s.emit ⟨w, id, message.message.eventType, message.message.payload⟩).goTo w
            (.emitting index id message s.emissions.length))
      | _ => none
  | .accept emission =>
      if emission < s.emissions.length then
        some { s with accepted := emission :: s.accepted }
      else
        none
  | .complete w =>
      match s.workers w with
      | .emitting index id message emission =>
          if emission ∈ s.accepted then
            some (s.goTo w (.publishing index id message emission))
          else
            none
      | _ => none
  | .reject w error =>
      match s.workers w with
      | .emitting index id message _ => some (s.goTo w (.deferring index id message error))
      | _ => none
  | .update w now =>
      match s.workers w with
      | .publishing index id message emission =>
          (s.rows[id]?).map fun row =>
            s.goTo w (.committing index id (row.published message now) (some emission))
      | .deferring index id message error =>
          (s.rows[id]?).map fun row =>
            s.goTo w (.committing index id (row.deferred message error now) none)
      | _ => none
  | .commit w =>
      match s.workers w with
      | .committing index id version _ =>
          some (({ s with rows := s.rows.set id version }.unlock w).goTo w (next index))
      | _ => none
  | .stop w =>
      match s.workers w with
      | .idle => none
      | _ => some ((s.unlock w).goTo w .idle)
  | .retry id now =>
      match s.rows[id]? with
      | none => some s
      | some row =>
          if row.exhausted then
            if s.locks id = none then
              some { s with rows := s.rows.set id (row.reset now) }
            else
              none
          else
            some s

end OutboxRelay

end Payments

end Paynad
