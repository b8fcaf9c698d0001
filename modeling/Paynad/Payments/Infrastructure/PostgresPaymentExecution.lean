import Mathlib.Data.Int.Notation
import Paynad.Library.AdvisoryLocks

/-!
# One treatment of a payment at a time

`PostgresPaymentExecution.run` takes the advisory lock of its reference on a session of its
own, unless the asynchronous context says that the caller runs under that reference: then it
joins, and leaves everything to the caller. The context of a work is the reference of its
run. Any number of calls are in progress at once, each at an await; the sessions come out of
the pool of their process and end with it.
-/

namespace Paynad

namespace Payments

namespace PostgresPaymentExecution

inductive Outcome where
  /-- `ConcurrentPaymentError`. -/
  | concurrentPayment
  /-- A statement ahead of the work has failed. -/
  | failed (message : String)
  /-- The work has returned, or thrown. -/
  | worked (error : Option String)
  deriving DecidableEq, Repr

/-- The awaits of `run`. -/
inductive Stage where
  /-- `return work()`. -/
  | joined
  /-- `connection.connect()`. -/
  | connecting
  /-- `SELECT pg_try_advisory_lock`. -/
  | locking (session : ℕ)
  | working (session : ℕ)
  /-- `SELECT pg_advisory_unlock`. -/
  | unlocking (session : ℕ) (outcome : Outcome)
  /-- `connection.release()`; there is no session if `connect` has failed. -/
  | releasing (session : Option ℕ) (outcome : Outcome)
  | ended (outcome : Outcome)
  /-- The process has died. -/
  | dead
  deriving DecidableEq, Repr

namespace Stage

def executing : Stage → Bool
  | .joined => true
  | .working _ => true
  | _ => false

def finished : Stage → Bool
  | .ended _ => true
  | .dead => true
  | _ => false

def session : Stage → Option ℕ
  | .locking session => some session
  | .working session => some session
  | .unlocking session _ => some session
  | .releasing session _ => session
  | _ => none

def lock : Stage → Option ℕ
  | .working session => some session
  | .unlocking session _ => some session
  | _ => none

end Stage

/-- A call of `run`; `worked` and `released` count its calls of `work` and of `release`. -/
structure Run where
  process : ℕ
  /-- The run whose work has made the call. -/
  parent : Option ℕ
  reference : String
  /-- `this.active.getStore() === reference`. -/
  joins : Bool
  stage : Stage
  locked : Bool
  worked : ℕ
  released : ℕ
  deriving DecidableEq, Repr

namespace Run

/-- A call joins, and works at once, or asks for a connection. -/
def start (process : ℕ) (parent : Option ℕ) (reference : String) (joins : Bool) : Run where
  process := process
  parent := parent
  reference := reference
  joins := joins
  stage := if joins then .joined else .connecting
  locked := false
  worked := if joins then 1 else 0
  released := 0

def goTo (run : Run) (stage : Stage) : Run := { run with stage := stage }

def finalize (run : Run) (session : Option ℕ) (outcome : Outcome) : Run :=
  match run.locked, session with
  | true, some session => run.goTo (.unlocking session outcome)
  | _, _ => run.goTo (.releasing session outcome)

def die (run : Run) (process : ℕ) : Run :=
  if run.process = process ∧ run.stage.finished = false then run.goTo .dead else run

end Run

/-- An open session: the process it belongs to, and the run that has taken it. -/
structure Session where
  process : ℕ
  run : Option ℕ
  deriving DecidableEq

structure State where
  runs : ℕ → Option Run
  sessions : ℕ → Option Session
  locks : AdvisoryLocks ℤ ℕ

def init : State := ⟨fun _ => none, fun _ => none, .empty⟩

namespace State

def put (s : State) (r : ℕ) (run : Run) : State :=
  { s with runs := Function.update s.runs r (some run) }

def canConnect (s : State) (process session : ℕ) : Bool :=
  match s.sessions session with
  | none => true
  | some open' => open'.process == process && open'.run == none

def setSession (s : State) (session : ℕ) (value : Session) : State :=
  { s with sessions := Function.update s.sessions session (some value) }

def setLocks (s : State) (locks : AdvisoryLocks ℤ ℕ) : State := { s with locks := locks }

def owns (s : State) (process session : ℕ) : Bool :=
  (s.sessions session).any (·.process == process)

def die (s : State) (process : ℕ) : State where
  runs r := (s.runs r).map (·.die process)
  sessions session := (s.sessions session).filter (·.process != process)
  locks := s.locks.close (s.owns process)

end State

def key (hash : String → ℤ) (reference : String) : ℤ := hash ("payment:" ++ reference)

inductive Event where
  /-- A call from outside of any work. -/
  | call (r process : ℕ) (reference : String)
  /-- A call from the work of a run. -/
  | nest (r parent : ℕ) (reference : String)
  | connect (r session : ℕ)
  | connectFails (r : ℕ) (message : String)
  | lock (r : ℕ)
  /-- The statement fails, and has locked nothing. -/
  | lockFails (r : ℕ) (message : String)
  /-- The work of a run returns, or throws. -/
  | finish (r : ℕ) (error : Option String)
  | unlock (r : ℕ)
  | release (r : ℕ)
  | die (process : ℕ)

def Event.run : Event → Option ℕ
  | .call r _ _ => some r
  | .nest r _ _ => some r
  | .connect r _ => some r
  | .connectFails r _ => some r
  | .lock r => some r
  | .lockFails r _ => some r
  | .finish r _ => some r
  | .unlock r => some r
  | .release r => some r
  | .die _ => none

/-- What the step of a run makes of it, from the await it rests at. -/
def resume (hash : String → ℤ) (s : State) (r : ℕ) (run : Run) : Event → Option State
  | .connect _ session =>
      match run.stage with
      | .connecting =>
          if s.canConnect run.process session then
            some ((s.setSession session ⟨run.process, some r⟩).put r (run.goTo (.locking session)))
          else
            none
      | _ => none
  | .connectFails _ message =>
      match run.stage with
      | .connecting => some (s.put r (run.finalize none (.failed message)))
      | _ => none
  | .lock _ =>
      match run.stage with
      | .locking session =>
          match s.locks.tryLock session (key hash run.reference) with
          | (true, locks) =>
              some ((s.setLocks locks).put r { run with
                stage := .working session
                locked := true
                worked := run.worked + 1 })
          | (false, locks) =>
              some ((s.setLocks locks).put r (run.finalize (some session) .concurrentPayment))
      | _ => none
  | .lockFails _ message =>
      match run.stage with
      | .locking session => some (s.put r (run.finalize (some session) (.failed message)))
      | _ => none
  | .finish _ error =>
      match run.stage with
      | .joined => some (s.put r (run.goTo (.ended (.worked error))))
      | .working session => some (s.put r (run.finalize (some session) (.worked error)))
      | _ => none
  | .unlock _ =>
      match run.stage with
      | .unlocking session outcome =>
          some ((s.setLocks (s.locks.unlock session (key hash run.reference))).put r
            (run.goTo (.releasing (some session) outcome)))
      | _ => none
  | .release _ =>
      match run.stage with
      | .releasing none outcome =>
          some (s.put r { run with stage := .ended outcome, released := run.released + 1 })
      | .releasing (some session) outcome =>
          some ((s.setSession session ⟨run.process, none⟩).put r
            { run with stage := .ended outcome, released := run.released + 1 })
      | _ => none
  | _ => none

def step (hash : String → ℤ) (s : State) (e : Event) : Option State :=
  match e with
  | .call r process reference =>
      match s.runs r with
      | none => some (s.put r (.start process none reference false))
      | some _ => none
  | .nest r parent reference =>
      match s.runs r, s.runs parent with
      | none, some caller =>
          if caller.stage.executing then
            some (s.put r (.start caller.process (some parent) reference
              (caller.reference == reference)))
          else
            none
      | _, _ => none
  | .die process => some (s.die process)
  | e => do
      let r ← e.run
      let run ← s.runs r
      resume hash s r run e

end PostgresPaymentExecution

end Payments

end Paynad
