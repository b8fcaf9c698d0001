import Paynad.Deployment.Answers
import Paynad.Payments.Protocol.Admission
import Paynad.Payments.Protocol.Platform

/-!
# The two services together

The workers of `payments` over the service of `accounts` itself: a POST is received by
its controller, runs through the awaits of `applyMovement` among all the others, and its
answer is the envelope that the client reads. A request reaches the service at most once
and at any time, or never; its client may have given up on it long before.
`payments` alone calls the endpoints that move money.
-/

namespace Paynad

namespace Deployment

open Shared Payments Transition
open Payments.Platform (Client clientsAfter)

def arrival (operation : Operation) (id : ℕ) (reference : String)
    (request : Accounts.BalanceOperationRequest) : Accounts.Event :=
  match operation with
  | .debit => .debit id reference request
  | .credit => .credit id reference request

structure State where
  payments : Workers.State
  clients : ℕ → Client
  /-- The requests sent so far: a request is known by its position. -/
  sent : List MovementCall
  accounts : Accounts.State

def init : State := ⟨Workers.init, fun _ => .idle, [], Accounts.init⟩

inductive Event where
  /-- A step of a worker that does not involve `accounts`. -/
  | internal (event : Workers.Event)
  /-- The next POST of a worker. -/
  | send (worker : ℕ)
  /-- A POST reaches the controller of `accounts`. -/
  | arrive (id : ℕ)
  /-- The await of a movement returns; `trx` is what `generateReference` draws. -/
  | resume (id : ℕ) (trx : Reference .trx)
  /-- Whatever else happens to `accounts`. -/
  | accounts (event : Accounts.Event)
  /-- A worker receives the answer to the request it waits for. -/
  | receive (worker : ℕ) (now : Date)
  /-- A worker gives up on an attempt: a timeout, a lost connection, an error status. -/
  | fail (worker : ℕ) (retryable : Bool) (now : Date)
  | circuitOpen (worker : ℕ) (now : Date)
  /-- `AccountsHttpClient.findMovement`. -/
  | lookUp (worker : ℕ) (available : Bool) (now : Date)

def finish (s : State) (worker : ℕ) (answer : Answer) (now : Date) : Option State :=
  (Workers.step s.payments (.answer worker answer now)).map fun payments =>
    { s with payments := payments,
             clients := clientsAfter s.clients (.answer worker answer now) }

/-- The `catch` block of `send`: another attempt, or the end of the call. -/
def failed (maxAttempts : ℕ) (s : State) (worker attempt : ℕ) (retryable : Bool) (now : Date) :
    Option State :=
  if retryable ∧ attempt < maxAttempts then
    some { s with clients := Function.update s.clients worker (.ready (attempt + 1) true) }
  else
    finish s worker .unavailable now

def outcomeOf (s : Accounts.State) (id : ℕ) : Option Accounts.Outcome :=
  (s.calls id).bind fun call =>
    match call.stage with
    | .done outcome => some outcome
    | _ => none

def step (unicode : Unicode) (maxAttempts : ℕ) (s : State) : Event → Option State
  | .internal (.answer _ _ _) => none
  | .internal event =>
      (Workers.step s.payments event).map fun payments =>
        { s with payments := payments, clients := clientsAfter s.clients event }
  | .send worker =>
      match (s.payments.workers worker).await, s.clients worker with
      | some (.movement call), .ready attempt uncertain =>
          some { s with
            clients := Function.update s.clients worker
              (.waiting s.sent.length attempt uncertain)
            sent := s.sent ++ [call] }
      | _, _ => none
  | .arrive id =>
      s.sent[id]?.bind fun call =>
        (Accounts.WalletsController.receive unicode call.wallet.value
            (.obj (movementRequest call).body)).bind fun received =>
          (Accounts.step s.accounts (arrival call.operation id received.1 received.2)).map
            fun accounts => { s with accounts := accounts }
  | .resume id trx =>
      (Accounts.step s.accounts (.resume id trx.value)).map fun accounts =>
        { s with accounts := accounts }
  | .accounts (.credit _ _ _) => none
  | .accounts (.debit _ _ _) => none
  | .accounts (.resume _ _) => none
  | .accounts event =>
      (Accounts.step s.accounts event).map fun accounts => { s with accounts := accounts }
  | .receive worker now =>
      match s.clients worker with
      | .waiting id attempt uncertain =>
          match outcomeOf s.accounts id, s.sent[id]? with
          | some outcome, some call =>
              match readMovement call.wallet.value uncertain
                (.ofAnswer (Accounts.WalletsController.respond outcome)) with
              | .answered answer => finish s worker answer now
              | .failed retryable => failed maxAttempts s worker attempt retryable now
          | _, _ => none
      | .ready _ _ => none
  | .fail worker retryable now =>
      match s.clients worker with
      | .waiting _ attempt _ => failed maxAttempts s worker attempt retryable now
      | .ready _ _ => none
  | .circuitOpen worker now =>
      match (s.payments.workers worker).await, s.clients worker with
      | some (.movement _), .ready 1 false => finish s worker .unavailable now
      | _, _ => none
  | .lookUp worker available now =>
      match (s.payments.workers worker).await with
      | some (.findMovement wallet key) =>
          finish s worker
            (if available then
              readLookup
                (.ofAnswer (Accounts.WalletsController.movement s.accounts wallet.value key))
            else
              .lookupUnavailable) now
      | _ => none

end Deployment

end Paynad
