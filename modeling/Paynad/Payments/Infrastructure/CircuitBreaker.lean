import Paynad.Shared.Json

/-!
# The circuit breaker

What `CircuitBreaker` decides before a call and what it learns from the end of it.
-/

namespace Paynad

namespace Payments

open Shared

inductive CircuitState where
  | Closed
  | Open
  | HalfOpen
  deriving DecidableEq, Repr

structure CircuitBreakerOptions where
  failureThreshold : ℕ
  openMs : ℕ
  successThreshold : ℕ

structure CircuitBreaker where
  state : CircuitState
  failures : ℕ
  successes : ℕ
  openedAt : Date
  deriving DecidableEq, Repr

namespace CircuitBreaker

def init : CircuitBreaker := ⟨.Closed, 0, 0, 0⟩

variable (options : CircuitBreakerOptions) (breaker : CircuitBreaker)

/-- `execute` before its work; `none` stands for `CircuitOpenError`. -/
def enter (now : Date) : Option CircuitBreaker :=
  if breaker.state = .Open then
    if now < breaker.openedAt + options.openMs then
      none
    else
      some { breaker with state := .HalfOpen, successes := 0 }
  else
    some breaker

def onFailure (now : Date) : CircuitBreaker :=
  let failures := breaker.failures + 1
  if breaker.state = .HalfOpen ∨ options.failureThreshold ≤ failures then
    ⟨.Open, failures, 0, now⟩
  else
    { breaker with failures := failures, successes := 0 }

def onSuccess : CircuitBreaker :=
  if breaker.state = .HalfOpen then
    { breaker with
      failures := 0
      successes := breaker.successes + 1
      state :=
        if options.successThreshold ≤ breaker.successes + 1 then .Closed else .HalfOpen }
  else
    { breaker with failures := 0, state := .Closed }

def recordHealthy : CircuitBreaker := breaker.onSuccess options

end CircuitBreaker

end Payments

end Paynad
