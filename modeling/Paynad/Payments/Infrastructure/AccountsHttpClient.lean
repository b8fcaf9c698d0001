import Paynad.Library.Retry
import Paynad.Payments.Application.Handlers
import Paynad.Payments.Infrastructure.CircuitBreaker

/-!
# The HTTP client of `accounts`

A call makes up to `maxAttempts` attempts; the sequence of their ends is given from
outside. `send` and `read` are the two loops, one attempt of which is a `try` block;
`movement` and `findMovement` put the breaker around them and turn whatever is not an
answer of the domain into `AccountsUnavailableError`. A message and a reference are read
where they are texts, as their declared types say.
-/

namespace Paynad

namespace Payments

open Shared

inductive HttpOutcome where
  | response (status : ℕ) (data : Json)
  /-- The `TimeoutError` of the pipe. -/
  | timeout
  /-- Another rejection, with what it has of a status and a code. -/
  | rejection (status : Option ℕ) (code : Option String) (cause : String)

inductive ClientError where
  | domain (error : DomainError)
  | upstream (status : ℕ) (message : String)
  | timeout
  | rejection (status : Option ℕ) (code : Option String) (cause : String)
  /-- What comes of calling a property that `DOMAIN_ERRORS` inherits. -/
  | inherited (name : String)
  | malformed (error : MalformedValueError)
  | missingReference
  /-- The `lastError` of a loop that makes no attempt. -/
  | undefined

/-- `response.data?.message`. -/
def envelopeMessage : Json → Option String
  | .obj entries => (entries.lookup "message").bind Json.str?
  | _ => none

/-- `response.data?.message ?? ''`. -/
def envelopeName (data : Json) : String := (envelopeMessage data).getD ""

def truthy : Option Json → Bool
  | none => false
  | some .null => false
  | some (.bool value) => value
  | some (.num value) => value != 0
  | some (.str value) => value != ""
  | some _ => true

def envelopeData : Json → Option Json
  | .obj entries => entries.lookup "data"
  | _ => none

/-! ## The retry policy -/

structure FailureShape where
  status : Option ℕ
  code : Option String
  timedOut : Bool

def retryableCodes : List String :=
  ["ECONNREFUSED", "ECONNRESET", "ETIMEDOUT", "EAI_AGAIN", "EPIPE"]

def isRetryable (failure : FailureShape) : Bool :=
  if failure.timedOut then
    true
  else if failure.code.any fun code => retryableCodes.contains code then
    true
  else
    match failure.status with
    | none => true
    | some status => status = 429 || decide (500 ≤ status)

def shapeOf : ClientError → FailureShape
  | .upstream status _ => ⟨some status, none, false⟩
  | .timeout => ⟨none, none, true⟩
  | .rejection status code _ => ⟨status, code, false⟩
  | _ => ⟨none, none, false⟩

/-! ## Movements -/

/-- The refusals of `DOMAIN_ERRORS`, by their names. -/
def Refusal.ofMessage : String → Option Refusal
  | "INSUFFICIENT_BALANCE" => some .insufficientBalance
  | "WALLET_NOT_FOUND" => some .walletNotFound
  | "WALLET_FROZEN" => some .walletFrozen
  | "CURRENCY_MISMATCH" => some .currencyMismatch
  | _ => none

/-- The properties that `DOMAIN_ERRORS` inherits and that throw, or give something that is
thrown, when they are called with a wallet. -/
def inheritedNames : List String :=
  ["constructor", "hasOwnProperty", "propertyIsEnumerable", "toString", "toLocaleString",
    "valueOf", "__proto__", "__defineGetter__", "__defineSetter__", "__lookupGetter__",
    "__lookupSetter__"]

/-- `asDomainError`, and the `throw` of what it returns. -/
def asDomainError (status : ℕ) (data : Json) (wallet : String) : Option ClientError :=
  if status < 400 ∨ 500 ≤ status then
    none
  else
    match Refusal.ofMessage (envelopeName data) with
    | some refusal => some (.domain (refusal.error wallet))
    | none =>
        if inheritedNames.contains (envelopeName data) then
          some (.inherited (envelopeName data))
        else
          none

/-- A POST: its path below the base of the service, segment by segment, and its body. -/
structure HttpRequest where
  path : List String
  body : JsonObject

def movementRequest (call : MovementCall) : HttpRequest where
  path := ["accounts", call.wallet.value, call.operation.text]
  body :=
    [("transaction_id", .str call.idempotencyKey),
      ("amount", .num call.money.amount),
      ("currency", .str call.money.currency.code),
      ("description", .str call.description),
      ("payment_reference", .str call.paymentReference.value)]

/-- The rest of a `try` block once a response is no refusal: an error status, an empty
payload or the payload. -/
def payloadOf (status : ℕ) (data : Json) : Except ClientError Json :=
  if 400 ≤ status then
    .error (.upstream status ((envelopeMessage data).getD "unknown"))
  else
    match envelopeData data with
    | some payload =>
        if truthy (some payload) then .ok payload
        else .error (.upstream status "empty payload")
    | none => .error (.upstream status "empty payload")

/-- The `try` block of `send`. -/
def sendAttempt (wallet : String) : HttpOutcome → Except ClientError Json
  | .response status data =>
      match asDomainError status data wallet with
      | some error => .error error
      | none => payloadOf status data
  | .timeout => .error .timeout
  | .rejection status code cause => .error (.rejection status code cause)

abbrev Sent (α : Type) := List HttpRequest × Except ClientError α

/-- The loop of `send` from `attempt` on, with `remaining` attempts left and its `catch`
block: a refusal after an earlier failure proves nothing. -/
def send (operation : Operation) (request : HttpRequest) (wallet : String)
    (outcomes : ℕ → HttpOutcome) : ℕ → ℕ → Option ClientError → Sent Json
  | 0, _, lastError => ([], .error (lastError.getD .undefined))
  | remaining + 1, attempt, lastError =>
      match sendAttempt wallet (outcomes attempt) with
      | .ok payload => ([request], .ok payload)
      | .error (.domain error) =>
          match lastError with
          | some _ => ([request], .error (.domain (.accountsUnavailable operation.text)))
          | none => ([request], .error (.domain error))
      | .error error =>
          if !isRetryable (shapeOf error) || remaining = 0 then
            ([request], .error error)
          else
            let rest := send operation request wallet outcomes remaining (attempt + 1) (some error)
            (request :: rest.1, rest.2)

structure ClientMovement where
  transactionReference : Reference .trx
  balanceAfter : Option Json

def toMovementResult (payload : Json) : Except ClientError ClientMovement :=
  match payload with
  | .obj entries =>
      if truthy (entries.lookup "reference") then
        match entries.lookup "reference" with
        | some (.str value) =>
            match Reference.of .trx value with
            | .ok reference => .ok ⟨reference, entries.lookup "balance_after"⟩
            | .error error => .error (.malformed error)
        | _ => .error (.malformed (.reference .trx ""))
      else
        .error .missingReference
  | _ => .error .missingReference

structure AccountsHttpClient where
  maxAttempts : ℕ
  options : CircuitBreakerOptions

namespace AccountsHttpClient

variable (client : AccountsHttpClient)

structure Called (α : Type) where
  requests : List HttpRequest
  breaker : CircuitBreaker
  result : Except DomainError α

/-- `movement`; `now` and `later` are the clock of the breaker before and after the work. -/
def movement (breaker : CircuitBreaker) (now later : Date) (outcomes : ℕ → HttpOutcome)
    (call : MovementCall) : Called ClientMovement :=
  let unavailable : DomainError := .accountsUnavailable call.operation.text
  match breaker.enter client.options now with
  | none => ⟨[], breaker, .error unavailable⟩
  | some breaker =>
      let sent := send call.operation (movementRequest call) call.wallet.value outcomes
        client.maxAttempts 1 none
      match sent.2 with
      | .ok payload =>
          ⟨sent.1, breaker.onSuccess client.options,
            match toMovementResult payload with
            | .ok movement => .ok movement
            | .error _ => .error unavailable⟩
      | .error (.domain error) =>
          ⟨sent.1, (breaker.onFailure client.options later).recordHealthy client.options,
            .error error⟩
      | .error _ => ⟨sent.1, breaker.onFailure client.options later, .error unavailable⟩

/-! ## Looking a movement up -/

def lookupRequest (wallet : Reference .wlt) (idempotencyKey : String) : HttpRequest where
  path := ["accounts", wallet.value, "movements", idempotencyKey]
  body := []

end AccountsHttpClient

/-- The `try` block of `read`. -/
def readAttempt : HttpOutcome → Except ClientError (Option Json)
  | .response status data =>
      if status = 404 then .ok none else (payloadOf status data).map some
  | .timeout => .error .timeout
  | .rejection status code cause => .error (.rejection status code cause)

def read (request : HttpRequest) (outcomes : ℕ → HttpOutcome) :
    ℕ → ℕ → Option ClientError → Sent (Option Json)
  | 0, _, lastError => ([], .error (lastError.getD .undefined))
  | remaining + 1, attempt, _ =>
      match readAttempt (outcomes attempt) with
      | .ok payload => ([request], .ok payload)
      | .error error =>
          if !isRetryable (shapeOf error) || remaining = 0 then
            ([request], .error error)
          else
            let rest := read request outcomes remaining (attempt + 1) (some error)
            (request :: rest.1, rest.2)

namespace AccountsHttpClient

variable (client : AccountsHttpClient)

def findMovement (breaker : CircuitBreaker) (now later : Date) (outcomes : ℕ → HttpOutcome)
    (wallet : Reference .wlt) (idempotencyKey : String) : Called (Option ClientMovement) :=
  let unavailable : DomainError := .accountsUnavailable "find-movement"
  match breaker.enter client.options now with
  | none => ⟨[], breaker, .error unavailable⟩
  | some breaker =>
      let sent := read (lookupRequest wallet idempotencyKey) outcomes client.maxAttempts 1 none
      match sent.2 with
      | .ok none => ⟨sent.1, breaker.onSuccess client.options, .ok none⟩
      | .ok (some payload) =>
          ⟨sent.1, breaker.onSuccess client.options,
            match toMovementResult payload with
            | .ok movement => .ok (some movement)
            | .error _ => .error unavailable⟩
      | .error _ => ⟨sent.1, breaker.onFailure client.options later, .error unavailable⟩

end AccountsHttpClient

end Payments

end Paynad
