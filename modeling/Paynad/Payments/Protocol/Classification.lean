import Paynad.Payments.Infrastructure.AccountsHttpClient
import Paynad.Shared.Envelope

/-!
# What a call to `accounts` proves

Either loop of the client is decided by one of its attempts, all the earlier ones having
failed in a way worth a retry (`send_eq`, `read_eq`). What the client returns is then a
matter of that attempt alone, and of whether it was the first.
-/

namespace Paynad

namespace Payments

open Shared

variable {outcomes : ℕ → HttpOutcome} {wallet : String} {status : ℕ} {data payload : Json}
  {outcome : HttpOutcome} {refusal : Refusal} {movement : ClientMovement}

/-- An error that the `catch` block of a loop goes on after. -/
def ClientError.retryable : ClientError → Bool
  | .domain _ => false
  | error => isRetryable (shapeOf error)

namespace HttpOutcome

def failsRetryably (wallet : String) (outcome : HttpOutcome) : Bool :=
  match sendAttempt wallet outcome with
  | .ok _ => false
  | .error error => error.retryable

/-- `accounts` has refused the movement by name. -/
def Refuses (outcome : HttpOutcome) (refusal : Refusal) : Prop :=
  ∃ status data, outcome = .response status data ∧ 400 ≤ status ∧ status < 500 ∧
    Refusal.ofMessage (envelopeName data) = some refusal

/-- `accounts` has answered with the movement. -/
def Carries (outcome : HttpOutcome) (movement : ClientMovement) : Prop :=
  ∃ status data payload, outcome = .response status data ∧ status < 400 ∧
    envelopeData data = some payload ∧ toMovementResult payload = .ok movement

end HttpOutcome

/-! ## One attempt -/

theorem Refusal.error_injective (wallet : String) :
    Function.Injective fun refusal : Refusal => refusal.error wallet := by
  intro refusal refusal' h
  cases refusal <;> cases refusal' <;> first | rfl | cases h

theorem Refusal.error_ne_accountsUnavailable (refusal : Refusal) (wallet operation : String) :
    refusal.error wallet ≠ .accountsUnavailable operation := by
  cases refusal <;> nofun

theorem payloadOf_ok (h : payloadOf status data = .ok payload) :
    status < 400 ∧ envelopeData data = some payload := by
  unfold payloadOf at h
  split_ifs at h with hstatus
  refine ⟨Nat.not_le.mp hstatus, ?_⟩
  split at h
  · next payload' hdata =>
      split_ifs at h
      cases h
      exact hdata
  · cases h

theorem payloadOf_of_movement (hstatus : status < 400) (hdata : envelopeData data = some payload)
    (hmovement : toMovementResult payload = .ok movement) :
    payloadOf status data = .ok payload := by
  have htruthy : truthy (some payload) = true := by
    cases payload with
    | obj entries => rfl
    | null | bool | num | str | arr => cases hmovement
  rw [payloadOf, if_neg (Nat.not_le.mpr hstatus), hdata]
  exact if_pos htruthy

theorem asDomainError_domain_iff {error : DomainError} :
    asDomainError status data wallet = some (.domain error) ↔
      400 ≤ status ∧ status < 500 ∧ ∃ refusal,
        Refusal.ofMessage (envelopeName data) = some refusal ∧
          error = refusal.error wallet := by
  unfold asDomainError
  by_cases hstatus : status < 400 ∨ 500 ≤ status
  · rw [if_pos hstatus]
    constructor
    · nofun
    · rintro ⟨hmin, hmax, -⟩
      omega
  · rw [if_neg hstatus]
    have hmin : 400 ≤ status := by omega
    have hmax : status < 500 := by omega
    cases hrefusal : Refusal.ofMessage (envelopeName data) with
    | none =>
        constructor
        · intro h
          dsimp only at h
          split_ifs at h
          cases h
        · rintro ⟨-, -, refusal, hnone, -⟩
          cases hnone
    | some refusal =>
        constructor
        · rintro ⟨⟩
          exact ⟨hmin, hmax, refusal, rfl, rfl⟩
        · rintro ⟨-, -, refusal', hsome, rfl⟩
          cases hsome
          rfl

theorem payloadOf_ne_domain (error : DomainError) :
    payloadOf status data ≠ .error (.domain error) := by
  unfold payloadOf
  split_ifs
  · nofun
  · split
    · split_ifs <;> nofun
    · nofun

theorem sendAttempt_domain_iff {error : DomainError} :
    sendAttempt wallet outcome = .error (.domain error) ↔
      ∃ refusal, outcome.Refuses refusal ∧ error = refusal.error wallet := by
  cases outcome with
  | response status data =>
      have hattempt : sendAttempt wallet (.response status data) = .error (.domain error) ↔
          asDomainError status data wallet = some (.domain error) := by
        simp only [sendAttempt]
        cases asDomainError status data wallet with
        | none => simp [payloadOf_ne_domain]
        | some thrown => simp
      rw [hattempt, asDomainError_domain_iff]
      constructor
      · rintro ⟨hmin, hmax, refusal, hrefusal, herror⟩
        exact ⟨refusal, ⟨status, data, rfl, hmin, hmax, hrefusal⟩, herror⟩
      · rintro ⟨refusal, ⟨status', data', hresponse, hmin, hmax, hrefusal⟩, herror⟩
        cases hresponse
        exact ⟨hmin, hmax, refusal, hrefusal, herror⟩
  | timeout => exact ⟨nofun, fun ⟨_, ⟨_, _, h, _⟩, _⟩ => nomatch h⟩
  | rejection status code cause => exact ⟨nofun, fun ⟨_, ⟨_, _, h, _⟩, _⟩ => nomatch h⟩

theorem sendAttempt_ok (h : sendAttempt wallet outcome = .ok payload) :
    ∃ status data, outcome = .response status data ∧ payloadOf status data = .ok payload := by
  unfold sendAttempt at h
  split at h
  · next status data =>
      split at h
      · cases h
      · exact ⟨status, data, rfl, h⟩
  · cases h
  · cases h

theorem sendAttempt_of_carries (wallet : String) (h : outcome.Carries movement) :
    ∃ payload, sendAttempt wallet outcome = .ok payload ∧
      toMovementResult payload = .ok movement := by
  obtain ⟨status, data, payload, rfl, hstatus, hdata, hmovement⟩ := h
  refine ⟨payload, ?_, hmovement⟩
  have hnone : asDomainError status data wallet = none := if_pos (.inl hstatus)
  simp only [sendAttempt, hnone, payloadOf_of_movement hstatus hdata hmovement]

theorem carries_of_sendAttempt (h : sendAttempt wallet outcome = .ok payload)
    (hmovement : toMovementResult payload = .ok movement) : outcome.Carries movement := by
  obtain ⟨status, data, rfl, hpayload⟩ := sendAttempt_ok h
  obtain ⟨hstatus, hdata⟩ := payloadOf_ok hpayload
  exact ⟨status, data, payload, rfl, hstatus, hdata, hmovement⟩

theorem failsRetryably_iff :
    outcome.failsRetryably wallet = true ↔
      ∃ error, sendAttempt wallet outcome = .error error ∧ error.retryable = true := by
  unfold HttpOutcome.failsRetryably
  cases sendAttempt wallet outcome with
  | ok payload => simp
  | error error => simp

/-! ## The loop of a movement -/

/-- What the deciding attempt makes of the loop; `uncertain` tells that another one failed
before it. -/
def conclude (operation : Operation) (wallet : String) (uncertain : Bool)
    (outcome : HttpOutcome) : Except ClientError Json :=
  match sendAttempt wallet outcome with
  | .error (.domain error) =>
      .error (.domain (if uncertain then .accountsUnavailable operation.text else error))
  | result => result

/-- The loop goes on after a failure worth a retry. -/
theorem send_of_retryable {operation : Operation} {request : HttpRequest}
    {remaining attempt : ℕ} {lastError : Option ClientError} {error : ClientError}
    (hattempt : sendAttempt wallet (outcomes attempt) = .error error)
    (hretryable : error.retryable = true) :
    send operation request wallet outcomes (remaining + 2) attempt lastError =
      (request :: (send operation request wallet outcomes (remaining + 1) (attempt + 1)
          (some error)).1,
        (send operation request wallet outcomes (remaining + 1) (attempt + 1)
          (some error)).2) := by
  rw [send, hattempt]
  cases error with
  | domain error => cases hretryable
  | _ =>
      have hloop : isRetryable (shapeOf _) = true := hretryable
      simp [hloop]

/-- The loop posts the request up to the deciding attempt, and concludes from it. -/
theorem send_eq (operation : Operation) (request : HttpRequest) (remaining attempt : ℕ)
    (lastError : Option ClientError) :
    send operation request wallet outcomes (remaining + 1) attempt lastError =
      (List.replicate (Retry.deciding (HttpOutcome.failsRetryably wallet) outcomes remaining
          attempt - attempt + 1) request,
        conclude operation wallet
          (lastError.isSome || decide (attempt < Retry.deciding
            (HttpOutcome.failsRetryably wallet) outcomes remaining attempt))
          (outcomes (Retry.deciding (HttpOutcome.failsRetryably wallet) outcomes remaining
            attempt))) := by
  induction remaining generalizing attempt lastError with
  | zero =>
      rw [Retry.deciding, Nat.sub_self, send]
      unfold conclude
      cases hattempt : sendAttempt wallet (outcomes attempt) with
      | ok payload => rfl
      | error error => cases error <;> cases lastError <;> simp
  | succ remaining ih =>
      cases hretried : HttpOutcome.failsRetryably wallet (outcomes attempt) with
      | false =>
          rw [Retry.deciding_of_not_retried hretried, Nat.sub_self, send]
          unfold conclude
          unfold HttpOutcome.failsRetryably at hretried
          cases hattempt : sendAttempt wallet (outcomes attempt) with
          | ok payload => rfl
          | error error =>
              rw [hattempt] at hretried
              cases error <;> cases lastError <;> simp_all [ClientError.retryable]
      | true =>
          have hle : attempt + 1 ≤ Retry.deciding (HttpOutcome.failsRetryably wallet) outcomes
              remaining (attempt + 1) := Retry.le_deciding
          obtain ⟨error, hattempt, hretryable⟩ := failsRetryably_iff.mp hretried
          rw [Retry.deciding_of_retried hretried, send_of_retryable hattempt hretryable, ih,
            Prod.mk.injEq]
          refine ⟨?_, ?_⟩
          · rw [← List.replicate_succ]
            congr 1
            omega
          · have hlt : attempt < Retry.deciding (HttpOutcome.failsRetryably wallet) outcomes
                remaining (attempt + 1) := hle
            simp [hlt]

/-- Only a refusal by the first attempt leaves the loop as a refusal. -/
theorem conclude_refusal_iff {operation : Operation} {uncertain : Bool} :
    conclude operation wallet uncertain outcome = .error (.domain (refusal.error wallet)) ↔
      uncertain = false ∧ outcome.Refuses refusal := by
  unfold conclude
  split
  · next error hattempt =>
      obtain ⟨refusal', hrefuses, rfl⟩ := sendAttempt_domain_iff.mp hattempt
      cases uncertain with
      | true =>
          simp only [if_true, Except.error.injEq, ClientError.domain.injEq, Bool.true_eq_false,
            false_and, iff_false]
          exact (refusal.error_ne_accountsUnavailable _ _).symm
      | false =>
          simp only [Bool.false_eq_true, if_false, Except.error.injEq, ClientError.domain.injEq,
            true_and]
          constructor
          · intro heq
            rw [← Refusal.error_injective wallet heq]
            exact hrefuses
          · intro hrefuses'
            have h :=
              sendAttempt_domain_iff.mpr ⟨refusal, hrefuses', Eq.refl (refusal.error wallet)⟩
            rw [hattempt] at h
            exact ClientError.domain.inj (Except.error.inj h)
  · next hne =>
      constructor
      · intro h
        exact absurd h (hne _)
      · rintro ⟨-, hrefuses⟩
        exact absurd (sendAttempt_domain_iff.mpr ⟨refusal, hrefuses, rfl⟩) (hne _)

theorem conclude_ok_iff {operation : Operation} {uncertain : Bool} :
    conclude operation wallet uncertain outcome = .ok payload ↔
      sendAttempt wallet outcome = .ok payload := by
  unfold conclude
  split
  · next error hattempt => simp [hattempt]
  · rfl

/-- A domain error that leaves the loop is a refusal or the unavailability of `accounts`. -/
theorem conclude_domain {operation : Operation} {uncertain : Bool} {error : DomainError}
    (h : conclude operation wallet uncertain outcome = .error (.domain error)) :
    (∃ refusal : Refusal, error = refusal.error wallet) ∨
      error = .accountsUnavailable operation.text := by
  unfold conclude at h
  split at h
  · next error' hattempt =>
      obtain ⟨refusal, -, rfl⟩ := sendAttempt_domain_iff.mp hattempt
      cases h
      cases uncertain with
      | true => exact .inr rfl
      | false => exact .inl ⟨refusal, rfl⟩
  · next hne => exact absurd h (hne _)

/-- What `movement` makes of the end of its loop. -/
def settle (operation : Operation) :
    Except ClientError Json → Except DomainError ClientMovement
  | .ok payload =>
      match toMovementResult payload with
      | .ok movement => .ok movement
      | .error _ => .error (.accountsUnavailable operation.text)
  | .error (.domain error) => .error error
  | .error _ => .error (.accountsUnavailable operation.text)

theorem settle_ok_iff {operation : Operation} {result : Except ClientError Json} :
    settle operation result = .ok movement ↔
      ∃ payload, result = .ok payload ∧ toMovementResult payload = .ok movement := by
  cases result with
  | ok payload =>
      simp only [settle, Except.ok.injEq, exists_eq_left']
      cases toMovementResult payload <;> simp
  | error error => cases error <;> simp [settle]

theorem settle_refusal_iff {operation : Operation} {result : Except ClientError Json} :
    settle operation result = .error (refusal.error wallet) ↔
      result = .error (.domain (refusal.error wallet)) := by
  have hne := (refusal.error_ne_accountsUnavailable wallet operation.text).symm
  cases result with
  | ok payload =>
      simp only [settle]
      cases toMovementResult payload <;> simp [hne]
  | error error => cases error <;> simp [settle, hne]

theorem settle_cases {operation : Operation} {result : Except ClientError Json}
    (hdomain : ∀ error, result = .error (.domain error) →
      (∃ refusal : Refusal, error = refusal.error wallet) ∨
        error = .accountsUnavailable operation.text) :
    (∃ movement, settle operation result = .ok movement) ∨
      (∃ refusal : Refusal, settle operation result = .error (refusal.error wallet)) ∨
      settle operation result = .error (.accountsUnavailable operation.text) := by
  cases result with
  | ok payload =>
      simp only [settle]
      cases toMovementResult payload with
      | ok movement => exact .inl ⟨movement, rfl⟩
      | error error => exact .inr (.inr rfl)
  | error error =>
      cases error with
      | domain error =>
          rcases hdomain error rfl with ⟨refusal, rfl⟩ | rfl
          · exact .inr (.inl ⟨refusal, rfl⟩)
          · exact .inr (.inr rfl)
      | _ => exact .inr (.inr rfl)

namespace AccountsHttpClient

variable {client : AccountsHttpClient} {breaker : CircuitBreaker} {now later : Date}
  {call : MovementCall} {retries : ℕ}

def decidingAttempt (outcomes : ℕ → HttpOutcome) (call : MovementCall) (retries : ℕ) : ℕ :=
  Retry.deciding (HttpOutcome.failsRetryably call.wallet.value) outcomes retries 1

/-- What the deciding attempt concludes, with what it says of the attempts before it. -/
def conclusion (outcomes : ℕ → HttpOutcome) (call : MovementCall) (retries : ℕ) :
    Except ClientError Json :=
  conclude call.operation call.wallet.value (decide (1 < decidingAttempt outcomes call retries))
    (outcomes (decidingAttempt outcomes call retries))

/-- The result of a movement, from its deciding attempt. -/
theorem movement_result (henter : (breaker.enter client.options now).isSome = true)
    (hattempts : client.maxAttempts = retries + 1) :
    (client.movement breaker now later outcomes call).result =
      settle call.operation (conclusion outcomes call retries) := by
  obtain ⟨entered, hentered⟩ := Option.isSome_iff_exists.mp henter
  have hsent : (send call.operation (movementRequest call) call.wallet.value outcomes
      client.maxAttempts 1 none).2 = conclusion outcomes call retries := by
    rw [hattempts, send_eq]
    rfl
  simp only [movement, hentered, hsent]
  cases conclusion outcomes call retries with
  | ok payload => rfl
  | error error => cases error <;> rfl

theorem movement_of_not_entered (henter : breaker.enter client.options now = none) :
    (client.movement breaker now later outcomes call).result =
      .error (.accountsUnavailable call.operation.text) := by
  simp only [movement, henter]

/-- A call that the breaker lets through posts its request up to the deciding attempt. -/
theorem movement_requests_eq (henter : (breaker.enter client.options now).isSome = true)
    (hattempts : client.maxAttempts = retries + 1) :
    (client.movement breaker now later outcomes call).requests =
      List.replicate (decidingAttempt outcomes call retries) (movementRequest call) := by
  obtain ⟨entered, hentered⟩ := Option.isSome_iff_exists.mp henter
  have hle : 1 ≤ decidingAttempt outcomes call retries := Retry.le_deciding
  have hsent : (send call.operation (movementRequest call) call.wallet.value outcomes
      client.maxAttempts 1 none).1 =
      List.replicate (decidingAttempt outcomes call retries) (movementRequest call) := by
    rw [hattempts, send_eq, ← Nat.sub_add_cancel hle]
    rfl
  simp only [movement, hentered]
  rw [← hsent]
  cases (send call.operation (movementRequest call) call.wallet.value outcomes
    client.maxAttempts 1 none).2 with
  | ok payload => rfl
  | error error => cases error <;> rfl

theorem movement_requests (client : AccountsHttpClient) (breaker : CircuitBreaker)
    (now later : Date) (outcomes : ℕ → HttpOutcome) (call : MovementCall)
    (hattempts : client.maxAttempts = retries + 1) :
    ∃ n ≤ client.maxAttempts, (client.movement breaker now later outcomes call).requests =
      List.replicate n (movementRequest call) := by
  cases henter : breaker.enter client.options now with
  | none => exact ⟨0, Nat.zero_le _, by simp only [movement, henter, List.replicate_zero]⟩
  | some entered =>
      have hle : decidingAttempt outcomes call retries ≤ 1 + retries := Retry.deciding_le
      exact ⟨_, by omega, movement_requests_eq (by rw [henter]; rfl) hattempts⟩

theorem decidingAttempt_eq_one_of_refuses (h : (outcomes 1).Refuses refusal) :
    decidingAttempt outcomes call retries = 1 := by
  refine Retry.deciding_of_not_retried ?_
  have hattempt : sendAttempt call.wallet.value (outcomes 1) =
      .error (.domain (refusal.error call.wallet.value)) :=
    sendAttempt_domain_iff.mpr ⟨refusal, h, rfl⟩
  rw [HttpOutcome.failsRetryably, hattempt]
  rfl

/-- The result is a refusal exactly if the first attempt was answered with it. -/
theorem conclusion_refusal_iff :
    conclusion outcomes call retries =
        .error (.domain (refusal.error call.wallet.value)) ↔ (outcomes 1).Refuses refusal := by
  have hle : 1 ≤ decidingAttempt outcomes call retries := Retry.le_deciding
  rw [conclusion, conclude_refusal_iff, decide_eq_false_iff_not]
  constructor
  · rintro ⟨hfirst, hrefuses⟩
    obtain heq : decidingAttempt outcomes call retries = 1 := by omega
    rwa [heq] at hrefuses
  · intro hrefuses
    rw [decidingAttempt_eq_one_of_refuses hrefuses]
    exact ⟨Nat.lt_irrefl 1, hrefuses⟩

/-- The loop returns a movement exactly if an attempt carries it after retryable failures. -/
theorem conclusion_movement_iff :
    (∃ payload, conclusion outcomes call retries = .ok payload ∧
        toMovementResult payload = .ok movement) ↔
      ∃ n, 1 ≤ n ∧ n ≤ retries + 1 ∧ (outcomes n).Carries movement ∧
        ∀ m, 1 ≤ m → m < n → (outcomes m).failsRetryably call.wallet.value = true := by
  constructor
  · rintro ⟨payload, hconclusion, hmovement⟩
    have hattempt := conclude_ok_iff.mp hconclusion
    have hle : decidingAttempt outcomes call retries ≤ 1 + retries := Retry.deciding_le
    exact ⟨decidingAttempt outcomes call retries, Retry.le_deciding, by omega,
      carries_of_sendAttempt hattempt hmovement,
      fun m hm hlt => Retry.retried_of_lt_deciding hm hlt⟩
  · rintro ⟨n, hn, hlast, hcarries, hbefore⟩
    obtain ⟨payload, hattempt, hmovement⟩ :=
      sendAttempt_of_carries call.wallet.value hcarries
    have hstops : (outcomes n).failsRetryably call.wallet.value = false := by
      rw [HttpOutcome.failsRetryably, hattempt]
    have hdeciding : decidingAttempt outcomes call retries = n :=
      Retry.deciding_eq hn (by omega) hbefore (.inl hstops)
    exact ⟨payload, conclude_ok_iff.mpr (hdeciding ▸ hattempt), hmovement⟩

/-- A movement makes at most `maxAttempts` requests, all the same; it ends in a refusal
exactly if its first attempt was answered with it, in a movement exactly if an attempt
carries it after retryable failures, and otherwise in `AccountsUnavailableError`. -/
theorem movement_classified (client : AccountsHttpClient) (breaker : CircuitBreaker)
    (now later : Date) (outcomes : ℕ → HttpOutcome) (call : MovementCall)
    (hattempts : 1 ≤ client.maxAttempts) :
    (client.movement breaker now later outcomes call).requests.length ≤ client.maxAttempts ∧
    (∀ request ∈ (client.movement breaker now later outcomes call).requests,
      request = movementRequest call ∧
        request.body.lookup "transaction_id" = some (.str call.idempotencyKey)) ∧
    (∀ refusal : Refusal,
      (client.movement breaker now later outcomes call).result =
          .error (refusal.error call.wallet.value) ↔
        (breaker.enter client.options now).isSome = true ∧ (outcomes 1).Refuses refusal) ∧
    (∀ movement,
      (client.movement breaker now later outcomes call).result = .ok movement ↔
        (breaker.enter client.options now).isSome = true ∧
          ∃ n, 1 ≤ n ∧ n ≤ client.maxAttempts ∧ (outcomes n).Carries movement ∧
            ∀ m, 1 ≤ m → m < n →
              (outcomes m).failsRetryably call.wallet.value = true) ∧
    ((∃ movement, (client.movement breaker now later outcomes call).result = .ok movement) ∨
      (∃ refusal : Refusal, (client.movement breaker now later outcomes call).result =
        .error (refusal.error call.wallet.value)) ∨
      (client.movement breaker now later outcomes call).result =
        .error (.accountsUnavailable call.operation.text)) := by
  obtain ⟨retries, hretries⟩ : ∃ retries, client.maxAttempts = retries + 1 :=
    ⟨client.maxAttempts - 1, by omega⟩
  obtain ⟨count, hcount, hrequests⟩ :=
    movement_requests client breaker now later outcomes call hretries
  refine ⟨?_, ?_, ?_⟩
  · rw [hrequests, List.length_replicate]
    exact hcount
  · intro request hrequest
    rw [hrequests] at hrequest
    obtain rfl := List.eq_of_mem_replicate hrequest
    exact ⟨rfl, rfl⟩
  · cases henter : breaker.enter client.options now with
    | none =>
        rw [movement_of_not_entered henter]
        refine ⟨fun refusal => ?_, fun movement => ?_, .inr (.inr rfl)⟩
        · simpa using (refusal.error_ne_accountsUnavailable _ _).symm
        · simp
    | some entered =>
        have hsome : (breaker.enter client.options now).isSome = true := by rw [henter]; rfl
        rw [movement_result hsome hretries, hretries, Option.isSome_some]
        refine ⟨fun refusal => ?_, fun movement => ?_, ?_⟩
        · rw [settle_refusal_iff, conclusion_refusal_iff]
          simp
        · rw [settle_ok_iff, conclusion_movement_iff]
          simp
        · exact settle_cases fun error herror => conclude_domain herror

def sampleClient : AccountsHttpClient := ⟨3, ⟨5, 10000, 1⟩⟩

def sampleCall : MovementCall where
  operation := .debit
  wallet := ⟨"wlt_00000000000000000000000001", Eq.refl true⟩
  money := ⟨500, .XOF, Money.minimum_le_fiveHundred, Money.step_dvd_fiveHundred⟩
  idempotencyKey := "pay_00000000000000000000000001"
  description := "Order 1"
  paymentReference := ⟨"pay_00000000000000000000000001", Eq.refl true⟩

def approvedAnswer : HttpOutcome :=
  .response 200 (ApiResponse.json ⟨"200", "SUCCESS", .obj
    [("reference", .str "trx_00000000000000000000000001"), ("balance_after", .num 0)]⟩)

def recoveredOutcomes : ℕ → HttpOutcome
  | 1 => .response 503 (ApiResponse.json (AllExceptionsFilter.describe (.http 503)).2)
  | _ => approvedAnswer

theorem movement_classified_recoveredOutcomes :
    ∃ movement, (sampleClient.movement .init 0 0 recoveredOutcomes sampleCall).result =
        .ok movement ∧
      movement.transactionReference.value = "trx_00000000000000000000000001" := by
  obtain ⟨-, -, -, hmovement, -⟩ := movement_classified sampleClient .init 0 0
    recoveredOutcomes sampleCall (by decide)
  refine ⟨⟨⟨"trx_00000000000000000000000001", Eq.refl true⟩, some (.num 0)⟩,
    (hmovement _).mpr ⟨by decide, 2, by decide, by decide, ?_, ?_⟩, rfl⟩
  · exact ⟨200, _, _, rfl, by decide, rfl, rfl⟩
  · intro m hm hlt
    obtain rfl : m = 1 := by omega
    decide

end AccountsHttpClient

/-! ## The loop of a lookup -/

namespace HttpOutcome

/-- The answer is the statement of `accounts` that the key has moved nothing. -/
def StatesAbsence (outcome : HttpOutcome) : Prop :=
  ∃ data, outcome = .response 404 data ∧
    (envelopeMessage data = some "TRANSACTION_NOT_FOUND" ∨
      envelopeMessage data = some "WALLET_NOT_FOUND")

def lookupRetried (outcome : HttpOutcome) : Bool :=
  match readAttempt outcome with
  | .ok _ => false
  | .error error => isRetryable (shapeOf error)

end HttpOutcome

theorem lookupRetried_iff :
    outcome.lookupRetried = true ↔
      ∃ error, readAttempt outcome = .error error ∧ isRetryable (shapeOf error) = true := by
  unfold HttpOutcome.lookupRetried
  cases readAttempt outcome with
  | ok payload => simp
  | error error => simp

/-- The loop asks up to the deciding attempt, and returns or throws what that one does. -/
theorem read_eq (request : HttpRequest) (remaining attempt : ℕ)
    (lastError : Option ClientError) :
    read request outcomes (remaining + 1) attempt lastError =
      (List.replicate (Retry.deciding HttpOutcome.lookupRetried outcomes remaining attempt -
          attempt + 1) request,
        readAttempt (outcomes
          (Retry.deciding HttpOutcome.lookupRetried outcomes remaining attempt))) := by
  induction remaining generalizing attempt lastError with
  | zero =>
      rw [Retry.deciding, Nat.sub_self, read]
      cases readAttempt (outcomes attempt) <;> simp
  | succ remaining ih =>
      cases hretried : HttpOutcome.lookupRetried (outcomes attempt) with
      | false =>
          rw [Retry.deciding_of_not_retried hretried, Nat.sub_self, read]
          unfold HttpOutcome.lookupRetried at hretried
          cases hattempt : readAttempt (outcomes attempt) with
          | ok payload => rfl
          | error error =>
              rw [hattempt] at hretried
              have hstops : isRetryable (shapeOf error) = false := hretried
              simp [hstops]
      | true =>
          obtain ⟨error, hattempt, hretryable⟩ := lookupRetried_iff.mp hretried
          have hle : attempt + 1 ≤ Retry.deciding HttpOutcome.lookupRetried outcomes remaining
              (attempt + 1) := Retry.le_deciding
          have hloop : read request outcomes (remaining + 2) attempt lastError =
              (request :: (read request outcomes (remaining + 1) (attempt + 1)
                  (some error)).1,
                (read request outcomes (remaining + 1) (attempt + 1) (some error)).2) := by
            rw [read, hattempt]
            simp [hretryable]
          rw [Retry.deciding_of_retried hretried, hloop, ih, Prod.mk.injEq]
          refine ⟨?_, rfl⟩
          rw [← List.replicate_succ]
          congr 1
          omega

theorem readAttempt_none_iff :
    readAttempt outcome = .ok none ↔ ∃ data, outcome = .response 404 data := by
  cases outcome with
  | response status data =>
      simp only [readAttempt, HttpOutcome.response.injEq]
      split_ifs with hstatus
      · simp [hstatus]
      · cases payloadOf status data <;> simp [Except.map, hstatus]
  | timeout => simp [readAttempt]
  | rejection status code cause => simp [readAttempt]

theorem readAttempt_movement_iff :
    (∃ payload, readAttempt outcome = .ok (some payload) ∧
        toMovementResult payload = .ok movement) ↔ outcome.Carries movement := by
  constructor
  · rintro ⟨payload, hattempt, hmovement⟩
    unfold readAttempt at hattempt
    split at hattempt
    · next status data =>
        split_ifs at hattempt
        · cases hattempt
        · cases hpayload : payloadOf status data with
          | error error =>
              rw [hpayload] at hattempt
              cases hattempt
          | ok payload' =>
              rw [hpayload] at hattempt
              obtain rfl : payload' = payload := Option.some.inj (Except.ok.inj hattempt)
              obtain ⟨hstatus, hdata⟩ := payloadOf_ok hpayload
              exact ⟨status, data, payload', rfl, hstatus, hdata, hmovement⟩
    · cases hattempt
    · cases hattempt
  · rintro ⟨status, data, payload, rfl, hstatus, hdata, hmovement⟩
    refine ⟨payload, ?_, hmovement⟩
    have hne : status ≠ 404 := by omega
    simp [readAttempt, hne, payloadOf_of_movement hstatus hdata hmovement, Except.map]

/-- The attempt a lookup is decided by: the first one not worth a retry, or the last. -/
def Decides (outcomes : ℕ → HttpOutcome) (maxAttempts n : ℕ) : Prop :=
  1 ≤ n ∧ n ≤ maxAttempts ∧ (∀ m, 1 ≤ m → m < n → (outcomes m).lookupRetried = true) ∧
    ((outcomes n).lookupRetried = false ∨ n = maxAttempts)

theorem decides_deciding (outcomes : ℕ → HttpOutcome) (retries : ℕ) :
    Decides outcomes (retries + 1)
      (Retry.deciding HttpOutcome.lookupRetried outcomes retries 1) := by
  have hle : Retry.deciding HttpOutcome.lookupRetried outcomes retries 1 ≤ 1 + retries :=
    Retry.deciding_le
  refine ⟨Retry.le_deciding, by omega, fun m hm hlt => Retry.retried_of_lt_deciding hm hlt, ?_⟩
  rcases Nat.lt_or_eq_of_le hle with hlt | heq
  · exact .inl (Retry.not_retried_deciding hlt)
  · exact .inr (by omega)

theorem Decides.eq_deciding {retries n : ℕ} (h : Decides outcomes (retries + 1) n) :
    n = Retry.deciding HttpOutcome.lookupRetried outcomes retries 1 := by
  obtain ⟨hn, hlast, hbefore, hstops⟩ := h
  exact (Retry.deciding_eq hn (by omega) hbefore
    (hstops.imp_right fun heq => by omega)).symm

namespace AccountsHttpClient

variable {client : AccountsHttpClient} {breaker : CircuitBreaker} {now later : Date}
  {key : String} {source : Reference .wlt}

/-- The result of a lookup, from its deciding attempt. -/
theorem findMovement_result (client : AccountsHttpClient) (breaker : CircuitBreaker)
    (now later : Date) (source : Reference .wlt) (key : String) {n : ℕ}
    (hattempts : 1 ≤ client.maxAttempts)
    (henter : (breaker.enter client.options now).isSome = true)
    (hn : Decides outcomes client.maxAttempts n) :
    ((client.findMovement breaker now later outcomes source key).result = .ok none ↔
      ∃ data, outcomes n = .response 404 data) ∧
    (∀ movement, (client.findMovement breaker now later outcomes source key).result =
      .ok (some movement) ↔ (outcomes n).Carries movement) ∧
    ((∃ found, (client.findMovement breaker now later outcomes source key).result =
        .ok found) ∨
      (client.findMovement breaker now later outcomes source key).result =
        .error (.accountsUnavailable "find-movement")) := by
  obtain ⟨retries, hretries⟩ : ∃ retries, client.maxAttempts = retries + 1 :=
    ⟨client.maxAttempts - 1, by omega⟩
  rw [hretries] at hn
  obtain ⟨entered, hentered⟩ := Option.isSome_iff_exists.mp henter
  have hread : (read (lookupRequest source key) outcomes client.maxAttempts 1 none).2 =
      readAttempt (outcomes n) := by
    rw [hretries, read_eq, ← hn.eq_deciding]
  rw [← readAttempt_none_iff]
  simp only [← readAttempt_movement_iff, findMovement, hentered, hread]
  cases readAttempt (outcomes n) with
  | error error => simp
  | ok payload =>
      cases payload with
      | none => simp
      | some payload => cases hmovement : toMovementResult payload <;> simp [hmovement]

theorem findMovement_of_not_entered (henter : breaker.enter client.options now = none) :
    (client.findMovement breaker now later outcomes source key).result =
      .error (.accountsUnavailable "find-movement") := by
  simp only [findMovement, henter]

/-- A lookup never takes an unknown for an absence exactly when the 404 that decides it, if
one does, is the statement of `accounts` that the key has moved nothing. -/
theorem findMovement_safe_iff (client : AccountsHttpClient) (breaker : CircuitBreaker)
    (now later : Date) (outcomes : ℕ → HttpOutcome) (wallet : Reference .wlt) (key : String)
    (hattempts : 1 ≤ client.maxAttempts) :
    (((client.findMovement breaker now later outcomes wallet key).result = .ok none →
        ∃ n, Decides outcomes client.maxAttempts n ∧ (outcomes n).StatesAbsence) ∧
      (∀ movement, (client.findMovement breaker now later outcomes wallet key).result =
          .ok (some movement) →
        ∃ n, Decides outcomes client.maxAttempts n ∧ (outcomes n).Carries movement) ∧
      (∀ n, Decides outcomes client.maxAttempts n → ¬ (outcomes n).StatesAbsence →
        (∀ movement, ¬ (outcomes n).Carries movement) →
        (client.findMovement breaker now later outcomes wallet key).result =
          .error (.accountsUnavailable "find-movement"))) ↔
    ((breaker.enter client.options now).isSome = true →
      ∀ n data, Decides outcomes client.maxAttempts n → outcomes n = .response 404 data →
        (outcomes n).StatesAbsence) := by
  cases henter : breaker.enter client.options now with
  | none =>
      have hresult : (client.findMovement breaker now later outcomes wallet key).result =
          .error (.accountsUnavailable "find-movement") := findMovement_of_not_entered henter
      simp [hresult]
  | some entered =>
      have hsome : (breaker.enter client.options now).isSome = true := by rw [henter]; rfl
      obtain ⟨retries, hretries⟩ : ∃ retries, client.maxAttempts = retries + 1 :=
        ⟨client.maxAttempts - 1, by omega⟩
      obtain ⟨n, hn⟩ : ∃ n, Decides outcomes client.maxAttempts n :=
        ⟨_, hretries ▸ decides_deciding outcomes retries⟩
      have hunique : ∀ m, Decides outcomes client.maxAttempts m → m = n := by
        intro m hm
        rw [hretries] at hm hn
        rw [hm.eq_deciding, hn.eq_deciding]
      obtain ⟨hnone, hmovement, htotal⟩ :=
        findMovement_result client breaker now later wallet key hattempts hsome hn
      constructor
      · rintro ⟨habsence, -, -⟩ - m data hm hdata
        obtain rfl := hunique m hm
        obtain ⟨m', hm', hstates⟩ := habsence (hnone.mpr ⟨data, hdata⟩)
        rwa [hunique m' hm'] at hstates
      · intro hcondition
        refine ⟨fun hresult => ?_, fun movement hresult => ?_, fun m hm habsence hcarries => ?_⟩
        · obtain ⟨data, hdata⟩ := hnone.mp hresult
          exact ⟨n, hn, hcondition rfl n data hn hdata⟩
        · exact ⟨n, hn, (hmovement movement).mp hresult⟩
        · obtain rfl := hunique m hm
          rcases htotal with ⟨found, hfound⟩ | hunavailable
          · cases found with
            | none =>
                obtain ⟨data, hdata⟩ := hnone.mp hfound
                exact absurd (hcondition rfl m data hm hdata) habsence
            | some movement => exact absurd ((hmovement movement).mp hfound) (hcarries movement)
          · exact hunavailable

def absentAnswer : HttpOutcome :=
  .response 404 (AllExceptionsFilter.describe
    (.app 404 "4008" "TRANSACTION_NOT_FOUND" .null)).2.json

theorem findMovement_safe_absentAnswer :
    (sampleClient.findMovement .init 0 0 (fun _ => absentAnswer) sampleCall.wallet
        sampleCall.idempotencyKey).result = .ok none ∧
      ∃ n, Decides (fun _ => absentAnswer) 3 n ∧ absentAnswer.StatesAbsence := by
  have habsence : absentAnswer.StatesAbsence := ⟨_, rfl, .inl rfl⟩
  have hresult : (sampleClient.findMovement .init 0 0 (fun _ => absentAnswer)
      sampleCall.wallet sampleCall.idempotencyKey).result = .ok none := rfl
  obtain ⟨hnone, -, -⟩ := (findMovement_safe_iff sampleClient .init 0 0
    (fun _ => absentAnswer) sampleCall.wallet sampleCall.idempotencyKey (by decide)).mpr
    fun _ _ _ _ _ => habsence
  exact ⟨hresult, hnone hresult⟩

/-- The answer of the exception filter of `accounts` on a route that it does not know. -/
def unknownRouteAnswer : HttpOutcome :=
  .response (AllExceptionsFilter.describe (.http 404)).1
    (AllExceptionsFilter.describe (.http 404)).2.json

theorem findMovement_unknownRoute :
    (sampleClient.findMovement .init 0 0 (fun _ => unknownRouteAnswer) sampleCall.wallet
        sampleCall.idempotencyKey).result = .ok none ∧
      ¬ unknownRouteAnswer.StatesAbsence := by
  refine ⟨rfl, ?_⟩
  rintro ⟨data, hdata, habsence⟩
  cases hdata
  revert habsence
  decide

end AccountsHttpClient

end Payments

end Paynad
