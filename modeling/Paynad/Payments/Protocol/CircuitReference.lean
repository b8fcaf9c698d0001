import Paynad.Library.Transition
import Paynad.Payments.Protocol.Classification

/-!
# The circuit breaker against its reference

The reference reads the whole history of the calls that were let through: a call is to be
rejected when enough of them failed since the last healthy outcome, and the last failure
is recent. The breaker keeps a counter, a state and one moment instead. When the calls of
a client come one after the other, and one healthy outcome is enough to close the circuit,
the two agree after every call (`Agrees`), so they reject the same calls.

A refusal is booked as a failure first and corrected afterwards; between two calls nothing
of that detour is left.
-/

namespace Paynad

namespace Payments

open Shared Transition

/-! ## The reference -/

/-- What a call that was let through says of the health of `accounts`. -/
inductive Verdict where
  | healthy
  | failed (moment : Date)
  deriving DecidableEq, Repr

def failuresSince : List Verdict → List Date
  | .failed moment :: earlier => moment :: failuresSince earlier
  | _ => []

/-- The reference: a call made at `now` is to be rejected after `history`, whose last
verdict comes first. -/
def Tripped (options : CircuitBreakerOptions) (history : List Verdict) (now : Date) : Prop :=
  options.failureThreshold ≤ (failuresSince history).length ∧
    ∃ last, (failuresSince history).head? = some last ∧ now < last + options.openMs

@[simp] theorem failuresSince_nil : failuresSince [] = [] := rfl

@[simp] theorem failuresSince_healthy (history : List Verdict) :
    failuresSince (.healthy :: history) = [] := rfl

@[simp] theorem failuresSince_failed (moment : Date) (history : List Verdict) :
    failuresSince (.failed moment :: history) = moment :: failuresSince history := rfl

/-! ## The calls of a client, one after the other -/

inductive ClientCall where
  | movement (call : MovementCall)
  | findMovement (wallet : Reference .wlt) (idempotencyKey : String)

namespace ClientCall

def name : ClientCall → String
  | .movement call => call.operation.text
  | .findMovement _ _ => "find-movement"

def decidingAttempt (outcomes : ℕ → HttpOutcome) (retries : ℕ) : ClientCall → ℕ
  | .movement call => AccountsHttpClient.decidingAttempt outcomes call retries
  | .findMovement _ _ => Retry.deciding HttpOutcome.lookupRetried outcomes retries 1

/-- An attempt ended with a healthy answer: a success, or a refusal by name. -/
def answeredBy (outcome : HttpOutcome) : ClientCall → Bool
  | .movement call =>
      match sendAttempt call.wallet.value outcome with
      | .ok _ => true
      | .error (.domain _) => true
      | .error _ => false
  | .findMovement _ _ => (readAttempt outcome).isOk

end ClientCall

/-- A call with the clock before and after its work, and the ends of its attempts. -/
structure Turn where
  call : ClientCall
  now : Date
  later : Date
  outcomes : ℕ → HttpOutcome

namespace Turn

variable (client : AccountsHttpClient) (turn : Turn)

/-- The call, made of a client whose breaker is `breaker`. -/
def called (breaker : CircuitBreaker) :
    AccountsHttpClient.Called (Option ClientMovement) :=
  match turn.call with
  | .movement call =>
      let called := client.movement breaker turn.now turn.later turn.outcomes call
      ⟨called.requests, called.breaker, called.result.map some⟩
  | .findMovement wallet idempotencyKey =>
      client.findMovement breaker turn.now turn.later turn.outcomes wallet idempotencyKey

/-- What the call says of the health of `accounts` once it is let through. -/
def verdict : Verdict :=
  match client.maxAttempts with
  | 0 => .failed turn.later
  | retries + 1 =>
      match turn.call.answeredBy
        (turn.outcomes (turn.call.decidingAttempt turn.outcomes retries)) with
      | true => .healthy
      | false => .failed turn.later

/-- The call is a movement, and the attempt that decided it was refused by name. -/
def Refused (refusal : Refusal) : Prop :=
  ∃ call retries, turn.call = .movement call ∧ client.maxAttempts = retries + 1 ∧
    (turn.outcomes (turn.call.decidingAttempt turn.outcomes retries)).Refuses refusal

end Turn

/-- A breaker, and what has become of the calls it let through, the last one first. -/
structure Circuit where
  breaker : CircuitBreaker
  history : List Verdict
  clock : Date

namespace Circuit

def init : Circuit := ⟨.init, [], 0⟩

def Rejects (client : AccountsHttpClient) (circuit : Circuit) (now : Date) : Prop :=
  circuit.breaker.enter client.options now = none

/-- One call from its start to its end; the clock does not go back. -/
def step (client : AccountsHttpClient) (circuit : Circuit) (turn : Turn) : Option Circuit :=
  if circuit.clock ≤ turn.now ∧ turn.now ≤ turn.later then
    some
      { breaker := (turn.called client circuit.breaker).breaker
        history :=
          match circuit.breaker.enter client.options turn.now with
          | none => circuit.history
          | some _ => turn.verdict client :: circuit.history
        clock := turn.later }
  else
    none

end Circuit

/-! ## What one call does to the breaker -/

namespace CircuitBreaker

variable {options : CircuitBreakerOptions} {breaker entered : CircuitBreaker} {now : Date}

/-- One healthy outcome closes the circuit, whatever its state. -/
theorem onSuccess_closes (hsuccess : options.successThreshold = 1) :
    (breaker.onSuccess options).state = .Closed ∧ (breaker.onSuccess options).failures = 0 := by
  unfold onSuccess
  split
  · simp [hsuccess]
  · exact ⟨rfl, rfl⟩

theorem enter_eq_none_iff :
    breaker.enter options now = none ↔
      breaker.state = .Open ∧ now < breaker.openedAt + options.openMs := by
  unfold enter
  split_ifs with hstate hcooling <;> simp_all

/-- A caller is let through a circuit that is not open as it is, and makes an open one
half-open. -/
theorem enter_eq_some (h : breaker.enter options now = some entered) :
    entered.failures = breaker.failures ∧ entered.openedAt = breaker.openedAt ∧
      (breaker.state ≠ .Open ∧ entered = breaker ∨
        breaker.state = .Open ∧ entered.state = .HalfOpen) := by
  unfold enter at h
  split_ifs at h with hstate hcooling
  · cases h
    exact ⟨rfl, rfl, .inr ⟨hstate, rfl⟩⟩
  · cases h
    exact ⟨rfl, rfl, .inl ⟨hstate, rfl⟩⟩

end CircuitBreaker

namespace Turn

variable {client : AccountsHttpClient} {breaker entered : CircuitBreaker} {turn : Turn}

theorem called_of_not_entered (h : breaker.enter client.options turn.now = none) :
    turn.called client breaker =
      ⟨[], breaker, .error (.accountsUnavailable turn.call.name)⟩ := by
  unfold called
  cases turn.call with
  | movement call => simp only [AccountsHttpClient.movement, h]; rfl
  | findMovement wallet idempotencyKey =>
      simp only [AccountsHttpClient.findMovement, h]; rfl

/-- What a breaker has learnt from a call that it let through as `entered`. -/
inductive Learnt (client : AccountsHttpClient) (turn : Turn) (entered : CircuitBreaker) :
    Verdict → CircuitBreaker → Prop
  | failure : Learnt client turn entered (.failed turn.later)
      (entered.onFailure client.options turn.later)
  | success : Learnt client turn entered .healthy (entered.onSuccess client.options)
  /-- The detour of a refusal. -/
  | refusal : Learnt client turn entered .healthy
      ((entered.onFailure client.options turn.later).recordHealthy client.options)

/-- The loop of a movement returns or throws an answer of the domain exactly when the
attempt that decides it got one. -/
theorem verdict_movement (call : MovementCall) (now later : Date) (outcomes : ℕ → HttpOutcome) :
    (⟨.movement call, now, later, outcomes⟩ : Turn).verdict client =
      match (send call.operation (movementRequest call) call.wallet.value outcomes
        client.maxAttempts 1 none).2 with
      | .ok _ => .healthy
      | .error (.domain _) => .healthy
      | .error _ => .failed later := by
  unfold verdict
  cases client.maxAttempts with
  | zero => rfl
  | succ retries =>
      rw [send_eq]
      simp only [ClientCall.decidingAttempt, AccountsHttpClient.decidingAttempt,
        ClientCall.answeredBy, conclude]
      cases sendAttempt call.wallet.value (outcomes (Retry.deciding
        (HttpOutcome.failsRetryably call.wallet.value) outcomes retries 1)) with
      | ok payload => rfl
      | error error => cases error <;> rfl

theorem verdict_findMovement (wallet : Reference .wlt) (idempotencyKey : String)
    (now later : Date) (outcomes : ℕ → HttpOutcome) :
    (⟨.findMovement wallet idempotencyKey, now, later, outcomes⟩ : Turn).verdict client =
      match (read (AccountsHttpClient.lookupRequest wallet idempotencyKey) outcomes
        client.maxAttempts 1 none).2 with
      | .ok _ => .healthy
      | .error _ => .failed later := by
  unfold verdict
  cases client.maxAttempts with
  | zero => rfl
  | succ retries =>
      rw [read_eq]
      simp only [ClientCall.decidingAttempt, ClientCall.answeredBy]
      cases readAttempt (outcomes (Retry.deciding HttpOutcome.lookupRetried outcomes
        retries 1)) <;> rfl

theorem learnt (h : breaker.enter client.options turn.now = some entered) :
    Learnt client turn entered (turn.verdict client) (turn.called client breaker).breaker := by
  obtain ⟨call, now, later, outcomes⟩ := turn
  cases call with
  | movement call =>
      rw [verdict_movement]
      simp only [called, AccountsHttpClient.movement, h]
      cases (send call.operation (movementRequest call) call.wallet.value outcomes
        client.maxAttempts 1 none).2 with
      | ok payload => exact .success
      | error error =>
          cases error with
          | domain error => exact .refusal
          | _ => exact .failure
  | findMovement wallet idempotencyKey =>
      rw [verdict_findMovement]
      simp only [called, AccountsHttpClient.findMovement, h]
      cases (read (AccountsHttpClient.lookupRequest wallet idempotencyKey) outcomes
        client.maxAttempts 1 none).2 with
      | ok payload => cases payload <;> exact .success
      | error error => exact .failure

/-- A call that is let through reaches `accounts`. -/
theorem requests_ne_nil (h : breaker.enter client.options turn.now = some entered)
    (hattempts : 0 < client.maxAttempts) : (turn.called client breaker).requests ≠ [] := by
  obtain ⟨retries, hretries⟩ := Nat.exists_eq_succ_of_ne_zero hattempts.ne'
  obtain ⟨call, now, later, outcomes⟩ := turn
  cases call with
  | movement call =>
      have hsent : (send call.operation (movementRequest call) call.wallet.value outcomes
          client.maxAttempts 1 none).1 ≠ [] := by
        rw [hretries, send_eq]
        exact List.cons_ne_nil _ _
      simp only [called, AccountsHttpClient.movement, h]
      cases (send call.operation (movementRequest call) call.wallet.value outcomes
        client.maxAttempts 1 none).2 with
      | ok payload => exact hsent
      | error error => cases error <;> exact hsent
  | findMovement wallet idempotencyKey =>
      have hsent : (read (AccountsHttpClient.lookupRequest wallet idempotencyKey) outcomes
          client.maxAttempts 1 none).1 ≠ [] := by
        rw [hretries, read_eq]
        exact List.cons_ne_nil _ _
      simp only [called, AccountsHttpClient.findMovement, h]
      cases (read (AccountsHttpClient.lookupRequest wallet idempotencyKey) outcomes
        client.maxAttempts 1 none).2 with
      | ok payload => cases payload <;> exact hsent
      | error error => exact hsent

/-- A refusal is a healthy answer, also one that follows an uncertain attempt. -/
theorem verdict_of_refused {refusal : Refusal} (h : turn.Refused client refusal) :
    turn.verdict client = .healthy := by
  obtain ⟨call, retries, hcall, hretries, hrefuses⟩ := h
  have hattempt : sendAttempt call.wallet.value
      (turn.outcomes (turn.call.decidingAttempt turn.outcomes retries)) =
      .error (.domain (refusal.error call.wallet.value)) :=
    sendAttempt_domain_iff.mpr ⟨refusal, hrefuses, rfl⟩
  have hanswered : turn.call.answeredBy
      (turn.outcomes (turn.call.decidingAttempt turn.outcomes retries)) = true := by
    rw [hcall] at hattempt ⊢
    simp only [ClientCall.answeredBy, hattempt]
  simp only [verdict, hretries, hanswered]

end Turn

/-! ## Between two calls the breaker agrees with the reference -/

/-- The breaker counts the failures since the last healthy outcome; with fewer than the
threshold it is closed, with more it is open since the last of them. -/
structure Agrees (options : CircuitBreakerOptions) (breaker : CircuitBreaker)
    (history : List Verdict) : Prop where
  counted : breaker.failures = (failuresSince history).length
  closed : (failuresSince history).length < options.failureThreshold → breaker.state = .Closed
  opened : options.failureThreshold ≤ (failuresSince history).length →
    breaker.state = .Open ∧ (failuresSince history).head? = some breaker.openedAt

namespace Agrees

variable {options : CircuitBreakerOptions} {breaker entered : CircuitBreaker}
  {history : List Verdict} {now later : Date}

theorem init (hthreshold : 1 ≤ options.failureThreshold) : Agrees options .init [] where
  counted := rfl
  closed := fun _ => rfl
  opened := fun h => absurd (hthreshold.trans h) (by decide)

theorem healthy (hthreshold : 1 ≤ options.failureThreshold)
    (hsuccess : options.successThreshold = 1) :
    Agrees options (breaker.onSuccess options) (.healthy :: history) where
  counted := (CircuitBreaker.onSuccess_closes hsuccess).2
  closed := fun _ => (CircuitBreaker.onSuccess_closes hsuccess).1
  opened := fun h => absurd (hthreshold.trans h) (by simp)

theorem failed (h : Agrees options breaker history)
    (henter : breaker.enter options now = some entered) :
    Agrees options (entered.onFailure options later) (.failed later :: history) := by
  obtain ⟨hfailures, -, hstate⟩ := CircuitBreaker.enter_eq_some henter
  have hcounted : entered.failures = (failuresSince history).length :=
    hfailures.trans h.counted
  unfold CircuitBreaker.onFailure
  rw [hcounted]
  dsimp only
  split_ifs with hopens
  · refine ⟨by simp, fun hfew => ?_, fun _ => ⟨rfl, by simp⟩⟩
    -- below the threshold only the probe opens, and there is no probe
    simp only [failuresSince_failed, List.length_cons] at hfew
    have hclosed : breaker.state = .Closed := h.closed (by omega)
    rcases hopens with hhalf | hmany
    · rcases hstate with ⟨-, rfl⟩ | ⟨hopen, -⟩
      · simp [hclosed] at hhalf
      · simp [hclosed] at hopen
    · omega
  · have hfew : (failuresSince history).length + 1 < options.failureThreshold := by omega
    have hclosed : breaker.state = .Closed := h.closed (by omega)
    refine ⟨by simp, fun _ => ?_, fun hmany => ?_⟩
    · rcases hstate with ⟨-, rfl⟩ | ⟨hopen, -⟩
      · exact hclosed
      · simp [hclosed] at hopen
    · simp only [failuresSince_failed, List.length_cons] at hmany
      omega

/-- Where the two agree, they reject the same calls. -/
theorem rejects_iff (h : Agrees options breaker history) :
    breaker.enter options now = none ↔ Tripped options history now := by
  rw [CircuitBreaker.enter_eq_none_iff, Tripped]
  constructor
  · rintro ⟨hopen, hcooling⟩
    have hmany : options.failureThreshold ≤ (failuresSince history).length := by
      by_contra hfew
      have hclosed := h.closed (by omega)
      simp [hclosed] at hopen
    exact ⟨hmany, breaker.openedAt, (h.opened hmany).2, hcooling⟩
  · rintro ⟨hmany, last, hlast, hcooling⟩
    obtain ⟨hopen, hhead⟩ := h.opened hmany
    obtain rfl : breaker.openedAt = last := Option.some.inj (hhead.symm.trans hlast)
    exact ⟨hopen, hcooling⟩

/-- What a breaker learns from a call, the reference reads in its verdict. -/
theorem learn {client : AccountsHttpClient} {turn : Turn} {verdict : Verdict}
    {after : CircuitBreaker} (hthreshold : 1 ≤ client.options.failureThreshold)
    (hsuccess : client.options.successThreshold = 1)
    (h : Agrees client.options breaker history)
    (henter : breaker.enter client.options now = some entered)
    (hlearnt : turn.Learnt client entered verdict after) :
    Agrees client.options after (verdict :: history) := by
  cases hlearnt with
  | failure => exact h.failed henter
  | success => exact healthy hthreshold hsuccess
  | refusal => exact healthy hthreshold hsuccess

end Agrees

theorem Circuit.agrees_of_reachable {client : AccountsHttpClient}
    (hthreshold : 1 ≤ client.options.failureThreshold)
    (hsuccess : client.options.successThreshold = 1) {circuit : Circuit}
    (h : Reachable (Circuit.step client) .init circuit) :
    Agrees client.options circuit.breaker circuit.history := by
  refine h.invariant (I := fun circuit => Agrees client.options circuit.breaker circuit.history)
    (.init hthreshold) ?_
  intro circuit turn circuit' hagrees hstep
  unfold Circuit.step at hstep
  split_ifs at hstep with hclock
  cases hstep
  cases henter : circuit.breaker.enter client.options turn.now with
  | none =>
      simp only [Turn.called_of_not_entered henter]
      exact hagrees
  | some entered => exact hagrees.learn hthreshold hsuccess henter (Turn.learnt henter)

/-- After any calls made one after the other, a call is rejected without reaching
`accounts` exactly when the reference says so; a call that is let through reaches
`accounts`, and a healthy answer to it, a refusal included, leaves the circuit closed. -/
theorem rejects_iff_tripped (client : AccountsHttpClient)
    (hthreshold : 1 ≤ client.options.failureThreshold)
    (hsuccess : client.options.successThreshold = 1) {circuit : Circuit}
    (hreach : Reachable (Circuit.step client) .init circuit) (turn : Turn) :
    (circuit.Rejects client turn.now ↔
      Tripped client.options circuit.history turn.now) ∧
    (circuit.Rejects client turn.now → turn.called client circuit.breaker =
      ⟨[], circuit.breaker, .error (.accountsUnavailable turn.call.name)⟩) ∧
    (¬ circuit.Rejects client turn.now →
      (0 < client.maxAttempts → (turn.called client circuit.breaker).requests ≠ []) ∧
      (turn.verdict client = .healthy →
        (turn.called client circuit.breaker).breaker.state = .Closed)) ∧
    ∀ refusal, turn.Refused client refusal → turn.verdict client = .healthy := by
  have hagrees := Circuit.agrees_of_reachable hthreshold hsuccess hreach
  refine ⟨hagrees.rejects_iff, fun hrejects => Turn.called_of_not_entered hrejects,
    fun hpasses => ?_, fun refusal => Turn.verdict_of_refused⟩
  obtain ⟨entered, henter⟩ := Option.ne_none_iff_exists'.mp hpasses
  refine ⟨Turn.requests_ne_nil henter, fun hhealthy => ?_⟩
  have hlearnt : Turn.Learnt client turn entered (turn.verdict client)
      (turn.called client circuit.breaker).breaker := Turn.learnt henter
  have hnext := hagrees.learn hthreshold hsuccess henter hlearnt
  rw [hhealthy] at hnext
  exact hnext.closed hthreshold

def oneAttemptClient : AccountsHttpClient := ⟨1, ⟨1, 1000, 1⟩⟩

def sampleTurn (now later : Date) (outcome : HttpOutcome) : Turn :=
  ⟨.movement AccountsHttpClient.sampleCall, now, later, fun _ => outcome⟩

def refusedAnswer : HttpOutcome :=
  .response 422 (ApiResponse.json ⟨"4001", "INSUFFICIENT_BALANCE", .null⟩)

theorem refusedAnswer_refuses : refusedAnswer.Refuses .insufficientBalance :=
  ⟨422, _, rfl, by decide, by decide, rfl⟩

/-- A refusal, a timeout, a call that comes too early, a probe that succeeds and another
timeout. -/
def sampleTurns : List Turn :=
  [sampleTurn 0 5 refusedAnswer, sampleTurn 10 15 .timeout, sampleTurn 500 500 .timeout,
    sampleTurn 1015 1020 AccountsHttpClient.approvedAnswer, sampleTurn 1030 1035 .timeout]

/-- The circuit after `sampleTurns`: the rejected call is not in its history. -/
def trippedCircuit : Circuit :=
  ⟨⟨.Open, 1, 0, 1035⟩, [.failed 1035, .healthy, .failed 15, .healthy], 1035⟩

theorem rejects_iff_tripped_trippedCircuit :
    trippedCircuit.Rejects oneAttemptClient 1500 ∧
      ¬ trippedCircuit.Rejects oneAttemptClient 2035 ∧
      ((sampleTurn 2035 2040 refusedAnswer).called oneAttemptClient
        trippedCircuit.breaker).breaker.state = .Closed := by
  have hreach : Reachable (Circuit.step oneAttemptClient) .init trippedCircuit :=
    ⟨sampleTurns, rfl⟩
  have htells (now later : Date) := rejects_iff_tripped oneAttemptClient (by decide) rfl hreach
    (sampleTurn now later refusedAnswer)
  have hpasses : ¬ trippedCircuit.Rejects oneAttemptClient 2035 := by
    intro hrejects
    obtain ⟨-, last, hlast, hcooling⟩ := (htells 2035 2040).1.mp hrejects
    cases hlast
    exact absurd hcooling (by decide)
  refine ⟨(htells 1500 1500).1.mpr ⟨by decide, 1035, rfl, by decide⟩, hpasses, ?_⟩
  -- The probe that is refused closes the circuit.
  obtain ⟨-, -, hprobe, hhealthy⟩ := htells 2035 2040
  exact (hprobe hpasses).2 (hhealthy .insufficientBalance ⟨_, 0, rfl, rfl, refusedAnswer_refuses⟩)

end Payments

end Paynad
