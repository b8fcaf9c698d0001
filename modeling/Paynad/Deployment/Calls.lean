import Paynad.Deployment.Answers
import Paynad.Payments.Protocol.MoneySafety

/-!
# The calls of a worker and the loop of its client

The platform takes the loop of `send` apart: one step posts the request, another one
receives an answer or gives up on it. Put together again, the steps of a call are the
loop: as many requests, and the same answer, whatever exchanges are read as the worker
has read its attempts.
-/

namespace Paynad

namespace Payments

open Shared

/-- What the result of a movement is for the workflow that asked for it. -/
def answerOf : Except DomainError ClientMovement → Answer
  | .ok movement => .moved movement.result
  | .error error => ((Refusal.ofError error).map Answer.refused).getD .unavailable

namespace Reading

def answer : Reading → Answer
  | .answered answer => answer
  | .failed _ => .unavailable

/-- The `catch` block of `send` has another attempt made, if one is left. -/
def retried : Reading → Bool
  | .answered _ => false
  | .failed retryable => retryable

end Reading

theorem retried_readMovement (wallet : String) (uncertain : Bool) (outcome : HttpOutcome) :
    (readMovement wallet uncertain outcome).retried = outcome.failsRetryably wallet := by
  unfold readMovement HttpOutcome.failsRetryably
  cases sendAttempt wallet outcome with
  | ok payload =>
      dsimp only
      cases toMovementResult payload <;> rfl
  | error error =>
      cases error with
      | domain error =>
          dsimp only
          cases uncertain <;> cases Refusal.ofError error <;> rfl
      | _ => rfl

theorem answerOf_settle (operation : Operation) (wallet : String) (uncertain : Bool)
    (outcome : HttpOutcome) :
    answerOf (settle operation (conclude operation wallet uncertain outcome)) =
      (readMovement wallet uncertain outcome).answer := by
  unfold readMovement conclude
  cases sendAttempt wallet outcome with
  | ok payload =>
      simp only [settle]
      cases toMovementResult payload <;> rfl
  | error error =>
      cases error with
      | domain error =>
          cases uncertain with
          | true => rfl
          | false =>
              simp only [settle, answerOf, Bool.false_eq_true, if_false]
              cases Refusal.ofError error <;> rfl
      | _ => rfl

/-- Every movement is read from an exchange that carries it. -/
theorem readMovement_result (wallet : String) (uncertain : Bool) (m : Movement) :
    ∃ outcome, readMovement wallet uncertain outcome = .answered (.moved m.result) := by
  let entry : Accounts.LedgerEntry :=
    { reference := m.reference.value, walletId := "", transactionId := m.key, type := .CREDIT,
      amount := m.amount, currency := "", balanceBefore := 0, balanceAfter := m.balanceAfter,
      description := "", paymentReference := none }
  have hlearned : Deployment.learned entry = some m.result := by
    rw [Deployment.learned, Reference.of_value]
    rfl
  refine ⟨_, (Deployment.readMovement_success wallet uncertain entry).trans ?_⟩
  rw [hlearned]
  rfl

/-- Every refusal is read from an exchange of a first attempt, and means nothing to the
others. -/
theorem readMovement_refusal (wallet : String) (uncertain : Bool) (refusal : Refusal) :
    ∃ outcome, readMovement wallet uncertain outcome =
      .answered (if uncertain then .unavailable else .refused refusal) := by
  obtain ⟨name, hname⟩ : ∃ name, Refusal.ofMessage name = some refusal := by
    cases refusal
    exacts [⟨"INSUFFICIENT_BALANCE", rfl⟩, ⟨"WALLET_NOT_FOUND", rfl⟩, ⟨"WALLET_FROZEN", rfl⟩,
      ⟨"CURRENCY_MISMATCH", rfl⟩]
  refine ⟨.response 422 (ApiResponse.json ⟨"", name, .null⟩), ?_⟩
  cases uncertain <;>
    simp [readMovement, sendAttempt, asDomainError, envelopeName, envelopeMessage,
      ApiResponse.json, List.lookup_cons, Json.str?, hname]

/-- The exchanges of a call that makes `n` attempts: the last one is read as `r`, and the
ones before it have failed in a way worth a retry. -/
structure Heard (call : MovementCall) (outcomes : ℕ → HttpOutcome) (n : ℕ) (r : Reading) :
    Prop where
  retried : ∀ i, 1 ≤ i → i < n →
    (readMovement call.wallet.value (decide (1 < i)) (outcomes i)).retried = true
  last : readMovement call.wallet.value (decide (1 < n)) (outcomes n) = r

namespace AccountsHttpClient

variable {client : AccountsHttpClient} {breaker : CircuitBreaker} {now later : Date}
  {outcomes : ℕ → HttpOutcome} {call : MovementCall} {n : ℕ} {r : Reading}

/-- A call posts its request once for each attempt and ends as the last one is read. -/
theorem movement_of_heard (henter : (breaker.enter client.options now).isSome = true)
    (hheard : Heard call outcomes n r) (hn : 1 ≤ n) (hle : n ≤ client.maxAttempts)
    (hends : r.retried = true → n = client.maxAttempts) :
    (client.movement breaker now later outcomes call).requests =
        List.replicate n (movementRequest call) ∧
      answerOf (client.movement breaker now later outcomes call).result = r.answer := by
  obtain ⟨retries, hretries⟩ : ∃ retries, client.maxAttempts = retries + 1 :=
    ⟨client.maxAttempts - 1, by omega⟩
  have hdeciding : decidingAttempt outcomes call retries = n := by
    refine Retry.deciding_eq hn (by omega) (fun i hi hlt => ?_) ?_
    · rw [← retried_readMovement]
      exact hheard.retried i hi hlt
    · rw [← retried_readMovement call.wallet.value (decide (1 < n)), hheard.last]
      cases hretried : r.retried with
      | false => exact .inl rfl
      | true =>
          have hmax := hends hretried
          exact .inr (by omega)
  rw [movement_requests_eq henter hretries, movement_result henter hretries, conclusion,
    hdeciding, answerOf_settle, hheard.last]
  exact ⟨rfl, rfl⟩

end AccountsHttpClient

/-! ## The steps of a call -/

namespace Platform

open Transition

variable {maxAttempts worker : ℕ} {s s' : State} {e : Event} {call : MovementCall}

/-- The event by which a worker is done with an attempt, and how it reads it. -/
inductive Reads (s : State) (worker : ℕ) : Event → Date → Reading → Prop
  | moved (id attempt : ℕ) (uncertain : Bool) (m : Movement) (now : Date)
      (hclient : s.clients worker = .waiting id attempt uncertain)
      (hanswer : Table.find Prod.fst s.wire.answers id = some (id, .inl m)) :
      Reads s worker (.receive worker now) now (.answered (.moved m.result))
  | refused (id attempt : ℕ) (uncertain : Bool) (refusal : Refusal) (now : Date)
      (hclient : s.clients worker = .waiting id attempt uncertain)
      (hanswer : Table.find Prod.fst s.wire.answers id = some (id, .inr refusal)) :
      Reads s worker (.receive worker now) now
        (.answered (if uncertain then .unavailable else .refused refusal))
  | failed (id attempt : ℕ) (uncertain retryable : Bool) (now : Date)
      (hclient : s.clients worker = .waiting id attempt uncertain) :
      Reads s worker (.fail worker retryable now) now (.failed retryable)

theorem Reads.not_ready {now : Date} {r : Reading} (h : Reads s worker e now r)
    (attempt : ℕ) (uncertain : Bool) : s.clients worker ≠ .ready attempt uncertain := by
  cases h with
  | moved _ _ _ _ _ hclient => simp [hclient]
  | refused _ _ _ _ _ hclient => simp [hclient]
  | failed _ _ _ _ _ hclient => simp [hclient]

def Client.attempt : Client → ℕ
  | .ready attempt _ => attempt
  | .waiting _ attempt _ => attempt

/-- A worker that is done with an attempt makes another one, or ends its call. -/
theorem step_of_reads {now : Date} {r : Reading} (h : Reads s worker e now r) :
    step maxAttempts s e =
      if r.retried = true ∧ (s.clients worker).attempt < maxAttempts then
        some { s with
          clients := Function.update s.clients worker
            (.ready ((s.clients worker).attempt + 1) true) }
      else
        finish s worker r.answer now := by
  cases h with
  | moved id attempt uncertain m now hclient hanswer =>
      simp [step, hclient, hanswer, Reading.retried, Reading.answer]
  | refused id attempt uncertain refusal now hclient hanswer =>
      simp [step, hclient, hanswer, Reading.retried, Reading.answer]
  | failed id attempt uncertain retryable now hclient =>
      simp [step, hclient, Reading.retried, Reading.answer, Client.attempt]

def Event.posts (worker : ℕ) : Event → Bool
  | .send other => decide (other = worker)
  | _ => false

/-- The event is a failure of a worker that may be worth another attempt. -/
def Event.mayRetry (worker : ℕ) : Event → Bool
  | .fail other retryable _ => decide (other = worker) && retryable
  | _ => false

/-- A step that leaves a worker in its call: the worker takes no part in it, posts its
request, or gives up on an attempt that is made again. -/
def Pursues (maxAttempts worker : ℕ) (s : State) (e : Event) : Prop :=
  e.worker? = some worker → e.posts worker = true ∨
    e.mayRetry worker = true ∧ (s.clients worker).attempt < maxAttempts

instance (maxAttempts worker : ℕ) (s : State) (e : Event) :
    Decidable (Pursues maxAttempts worker s e) :=
  inferInstanceAs (Decidable (_ → _))

/-- A worker is in the midst of a call and has posted its request `posted` times. -/
structure Calling (maxAttempts worker : ℕ) (call : MovementCall) (posted : ℕ) (s : State) :
    Prop where
  await : (s.payments.workers worker).await = some (.movement call)
  client : (posted < maxAttempts ∧
      s.clients worker = .ready (posted + 1) (decide (0 < posted))) ∨
    (1 ≤ posted ∧ posted ≤ maxAttempts ∧
      ∃ id, s.clients worker = .waiting id posted (decide (1 < posted)))

namespace Calling

variable {posted : ℕ}

theorem of_frame (h : Calling maxAttempts worker call posted s) (hframe : Frame worker s s') :
    Calling maxAttempts worker call posted s' where
  await := by rw [hframe.1, h.await]
  client := by
    rw [hframe.2]
    exact h.client

theorem send (h : Calling maxAttempts worker call posted s)
    (hstep : step maxAttempts s (.send worker) = some s') :
    Calling maxAttempts worker call (posted + 1) s' := by
  simp only [step, h.await] at hstep
  rcases h.client with ⟨hlt, hready⟩ | ⟨-, -, id, hwaiting⟩
  · simp only [hready, Option.some.injEq] at hstep
    subst hstep
    refine ⟨h.await, .inr ⟨Nat.le_add_left .., hlt, s.wire.next, ?_⟩⟩
    simp
  · simp only [hwaiting] at hstep
    cases hstep

theorem retry (h : Calling maxAttempts worker call posted s) {now : Date}
    (hlt : (s.clients worker).attempt < maxAttempts)
    (hstep : step maxAttempts s (.fail worker true now) = some s') :
    Calling maxAttempts worker call posted s' := by
  rcases h.client with ⟨-, hready⟩ | ⟨hposted, -, id, hwaiting⟩
  · simp only [step, hready] at hstep
    cases hstep
  · rw [step_of_reads (.failed id posted _ true now hwaiting), if_pos ⟨rfl, hlt⟩,
      Option.some.injEq] at hstep
    subst hstep
    rw [hwaiting] at hlt
    refine ⟨h.await, .inl ⟨hlt, ?_⟩⟩
    simp only [hwaiting, Client.attempt, Function.update_self, Client.ready.injEq, true_and]
    exact (decide_eq_true hposted).symm

/-- A step that leaves a worker in its call counts as one more request if it posts it. -/
theorem step (h : Calling maxAttempts worker call posted s)
    (hpursues : Pursues maxAttempts worker s e) (hstep : step maxAttempts s e = some s') :
    Calling maxAttempts worker call (posted + (e.posts worker).toNat) s' := by
  cases hposts : e.posts worker with
  | true =>
      cases e with
      | send other =>
          obtain rfl : other = worker := of_decide_eq_true hposts
          exact h.send hstep
      | _ => cases hposts
  | false =>
      by_cases hworker : e.worker? = some worker
      · obtain ⟨hretry, hlt⟩ : e.mayRetry worker = true ∧ _ :=
          (hpursues hworker).resolve_left (by simp [hposts])
        cases e with
        | fail other retryable now =>
            obtain ⟨hother, rfl⟩ := Bool.and_eq_true_iff.mp hretry
            obtain rfl : other = worker := of_decide_eq_true hother
            exact h.retry hlt hstep
        | _ => cases hretry
      · exact h.of_frame (frame_of_step hstep hworker)

theorem run (h : Calling maxAttempts worker call posted s) {es : List Event}
    (hrun : RunsUnder (Platform.step maxAttempts) (Pursues maxAttempts worker) s es s') :
    Calling maxAttempts worker call (posted + es.countP (Event.posts worker)) s' := by
  induction hrun generalizing posted with
  | nil => exact h
  | @cons _ _ _ e es hstep hpursues _ ih =>
      have hcount : (e :: es).countP (Event.posts worker) =
          (e.posts worker).toNat + es.countP (Event.posts worker) := by
        rw [List.countP_cons]
        cases e.posts worker <;> simp [Nat.add_comm]
      rw [hcount, ← Nat.add_assoc]
      exact ih (h.step hpursues hstep)

/-- A worker that is done with an attempt has posted its request as often as it has made
attempts. -/
theorem attempt_of_reads (h : Calling maxAttempts worker call posted s) {now : Date}
    {r : Reading} (hreads : Reads s worker e now r) :
    (s.clients worker).attempt = posted ∧ 1 ≤ posted ∧ posted ≤ maxAttempts := by
  rcases h.client with ⟨-, hready⟩ | ⟨hposted, hle, id, hwaiting⟩
  · exact absurd hready (hreads.not_ready _ _)
  · rw [hwaiting]
    exact ⟨rfl, hposted, hle⟩

/-- Some exchanges are read as a worker has read its attempts. -/
theorem exists_heard (h : Calling maxAttempts worker call posted s) {now : Date} {r : Reading}
    (hreads : Reads s worker e now r) : ∃ outcomes, Heard call outcomes posted r := by
  suffices hlast : ∃ outcome, readMovement call.wallet.value (decide (1 < posted)) outcome = r by
    obtain ⟨outcome, hlast⟩ := hlast
    refine ⟨fun i => if i = posted then outcome else .timeout, fun i _ hlt => ?_, ?_⟩
    · rw [if_neg hlt.ne]
      rfl
    · rw [if_pos rfl]
      exact hlast
  rcases h.client with ⟨-, hready⟩ | ⟨-, -, id, hwaiting⟩
  · exact absurd hready (hreads.not_ready _ _)
  · cases hreads with
    | moved _ _ _ m => exact readMovement_result _ _ m
    | refused _ _ _ refusal _ hclient =>
        cases hwaiting.symm.trans hclient
        exact readMovement_refusal _ _ refusal
    | failed _ _ _ retryable =>
        cases retryable with
        | true => exact ⟨.timeout, rfl⟩
        | false => exact ⟨.rejection (some 400) none "", rfl⟩

end Calling

/-- The steps of a call are the loop of the client: from the first request to the attempt
that ends the call, a worker posts what the loop posts over any exchanges that are read
the same way, and goes on with the answer that the loop returns. -/
theorem call_eq_movement {client : AccountsHttpClient} {breaker : CircuitBreaker}
    {opened now : Date} {r : Reading} {es : List Event}
    (henter : (breaker.enter client.options opened).isSome = true)
    (hattempts : 1 ≤ client.maxAttempts)
    (hawait : (s.payments.workers worker).await = some (.movement call))
    (hidle : s.clients worker = .idle)
    (hrun : RunsUnder (step client.maxAttempts) (Pursues client.maxAttempts worker) s es s')
    (hreads : Reads s' worker e now r)
    (hends : r.retried = true → (s'.clients worker).attempt = client.maxAttempts) :
    (∃ outcomes, Heard call outcomes (es.countP (Event.posts worker)) r) ∧
    ∀ outcomes later, Heard call outcomes (es.countP (Event.posts worker)) r →
      (client.movement breaker opened later outcomes call).requests =
          List.replicate (es.countP (Event.posts worker)) (movementRequest call) ∧
        step client.maxAttempts s' e =
          finish s' worker
            (answerOf (client.movement breaker opened later outcomes call).result) now := by
  have hcalling : Calling client.maxAttempts worker call 0 s := ⟨hawait, .inl ⟨hattempts, hidle⟩⟩
  have hlast := hcalling.run hrun
  rw [Nat.zero_add] at hlast
  obtain ⟨hattempt, hn, hle⟩ := hlast.attempt_of_reads hreads
  rw [hattempt] at hends
  refine ⟨hlast.exists_heard hreads, fun outcomes later hheard => ?_⟩
  obtain ⟨hrequests, hanswer⟩ :=
    AccountsHttpClient.movement_of_heard  henter hheard hn hle hends
  refine ⟨hrequests, ?_⟩
  rw [step_of_reads hreads, if_neg, hanswer]
  rintro ⟨hretried, hlt⟩
  rw [hattempt, hends hretried] at hlt
  exact Nat.lt_irrefl _ hlt

def postingRun : List Event :=
  [.internal (.initiate 0 Workers.sampleInput Workers.sampleReference Workers.sampleMoment .none),
    .internal (.start 0), sampleQuery, sampleQuery]

/-- The first attempt times out and is served all the same; the second one is served while
another worker crashes. -/
def retriedRun : List Event :=
  [.send 0, .fail 0 true Workers.sampleMoment.now,
    .serve 0 (.apply Workers.sampleMovement.transactionReference 0), .send 0,
    .internal (.crash 1), .serve 1 (.apply Workers.sampleMovement.transactionReference 0)]

theorem call_eq_movement_retriedRun :
    ∃ s s' call outcomes, run (step 3) init postingRun = some s ∧
      run (step 3) s retriedRun = some s' ∧
      (AccountsHttpClient.sampleClient.movement .init 0 0 outcomes call).requests =
        List.replicate 2 (movementRequest call) ∧
      step 3 s' (.receive 0 Workers.sampleMoment.now) =
        finish s' 0
          (answerOf (AccountsHttpClient.sampleClient.movement .init 0 0 outcomes call).result)
          Workers.sampleMoment.now := by
  have h : ((run (step 3) init postingRun).bind fun s =>
      (run (guarded (step 3) (Pursues 3 0)) s retriedRun).map fun s' =>
        (s.clients 0, (Table.find Prod.fst s'.wire.answers 1).isSome, s'.clients 0)) =
      some (.idle, true, .waiting 1 2 true) := by
    decide +kernel
  obtain ⟨s, hs, hrest⟩ := Option.bind_eq_some_iff.mp h
  obtain ⟨s', hs', hstates⟩ := Option.map_eq_some_iff.mp hrest
  simp only [Prod.mk.injEq] at hstates
  obtain ⟨hidle, hserved, hwaiting⟩ := hstates
  have hunder := runsUnder_of_guarded (fun _ _ hpursues => hpursues) hs'
  have hrun := hunder.run_eq_some
  -- The first step of `retriedRun` is a POST, so a call is awaited.
  obtain ⟨call, hawait⟩ : ∃ call, (s.payments.workers 0).await = some (.movement call) := by
    obtain ⟨_, hsend, -⟩ := Option.bind_eq_some_iff.mp hrun
    simp only [step] at hsend
    split at hsend
    · exact ⟨_, ‹_›⟩
    · cases hsend
  obtain ⟨r, hreads, hretried⟩ :
      ∃ r, Reads s' 0 (.receive 0 Workers.sampleMoment.now) Workers.sampleMoment.now r ∧
        r.retried = false := by
    obtain ⟨⟨id, answer⟩, hfind⟩ := Option.isSome_iff_exists.mp hserved
    obtain rfl : id = 1 := Table.key_of_find hfind
    cases answer with
    | inl m => exact ⟨_, .moved 1 2 true m _ hwaiting hfind, rfl⟩
    | inr refusal => exact ⟨_, .refused 1 2 true refusal _ hwaiting hfind, rfl⟩
  have henter : (CircuitBreaker.init.enter AccountsHttpClient.sampleClient.options 0).isSome =
      true := rfl
  obtain ⟨⟨outcomes, hheard⟩, hloop⟩ :=
    call_eq_movement henter (by decide) hawait hidle hunder hreads (by simp [hretried])
  obtain ⟨hrequests, hstep⟩ := hloop outcomes 0 hheard
  exact ⟨s, s', call, outcomes, hs, hrun, hrequests, hstep⟩

/-- A call that the circuit breaker turns away posts nothing and ends unavailable. -/
theorem circuitOpen_eq_movement {client : AccountsHttpClient} {breaker : CircuitBreaker}
    {opened later now : Date} {outcomes : ℕ → HttpOutcome}
    (hopen : breaker.enter client.options opened = none)
    (hawait : (s.payments.workers worker).await = some (.movement call))
    (hidle : s.clients worker = .idle) :
    (client.movement breaker opened later outcomes call).requests = [] ∧
      step client.maxAttempts s (.circuitOpen worker now) =
        finish s worker
          (answerOf (client.movement breaker opened later outcomes call).result) now := by
  refine ⟨by simp only [AccountsHttpClient.movement, hopen], ?_⟩
  rw [AccountsHttpClient.movement_of_not_entered hopen]
  simp only [step, hawait, hidle, Client.idle]
  rfl

end Platform

end Payments

end Paynad
