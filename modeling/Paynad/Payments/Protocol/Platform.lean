import Paynad.Library.Wire
import Paynad.Payments.Protocol.Coherence

/-!
# The workers and accounts

`accounts` is taken for what its idempotency promises: a wire on which a key is
applied at most once and a replay is answered with the recorded movement. The
client of a worker sends a request at most `maxAttempts` times; a request it has
given up on stays on the wire and may still be applied, and so does the request
of a worker that crashed. What the workers do is `Workers.step`: every run here
is one of the workers with the answers that the wire gives.
-/

namespace Paynad

namespace Payments

open Shared Transition

structure Movement where
  wallet : Reference .wlt
  key : String
  operation : Operation
  amount : ℤ
  reference : Reference .trx
  balanceAfter : ℤ

namespace Movement

def identifier (m : Movement) : String × String := (m.wallet.value, m.key)

def result (m : Movement) : MovementResult := ⟨m.reference, m.balanceAfter⟩

end Movement

namespace MovementCall

def identifier (call : MovementCall) : String × String :=
  (call.wallet.value, call.idempotencyKey)

def movement (call : MovementCall) (reference : Reference .trx) (balanceAfter : ℤ) :
    Movement where
  wallet := call.wallet
  key := call.idempotencyKey
  operation := call.operation
  amount := call.money.amount
  reference := reference
  balanceAfter := balanceAfter

def Origin (call : MovementCall) (m : Movement) : Prop :=
  m.operation = call.operation ∧ m.amount = call.money.amount

end MovementCall

namespace Platform

/-- Where the loop of `AccountsHttpClient.send` stands for a worker: before an
attempt, or waiting for the answer to a request. `uncertain` is `lastError !==
undefined`: an earlier attempt may still be applied. -/
inductive Client where
  | ready (attempt : ℕ) (uncertain : Bool)
  | waiting (id attempt : ℕ) (uncertain : Bool)
  deriving DecidableEq

def Client.idle : Client := .ready 1 false

structure State where
  payments : Workers.State
  clients : ℕ → Client
  wire : Wire MovementCall Movement Refusal

def init : State := ⟨Workers.init, fun _ => .idle, .empty⟩

inductive Verdict where
  | apply (reference : Reference .trx) (balanceAfter : ℤ)
  | refuse (refusal : Refusal)

inductive Event where
  /-- A step of a worker that does not involve `accounts`. -/
  | internal (event : Workers.Event)
  /-- The next POST of a worker. -/
  | send (worker : ℕ)
  /-- `accounts` serves a request in flight. -/
  | serve (id : ℕ) (verdict : Verdict)
  /-- A worker receives the answer it waits for. -/
  | receive (worker : ℕ) (now : Date)
  /-- A worker gives up on an attempt: a timeout, a lost connection, an error status. -/
  | fail (worker : ℕ) (retryable : Bool) (now : Date)
  | circuitOpen (worker : ℕ) (now : Date)
  /-- `AccountsHttpClient.findMovement`. -/
  | lookUp (worker : ℕ) (available : Bool) (now : Date)

/-- The clients after a step of the workers: the loop of a worker ends with its
call, or with its crash. -/
def clientsAfter (clients : ℕ → Client) : Workers.Event → ℕ → Client
  | .answer worker _ _ => Function.update clients worker .idle
  | .crash worker => Function.update clients worker .idle
  | _ => clients

def finish (s : State) (worker : ℕ) (answer : Answer) (now : Date) : Option State :=
  (Workers.step s.payments (.answer worker answer now)).map fun payments =>
    { s with payments := payments,
             clients := clientsAfter s.clients (.answer worker answer now) }

def step (maxAttempts : ℕ) (s : State) : Event → Option State
  | .internal (.answer _ _ _) => none
  | .internal event =>
      (Workers.step s.payments event).map fun payments =>
        { s with payments := payments, clients := clientsAfter s.clients event }
  | .send worker =>
      match (s.payments.workers worker).await, s.clients worker with
      | some (.movement call), .ready attempt uncertain =>
          some { s with
            clients := Function.update s.clients worker
              (.waiting s.wire.next attempt uncertain)
            wire := s.wire.send call }
      | _, _ => none
  | .serve id verdict =>
      match s.wire.request? id, verdict with
      | some call, .apply reference balanceAfter =>
          some { s with
            wire := s.wire.apply Movement.identifier id (call.movement reference balanceAfter) }
      | some call, .refuse refusal =>
          if s.wire.refusable MovementCall.identifier Movement.identifier id
              call.identifier then
            some { s with wire := s.wire.answer id (.inr refusal) }
          else
            none
      | none, _ => none
  | .receive worker now =>
      match s.clients worker with
      | .waiting id _ uncertain =>
          match Table.find Prod.fst s.wire.answers id with
          | some (_, .inl m) => finish s worker (.moved m.result) now
          | some (_, .inr refusal) =>
              -- A refusal after an uncertain attempt is not taken for an answer.
              finish s worker (if uncertain then .unavailable else .refused refusal) now
          | none => none
      | .ready _ _ => none
  | .fail worker retryable now =>
      match s.clients worker with
      | .waiting _ attempt _ =>
          if retryable ∧ attempt < maxAttempts then
            some { s with
              clients := Function.update s.clients worker (.ready (attempt + 1) true) }
          else
            finish s worker .unavailable now
      | .ready _ _ => none
  | .circuitOpen worker now =>
      match (s.payments.workers worker).await, s.clients worker with
      | some (.movement _), .ready 1 false => finish s worker .unavailable now
      | _, _ => none
  | .lookUp worker available now =>
      match (s.payments.workers worker).await with
      | some (.findMovement wallet key) =>
          finish s worker
            (if available then
              .found ((Table.find Movement.identifier s.wire.records (wallet.value, key)).map
                Movement.result)
            else
              .lookupUnavailable) now
      | _ => none

/-!
# What one step can do
-/

inductive Learned (s : State) (worker : ℕ) : Answer → Prop
  | moved (id attempt : ℕ) (uncertain : Bool) (m : Movement)
      (hclient : s.clients worker = .waiting id attempt uncertain)
      (hanswer : (id, .inl m) ∈ s.wire.answers) : Learned s worker (.moved m.result)
  | refused (id attempt : ℕ) (refusal : Refusal)
      (hclient : s.clients worker = .waiting id attempt false)
      (hanswer : (id, .inr refusal) ∈ s.wire.answers) : Learned s worker (.refused refusal)
  | unavailable (hclient : s.clients worker = .idle →
      ∃ call, (s.payments.workers worker).await = some (.movement call)) :
      Learned s worker .unavailable
  | found (wallet : Reference .wlt) (key : String) (m : Movement)
      (hawait : (s.payments.workers worker).await = some (.findMovement wallet key))
      (hrecord : m ∈ s.wire.records) (hkey : m.identifier = (wallet.value, key)) :
      Learned s worker (.found (some m.result))
  | absent (wallet : Reference .wlt) (key : String)
      (hawait : (s.payments.workers worker).await = some (.findMovement wallet key))
      (hnone : ¬ s.wire.Recorded Movement.identifier (wallet.value, key)) :
      Learned s worker (.found none)
  | lookupUnavailable (wallet : Reference .wlt) (key : String)
      (hawait : (s.payments.workers worker).await = some (.findMovement wallet key)) :
      Learned s worker .lookupUnavailable

/-- A step of the workers: the wire stays as it is, and a call to `accounts` ends
with what its worker can learn. -/
structure Internal (s s' : State) (event : Workers.Event) : Prop where
  step : Workers.step s.payments event = some s'.payments
  clients : s'.clients = clientsAfter s.clients event
  wire : s'.wire = s.wire
  learned : ∀ worker answer now, event = .answer worker answer now → Learned s worker answer

/-- The step of the workers behind a label. Only a look up that was served reports
an absent movement. -/
inductive Resolves : Event → Workers.Event → Prop
  | internal (event : Workers.Event)
      (hlocal : ∀ worker answer now, event ≠ .answer worker answer now) :
      Resolves (.internal event) event
  | receive (worker : ℕ) (answer : Answer) (now : Date) (hpresent : answer ≠ .found none) :
      Resolves (.receive worker now) (.answer worker answer now)
  | fail (worker : ℕ) (retryable : Bool) (now : Date) :
      Resolves (.fail worker retryable now) (.answer worker .unavailable now)
  | circuitOpen (worker : ℕ) (now : Date) :
      Resolves (.circuitOpen worker now) (.answer worker .unavailable now)
  | lookUp (worker : ℕ) (available : Bool) (answer : Answer) (now : Date)
      (habsent : answer = .found none → available = true) :
      Resolves (.lookUp worker available now) (.answer worker answer now)

theorem Resolves.lookUp_of_absent {e : Event} {worker : ℕ} {now : Date}
    (h : Resolves e (.answer worker (.found none) now)) : e = .lookUp worker true now := by
  cases h with
  | internal _ hlocal => exact absurd rfl (hlocal _ _ _)
  | receive _ _ _ hpresent => exact absurd rfl hpresent
  | lookUp _ _ _ _ habsent => rw [habsent rfl]

inductive Effect (s s' : State) (e : Event) : Prop
  | moved (event : Workers.Event) (hinternal : Internal s s' event) (hlabel : Resolves e event)
  | sent (worker attempt : ℕ) (uncertain : Bool) (call : MovementCall)
      (hawait : (s.payments.workers worker).await = some (.movement call))
      (hclient : s.clients worker = .ready attempt uncertain)
      (hpayments : s'.payments = s.payments)
      (hclients : s'.clients =
        Function.update s.clients worker (.waiting s.wire.next attempt uncertain))
      (hwire : s'.wire = s.wire.send call) (hevent : e = .send worker)
  | applied (id : ℕ) (call : MovementCall) (reference : Reference .trx) (balanceAfter : ℤ)
      (hrequest : s.wire.request? id = some call) (hpayments : s'.payments = s.payments)
      (hclients : s'.clients = s.clients)
      (hwire : s'.wire =
        s.wire.apply Movement.identifier id (call.movement reference balanceAfter))
      (hevent : ∀ event, e ≠ .internal event)
  | refused (id : ℕ) (call : MovementCall) (refusal : Refusal)
      (hrequest : s.wire.request? id = some call)
      (hrefusable : s.wire.refusable MovementCall.identifier Movement.identifier id
        call.identifier = true)
      (hpayments : s'.payments = s.payments) (hclients : s'.clients = s.clients)
      (hwire : s'.wire = s.wire.answer id (.inr refusal))
      (hevent : ∀ event, e ≠ .internal event)
  | retried (worker id attempt : ℕ) (uncertain : Bool)
      (hclient : s.clients worker = .waiting id attempt uncertain)
      (hpayments : s'.payments = s.payments)
      (hclients : s'.clients = Function.update s.clients worker (.ready (attempt + 1) true))
      (hwire : s'.wire = s.wire) (hevent : ∀ event, e ≠ .internal event)

theorem effect_of_finish {s s' : State} {e : Event} {worker : ℕ} {answer : Answer} {now : Date}
    (hlearned : Learned s worker answer) (hlabel : Resolves e (.answer worker answer now))
    (h : finish s worker answer now = some s') : Effect s s' e := by
  obtain ⟨payments, hstep, rfl⟩ := Option.map_eq_some_iff.mp h
  refine .moved _ ⟨hstep, rfl, rfl, ?_⟩ hlabel
  rintro _ _ _ ⟨⟩
  exact hlearned

theorem step_cases {maxAttempts : ℕ} {s s' : State} {e : Event}
    (h : step maxAttempts s e = some s') : Effect s s' e := by
  cases e with
  | internal event =>
      by_cases hanswer : ∃ worker answer now, event = .answer worker answer now
      · obtain ⟨worker, answer, now, rfl⟩ := hanswer
        cases h
      · have hmap : (Workers.step s.payments event).map (fun payments =>
            { s with payments := payments, clients := clientsAfter s.clients event }) =
              some s' := by
          cases event <;> first | exact h | exact absurd ⟨_, _, _, rfl⟩ hanswer
        obtain ⟨payments, hstep, rfl⟩ := Option.map_eq_some_iff.mp hmap
        exact .moved event
          ⟨hstep, rfl, rfl, fun _ _ _ heq => absurd ⟨_, _, _, heq⟩ hanswer⟩
          (.internal event fun _ _ _ heq => hanswer ⟨_, _, _, heq⟩)
  | send worker =>
      simp only [step] at h
      split at h <;> cases h
      exact .sent worker _ _ _ ‹_› ‹_› rfl rfl rfl rfl
  | serve id verdict =>
      simp only [step] at h
      split at h
      · cases h
        exact .applied id _ _ _ ‹_› rfl rfl rfl (by rintro _ ⟨⟩)
      · split at h <;> cases h
        exact .refused id _ _ ‹_› ‹_› rfl rfl rfl (by rintro _ ⟨⟩)
      · cases h
  | receive worker now =>
      simp only [step] at h
      split at h
      · rename_i id attempt uncertain hclient
        split at h
        · rename_i id' m hanswer
          obtain rfl : id' = id := Table.key_of_find hanswer
          exact effect_of_finish
            (.moved _ _ _ m hclient (Table.mem_of_find hanswer)) (.receive _ _ _ (by rintro ⟨⟩)) h
        · rename_i id' refusal hanswer
          obtain rfl : id' = id := Table.key_of_find hanswer
          cases uncertain with
          | true =>
              refine effect_of_finish (.unavailable fun hidle => ?_)
                (.receive _ _ _ (by rintro ⟨⟩)) h
              rw [hclient] at hidle
              cases hidle
          | false =>
              exact effect_of_finish
                (.refused _ _ refusal hclient (Table.mem_of_find hanswer))
                (.receive _ _ _ (by rintro ⟨⟩)) h
        · cases h
      · cases h
  | fail worker retryable now =>
      simp only [step] at h
      split at h
      · rename_i id attempt uncertain hclient
        split at h
        · cases h
          exact .retried worker _ _ _ hclient rfl rfl rfl (by rintro _ ⟨⟩)
        · refine effect_of_finish (.unavailable fun hidle => ?_) (.fail _ _ _) h
          rw [hclient] at hidle
          cases hidle
      · cases h
  | circuitOpen worker now =>
      simp only [step] at h
      split at h
      · rename_i call hawait hclient
        exact effect_of_finish (.unavailable fun _ => ⟨call, hawait⟩) (.circuitOpen _ _) h
      · cases h
  | lookUp worker available now =>
      simp only [step] at h
      split at h
      · rename_i wallet key hawait
        cases available with
        | false =>
            exact effect_of_finish (.lookupUnavailable wallet key hawait)
              (.lookUp _ _ _ _ (by rintro ⟨⟩)) h
        | true =>
            cases hfind : Table.find Movement.identifier s.wire.records (wallet.value, key) with
            | some m =>
                simp only [hfind] at h
                exact effect_of_finish (.found wallet key m hawait (Table.mem_of_find hfind)
                  (Table.key_of_find hfind)) (.lookUp _ _ _ _ (by rintro ⟨⟩)) h
            | none =>
                simp only [hfind] at h
                refine effect_of_finish (.absent wallet key hawait ?_)
                  (.lookUp _ _ _ _ fun _ => rfl) h
                rintro ⟨m, hm, hkey⟩
                exact Table.find_eq_none_iff.mp hfind m hm hkey
      · cases h

theorem internal_of_step {maxAttempts : ℕ} {s s' : State} {event : Workers.Event}
    (hstep : step maxAttempts s (.internal event) = some s') :
    (∀ worker answer now, event ≠ .answer worker answer now) ∧ Internal s s' event := by
  cases step_cases hstep with
  | moved event' hinternal hlabel =>
      cases hlabel with
      | internal _ hlocal => exact ⟨hlocal, hinternal⟩
  | sent _ _ _ _ _ _ _ _ _ hevent => cases hevent
  | applied _ _ _ _ _ _ _ _ hevent => exact absurd rfl (hevent _)
  | refused _ _ _ _ _ _ _ _ hevent => exact absurd rfl (hevent _)
  | retried _ _ _ _ _ _ _ _ hevent => exact absurd rfl (hevent _)

/-- The worker an event is about; `accounts` serves a request without any. -/
def Event.worker? : Event → Option ℕ
  | .internal event => some event.worker
  | .send worker => some worker
  | .serve _ _ => none
  | .receive worker _ => some worker
  | .fail worker _ _ => some worker
  | .circuitOpen worker _ => some worker
  | .lookUp worker _ _ => some worker

def Frame (worker : ℕ) (s s' : State) : Prop :=
  s'.payments.workers worker = s.payments.workers worker ∧ s'.clients worker = s.clients worker

theorem frame_of_finish {s s' : State} {worker other : ℕ} {answer : Answer} {now : Date}
    (hother : other ≠ worker) (h : finish s other answer now = some s') : Frame worker s s' := by
  obtain ⟨payments, hstep, rfl⟩ := Option.map_eq_some_iff.mp h
  exact ⟨(Workers.step_cases hstep).1 worker hother.symm, Function.update_of_ne hother.symm ..⟩

theorem Internal.frame {s s' : State} {event : Workers.Event} {worker : ℕ}
    (h : Internal s s' event) (hother : event.worker ≠ worker) : Frame worker s s' := by
  refine ⟨(Workers.step_cases h.step).1 worker hother.symm, ?_⟩
  rw [h.clients]
  cases event <;> first | rfl | exact Function.update_of_ne hother.symm ..

/-- A step that is about another worker, or about none, leaves a worker where it is. -/
theorem frame_of_step {maxAttempts : ℕ} {s s' : State} {e : Event} {worker : ℕ}
    (h : step maxAttempts s e = some s') (hother : e.worker? ≠ some worker) :
    Frame worker s s' := by
  have hne : ∀ other, e.worker? = some other → other ≠ worker := by
    rintro other hsome rfl
    exact hother hsome
  cases e with
  | internal event => exact (internal_of_step h).2.frame (hne _ rfl)
  | send other =>
      simp only [step] at h
      split at h <;> cases h
      exact ⟨rfl, Function.update_of_ne (hne _ rfl).symm ..⟩
  | serve id verdict =>
      simp only [step] at h
      split at h
      · cases h
        exact ⟨rfl, rfl⟩
      · split at h <;> cases h
        exact ⟨rfl, rfl⟩
      · cases h
  | receive other now =>
      simp only [step] at h
      split at h
      · split at h
        · exact frame_of_finish (hne _ rfl) h
        · exact frame_of_finish (hne _ rfl) h
        · cases h
      · cases h
  | fail other retryable now =>
      simp only [step] at h
      split at h
      · split at h
        · cases h
          exact ⟨rfl, Function.update_of_ne (hne _ rfl).symm ..⟩
        · exact frame_of_finish (hne _ rfl) h
      · cases h
  | circuitOpen other now =>
      simp only [step] at h
      split at h
      · exact frame_of_finish (hne _ rfl) h
      · cases h
  | lookUp other available now =>
      simp only [step] at h
      split at h
      · exact frame_of_finish (hne _ rfl) h
      · cases h

/-- The workers of a platform run like the workers alone. -/
theorem reachable_payments {maxAttempts : ℕ} {s : State}
    (h : Reachable (step maxAttempts) init s) :
    Reachable Workers.step Workers.init s.payments := by
  refine h.map State.payments fun s e s' hstep => ?_
  cases step_cases hstep with
  | moved event hinternal => exact .inr ⟨event, hinternal.step⟩
  | sent _ _ _ _ _ _ hpayments => exact .inl hpayments
  | applied _ _ _ _ _ hpayments => exact .inl hpayments
  | refused _ _ _ _ _ hpayments => exact .inl hpayments
  | retried _ _ _ _ _ hpayments => exact .inl hpayments

end Platform

end Payments

end Paynad
