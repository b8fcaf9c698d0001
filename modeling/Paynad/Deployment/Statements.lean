import Paynad.Deployment.WalletBalances
import Paynad.Transactions.Delivery

/-!
# The three services

`payments` and `accounts` move the money, the relay publishes what `payments` has committed
and `transactions` records it as the statements of the wallets. A line of a statement tells
of an entry in the books of `accounts`, and the statements can always still catch up with
the books.
-/

namespace Paynad

namespace Deployment

open Shared Payments Transition
open Transactions (Transaction RecordTransactionRequest Timestamps)
open Transactions.Pipeline (Backs ThroughQueue Underway Asks Storable)

/-- A step of the two services takes at most one of the workers. -/
theorem payments_of_step {unicode : Unicode} {maxAttempts : ℕ} {s t : State} {e : Event}
    (h : step unicode maxAttempts s e = some t) :
    t.payments = s.payments ∨ ∃ event, Workers.step s.payments event = some t.payments := by
  have hfinish : ∀ {worker : ℕ} {answer : Answer} {now : Date}, finish s worker answer now = some t →
      ∃ event, Workers.step s.payments event = some t.payments := by
    intro worker answer now h
    obtain ⟨payments, hstep, rfl⟩ := Option.map_eq_some_iff.mp h
    exact ⟨_, hstep⟩
  have hfailed : ∀ {worker attempt : ℕ} {retryable : Bool} {now : Date},
      failed maxAttempts s worker attempt retryable now = some t →
      t.payments = s.payments ∨ ∃ event, Workers.step s.payments event = some t.payments := by
    intro worker attempt retryable now h
    rw [failed] at h
    split_ifs at h
    · obtain rfl := Option.some.inj h
      exact .inl rfl
    · exact .inr (hfinish h)
  cases step_cases h with
  | internal event _ hstep _ => exact .inr ⟨event, hstep⟩
  | sent _ _ _ _ _ _ heq | arrived _ _ _ _ _ _ _ _ heq | resumed _ _ _ _ heq
  | served _ _ _ _ _ _ heq =>
      rw [heq]
      exact .inl rfl
  | received _ _ _ _ _ _ _ _ _ _ hread =>
      split at hread
      · exact .inr (hfinish hread)
      · exact hfailed hread
  | failed _ _ _ _ _ _ _ hend => exact hfailed hend
  | opened _ _ _ _ _ hend => exact .inr (hfinish hend)
  | lookedUp _ _ _ _ _ _ hend => exact .inr (hfinish hend)

namespace Statements

/-- The two services, the relay of `payments` with its broker, and `transactions`. -/
structure State where
  services : Deployment.State
  relay : OutboxRelay.State
  ledger : Transactions.Ledger.State

def State.pipeline (s : State) : Transactions.Pipeline.State :=
  ⟨s.services.payments, s.relay, s.ledger⟩

def init : State := ⟨Deployment.init, OutboxRelay.init, Transactions.Ledger.init⟩

inductive Event where
  /-- A step of the two services; the relay sees what it commits from `now` on. -/
  | serve (event : Deployment.Event) (now : Date)
  /-- A step of the relay, of the broker or of `transactions`. -/
  | deliver (event : Transactions.Pipeline.Event)

def step (unicode : Unicode) (timestamps : Timestamps) (maxAttempts : ℕ) (s : State) :
    Event → Option State
  | .serve event now =>
      (Deployment.step unicode maxAttempts s.services event).map fun services =>
        { s with
          services := services
          relay := s.relay.enqueue
            (Transactions.Pipeline.committed s.services.payments services.payments) now }
  | .deliver (.pay _ _) => none
  | .deliver event =>
      (Transactions.Pipeline.step unicode timestamps s.pipeline event).map fun pipeline =>
        { s with relay := pipeline.relay, ledger := pipeline.ledger }

variable {unicode : Unicode} {timestamps : Timestamps} {maxAttempts : ℕ} {s t : State} {e : Event}

theorem services_of_deliver {event : Transactions.Pipeline.Event}
    (h : step unicode timestamps maxAttempts s (.deliver event) = some t) :
    t.services = s.services := by
  cases event with
  | pay event now => cases h
  | _ =>
      obtain ⟨pipeline, -, rfl⟩ := Option.map_eq_some_iff.mp h
      rfl

theorem services_of_step (h : step unicode timestamps maxAttempts s e = some t) :
    t.services = s.services ∨
      ∃ event, Deployment.step unicode maxAttempts s.services event = some t.services := by
  cases e with
  | serve event now =>
      obtain ⟨services, hservices, rfl⟩ := Option.map_eq_some_iff.mp h
      exact .inr ⟨event, hservices⟩
  | deliver event => exact .inl (services_of_deliver h)

theorem pipeline_of_step (h : step unicode timestamps maxAttempts s e = some t) :
    t.pipeline = s.pipeline ∨
      ∃ event, Transactions.Pipeline.step unicode timestamps s.pipeline event =
        some t.pipeline := by
  cases e with
  | serve event now =>
      obtain ⟨services, hservices, rfl⟩ := Option.map_eq_some_iff.mp h
      rcases payments_of_step hservices with heq | ⟨event', hevent'⟩
      · left
        rw [heq, Transactions.Pipeline.committed, List.drop_length]
        simp [State.pipeline, OutboxRelay.State.enqueue, heq]
      · right
        refine ⟨.pay event' now, ?_⟩
        simp [State.pipeline, Transactions.Pipeline.step, hevent']
  | deliver event =>
      right
      have hdelivered : (∀ event' now, event ≠ .pay event' now) ∧
          (Transactions.Pipeline.step unicode timestamps s.pipeline event).map (fun pipeline =>
            { s with relay := pipeline.relay, ledger := pipeline.ledger }) = some t := by
        cases event with
        | pay event now => cases h
        | _ => exact ⟨by rintro _ _ ⟨⟩, h⟩
      obtain ⟨hpay, hmap⟩ := hdelivered
      obtain ⟨pipeline, hpipeline, rfl⟩ := Option.map_eq_some_iff.mp hmap
      refine ⟨event, hpipeline.trans (congrArg some ?_)⟩
      have hpayments := (Transactions.Pipeline.parts_of_step hpipeline).2.2 hpay
      rw [State.pipeline, ← show pipeline.payments = s.services.payments from hpayments]

theorem reachable_services (h : Reachable (step unicode timestamps maxAttempts) init s) :
    Reachable (Deployment.step unicode maxAttempts) Deployment.init s.services :=
  h.map State.services fun _ _ _ => services_of_step

theorem reachable_pipeline (h : Reachable (step unicode timestamps maxAttempts) init s) :
    Reachable (Transactions.Pipeline.step unicode timestamps) Transactions.Pipeline.init
      s.pipeline :=
  h.map State.pipeline fun _ _ _ => pipeline_of_step

/-! ## What a statement tells -/

def booked : TransactionType → TransactionType
  | .DEBIT => .DEBIT
  | .CREDIT => .CREDIT
  | .REFUND => .CREDIT

structure Tells (accounts : Accounts.State) (row : Transaction) (entry : Accounts.LedgerEntry) :
    Prop where
  wallet : Refers accounts entry.walletId row.walletReference
  key : entry.transactionId = row.transactionId
  type : entry.type = booked row.type
  amount : entry.amount = row.amount

structure Books (accounts : Accounts.State) (payment : PaymentOrmEntity) (leg : Leg)
    (entry : Accounts.LedgerEntry) : Prop where
  wallet : Refers accounts entry.walletId (payment.legWallet leg)
  key : entry.transactionId = (payment.legKey leg).2
  type : entry.type = typeOf leg.operation
  amount : entry.amount = payment.amount

variable {services : Deployment.State} {p : Platform.State} {reference : String}
  {payment : PaymentOrmEntity} {leg : Leg} {row : Transaction}

/-- The books have every settled leg. -/
theorem entry_of_settled (h : Refines services p) (hs : Platform.Invariant p)
    (hpayment : p.row reference = some payment) (hstatus : payment.status = leg.settled) :
    ∃ entry ∈ services.accounts.entries, Books services.accounts payment leg entry := by
  have hmoved : p.movements payment.toPaymentColumns leg ≠ [] := by
    have hsettled := hs.settled hpayment
    cases leg <;> simp only [Platform.Settled, hstatus, Leg.settled] at hsettled
    · exact hsettled.1
    · exact hsettled.2.1
    · exact hsettled.2.2
  obtain ⟨m, hm⟩ := List.exists_mem_of_ne_nil _ hmoved
  obtain ⟨hrecord, hidentifier⟩ := Platform.mem_movements.mp hm
  obtain ⟨hoperation, hamount⟩ := hs.origin_of_mem_movements hpayment hm
  obtain ⟨⟨entry, hentry, hsame⟩, -⟩ := h.agrees.recorded m hrecord
  obtain ⟨wallet, hwallet, hreference⟩ := hsame.wallet
  exact ⟨entry, hentry, ⟨wallet, hwallet, hreference.trans (congrArg Prod.fst hidentifier)⟩,
    hsame.key.trans (congrArg Prod.snd hidentifier), hoperation ▸ hsame.type,
    hsame.amount.trans hamount⟩

theorem backs_of_throughQueue {s : Transactions.Pipeline.State}
    (hs : Transactions.Pipeline.Sound unicode timestamps s) (hrow : ThroughQueue s row) :
    ∃ (reference : Reference .pay) (leg : Leg) (payment : PaymentOrmEntity),
      TypeOrmPaymentRepository.rowOf s.payments.database.payments reference.value =
        some payment ∧ Backs payment leg row := by
  obtain ⟨c, call, happend, hcall, hentry⟩ := hrow
  obtain ⟨call', generated, hcall', hrow⟩ := hs.ledger.origin _ happend
  obtain rfl : call' = call := Option.some.inj (hcall'.symm.trans hcall)
  obtain ⟨m, hm, hasks⟩ := hs.calls c call' hcall hentry
  obtain ⟨q, moment, leg, movementReference, occurredAt, hrecorded⟩ := hs.told m hm hasks.1
  obtain ⟨-, payment, hpayment, hbacks⟩ :=
    Transactions.Pipeline.backs_of_asks hrecorded hasks hrow
  exact ⟨q.reference, leg, payment, hpayment, hbacks⟩

theorem Books.tells {accounts : Accounts.State} {entry : Accounts.LedgerEntry}
    (h : Books accounts payment leg entry) (hbacks : Backs payment leg row) :
    Tells accounts row entry := by
  have hwallet : payment.legWallet leg = row.walletReference := congrArg Prod.fst hbacks.key
  refine ⟨hwallet ▸ h.wallet, h.key.trans (congrArg Prod.snd hbacks.key), ?_,
    h.amount.trans hbacks.amount.symm⟩
  rw [h.type, hbacks.type]
  cases leg <;> rfl

/-- In every reachable state of the three services a row of the statements that came
through the queue tells of an entry in the books of `accounts`, and no entry is told of
twice. -/
theorem statements_truthful (h : Reachable (step unicode timestamps maxAttempts) init s) :
    (∀ row, ThroughQueue s.pipeline row → ∃ entry ∈ s.services.accounts.entries,
      Tells s.services.accounts row entry) ∧
    ∀ row ∈ s.ledger.rows, ∀ row' ∈ s.ledger.rows, ∀ entry,
      Tells s.services.accounts row entry → Tells s.services.accounts row' entry →
      row = row' := by
  obtain ⟨p, hp, hrefines⟩ :=
    (simulates unicode maxAttempts).reachable refines_init (reachable_services h)
  have hs := Platform.invariant_of_reachable hp
  have hsound := Transactions.Pipeline.sound_of_reachable (reachable_pipeline h)
  refine ⟨fun row hrow => ?_, fun row hrow row' hrow' entry htells htells' => ?_⟩
  · obtain ⟨reference, leg, payment, hpayment, hbacks⟩ := backs_of_throughQueue hsound hrow
    have hpayment' : p.row reference.value = some payment := by
      rw [Platform.State.row, hrefines.payments]
      exact hpayment
    obtain ⟨entry, hentry, hbooks⟩ := entry_of_settled hrefines hs hpayment' hbacks.status
    exact ⟨entry, hentry, hbooks.tells hbacks⟩
  · exact List.inj_on_of_nodup_map hsound.ledger.unique_rows hrow hrow'
      (htells.key.symm.trans htells'.key)

def recordedRun : List Event :=
  (approvedRun.map fun event => .serve event 0) ++
    ([.drain 0, .select 0 0 0, .emit 0, .accept 0] : List OutboxRelay.Event).map
      (fun event => .deliver (.relay event)) ++
    [.deliver (.consume 0 0)] ++
    List.replicate 2 (.deliver (.ledger (.advance 0 Transactions.sampleGenerated .none)))

theorem statements_truthful_recordedRun :
    ∃ s row entry, run (step .ascii Transactions.Ledger.sampleTimestamps 3) init recordedRun =
        some s ∧ s.ledger.rows = [row] ∧ entry ∈ s.services.accounts.entries ∧
      Tells s.services.accounts row entry := by
  have h : ((run (step .ascii Transactions.Ledger.sampleTimestamps 3) init recordedRun).map
      fun s => (s.ledger.appends.map Prod.fst, (s.ledger.calls 0).map (·.entry))) =
      some ([0], some .queue) := by
    decide +kernel
  obtain ⟨s, hrun, hsays⟩ := Option.map_eq_some_iff.mp h
  obtain ⟨happends, hentry⟩ := Prod.mk.inj hsays
  obtain ⟨⟨c, row⟩, happends, rfl⟩ := List.map_eq_singleton_iff.mp happends
  obtain ⟨call, hcall, hqueue⟩ := Option.map_eq_some_iff.mp hentry
  have hthrough : ThroughQueue s.pipeline row :=
    ⟨0, call, happends ▸ List.mem_singleton_self _, hcall, hqueue⟩
  obtain ⟨entry, hmem, htells⟩ := (statements_truthful ⟨recordedRun, hrun⟩).1 row hthrough
  refine ⟨s, row, entry, hrun, ?_, hmem, htells⟩
  rw [Transactions.Ledger.State.rows, happends, List.map_singleton]

/-! ## What the statements can still hold -/

/-- Every settled leg is announced by a message of the outbox. -/
theorem announced_of_settled (hs : Platform.Invariant p) (htold : Workers.Told p.payments)
    (hpayment : p.row reference = some payment) (hstatus : payment.status = leg.settled) :
    ∃ m ∈ p.payments.database.outbox,
      m.aggregateReference = reference ∧
      m.reading = (transactionRecorded, some (payment.legLine leg)) ∧
      ∃ q moment movementReference occurredAt,
        Recorded p.payments.database.payments m q moment leg movementReference occurredAt := by
  have hjournal := hs.payments.database.journal reference
  rw [show TypeOrmPaymentRepository.rowOf p.payments.database.payments reference = some payment
    from hpayment, Option.map_some, Option.getD_some] at hjournal
  have hline : (transactionRecorded, some (payment.legLine leg)) ∈
      payment.toPaymentColumns.journal := by
    cases leg <;> simp [PaymentColumns.journal, hstatus, Leg.settled, PaymentColumns.legLine,
      PaymentColumns.legWallet, Leg.movementType, MovementType.text]
  rw [← hjournal] at hline
  obtain ⟨m, hm, hreading⟩ := List.mem_map.mp hline
  obtain ⟨houtbox, hreference⟩ := List.mem_filter.mp hm
  have htype : m.eventType = transactionRecorded := congrArg Prod.fst hreading
  obtain ⟨q, moment, leg', movementReference, occurredAt, hrecorded⟩ := htold m houtbox htype
  have hleg : leg' = leg := by
    have htext := congrArg Prod.snd hreading
    rw [hrecorded.message, reading_recordMessage] at htext
    have htype' : leg'.movementType.text = leg.movementType.text :=
      congrArg Prod.fst (Option.some.inj htext)
    cases leg' <;> cases leg <;> first | rfl | exact absurd htype' (by decide)
  subst hleg
  exact ⟨m, houtbox, of_decide_eq_true hreference, hreading, q, moment, movementReference,
    occurredAt, hrecorded⟩

theorem key_of_asks {rows : List PaymentOrmEntity} {m : OutboxMessage} {q : Payment}
    {moment : Moment} {movementReference : Option (Reference .trx)} {occurredAt : Date}
    {request : RecordTransactionRequest}
    (hrecorded : Recorded rows m q moment leg movementReference occurredAt)
    (hasks : Asks unicode timestamps m request) (hstorable : Storable timestamps request) :
    request.transactionId = movementKey q.reference.value leg := by
  obtain ⟨instant, hparse, -⟩ := hstorable
  obtain ⟨row, hrow⟩ : ∃ row, Transaction.ofRequest timestamps request
      Transactions.sampleGenerated = some row := by
    rw [Transaction.ofRequest, hparse]
    exact ⟨_, rfl⟩
  rw [← Transactions.transactionId_ofRequest hrow]
  exact (Transactions.Pipeline.backs_of_asks hrecorded hasks hrow).1

theorem step_deliver {event : Transactions.Pipeline.Event} {pipeline : Transactions.Pipeline.State}
    (hcarries : event.carries = true)
    (hstep : Transactions.Pipeline.step unicode timestamps s.pipeline event = some pipeline) :
    ∃ t, step unicode timestamps maxAttempts s (.deliver event) = some t ∧
      t.pipeline = pipeline := by
  have hpay : ∀ event' now, event ≠ .pay event' now := by
    rintro event' now rfl
    cases hcarries
  refine ⟨{ s with relay := pipeline.relay, ledger := pipeline.ledger }, ?_, ?_⟩
  · cases event with
    | pay event' now => exact absurd rfl (hpay event' now)
    | _ => simp [step, hstep]
  · have hpayments := (Transactions.Pipeline.parts_of_step hstep).2.2 hpay
    rw [State.pipeline, ← show pipeline.payments = s.services.payments from hpayments]

/-- From every reachable state of the three services, whatever crashed or is stuck on the
way, the relay and `transactions` can catch up by themselves: the statements then have a
row for every leg that a payment has settled, whose entry is in the books, unless its
message does not pass validation or its instant cannot be stored. -/
theorem statements_catch_up (h : Reachable (step unicode timestamps maxAttempts) init s)
    (hroom : s.ledger.rows.length + s.services.payments.database.outbox.length ≤
      10 ^ referenceBodyLength) :
    ∃ es t, run (step unicode timestamps maxAttempts) s es = some t ∧
      (∀ e ∈ es, ∃ event : Transactions.Pipeline.Event, e = .deliver event ∧
        event.carries = true) ∧
      t.services = s.services ∧
      ∀ payment ∈ s.services.payments.database.payments, ∀ leg : Leg,
        payment.status = leg.settled →
        (∃ entry ∈ s.services.accounts.entries, Books s.services.accounts payment leg entry) ∧
        ∃ m ∈ s.services.payments.database.outbox,
          m.aggregateReference = payment.reference ∧
          m.reading = (transactionRecorded, some (payment.legLine leg)) ∧
          ∀ request, Asks unicode timestamps m request → Storable timestamps request →
            ∃ row ∈ t.ledger.rows, row.transactionId = (payment.legKey leg).2 := by
  obtain ⟨p, hp, hrefines⟩ :=
    (simulates unicode maxAttempts).reachable refines_init (reachable_services h)
  have hs := Platform.invariant_of_reachable hp
  have hunderway := Transactions.Pipeline.underway_of_reachable (reachable_pipeline h)
  have hpossible : Possible (step unicode timestamps maxAttempts)
      (fun e => ∃ event : Transactions.Pipeline.Event, e = .deliver event ∧
        event.carries = true)
      (fun t => Underway unicode timestamps s.pipeline.payments t.pipeline ∧
        ∀ m ∈ s.pipeline.payments.database.outbox, ∀ request, Asks unicode timestamps m request →
          Storable timestamps request → t.pipeline.ledger.Holds request.transactionId) s := by
    refine Possible.lift Event.deliver State.pipeline (fun x event pipeline hcarries hstep => ?_)
      (hunderway.possible_all hroom)
    obtain ⟨x', hx', hpipeline⟩ := step_deliver hcarries hstep
    exact ⟨⟨event, rfl, hcarries⟩, x', hx', hpipeline⟩
  have hkept : ∀ x e y, x.services = s.services →
      (∃ event : Transactions.Pipeline.Event, e = .deliver event ∧ event.carries = true) →
      step unicode timestamps maxAttempts x e = some y → y.services = s.services := by
    rintro x _ y hx ⟨event, rfl, -⟩ hstep
    exact (services_of_deliver hstep).trans hx
  obtain ⟨es, t, hrun, hes, ⟨-, hholds⟩, hservices⟩ := (hpossible.keep hkept rfl).run
  refine ⟨es, t, hrun, hes, hservices, fun payment hpayment leg hstatus => ?_⟩
  rw [← hrefines.payments] at hpayment ⊢
  have hrow : p.row payment.reference = some payment :=
    hs.payments.database.unique.find_of_mem hpayment
  refine ⟨entry_of_settled hrefines hs hrow hstatus, ?_⟩
  obtain ⟨m, hm, hreference, hreading, q, moment, movementReference, occurredAt, hrecorded⟩ :=
    announced_of_settled hs (hrefines.payments ▸ hunderway.sound.told) hrow hstatus
  refine ⟨m, hm, hreference, hreading, fun request hasks hstorable => ?_⟩
  obtain ⟨row, hrow', hid⟩ := hholds m
    (show m ∈ s.services.payments.database.outbox from hrefines.payments ▸ hm) request hasks
    hstorable
  refine ⟨row, hrow', hid.trans ?_⟩
  rw [key_of_asks hrecorded hasks hstorable]
  have hq : q.reference.value = payment.reference := by
    rw [← hreference, hrecorded.message, aggregateReference_recordMessage]
  rw [hq]
  cases leg <;> rfl

/-- The relay dies before it has published anything of the sample payment, and catches up. -/
theorem statements_catch_up_approvedRun :
    ∃ s, run (step .ascii Transactions.Ledger.sampleTimestamps 3) init
        ((approvedRun.map fun event => .serve event 0) ++ [.deliver (.relay (.drain 0)),
          .deliver (.relay (.select 0 0 0)), .deliver (.relay (.stop 0))]) = some s ∧
      s.ledger.rows.length = 0 ∧
      ∃ es t, run (step .ascii Transactions.Ledger.sampleTimestamps 3) s es = some t ∧
        ∀ payment ∈ s.services.payments.database.payments, payment.status = .approved →
          ∃ m ∈ s.services.payments.database.outbox, ∀ request,
            Asks .ascii Transactions.Ledger.sampleTimestamps m request →
            Storable Transactions.Ledger.sampleTimestamps request →
            ∃ row ∈ t.ledger.rows, row.transactionId = (payment.legKey .debit).2 := by
  have h : ((run (step .ascii Transactions.Ledger.sampleTimestamps 3) init
      ((approvedRun.map fun event => .serve event 0) ++ [.deliver (.relay (.drain 0)),
        .deliver (.relay (.select 0 0 0)), .deliver (.relay (.stop 0))])).map fun s =>
      (s.ledger.rows.length, s.services.payments.database.outbox.length)) = some (0, 3) := by
    decide +kernel
  obtain ⟨s, hrun, hsays⟩ := Option.map_eq_some_iff.mp h
  obtain ⟨hrows, houtbox⟩ := Prod.mk.inj hsays
  obtain ⟨es, t, hes, -, -, hall⟩ := statements_catch_up ⟨_, hrun⟩
    (by rw [hrows, houtbox, referenceBodyLength]; decide)
  refine ⟨s, hrun, hrows, es, t, hes, fun payment hpayment hstatus => ?_⟩
  obtain ⟨-, m, hm, -, -, hrequest⟩ := hall payment hpayment .debit hstatus
  exact ⟨m, hm, hrequest⟩

end Statements

end Deployment

end Paynad
