import Paynad.Payments.Protocol.Legs
import Paynad.Payments.Protocol.Recorded
import Paynad.Payments.Protocol.RelayRows
import Paynad.Transactions.DeliveryOrder
import Paynad.Transactions.EventsController

/-!
# From a payment to the ledger

The sagas fill the outbox of payments, the relay publishes it, the broker delivers what it
has accepted as often and in whatever order it likes, and the consumers of the ledger
record what passes validation, next to the HTTP fallback. A row that came through the queue
tells of a payment that has settled the leg of its transaction id.
-/

namespace Paynad

namespace Transactions

namespace Pipeline

open Shared Transition Payments TypeOrmPaymentRepository

structure State where
  payments : Workers.State
  relay : OutboxRelay.State
  ledger : Ledger.State

def init : State := ⟨Workers.init, OutboxRelay.init, Ledger.init⟩

inductive Event where
  /-- A step of a saga; the relay sees what its transaction commits from `now` on. -/
  | pay (event : Workers.Event) (now : Date)
  /-- A step of the relay or of the broker. -/
  | relay (event : OutboxRelay.Event)
  /-- The broker delivers an emission to `onTransactionRecorded`. -/
  | consume (c emission : ℕ)
  /-- A call of the consumers goes on, or the HTTP fallback delivers. -/
  | ledger (event : Ledger.Event)

/-- The request a consumer takes out of an emission; what is malformed is discarded. -/
def consumed (unicode : Unicode) (timestamps : Timestamps) (emission : OutboxRelay.Emission) :
    Option RecordTransactionRequest :=
  if emission.eventType = transactionRecorded ∧
      invalidProperties (RecordTransactionRequest.rules unicode timestamps) emission.payload = []
  then
    RecordTransactionRequest.read emission.payload
  else
    none

def committed (before after : Workers.State) : List OutboxMessage :=
  after.database.outbox.drop before.database.outbox.length

def step (unicode : Unicode) (timestamps : Timestamps) (s : State) : Event → Option State
  | .pay event now =>
      (Workers.step s.payments event).map fun payments =>
        { s with
          payments := payments
          relay := s.relay.enqueue (committed s.payments payments) now }
  | .relay (.enqueue _ _) => none
  | .relay event => (OutboxRelay.step s.relay event).map fun relay => { s with relay := relay }
  | .consume c n =>
      match s.relay.emissions[n]? with
      | none => none
      | some emission =>
          if n ∈ s.relay.accepted then
            match consumed unicode timestamps emission with
            | none => some s
            | some request =>
                (Ledger.step timestamps s.ledger (.deliver c .queue request)).map fun ledger =>
                  { s with ledger := ledger }
          else
            none
  | .ledger (.deliver _ .queue _) => none
  | .ledger event =>
      (Ledger.step timestamps s.ledger event).map fun ledger => { s with ledger := ledger }

/-! ## What every step keeps -/

def Carries (emission : OutboxRelay.Emission) (m : OutboxMessage) : Prop :=
  emission.eventType = m.eventType ∧ emission.payload = m.payload

def Asks (unicode : Unicode) (timestamps : Timestamps) (m : OutboxMessage)
    (request : RecordTransactionRequest) : Prop :=
  m.eventType = transactionRecorded ∧ Passes unicode timestamps (.obj m.payload) request

/-- Each part keeps its own invariant, and what passes from one to the next is committed. -/
structure Sound (unicode : Unicode) (timestamps : Timestamps) (s : State) : Prop where
  payments : Workers.Invariant s.payments
  told : Workers.Told s.payments
  relay : OutboxRelay.Sound s.relay
  ledger : Ledger.Sound timestamps s.ledger
  outbox : s.relay.rows.map (·.message) = s.payments.database.outbox
  emissions : ∀ emission ∈ s.relay.emissions,
    ∃ m ∈ s.payments.database.outbox, Carries emission m
  calls : ∀ c call, s.ledger.calls c = some call → call.entry = .queue →
    ∃ m ∈ s.payments.database.outbox, Asks unicode timestamps m call.request

section

variable {unicode : Unicode} {timestamps : Timestamps} {s t : State} {e : Event} {c : ℕ}
  {call : Call} {request : RecordTransactionRequest}

theorem sound_init : Sound unicode timestamps init where
  payments := Workers.invariant_init
  told _ hm := absurd hm List.not_mem_nil
  relay := OutboxRelay.sound_init
  ledger := Ledger.sound_init timestamps
  outbox := rfl
  emissions _ hemission := absurd hemission List.not_mem_nil
  calls _ _ hcall := absurd hcall (Option.some_ne_none _).symm

theorem asks_of_consumed {emission : OutboxRelay.Emission} {m : OutboxMessage}
    (h : consumed unicode timestamps emission = some request) (hcarries : Carries emission m) :
    Asks unicode timestamps m request := by
  rw [consumed] at h
  split_ifs at h with hvalid
  obtain ⟨htype, hpayload⟩ := hcarries
  rw [htype, hpayload] at hvalid
  exact ⟨hvalid.1, m.payload, rfl, hvalid.2, hpayload ▸ h⟩

theorem outbox_grows {p p' : Workers.State} {event : Workers.Event} (hp : Workers.Invariant p)
    (h : Workers.step p event = some p') :
    p'.database.outbox = p.database.outbox ++ committed p p' := by
  rcases Workers.outbox_of_step hp h with hsame | ⟨-, -, work, moment, -, -, houtbox, -⟩
  · rw [committed, hsame, List.drop_length, List.append_nil]
  · rw [committed, houtbox, List.drop_left]

theorem sound_pay {p : Workers.State} {event : Workers.Event} (now : Date)
    (hs : Sound unicode timestamps s) (h : Workers.step s.payments event = some p) :
    Sound unicode timestamps
      { s with payments := p, relay := s.relay.enqueue (committed s.payments p) now } := by
  have houtbox := outbox_grows hs.payments h
  have hsubset : ∀ m ∈ s.payments.database.outbox, m ∈ p.database.outbox := fun m hm =>
    houtbox ▸ List.mem_append_left _ hm
  refine ⟨hs.payments.step h, hs.told.step hs.payments h,
    OutboxRelay.step_sound hs.relay (e := .enqueue (committed s.payments p) now) rfl, hs.ledger,
    ?_, ?_, ?_⟩
  · simp only [OutboxRelay.State.enqueue, List.map_append, List.map_map, hs.outbox]
    rw [houtbox]
    exact congrArg _ (List.map_id _)
  · intro emission hemission
    obtain ⟨m, hm, hcarries⟩ := hs.emissions emission hemission
    exact ⟨m, hsubset m hm, hcarries⟩
  · intro c call hcall hentry
    obtain ⟨m, hm, hasks⟩ := hs.calls c call hcall hentry
    exact ⟨m, hsubset m hm, hasks⟩

theorem sound_relay {r : OutboxRelay.State} {event : OutboxRelay.Event}
    (hs : Sound unicode timestamps s) (h : OutboxRelay.step s.relay event = some r)
    (hevent : ∀ messages now, event ≠ .enqueue messages now) :
    Sound unicode timestamps { s with relay := r } := by
  refine ⟨hs.payments, hs.told, OutboxRelay.step_sound hs.relay h, hs.ledger,
    (OutboxRelay.messages_of_step hs.relay h hevent).trans hs.outbox, ?_, hs.calls⟩
  intro emission hemission
  rcases OutboxRelay.emissions_of_step h with hsame | ⟨w, index, id, row, -, hstage, hemits⟩
  · exact hs.emissions emission (hsame ▸ hemission)
  · have hmem : emission ∈ s.relay.emissions ++ [_] := hemits ▸ hemission
    rcases List.mem_append.mp hmem with hemission | hemission
    · exact hs.emissions emission hemission
    · obtain rfl := List.mem_singleton.mp hemission
      have howns : OutboxRelay.Owns s.relay w id row := by
        have hworking := hs.relay.workers w
        rwa [hstage] at hworking
      have hrow : row ∈ s.relay.rows := List.mem_of_getElem? howns.2.1
      exact ⟨row.message, hs.outbox ▸ List.mem_map_of_mem hrow, rfl, rfl⟩

theorem sound_ledger {l : Ledger.State} {event : Ledger.Event}
    (hs : Sound unicode timestamps s) (h : Ledger.step timestamps s.ledger event = some l)
    (hevent : ∀ c request, event = .deliver c .queue request →
      ∃ m ∈ s.payments.database.outbox, Asks unicode timestamps m request) :
    Sound unicode timestamps { s with ledger := l } := by
  refine ⟨hs.payments, hs.told, hs.relay, Ledger.sound_step hs.ledger h, hs.outbox,
    hs.emissions, ?_⟩
  intro c call hcall hentry
  rcases Ledger.call_of_step h hcall with hdelivered | ⟨call', hcall', hrequest, hentry'⟩
  · exact hevent c call.request (hentry ▸ hdelivered)
  · rw [← hrequest]
    exact hs.calls c call' hcall' (hentry'.trans hentry)

theorem sound_step (hs : Sound unicode timestamps s) (h : step unicode timestamps s e = some t) :
    Sound unicode timestamps t := by
  cases e with
  | pay event now =>
      obtain ⟨p, hp, rfl⟩ := Option.map_eq_some_iff.mp h
      exact sound_pay now hs hp
  | relay event =>
      cases event with
      | enqueue messages now => cases h
      | _ =>
          obtain ⟨r, hr, rfl⟩ := Option.map_eq_some_iff.mp h
          exact sound_relay hs hr fun _ _ => nofun
  | consume c n =>
      simp only [step] at h
      split at h
      · cases h
      · next emission hemission =>
          split_ifs at h with haccepted
          obtain ⟨m, hm, hcarries⟩ := hs.emissions emission (List.mem_of_getElem? hemission)
          split at h
          · obtain rfl := Option.some.inj h
            exact hs
          · next request hrequest =>
              obtain ⟨l, hl, rfl⟩ := Option.map_eq_some_iff.mp h
              refine sound_ledger hs hl fun c' request' hevent => ?_
              obtain ⟨-, -, rfl⟩ := Ledger.Event.deliver.inj hevent
              exact ⟨m, hm, asks_of_consumed hrequest hcarries⟩
  | ledger event =>
      have hother : (∀ c request, event ≠ .deliver c .queue request) →
          (Ledger.step timestamps s.ledger event).map (fun ledger =>
            { s with ledger := ledger }) = some t → Sound unicode timestamps t := by
        intro hne h
        obtain ⟨l, hl, rfl⟩ := Option.map_eq_some_iff.mp h
        exact sound_ledger hs hl fun c request hevent => absurd hevent (hne c request)
      cases event with
      | deliver c entry request =>
          cases entry with
          | queue => cases h
          | http => exact hother (fun _ _ => nofun) h
      | _ => exact hother (fun _ _ => nofun) h

theorem sound_of_reachable (h : Reachable (step unicode timestamps) init s) :
    Sound unicode timestamps s :=
  h.invariant sound_init fun _ _ _ hs hstep => sound_step hs hstep

end

/-! ## The rows of the queue -/

def transactionType : Leg → TransactionType
  | .debit => .DEBIT
  | .credit => .CREDIT
  | .refund => .REFUND

/-- A row is the movement of a leg of a payment that has settled it. -/
structure Backs (payment : PaymentOrmEntity) (leg : Leg) (row : Transaction) : Prop where
  status : payment.status = leg.settled
  key : payment.legKey leg = (row.walletReference, row.transactionId)
  type : row.type = transactionType leg
  amount : row.amount = payment.amount
  currency : row.currency.code = payment.currency.code
  paymentReference : row.paymentReference = payment.reference

def ThroughQueue (s : State) (row : Transaction) : Prop :=
  ∃ c call, (c, row) ∈ s.ledger.appends ∧ s.ledger.calls c = some call ∧ call.entry = .queue

section

variable {unicode : Unicode} {timestamps : Timestamps} {s : State}
  {request : RecordTransactionRequest} {row : Transaction}

theorem type_of_text {type : TransactionType} {leg : Leg}
    (h : type.text = leg.movementType.text) : type = transactionType leg := by
  cases leg <;> cases type <;> first | rfl | exact absurd h (by decide)

/-- What a message of the outbox asks for is the leg that its payment has settled. -/
theorem backs_of_asks {rows : List PaymentOrmEntity} {m : OutboxMessage} {p : Payment}
    {moment : Moment} {leg : Leg} {movementReference : Option (Reference .trx)}
    {occurredAt : Date} {generated : Generated}
    (hrecorded : Recorded rows m p moment leg movementReference occurredAt)
    (hasks : Asks unicode timestamps m request)
    (hrow : Transaction.ofRequest timestamps request generated = some row) :
    row.transactionId = movementKey p.reference.value leg ∧
      ∃ payment, rowOf rows p.reference.value = some payment ∧ Backs payment leg row := by
  obtain ⟨rfl, payment, hpayment, hidentity, hstatus⟩ := hrecorded
  obtain ⟨entries, hentries, hsays, -⟩ := says_of_passes hasks.2
  obtain rfl := Json.obj.inj hentries
  obtain ⟨instant, -, rfl⟩ := Option.map_eq_some_iff.mp hrow
  have htransactionId : movementKey p.reference.value leg = request.transactionId :=
    Json.str.inj (Option.some.inj hsays.transactionId)
  have hwallet : (p.legWallet leg).value = request.walletReference :=
    Json.str.inj (Option.some.inj hsays.walletReference)
  have htype : leg.movementType.text = request.type.text :=
    Json.str.inj (Option.some.inj hsays.type)
  have hamount : (p.money.amount : ℚ) = request.amount :=
    Json.num.inj (Option.some.inj hsays.amount)
  have hcurrency : p.money.currency.code = request.currency.code :=
    Json.str.inj (Option.some.inj hsays.currency)
  have hreference : p.reference.value = request.paymentReference :=
    Json.str.inj (Option.some.inj hsays.paymentReference)
  have hkey := PaymentColumns.legKey_congr hidentity leg
  rw [PaymentColumns.legKey_columns, hwallet, htransactionId] at hkey
  have hamount' : payment.amount = p.money.amount := congrArg PaymentColumns.amount hidentity
  have hcurrency' : payment.identity.currency = p.money.currency :=
    congrArg PaymentColumns.currency hidentity
  have hreference' : payment.reference = p.reference.value :=
    PaymentColumns.reference_congr hidentity
  exact ⟨htransactionId.symm, payment, hpayment,
    { status := hstatus
      key := hkey
      type := type_of_text htype.symm
      amount := (Rat.intCast_inj.mp hamount).symm.trans hamount'.symm
      currency := hcurrency.symm.trans (congrArg Payments.Currency.code hcurrency'.symm)
      paymentReference := hreference.symm.trans hreference'.symm }⟩

/-- A row that came through the queue is the movement of a settled payment, that of its
transaction id, and no movement has two rows. -/
theorem no_phantom_no_double (h : Reachable (step unicode timestamps) init s) :
    (∀ row, ThroughQueue s row → ∃ (reference : Reference .pay) (leg : Leg),
      row.transactionId = movementKey reference.value leg) ∧
    (∀ row, ThroughQueue s row → ∀ (reference : Reference .pay) (leg : Leg),
      row.transactionId = movementKey reference.value leg →
      ∃ payment, rowOf s.payments.database.payments reference.value = some payment ∧
        Backs payment leg row) ∧
    (s.ledger.rows.map (·.transactionId)).Nodup := by
  have hs := sound_of_reachable h
  have hbacked : ∀ row, ThroughQueue s row → ∃ (reference : Reference .pay) (leg : Leg),
      row.transactionId = movementKey reference.value leg ∧
        ∃ payment, rowOf s.payments.database.payments reference.value = some payment ∧
          Backs payment leg row := by
    rintro row ⟨c, call, happend, hcall, hentry⟩
    obtain ⟨call', generated, hcall', hrow⟩ := hs.ledger.origin _ happend
    obtain rfl : call' = call := Option.some.inj (hcall'.symm.trans hcall)
    obtain ⟨m, hm, hasks⟩ := hs.calls c call' hcall hentry
    obtain ⟨p, moment, leg, movementReference, occurredAt, hrecorded⟩ :=
      hs.told m hm hasks.1
    exact ⟨p.reference, leg, backs_of_asks hrecorded hasks hrow⟩
  refine ⟨fun row hrow => ?_, fun row hrow reference leg hid => ?_, hs.ledger.unique_rows⟩
  · obtain ⟨reference, leg, hid, -⟩ := hbacked row hrow
    exact ⟨reference, leg, hid⟩
  · obtain ⟨reference', leg', hid', hpayment⟩ := hbacked row hrow
    obtain ⟨rfl, rfl⟩ := movementKey_inj (hid'.symm.trans hid)
    exact hpayment

end

/-- The relay dies between the emission of a row and its commit, the row is published
again, and the two deliveries race. -/
def duplicatedRun : List Event :=
  (Workers.approvedRun.map fun event => .pay event 0) ++
    ([.drain 0, .select 0 0 0, .emit 0, .accept 0, .stop 0, .drain 1, .select 1 0 7000, .emit 1,
      .accept 1] : List OutboxRelay.Event).map .relay ++
    [.consume 0 1, .consume 1 0] ++
    ([.advance 0 Ledger.otherGenerated .none, .advance 1 sampleGenerated .none,
      .advance 0 Ledger.otherGenerated .none, .advance 1 sampleGenerated .none,
      .advance 1 sampleGenerated .none] : List Ledger.Event).map .ledger

theorem no_phantom_no_double_duplicatedRun :
    ∃ s, run (step Unicode.ascii Ledger.sampleTimestamps) init duplicatedRun = some s ∧
      ∃ row payment, s.ledger.rows = [row] ∧ ThroughQueue s row ∧
        rowOf s.payments.database.payments Workers.sampleReference.value = some payment ∧
        Backs payment .debit row := by
  have h : ((run (step Unicode.ascii Ledger.sampleTimestamps) init duplicatedRun).map fun s =>
      (s.ledger.appends.map fun append => (append.1, append.2.transactionId),
        (s.ledger.calls 0).map (·.entry))) =
      some ([(0, Workers.sampleReference.value)], some .queue) := by decide +kernel
  obtain ⟨s, hrun, hsays⟩ := Option.map_eq_some_iff.mp h
  obtain ⟨happends, hentry⟩ := Prod.mk.inj hsays
  obtain ⟨append, happends, hkey⟩ := List.map_eq_singleton_iff.mp happends
  obtain ⟨hc, hid⟩ := Prod.mk.inj hkey
  obtain ⟨call, hcall, hqueue⟩ := Option.map_eq_some_iff.mp hentry
  have hthrough : ThroughQueue s append.2 :=
    ⟨append.1, call, happends ▸ List.mem_singleton_self _, hc ▸ hcall, hqueue⟩
  obtain ⟨-, hbacked, -⟩ := no_phantom_no_double ⟨duplicatedRun, hrun⟩
  obtain ⟨payment, hpayment, hbacks⟩ :=
    hbacked append.2 hthrough Workers.sampleReference .debit hid
  refine ⟨s, hrun, append.2, payment, ?_, hthrough, hpayment, hbacks⟩
  rw [Ledger.State.rows, happends, List.map_singleton]

end Pipeline

end Transactions

end Paynad
