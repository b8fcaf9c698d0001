import Paynad.Payments.Protocol.Admission
import Paynad.Payments.Protocol.Recorded
import Paynad.Transactions.RecordTransactionRequest

/-!
# What the ledger reads of its events

The payload of a recorded movement is put together from the aggregate, from the
movement and from the metadata of the request, and the consumer validates it anew. The
edge takes any object for metadata, so all of the payload is valid but, at times, the
owner it names.
-/

namespace Paynad

namespace Payments

open Shared Transition TypeOrmPaymentRepository
open Transactions (Timestamps RecordTransactionRequest)

/-- The metadata of a request names no owner, or names one by a reference. -/
def NamesUser (metadata : Option JsonObject) : Prop :=
  ∀ value, metadata.bind (·.lookup "user_reference") = some value →
    value = .null ∨ ∃ text, value = .str text ∧ referencePattern .USER text = true

theorem referencePattern_unknownUser : referencePattern .USER unknownUser = true := by decide

theorem namesUser_iff {metadata : Option JsonObject} :
    (Rule.isReference .USER "user_reference").accepts (some (Json.orElse
      (metadata.bind (·.lookup "user_reference")) (.str unknownUser))) = true ↔
      NamesUser metadata := by
  rw [isReference_accepts, NamesUser]
  cases hvalue : metadata.bind (·.lookup "user_reference") with
  | none =>
      simp only [Json.orElse_none, reduceCtorEq, false_implies, implies_true, iff_true]
      exact ⟨_, rfl, referencePattern_unknownUser⟩
  | some value =>
      cases value with
      | null =>
          simp only [Json.orElse_null, Option.some.injEq, forall_eq', true_or, iff_true]
          exact ⟨_, rfl, referencePattern_unknownUser⟩
      | bool | num | str | arr | obj => simp [Json.orElse]

theorem movementType_accepts (leg : Leg) :
    isEnum ["DEBIT", "CREDIT", "REFUND"] (some (.str leg.movementType.text)) = true := by
  cases leg <;> decide

/-- The payload of a leg passes the validation of the ledger but for the owner and the
instant. -/
theorem recordMessage_valid {unicode : Unicode} {timestamps : Timestamps} {p : Payment}
    {moment : Moment} {leg : Leg} {movementReference : Option (Reference .trx)}
    {occurredAt : Date} (hamount : isValidAmount (.num p.money.amount) = true)
    (hdescription : DescriptionValid unicode p.description) :
    invalidProperties (RecordTransactionRequest.rules unicode timestamps)
        (recordMessage p moment (p.legMovement leg movementReference occurredAt)).payload = [] ↔
      NamesUser p.metadata ∧ timestamps.isISO8601 (toISOString occurredAt) = true := by
  obtain ⟨hne, hlength, hsafe⟩ := hdescription
  have hkey : (Rule.isTransactionId "transaction_id").accepts
      (some (.str (movementKey p.reference.value leg))) = true :=
    isTransactionId_accepts.mpr ⟨_, rfl, transactionIdRegex_movementKey p.reference leg⟩
  rw [invalidProperties_eq_nil_iff]
  simp only [RecordTransactionRequest.rules, List.forall_mem_cons, List.not_mem_nil,
    false_implies, implies_true, and_true]
  constructor
  · rintro ⟨-, -, -, -, huser, -, -, -, -, hiso⟩
    exact ⟨namesUser_iff.mp huser, hiso⟩
  · rintro ⟨huser, hiso⟩
    refine ⟨hkey, isReference_accepts.mpr ⟨_, rfl, referencePattern_value p.reference⟩,
      movementType_accepts leg,
      isReference_accepts.mpr ⟨_, rfl, referencePattern_value (p.legWallet leg)⟩,
      namesUser_iff.mpr huser, isAmount_accepts.mpr ⟨_, rfl, hamount⟩,
      isCurrency_accepts.mpr ?_, isSafeDescription_accepts.mpr ⟨_, rfl, hne, hlength, hsafe⟩,
      ?_, hiso⟩
    · cases p.money.currency
      rfl
    · rfl

namespace Workers

/-- The ledger accepts what an admitted payment records exactly if the metadata of its
request names no owner or a well-formed one, and the strict check takes its instant. -/
theorem ledger_event_valid_iff {unicode : Unicode} (timestamps : Timestamps) {body : Json}
    {request : InitiatePaymentRequest} {es : List Event} {s : State}
    {reference : Reference .pay} {m : OutboxMessage}
    (hparse : InitiatePaymentRequest.parse unicode body = some request)
    (hrun : run step init es = some s) (hcreated : CreatedFor request reference es)
    (hm : m ∈ s.database.outbox) (hreference : m.aggregateReference = reference.value)
    (htype : m.eventType = transactionRecorded) :
    ∃ occurredAt, m.payload.lookup "occurred_at" = some (.str (toISOString occurredAt)) ∧
      (invalidProperties (RecordTransactionRequest.rules unicode timestamps) m.payload = [] ↔
        NamesUser request.metadata ∧ timestamps.isISO8601 (toISOString occurredAt) = true) := by
  obtain ⟨p, moment, leg, movementReference, occurredAt, rfl, row, hrow, hidentity, -⟩ :=
    told_of_reachable ⟨es, hrun⟩ m hm htype
  obtain ⟨input, now, q, row', hyields, hinitiate, hrow', hidentity'⟩ := hcreated.row hrun
  have hp : p.reference = reference := Reference.ext hreference
  obtain rfl : row = row' := Option.some.inj (hrow.symm.trans (hp ▸ hrow'))
  have hcolumns : p.columns.identity = q.columns.identity := hidentity.symm.trans hidentity'
  obtain ⟨-, -, hmoney, -, -, hdescription, hmetadata⟩ := Payment.of_initiate hinitiate
  have hadmitted := (InitiatePaymentRequest.valid_of_parse hparse).admitted hyields
  have hamount : p.money.amount = input.money.amount :=
    (congrArg PaymentColumns.amount hcolumns).trans (congrArg Money.amount hmoney)
  have hdescription' : p.description = input.description :=
    (congrArg PaymentColumns.description hcolumns).trans hdescription
  have hmetadata' : p.metadata = request.metadata :=
    ((congrArg PaymentColumns.metadata hcolumns).trans hmetadata).trans hyields.metadata
  refine ⟨occurredAt, rfl, ?_⟩
  rw [← hmetadata']
  exact recordMessage_valid (hamount ▸ hadmitted.amount) (hdescription' ▸ hadmitted.description)

/-- The sample request with an owner in its metadata. -/
def ownedBody (owner : Json) : Json :=
  .obj [("transaction_id", .str "order-0001"),
    ("source_wallet_reference", .str "wlt_00000000000000000000000001"),
    ("destination_wallet_reference", .str "wlt_00000000000000000000000002"),
    ("amount", .num 500),
    ("currency", .str "XOF"),
    ("description", .str "Order 1"),
    ("lang", .str "fr"),
    ("metadata", .obj [("user_reference", owner)])]

def ownedRequest (owner : Json) : InitiatePaymentRequest :=
  { sampleRequest with metadata := some [("user_reference", owner)] }

def ownedInput (owner : Json) : InitiatePaymentInput :=
  { admittedInput with metadata := some [("user_reference", owner)] }

def ownedRun (owner : Json) : List Event :=
  .initiate 0 (ownedInput owner) sampleReference sampleMoment .none :: approvedRun.tail

def lenientTimestamps : Timestamps where
  isISO8601 _ := true
  parse _ := some 0
  storable _ := true

def faultsOf (s : State) : List (String × List String) :=
  s.database.outbox.map fun m => (m.eventType,
    invalidProperties (RecordTransactionRequest.rules Unicode.ascii lenientTimestamps) m.payload)

theorem ledger_event_malformed :
    ∃ s, InitiatePaymentRequest.parse Unicode.ascii (ownedBody (.num 42)) =
        some (ownedRequest (.num 42)) ∧
      run step init (ownedRun (.num 42)) = some s ∧
      CreatedFor (ownedRequest (.num 42)) sampleReference (ownedRun (.num 42)) ∧
      s.database.payments.map (·.status) = [.approved] ∧
      ∃ m ∈ s.database.outbox, m.eventType = transactionRecorded ∧
        invalidProperties (RecordTransactionRequest.rules Unicode.ascii lenientTimestamps)
          m.payload = ["user_reference"] := by
  have h : ((run step init (ownedRun (.num 42))).map fun s =>
      (s.database.payments.map (·.status), (faultsOf s).head?)) =
        some ([.approved], some (transactionRecorded, ["user_reference"])) := by
    decide +kernel
  obtain ⟨s, hrun, hs⟩ := Option.map_eq_some_iff.mp h
  obtain ⟨hstatuses, hfaults⟩ := Prod.mk.inj hs
  refine ⟨s, rfl, hrun, createdFor_of_first ⟨rfl, rfl, rfl, rfl, rfl, rfl⟩ (by decide) _,
    hstatuses, ?_⟩
  obtain ⟨m, hm, hfault⟩ := List.mem_map.mp (List.mem_of_mem_head? hfaults)
  obtain ⟨htype, hinvalid⟩ := Prod.mk.inj hfault
  exact ⟨m, hm, htype, hinvalid⟩

def ownerReference : Json := .str "usr_00000000000000000000000001"

theorem ledger_event_valid_ownedRun :
    ∃ s, run step init (ownedRun ownerReference) = some s ∧
      ∃ m ∈ s.database.outbox, m.eventType = transactionRecorded ∧
        invalidProperties (RecordTransactionRequest.rules Unicode.ascii lenientTimestamps)
          m.payload = [] := by
  have h : ((run step init (ownedRun ownerReference)).map fun s =>
      (s.database.outbox.map fun m => (m.aggregateReference, m.eventType)).head?) =
        some (some (sampleReference.value, transactionRecorded)) := by decide +kernel
  obtain ⟨s, hrun, hs⟩ := Option.map_eq_some_iff.mp h
  obtain ⟨m, hm, hkind⟩ := List.mem_map.mp (List.mem_of_mem_head? hs)
  obtain ⟨hreference, htype⟩ := Prod.mk.inj hkind
  have hparse : InitiatePaymentRequest.parse Unicode.ascii (ownedBody ownerReference) =
      some (ownedRequest ownerReference) := rfl
  have hnames : NamesUser (ownedRequest ownerReference).metadata := by
    intro value hvalue
    obtain rfl : ownerReference = value := Option.some.inj hvalue
    exact .inr ⟨_, rfl, by decide⟩
  obtain ⟨occurredAt, -, hvalid⟩ := ledger_event_valid_iff lenientTimestamps hparse hrun
    (createdFor_of_first ⟨rfl, rfl, rfl, rfl, rfl, rfl⟩ (by decide) _) hm hreference htype
  exact ⟨s, hrun, m, hm, htype, hvalid.mpr ⟨hnames, rfl⟩⟩

end Workers

end Payments

end Paynad
