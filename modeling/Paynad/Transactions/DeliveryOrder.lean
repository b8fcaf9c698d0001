import Mathlib.Data.Multiset.Basic
import Paynad.Transactions.Ledger

/-!
# The order of deliveries

Two schedules that deliver the same messages and record each of them leave the same
ledger, up to what the server generates. An append whose COMMIT lost its answer is
reported by nobody: the redelivery finds the row and says that it was known.
-/

namespace Paynad

namespace Transactions

open Shared Transition

def Transaction.content (row : Transaction) : Transaction :=
  { row with id := "", reference := "", recordedAt := 0 }

theorem content_ofRequest {timestamps : Timestamps} {request : RecordTransactionRequest}
    {generated generated' : Generated} {row row' : Transaction}
    (h : Transaction.ofRequest timestamps request generated = some row)
    (h' : Transaction.ofRequest timestamps request generated' = some row') :
    row.content = row'.content := by
  obtain ⟨instant, hinstant, rfl⟩ := Option.map_eq_some_iff.mp h
  obtain ⟨instant', hinstant', rfl⟩ := Option.map_eq_some_iff.mp h'
  obtain rfl : instant = instant' := Option.some.inj (hinstant.symm.trans hinstant')
  rfl

namespace Ledger

variable {timestamps : Timestamps} {messages : Multiset RecordTransactionRequest}
  {s t : State} {es : List Event}

def Delivers (messages : Multiset RecordTransactionRequest) (es : List Event) : Prop :=
  ∀ c entry request, Event.deliver c entry request ∈ es → request ∈ messages

/-- A call has returned for a message. -/
def State.Recorded (s : State) (message : RecordTransactionRequest) : Prop :=
  ∃ c call outcome, s.calls c = some call ∧ call.request = message ∧
    call.stage = .returned outcome

/-- A call has reported that it created the row of an id. -/
def State.CreatedBy (s : State) (c : ℕ) (transactionId : String) : Prop :=
  ∃ call outcome, s.calls c = some call ∧ call.request.transactionId = transactionId ∧
    call.stage = .returned outcome ∧ outcome.created = true

/-- The database did what a call asked for and the call has not heard of it. -/
def LostAnswer (es : List Event) (c : ℕ) : Prop :=
  ∃ generated error, Event.advance c generated (.lost error) ∈ es

/-- The table that a run leaves for its messages, and what its calls have answered. -/
structure Settled (messages : Multiset RecordTransactionRequest) (es : List Event)
    (s : State) : Prop where
  unique : (s.rows.map (·.transactionId)).Nodup
  rows : ∀ transactionId, transactionId ∈ s.rows.map (·.transactionId) ↔
    ∃ message ∈ messages, message.transactionId = transactionId
  answers : ∀ c call outcome, s.calls c = some call → call.stage = .returned outcome →
    findByTransactionId s.rows call.request.transactionId = some outcome.transaction
  creator : ∀ transactionId c c', s.CreatedBy c transactionId → s.CreatedBy c' transactionId →
    c = c'
  created : ∀ message ∈ messages, (∃ c, s.CreatedBy c message.transactionId) ∨
    ∃ append ∈ s.appends, append.2.transactionId = message.transactionId ∧
      LostAnswer es append.1

theorem delivered_of_run (h : run (step timestamps) init es = some s) :
    ∀ c call, s.calls c = some call → ∃ entry, Event.deliver c entry call.request ∈ es := by
  refine run_induction (P := fun es s => ∀ c call, s.calls c = some call →
    ∃ entry, Event.deliver c entry call.request ∈ es)
    (fun c call hcall => absurd hcall (Option.some_ne_none _).symm) ?_ h
  intro es s e t hrun ih hstep c call hcall
  rcases call_of_step hstep hcall with rfl | ⟨call', hcall', hrequest, -⟩
  · exact ⟨call.entry, List.mem_append_right _ (List.mem_singleton_self _)⟩
  · obtain ⟨entry, hmem⟩ := ih c call' hcall'
    exact ⟨entry, List.mem_append_left _ (hrequest ▸ hmem)⟩

theorem reported_of_run (h : run (step timestamps) init es = some s) :
    ∀ append ∈ s.appends, (∃ call, s.calls append.1 = some call ∧
      call.stage = .returned ⟨append.2, true⟩) ∨ LostAnswer es append.1 := by
  refine run_induction (P := fun es s => ∀ append ∈ s.appends,
    (∃ call, s.calls append.1 = some call ∧ call.stage = .returned ⟨append.2, true⟩) ∨
      LostAnswer es append.1) (fun append hmem => absurd hmem List.not_mem_nil) ?_ h
  intro es s e t hrun ih hstep
  have hkept : ∀ append ∈ s.appends, (∃ call, t.calls append.1 = some call ∧
      call.stage = .returned ⟨append.2, true⟩) ∨ LostAnswer (es ++ [e]) append.1 := by
    intro append hmem
    rcases ih append hmem with ⟨call, hcall, hstage⟩ | ⟨generated, error, hlost⟩
    · obtain ⟨call', hcall', -, -, hsame⟩ := request_of_step hstep hcall
      obtain rfl := hsame (by rw [hstage]; rfl)
      exact .inl ⟨call', hcall', hstage⟩
    · exact .inr ⟨generated, error, List.mem_append_left _ hlost⟩
  cases step_cases hstep with
  | delivered c entry request hevent hnew hstate =>
      subst hstate
      exact hkept
  | moved c call stage hcall hover hreturned hstate =>
      subst hstate
      exact hkept
  | appended c call generated fault row stage hevent hcall hover hrow hnone hstage hstate =>
      intro append hmem
      rw [hstate] at hmem
      rcases List.mem_append.mp hmem with hmem | hmem
      · exact hkept append hmem
      · obtain rfl := List.mem_singleton.mp hmem
        rcases hstage with rfl | ⟨error, rfl, -⟩
        · refine .inl ⟨{ call with stage := .returned ⟨row, true⟩ }, ?_, rfl⟩
          rw [hstate]
          exact put_calls_self _ _ _
        · refine .inr ⟨generated, error, ?_⟩
          rw [hevent]
          exact List.mem_append_right _ (List.mem_singleton_self _)

theorem message_of_row (h : run (step timestamps) init es = some s)
    (hdelivers : Delivers messages es) {row : Transaction} (hrow : row ∈ s.rows) :
    ∃ message ∈ messages, ∃ generated,
      Transaction.ofRequest timestamps message generated = some row := by
  obtain ⟨append, hmem, rfl⟩ := List.mem_map.mp hrow
  obtain ⟨call, generated, hcall, hrow⟩ :=
    (sound_of_reachable ⟨es, h⟩).origin append hmem
  obtain ⟨entry, hdelivered⟩ := delivered_of_run h _ call hcall
  exact ⟨call.request, hdelivers _ _ _ hdelivered, generated, hrow⟩

/-- One run, whatever its schedule. -/
theorem settled_of_run (h : run (step timestamps) init es = some s)
    (hdelivers : Delivers messages es) (hrecorded : ∀ message ∈ messages, s.Recorded message) :
    Settled messages es s := by
  have hs := sound_of_reachable ⟨es, h⟩
  have hrow : ∀ message ∈ messages, ∃ row ∈ s.rows, row.transactionId = message.transactionId := by
    intro message hmessage
    obtain ⟨c, call, outcome, hcall, rfl, hstage⟩ := hrecorded message hmessage
    have hfind := hs.returned c call outcome hcall hstage
    exact ⟨outcome.transaction, Table.mem_of_find hfind, Table.key_of_find hfind⟩
  refine ⟨hs.unique_rows, fun transactionId => ⟨?_, ?_⟩, hs.returned, ?_, ?_⟩
  · intro hmem
    obtain ⟨row, hrow, rfl⟩ := List.mem_map.mp hmem
    obtain ⟨message, hmessage, generated, hof⟩ := message_of_row h hdelivers hrow
    exact ⟨message, hmessage, (transactionId_ofRequest hof).symm⟩
  · rintro ⟨message, hmessage, rfl⟩
    obtain ⟨row, hmem, hid⟩ := hrow message hmessage
    exact List.mem_map.mpr ⟨row, hmem, hid⟩
  · rintro transactionId c c' ⟨call, outcome, hcall, hid, hstage, hcreated⟩
      ⟨call', outcome', hcall', hid', hstage', hcreated'⟩
    have hfind := hs.returned c call outcome hcall hstage
    have hfind' := hs.returned c' call' outcome' hcall' hstage'
    have hsame := hs.append_unique (hs.created c call outcome hcall hstage hcreated)
      (hs.created c' call' outcome' hcall' hstage' hcreated')
      ((Table.key_of_find hfind).trans ((hid.trans hid'.symm).trans
        (Table.key_of_find hfind').symm))
    exact congrArg Prod.fst hsame
  · intro message hmessage
    obtain ⟨row, hmem, hid⟩ := hrow message hmessage
    obtain ⟨append, happend, rfl⟩ := List.mem_map.mp hmem
    rcases reported_of_run h append happend with ⟨call, hcall, hstage⟩ | hlost
    · obtain ⟨call', generated, hcall', hof⟩ := hs.origin append happend
      obtain rfl : call = call' := Option.some.inj (hcall.symm.trans hcall')
      exact .inl ⟨append.1, call, _, hcall, (transactionId_ofRequest hof).symm.trans hid, hstage,
        rfl⟩
    · exact .inr ⟨append, happend, hid, hlost⟩

/-- Two schedules of the same messages, each recorded in the end, leave one ledger. In
each, an id has one row, every call that returned did so with that row, and one call
reported it as new, unless the call that appended it lost the answer. -/
theorem delivery_order_irrelevant {s' : State} {es' : List Event}
    (hcontents : ∀ message ∈ messages, ∀ message' ∈ messages,
      message.transactionId = message'.transactionId → message = message')
    (h : run (step timestamps) init es = some s) (h' : run (step timestamps) init es' = some s')
    (hdelivers : Delivers messages es) (hdelivers' : Delivers messages es')
    (hrecorded : ∀ message ∈ messages, s.Recorded message)
    (hrecorded' : ∀ message ∈ messages, s'.Recorded message) :
    (s.rows.map Transaction.content).Perm (s'.rows.map Transaction.content) ∧
      Settled messages es s ∧ Settled messages es' s' := by
  have hsettled := settled_of_run h hdelivers hrecorded
  have hsettled' := settled_of_run h' hdelivers' hrecorded'
  refine ⟨Table.Unique.perm_map Transaction.content hsettled.unique hsettled'.unique ?_ ?_,
    hsettled, hsettled'⟩
  · intro transactionId
    rw [hsettled.rows, hsettled'.rows]
  · intro row hrow row' hrow' hid
    obtain ⟨message, hmessage, generated, hof⟩ := message_of_row h hdelivers hrow
    obtain ⟨message', hmessage', generated', hof'⟩ := message_of_row h' hdelivers' hrow'
    obtain rfl : message = message' := hcontents message hmessage message' hmessage' <| by
      rw [← transactionId_ofRequest hof, hid, transactionId_ofRequest hof']
    exact content_ofRequest hof hof'

def sampleMessage : RecordTransactionRequest where
  transactionId := "pay_00000000000000000000000001"
  paymentReference := "pay_00000000000000000000000001"
  type := .DEBIT
  walletReference := "wlt_00000000000000000000000001"
  userReference := "usr_00000000000000000000000000"
  amount := 500
  currency := .XOF
  description := "Order 1"
  status := .APPROVED
  occurredAt := "2026-09-06T10:15:00.000Z"

def otherGenerated : Generated :=
  ⟨"9f1c2b7e-4d10-4f2a-9a4c-8f7d3c2b1a06", "trx_00000000000000000000000002", 1788689702415,
    by decide⟩

def sampleTimestamps : Timestamps where
  isISO8601 text := text == "2026-09-06T10:15:00.000Z"
  parse text := if text = "2026-09-06T10:15:00.000Z" then some 1788689700000 else none
  storable _ := true

def terminated : DriverError := ⟨some "08006", none, "connection terminated"⟩

/-- An append whose COMMIT loses its answer, and the redelivery of its message. -/
def lostRun : List Event :=
  [.deliver 0 .queue sampleMessage, .advance 0 sampleGenerated .none,
    .advance 0 sampleGenerated (.lost terminated),
    .deliver 1 .queue sampleMessage, .advance 1 sampleGenerated .none]

def State.reported (s : State) (c : ℕ) : Option (RecordTransactionRequest × Option Bool) :=
  (s.calls c).map fun call => (call.request,
    match call.stage with
    | .returned outcome => some outcome.created
    | _ => none)

theorem recorded_of_reported {c : ℕ} {message : RecordTransactionRequest} {created : Bool}
    (h : s.reported c = some (message, some created)) : s.Recorded message := by
  obtain ⟨call, hcall, hsays⟩ := Option.map_eq_some_iff.mp h
  obtain ⟨hrequest, hreported⟩ := Prod.mk.inj hsays
  split at hreported
  · next outcome hstage => exact ⟨c, call, outcome, hcall, hrequest, hstage⟩
  · cases hreported

theorem delivers_of_forall (h : ∀ e ∈ es, ∀ c entry request,
    e = .deliver c entry request → request ∈ messages) : Delivers messages es :=
  fun c entry request hmem => h _ hmem c entry request rfl

theorem lostRun_unreported :
    ∃ s, run (step sampleTimestamps) init lostRun = some s ∧
      Delivers {sampleMessage} lostRun ∧
      (∀ message ∈ ({sampleMessage} : Multiset RecordTransactionRequest), s.Recorded message) ∧
      ∀ c, ¬ s.CreatedBy c sampleMessage.transactionId := by
  have h : ((run (step sampleTimestamps) init lostRun).map fun s =>
      (s.appends.map Prod.fst, s.reported 1, (s.calls 0).map fun call => call.stage)) =
      some ([0], some (sampleMessage, some false), some (.thrown terminated)) := by
    decide +kernel
  obtain ⟨s, hrun, hsays⟩ := Option.map_eq_some_iff.mp h
  obtain ⟨happends, hsays⟩ := Prod.mk.inj hsays
  obtain ⟨hreported, hthrown⟩ := Prod.mk.inj hsays
  refine ⟨s, hrun, delivers_of_forall (by simp [lostRun]), ?_, ?_⟩
  · intro message hmessage
    obtain rfl := Multiset.mem_singleton.mp hmessage
    exact recorded_of_reported hreported
  · rintro c ⟨call, outcome, hcall, -, hstage, hcreated⟩
    have happend := (sound_of_reachable ⟨lostRun, hrun⟩).created c call outcome hcall hstage
      hcreated
    have hc : c ∈ s.appends.map Prod.fst := List.mem_map_of_mem happend
    rw [happends] at hc
    obtain rfl := List.mem_singleton.mp hc
    rw [hcall] at hthrown
    have hover : call.stage = .thrown terminated := Option.some.inj hthrown
    rw [hstage] at hover
    cases hover

def creditMessage : RecordTransactionRequest :=
  { sampleMessage with
    transactionId := "trx_00000000000000000000000003"
    type := .CREDIT
    walletReference := "wlt_00000000000000000000000002" }

/-- The queue and the fallback race for the debit, and the queue loses; then comes the
credit. -/
def raceRun : List Event :=
  [.deliver 0 .http sampleMessage, .deliver 1 .queue sampleMessage,
    .advance 0 sampleGenerated .none, .advance 1 otherGenerated .none,
    .advance 0 sampleGenerated .none, .advance 1 otherGenerated .none,
    .advance 1 otherGenerated .none, .deliver 2 .queue creditMessage,
    .advance 2 otherGenerated .none, .advance 2 otherGenerated .none]

/-- The credit comes first, and the debit after it, redelivered as in `lostRun`. -/
def swappedRun : List Event :=
  [.deliver 2 .queue creditMessage, .advance 2 otherGenerated .none,
    .advance 2 otherGenerated .none] ++ lostRun

theorem delivery_order_irrelevant_raceRun :
    ∃ s s', run (step sampleTimestamps) init raceRun = some s ∧
      run (step sampleTimestamps) init swappedRun = some s' ∧
      s.rows.map (·.transactionId) =
        [sampleMessage.transactionId, creditMessage.transactionId] ∧
      s'.rows.map (·.transactionId) =
        [creditMessage.transactionId, sampleMessage.transactionId] ∧
      (s.rows.map Transaction.content).Perm (s'.rows.map Transaction.content) := by
  have h : ((run (step sampleTimestamps) init raceRun).map fun s =>
      (s.rows.map (·.transactionId), s.reported 1, s.reported 2)) =
      some ([sampleMessage.transactionId, creditMessage.transactionId],
        some (sampleMessage, some false), some (creditMessage, some true)) := by
    decide +kernel
  have h' : ((run (step sampleTimestamps) init swappedRun).map fun s =>
      (s.rows.map (·.transactionId), s.reported 1, s.reported 2)) =
      some ([creditMessage.transactionId, sampleMessage.transactionId],
        some (sampleMessage, some false), some (creditMessage, some true)) := by
    decide +kernel
  obtain ⟨s, hrun, hsays⟩ := Option.map_eq_some_iff.mp h
  obtain ⟨hids, hsays⟩ := Prod.mk.inj hsays
  obtain ⟨hdebit, hcredit⟩ := Prod.mk.inj hsays
  obtain ⟨s', hrun', hsays'⟩ := Option.map_eq_some_iff.mp h'
  obtain ⟨hids', hsays'⟩ := Prod.mk.inj hsays'
  obtain ⟨hdebit', hcredit'⟩ := Prod.mk.inj hsays'
  have hcontents : ∀ message ∈ ({sampleMessage, creditMessage} : Multiset _),
      ∀ message' ∈ ({sampleMessage, creditMessage} : Multiset _),
      message.transactionId = message'.transactionId → message = message' := by
    simp [sampleMessage, creditMessage]
  refine ⟨s, s', hrun, hrun', hids, hids', (delivery_order_irrelevant hcontents hrun hrun'
    (delivers_of_forall (by simp [raceRun])) (delivers_of_forall (by simp [swappedRun, lostRun])) ?_ ?_).1⟩
  · simpa using ⟨recorded_of_reported hdebit, recorded_of_reported hcredit⟩
  · simpa using ⟨recorded_of_reported hdebit', recorded_of_reported hcredit'⟩

end Ledger

end Transactions

end Paynad
