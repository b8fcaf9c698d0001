import Paynad.Payments.Protocol.Legs

/-!
# The invariant of the workers and accounts

`Platform.Invariant` relates the rows, the commands that can still post, the
requests in flight and the movements of `accounts`. A leg is posted only once its
row is `Ready` for it; a payment has one owner from its debit on; and as soon as
a refund is decided the credit is `Closed`: its key has no movement, nothing in
flight can give it one and no worker may post it. The steps of the network keep
it here, those of the workers in `SettlementStep`.
-/

namespace Paynad

namespace Payments

open Shared Transition TypeOrmPaymentRepository

namespace Platform

/-- As far as its client knows, no request but its own was sent under `k`. -/
def Client.Fresh (wire : Wire MovementCall Movement Refusal) (k : String × String) :
    Client → Prop
  | .ready _ false => ¬ wire.Sent MovementCall.identifier k
  | .waiting id _ false => wire.OnlySent MovementCall.identifier id k
  | _ => True

namespace State

abbrev command (s : State) (worker : ℕ) : Option Command :=
  (s.payments.workers worker).command

abbrev row (s : State) (reference : String) : Option PaymentOrmEntity :=
  rowOf s.payments.database.payments reference

/-- Nothing can move a leg any more. -/
def Closed (s : State) (c : PaymentColumns) (leg : Leg) : Prop :=
  s.wire.Dead MovementCall.identifier Movement.identifier (c.legKey leg) ∧
    ∀ worker command, s.command worker = some command → command.mayPost leg →
      command.reference ≠ c.reference

end State

/-- What relates the payments service to `accounts` in every run. -/
structure Invariant (s : State) : Prop where
  payments : Workers.Invariant s.payments
  wire : s.wire.Sound MovementCall.identifier Movement.identifier MovementCall.Origin
  busy : ∀ worker, s.clients worker ≠ .idle →
    ∃ call, (s.payments.workers worker).await = some (.movement call)
  waiting : ∀ worker id attempt uncertain call,
    s.clients worker = .waiting id attempt uncertain →
    (s.payments.workers worker).await = some (.movement call) → s.wire.sent[id]? = some call
  requests : ∀ call ∈ s.wire.sent, ∃ leg p row, call = Payment.legCall p leg ∧
    s.row p.reference.value = some row ∧ row.identity = p.columns.identity ∧ row.Ready leg
  rows : ∀ reference row, s.row reference = some row → row.Backed s.wire.records
  held : ∀ worker command t, s.command worker = some command → command.aggregate = some t →
    t.payment.columns.Backed s.wire.records
  opened : ∀ worker command leg, s.command worker = some command → command.past leg →
    ∃ row, s.row command.reference = some row ∧ row.Ready leg
  owner : ∀ worker worker' command command', s.command worker = some command →
    s.command worker' = some command' → command.owns → command'.owns →
    command.reference = command'.reference → worker = worker'
  fresh : ∀ worker command leg row, s.command worker = some command → command.mayPost leg →
    leg ≠ .refund → s.row command.reference = some row →
    (s.clients worker).Fresh s.wire (row.legKey leg)
  decided : ∀ worker command t row, s.command worker = some command → command.decides →
    command.aggregate = some t → s.row command.reference = some row →
    t.revision = some row.version → s.Closed row.toPaymentColumns .credit
  closed : ∀ reference row, s.row reference = some row → row.Ready .refund →
    s.Closed row.toPaymentColumns .credit

theorem invariant_init : Invariant init := by
  refine ⟨Workers.invariant_init, Wire.sound_empty, ?_, ?_, ?_, ?_, ?_, ?_, ?_, ?_, ?_, ?_⟩
  · exact fun worker hbusy => absurd rfl hbusy
  · exact fun worker id attempt uncertain call hclient => nomatch hclient
  · exact fun call hcall => nomatch hcall
  · exact fun reference row hrow => nomatch hrow
  · exact fun worker command t hcommand => nomatch hcommand
  · exact fun worker command leg hcommand => nomatch hcommand
  · exact fun worker worker' command command' hcommand => nomatch hcommand
  · exact fun worker command leg row hcommand => nomatch hcommand
  · exact fun worker command t row hcommand => nomatch hcommand
  · exact fun reference row hrow => nomatch hrow

/-!
# Where a request comes from
-/

namespace Invariant

variable {s : State}

/-- A worker that does not wait for a movement has no request under way. -/
theorem client_idle (hs : Invariant s) {worker : ℕ}
    (hcall : ∀ call, (s.payments.workers worker).await ≠ some (.movement call)) :
    s.clients worker = .idle := by
  by_contra hbusy
  obtain ⟨call, hawait⟩ := hs.busy worker hbusy
  exact hcall call hawait

theorem row_of_aggregate (hs : Invariant s) {worker : ℕ} {command : Command} {t : Tracked}
    (hcommand : s.command worker = some command) (haggregate : command.aggregate = some t) :
    ∃ row, s.row command.reference = some row ∧
      row.identity = t.payment.columns.identity := by
  obtain ⟨row, -, hrow, -, hidentity, -⟩ :=
    (hs.payments.fits worker command hcommand).based t haggregate
  refine ⟨row, ?_, hidentity⟩
  rw [Command.reference_of_aggregate haggregate]
  exact hrow

theorem call (hs : Invariant s) {worker : ℕ} {call : MovementCall}
    (hawait : (s.payments.workers worker).await = some (.movement call)) :
    ∃ command leg t row, s.command worker = some command ∧ command.mayPost leg ∧
      command.leg = some leg ∧ command.aggregate = some t ∧ call = t.payment.legCall leg ∧
      s.row command.reference = some row ∧ row.identity = t.payment.columns.identity ∧
      row.Ready leg ∧ ∀ leg', command.mayPost leg' → leg' = leg := by
  cases hcommand : s.command worker with
  | none =>
      exfalso
      simp only [State.command] at hcommand
      cases hprocess : s.payments.workers worker with
      | idle => simp [hprocess, Process.await] at hawait
      | initiated reference => simp [hprocess, Process.await] at hawait
      | saga reference command => simp [hprocess, Process.command] at hcommand
      | recovery reference stage =>
          cases stage <;>
            simp [hprocess, Process.command, Process.await, ReconciliationJob.Stage.await]
              at hcommand hawait
  | some command =>
      have hcall : command.await = .movement call :=
        Option.some.inj ((Workers.await_of_command hcommand).symm.trans hawait)
      obtain ⟨leg, t, hleg, haggregate, rfl, hpost, honly⟩ := Command.call_of_await hcall
      obtain ⟨row, hrow, hready⟩ :=
        hs.opened worker command leg hcommand (Command.past_of_mayPost hpost)
      obtain ⟨row', hrow', hidentity⟩ := hs.row_of_aggregate hcommand haggregate
      obtain rfl := Option.some.inj (hrow.symm.trans hrow')
      exact ⟨command, leg, t, row, rfl, hpost, hleg, haggregate, rfl, hrow, hidentity, hready,
        honly⟩

theorem ready_of_sent (hs : Invariant s) {reference : String} {row : PaymentOrmEntity}
    {leg : Leg} (hrow : s.row reference = some row)
    (hsent : s.wire.Sent MovementCall.identifier (row.legKey leg)) : row.Ready leg := by
  obtain ⟨call, hcall, hkey⟩ := hsent
  obtain ⟨leg', p, row', rfl, hrow', hidentity, hready⟩ := hs.requests call hcall
  obtain ⟨q, hq⟩ := (hs.payments.database.rows reference row hrow).written
  rw [Payment.identifier_legCall, hq] at hkey
  obtain ⟨hreference, rfl⟩ := Payment.legKey_inj hkey
  have hsame : s.row q.reference.value = some row := by
    have href : row.reference = q.reference.value := congrArg PaymentColumns.reference hq
    rw [← href, reference_of_rowOf hrow]
    exact hrow
  rw [hreference] at hrow'
  obtain rfl := Option.some.inj (hrow'.symm.trans hsame)
  exact hready

/-- The key of a leg no request was sent under is dead. -/
theorem dead_of_not_ready (hs : Invariant s) {reference : String} {row : PaymentOrmEntity}
    {leg : Leg} (hrow : s.row reference = some row) (hready : ¬ row.Ready leg) :
    s.wire.Dead MovementCall.identifier Movement.identifier (row.legKey leg) :=
  hs.wire.dead_of_not_sent fun hsent => hready (hs.ready_of_sent hrow hsent)

/-!
# Steps of the network
-/

theorem network {s' : State} (hs : Invariant s) (hpayments : s'.payments = s.payments)
    (hwire : s'.wire.Sound MovementCall.identifier Movement.identifier MovementCall.Origin)
    (hbusy : ∀ worker, s'.clients worker ≠ .idle →
      ∃ call, (s.payments.workers worker).await = some (.movement call))
    (hwaiting : ∀ worker id attempt uncertain call,
      s'.clients worker = .waiting id attempt uncertain →
      (s.payments.workers worker).await = some (.movement call) →
      s'.wire.sent[id]? = some call)
    (hsent : ∀ call ∈ s'.wire.sent, call ∈ s.wire.sent ∨
      ∃ worker, (s.payments.workers worker).await = some (.movement call))
    (hrecords : ∀ m ∈ s.wire.records, m ∈ s'.wire.records)
    (hdead : ∀ reference row, s.row reference = some row → s.Closed row.toPaymentColumns .credit →
      s'.wire.Dead MovementCall.identifier Movement.identifier (row.legKey .credit))
    (hfresh : ∀ worker command leg row, s.command worker = some command →
      command.mayPost leg → leg ≠ .refund → s.row command.reference = some row →
      (s'.clients worker).Fresh s'.wire (row.legKey leg)) : Invariant s' := by
  obtain ⟨payments, clients, wire⟩ := s'
  obtain rfl : payments = s.payments := hpayments
  have hclosed : ∀ reference row, s.row reference = some row →
      s.Closed row.toPaymentColumns .credit →
      State.Closed ⟨s.payments, clients, wire⟩ row.toPaymentColumns .credit :=
    fun reference row hrow hclosed => ⟨hdead reference row hrow hclosed, hclosed.2⟩
  refine ⟨hs.payments, hwire, hbusy, hwaiting, ?_, ?_, ?_, hs.opened, hs.owner, hfresh, ?_, ?_⟩
  · intro call hcall
    rcases hsent call hcall with hcall | ⟨worker, hawait⟩
    · exact hs.requests call hcall
    · obtain ⟨command, leg, t, row, hcommand, -, -, haggregate, hcall, hrow, hidentity,
        hready, -⟩ := hs.call hawait
      refine ⟨leg, t.payment, row, hcall, ?_, hidentity, hready⟩
      rw [← Command.reference_of_aggregate haggregate]
      exact hrow
  · exact fun reference row hrow => (hs.rows reference row hrow).mono hrecords
  · exact fun worker command t hcommand ht =>
      (hs.held worker command t hcommand ht).mono hrecords
  · exact fun worker command t row hcommand hdecides ht hrow hversion =>
      hclosed _ row hrow
        (hs.decided worker command t row hcommand hdecides ht hrow hversion)
  · exact fun reference row hrow hready =>
      hclosed reference row hrow (hs.closed reference row hrow hready)

theorem legKey_inj (hs : Invariant s) {reference reference' : String}
    {row row' : PaymentOrmEntity} {leg leg' : Leg} (hrow : s.row reference = some row)
    (hrow' : s.row reference' = some row') (hkey : row.legKey leg = row'.legKey leg') :
    reference = reference' ∧ leg = leg' := by
  obtain ⟨p, hp⟩ := (hs.payments.database.rows _ row hrow).written
  obtain ⟨q, hq⟩ := (hs.payments.database.rows _ row' hrow').written
  rw [hp, hq] at hkey
  obtain ⟨hreference, rfl⟩ := Payment.legKey_inj hkey
  have href : row.reference = p.reference.value := congrArg PaymentColumns.reference hp
  have href' : row'.reference = q.reference.value := congrArg PaymentColumns.reference hq
  rw [← reference_of_rowOf hrow, ← reference_of_rowOf hrow', href, href', hreference]
  exact ⟨rfl, rfl⟩

/-- A POST never revives a closed leg: no worker may post it. -/
theorem dead_send (hs : Invariant s) {worker : ℕ} {call : MovementCall}
    (hawait : (s.payments.workers worker).await = some (.movement call)) {reference : String}
    {row : PaymentOrmEntity} {leg : Leg} (hrow : s.row reference = some row)
    (hclosed : s.Closed row.toPaymentColumns leg) :
    (s.wire.send call).Dead MovementCall.identifier Movement.identifier (row.legKey leg) := by
  obtain ⟨command, leg', t, row', hcommand, hpost, -, -, rfl, hrow', hidentity, -⟩ :=
    hs.call hawait
  refine hclosed.1.send fun heq => ?_
  rw [Payment.identifier_legCall, ← PaymentColumns.legKey_congr hidentity] at heq
  obtain ⟨hreference, rfl⟩ := hs.legKey_inj hrow' hrow heq
  exact hclosed.2 worker command hcommand hpost
    (hreference.trans (reference_of_rowOf hrow).symm)

theorem sent {s' : State} (hs : Invariant s) {worker attempt : ℕ} {uncertain : Bool}
    {call : MovementCall}
    (hawait : (s.payments.workers worker).await = some (.movement call))
    (hclient : s.clients worker = .ready attempt uncertain)
    (hpayments : s'.payments = s.payments)
    (hclients : s'.clients =
      Function.update s.clients worker (.waiting s.wire.next attempt uncertain))
    (hwire : s'.wire = s.wire.send call) : Invariant s' := by
  obtain ⟨command, leg, t, row, hcommand, hpost, -, haggregate, hcall, hrow, hidentity, hready,
    honly⟩ := hs.call hawait
  have hkey : call.identifier = row.legKey leg := by
    rw [hcall, Payment.identifier_legCall, PaymentColumns.legKey_congr hidentity]
  refine hs.network hpayments (hwire ▸ hs.wire.send call) ?_ ?_ ?_ ?_ ?_ ?_
  · intro other hbusy
    by_cases hother : other = worker
    · exact hother ▸ ⟨call, hawait⟩
    · rw [hclients, Function.update_of_ne hother] at hbusy
      exact hs.busy other hbusy
  · intro other id attempt' uncertain' call' hwaiting hawait'
    rw [hwire]
    by_cases hother : other = worker
    · subst hother
      rw [hclients, Function.update_self] at hwaiting
      cases hwaiting
      obtain rfl : call = call' := by
        have h := hawait.symm.trans hawait'
        cases h
        rfl
      exact Wire.getElem?_send_next call
    · rw [hclients, Function.update_of_ne hother] at hwaiting
      exact Wire.getElem?_send_of_some (hs.waiting _ _ _ _ _ hwaiting hawait')
  · intro call' hcall'
    rw [hwire] at hcall'
    rcases List.mem_append.mp hcall' with hcall' | hcall'
    · exact .inl hcall'
    · obtain rfl := List.mem_singleton.mp hcall'
      exact .inr ⟨worker, hawait⟩
  · intro m hm
    rw [hwire]
    exact hm
  · intro reference row' hrow' hclosed
    rw [hwire]
    exact hs.dead_send hawait hrow' hclosed
  · intro other command' leg' row' hcommand' hpost' hleg' hrow'
    rw [hwire]
    by_cases hother : other = worker
    · subst hother
      rw [hclients, Function.update_self]
      cases uncertain with
      | true => trivial
      | false =>
          have hfresh := hs.fresh other command' leg' row' hcommand' hpost' hleg' hrow'
          rw [hclient] at hfresh
          intro id call' hcall' hk
          rcases Wire.getElem?_send hcall' with hcall' | ⟨hid, -⟩
          · exact absurd ⟨call', List.mem_of_getElem? hcall', hk⟩ hfresh
          · exact hid
    · have hne : call.identifier ≠ row'.legKey leg' := by
        intro heq
        obtain ⟨hreference, rfl⟩ := hs.legKey_inj hrow' hrow (heq.symm.trans hkey)
        exact hother (hs.owner other worker command' command hcommand' hcommand
          (Command.owns_of_mayPost hpost' hleg') (Command.owns_of_mayPost hpost hleg')
          hreference)
      have hfresh := hs.fresh other command' leg' row' hcommand' hpost' hleg' hrow'
      rw [hclients, Function.update_of_ne hother]
      cases hclient' : s.clients other with
      | ready attempt' uncertain' =>
          cases uncertain' with
          | true => trivial
          | false =>
              rw [hclient'] at hfresh
              intro hsent
              rcases Wire.sent_send hsent with hsent | heq
              · exact hfresh hsent
              · exact hne heq
      | waiting id attempt' uncertain' =>
          cases uncertain' with
          | true => trivial
          | false =>
              rw [hclient'] at hfresh
              intro id' call' hcall' hk
              rcases Wire.getElem?_send hcall' with hcall' | ⟨-, rfl⟩
              · exact hfresh id' call' hcall' hk
              · exact absurd hk hne

theorem served {s' : State} (hs : Invariant s) (hpayments : s'.payments = s.payments)
    (hclients : s'.clients = s.clients)
    (hwire : s'.wire.Sound MovementCall.identifier Movement.identifier MovementCall.Origin)
    (hsent : s'.wire.sent = s.wire.sent)
    (hrecords : ∀ m ∈ s.wire.records, m ∈ s'.wire.records)
    (hdead : ∀ k, s.wire.Dead MovementCall.identifier Movement.identifier k →
      s'.wire.Dead MovementCall.identifier Movement.identifier k) : Invariant s' := by
  refine hs.network hpayments hwire ?_ ?_ ?_ hrecords (fun _ _ _ hclosed => hdead _ hclosed.1) ?_
  · rw [hclients]
    exact hs.busy
  · rw [hclients, hsent]
    exact hs.waiting
  · rw [hsent]
    exact fun call hcall => .inl hcall
  · intro worker command leg row hcommand hpost hleg hrow
    have hfresh := hs.fresh worker command leg row hcommand hpost hleg hrow
    rw [hclients]
    cases hclient : s.clients worker with
    | ready attempt uncertain =>
        cases uncertain with
        | true => trivial
        | false =>
            rw [hclient] at hfresh
            simpa only [Client.Fresh, Wire.Sent, hsent] using hfresh
    | waiting id attempt uncertain =>
        cases uncertain with
        | true => trivial
        | false =>
            rw [hclient] at hfresh
            simpa only [Client.Fresh, Wire.OnlySent, hsent] using hfresh

theorem retried {s' : State} (hs : Invariant s) {worker id attempt : ℕ} {uncertain : Bool}
    (hclient : s.clients worker = .waiting id attempt uncertain)
    (hpayments : s'.payments = s.payments)
    (hclients : s'.clients = Function.update s.clients worker (.ready (attempt + 1) true))
    (hwire : s'.wire = s.wire) : Invariant s' := by
  refine hs.network hpayments (hwire ▸ hs.wire) ?_ ?_ ?_ ?_ ?_ ?_
  · intro other hbusy
    by_cases hother : other = worker
    · subst hother
      refine hs.busy other fun hidle => ?_
      rw [hclient] at hidle
      cases hidle
    · rw [hclients, Function.update_of_ne hother] at hbusy
      exact hs.busy other hbusy
  · intro other id' attempt' uncertain' call hwaiting hawait
    rw [hwire]
    by_cases hother : other = worker
    · subst hother
      rw [hclients, Function.update_self] at hwaiting
      cases hwaiting
    · rw [hclients, Function.update_of_ne hother] at hwaiting
      exact hs.waiting _ _ _ _ _ hwaiting hawait
  · rw [hwire]
    exact fun call hcall => .inl hcall
  · rw [hwire]
    exact fun m hm => hm
  · rw [hwire]
    exact fun _ _ _ hclosed => hclosed.1
  · intro other command leg row hcommand hpost hleg hrow
    rw [hwire]
    by_cases hother : other = worker
    · subst hother
      rw [hclients, Function.update_self]
      trivial
    · rw [hclients, Function.update_of_ne hother]
      exact hs.fresh other command leg row hcommand hpost hleg hrow

end Invariant

end Platform

end Payments

end Paynad
