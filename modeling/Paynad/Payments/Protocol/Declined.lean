import Paynad.Payments.Protocol.MoneySafety

/-!
# When a Declined payment has no debit

A payment is declined on a refused debit, which proves that its debit can no
longer happen, or on a look up that does not find the debit, which proves nothing
while the request is still in flight or its sender still running. `Conclusive` is
what such a look up needs; where it holds, every Declined payment has its debit
closed, and a closed leg stays closed in every later state.
-/

namespace Paynad

namespace Payments

open Shared Transition TypeOrmPaymentRepository

namespace Command

def declines : Command → Prop
  | .debit (.saveDeclined _ _) => True
  | .compensate (.saveDeclined _) => True
  | _ => False

/-- Only these commands save a Declined payment. -/
theorem declines_of_transaction {command : Command} {work : Work}
    (hawait : command.await = .transaction work) (hshape : command.Shape)
    (hdeclined : work.aggregate.payment.columns.status = .declined) : command.declines := by
  have never : ∀ {p : Payment} {status : PaymentStatus}, p.status = status →
      status ≠ .declined → p.columns.status ≠ .declined := by
    rintro p status rfl hstatus
    exact hstatus
  rcases command with stage | stage | stage <;> cases stage <;> cases hawait
  case debit.saveProcessing => exact (never hshape.1.status nofun hdeclined).elim
  case debit.saveDebited => exact (never hshape.1.status nofun hdeclined).elim
  case debit.saveDeclined => trivial
  case credit.savePending => exact (never hshape.status nofun hdeclined).elim
  case credit.saveApproved => exact (never hshape.1.1 nofun hdeclined).elim
  case compensate.saveDebited => exact (never hshape.1.status nofun hdeclined).elim
  case compensate.saveDeclined => trivial
  case compensate.saveApproved => exact (never hshape.1.1 nofun hdeclined).elim
  case compensate.savePending => exact (never hshape.status nofun hdeclined).elim
  case compensate.saveCompensated => exact (never hshape.1.1 nofun hdeclined).elim

theorem ready_of_declines {command : Command} (hdeclines : command.declines)
    {c : PaymentColumns} (hbase : command.Base c) : c.Ready .debit := by
  have hstatus : c.status = .processing := by
    rcases command with stage | stage | stage <;> cases stage <;>
      first | exact (hdeclines : False).elim | exact hbase.1
  intro hpending
  cases hstatus.symm.trans hpending

theorem not_mayPost_of_declines {command : Command} {leg : Leg} (h : command.declines) :
    ¬ command.mayPost leg := by
  rcases command with stage | stage | stage <;> cases stage <;> cases leg <;>
    first | exact h.elim | exact id

/-- A payment is declined on a refusal, after a save that failed, or on a look up
that found nothing. -/
theorem Moves.declines {reference : String} {now : Date} {command command' : Command}
    {input : Input} (h : Moves reference now command input command')
    (hdeclines : command'.declines) :
    command = command' ∨
    (∃ t refusal, command = .debit (.debit t) ∧ input = .refused refusal) ∨
    (∃ t₀ m t e t', command = .debit (.saveDebited t₀ m) ∧ input = .failed t (.domain e) ∧
      command'.aggregate = some t' ∧
      t'.payment.debitTransactionReference = t.payment.debitTransactionReference) ∨
    ∃ t t', command = .compensate (.findDebit t) ∧ input = .found none ∧
      command'.aggregate = some t' ∧ t'.revision = t.revision := by
  cases h with
  | overtaken hok =>
      refine .inr (.inr (.inl ⟨_, _, _, _, _, rfl, rfl, rfl, ?_⟩))
      rw [(Payment.decline_ok hok).2]
  | _ => first
    | exact .inl rfl
    | exact (hdeclines : False).elim
    | exact .inr (.inl ⟨_, _, rfl, rfl⟩)
    | exact .inr (.inr (.inr ⟨_, _, rfl, rfl, rfl, rfl⟩))

end Command

namespace Platform

/-!
# Closed legs stay closed
-/

/-- Whatever the step, a leg that is open and closed stays so. -/
theorem Invariant.closed_step {maxAttempts : ℕ} {s s' : State} {e : Event} (hs : Invariant s)
    (hstep : Platform.step maxAttempts s e = some s') {reference : String} {row : PaymentOrmEntity}
    {leg : Leg} (hleg : leg ≠ .refund) (hrow : s.row reference = some row)
    (hready : row.Ready leg) (hclosed : s.Closed row.toPaymentColumns leg) :
    ∃ row', s'.row reference = some row' ∧ row'.identity = row.identity ∧ row'.Ready leg ∧
      s'.Closed row'.toPaymentColumns leg := by
  -- The network leaves the rows and the commands alone.
  have hnetwork : s'.payments = s.payments →
      s'.wire.Dead MovementCall.identifier Movement.identifier (row.legKey leg) →
      ∃ row', s'.row reference = some row' ∧ row'.identity = row.identity ∧ row'.Ready leg ∧
        s'.Closed row'.toPaymentColumns leg := by
    intro hpayments hdead
    refine ⟨row, by rw [State.row, hpayments]; exact hrow, rfl, hready, hdead, ?_⟩
    intro worker command hcommand
    rw [State.command, hpayments] at hcommand
    exact hclosed.2 worker command hcommand
  cases step_cases hstep with
  | moved event hinternal =>
      obtain ⟨row', hrow', hidentity, hready'⟩ := hinternal.ready hs hrow hready
      exact ⟨row', hrow', hidentity, hready',
        hinternal.closed hs hleg hrow hready hidentity hclosed⟩
  | sent worker attempt uncertain call hawait hclient hpayments hclients hwire =>
      refine hnetwork hpayments ?_
      rw [hwire]
      exact hs.dead_send hawait hrow hclosed
  | applied id call movement balanceAfter hrequest hpayments hclients hwire =>
      refine hnetwork hpayments ?_
      rw [hwire]
      exact hclosed.1.apply hrequest rfl
  | refused id call refusal hrequest hrefusable hpayments hclients hwire =>
      refine hnetwork hpayments ?_
      rw [hwire]
      exact hclosed.1.answer id (.inr refusal)
  | retried worker id attempt uncertain hclient hpayments hclients hwire =>
      refine hnetwork hpayments ?_
      rw [hwire]
      exact hclosed.1

/-- Once a leg is closed, no later state has a movement of it. -/
theorem Invariant.closed_run {maxAttempts : ℕ} {s s' : State} {es : List Event}
    (hs : Invariant s) (hrun : run (Platform.step maxAttempts) s es = some s') {reference : String}
    {row : PaymentOrmEntity} {leg : Leg} (hleg : leg ≠ .refund)
    (hrow : s.row reference = some row) (hready : row.Ready leg)
    (hclosed : s.Closed row.toPaymentColumns leg) :
    s'.movements row.toPaymentColumns leg = [] := by
  obtain ⟨-, row', -, hidentity, -, hclosed'⟩ := run_invariant
    (I := fun s' => Invariant s' ∧ ∃ row', s'.row reference = some row' ∧
      row'.identity = row.identity ∧ row'.Ready leg ∧ s'.Closed row'.toPaymentColumns leg)
    (fun t e t' ⟨ht, row', hrow', hidentity, hready', hclosed'⟩ hstep => by
      obtain ⟨row'', hrow'', hidentity', hready'', hclosed''⟩ :=
        ht.closed_step hstep hleg hrow' hready' hclosed'
      exact ⟨ht.step hstep, row'', hrow'', hidentity'.trans hidentity, hready'', hclosed''⟩)
    hrun ⟨hs, row, hrow, rfl, hready, hclosed⟩
  rw [movements_eq_nil_iff, ← PaymentColumns.legKey_congr hidentity]
  exact hclosed'.1.1

/-!
# Declining on a look up
-/

/-- Where `confirmDebit` reads that there is no debit, none can come any more: no
request is in flight under its key and no worker is at the POST of that debit. -/
def Conclusive (s : State) (e : Event) : Prop :=
  ∀ worker now t, e = .lookUp worker true now →
    s.command worker = some (.compensate (.findDebit t)) →
    ¬ s.wire.Recorded Movement.identifier (t.payment.columns.legKey .debit) →
    s.Closed t.payment.columns .debit

/-- The debit of a Declined payment is closed, from the decision on. -/
structure DeclinedClosed (s : State) : Prop where
  declining : ∀ worker command t row, s.command worker = some command → command.declines →
    command.aggregate = some t → s.row command.reference = some row →
    t.revision = some row.version → s.Closed row.toPaymentColumns .debit
  declined : ∀ reference row, s.row reference = some row → row.status = .declined →
    s.Closed row.toPaymentColumns .debit

theorem declinedClosed_init : DeclinedClosed init :=
  ⟨(fun _ _ _ _ hcommand => nomatch hcommand), (fun _ _ hrow => nomatch hrow)⟩

theorem ready_of_declined {row : PaymentOrmEntity} (h : row.status = .declined) :
    row.Ready .debit := fun hpending => nomatch h.symm.trans hpending

theorem base_of_current {s : Workers.State} (hs : Workers.Invariant s) {worker : ℕ}
    {command : Command} {t : Tracked} {row : PaymentOrmEntity}
    (hcommand : (s.workers worker).command = some command) (ht : command.aggregate = some t)
    (hrow : rowOf s.database.payments command.reference = some row)
    (hversion : t.revision = some row.version) : command.Base row.toPaymentColumns := by
  obtain ⟨row', revision, hrow', hrevision, -, -, hbase⟩ :=
    (hs.fits worker command hcommand).based t ht
  rw [← Command.reference_of_aggregate ht] at hrow'
  cases hrow.symm.trans hrow'
  exact hbase (Option.some.inj (hrevision.symm.trans hversion))

/-- What is about to be saved as Declined is declined for good. -/
theorem declining_of_current {s : Workers.State} (hs : Workers.Invariant s) {worker : ℕ}
    {command : Command} {t : Tracked} {row : PaymentOrmEntity}
    (hcommand : (s.workers worker).command = some command) (hdeclines : command.declines)
    (ht : command.aggregate = some t)
    (hrow : rowOf s.database.payments command.reference = some row)
    (hversion : t.revision = some row.version) : t.payment.Declining := by
  have hbase := base_of_current hs hcommand ht hrow hversion
  have hshape := (hs.fits worker command hcommand).shape
  rcases command with stage | stage | stage <;> cases stage <;>
    try exact (hdeclines : False).elim
  case debit.saveDeclined =>
      cases ht
      exact hbase.2.2
  case compensate.saveDeclined =>
      cases ht
      exact hshape

/-- The decision to decline closes the debit. -/
theorem Internal.declining {s s' : State} {event : Workers.Event} {e : Event}
    (h : Internal s s' event) (hs : Invariant s) (hd : DeclinedClosed s)
    (hlabel : Resolves e event)
    (hconclusive : Conclusive s e) {worker : ℕ} {command' : Command} {t' : Tracked}
    {row' : PaymentOrmEntity} (hcommand' : s'.command worker = some command')
    (hdeclines : command'.declines) (ht' : command'.aggregate = some t')
    (hrow' : s'.row command'.reference = some row') (hversion : t'.revision = some row'.version) :
    s'.Closed row'.toPaymentColumns .debit := by
  have hstays : s.command worker = some command' →
      s'.Closed row'.toPaymentColumns .debit := by
    intro hcommand
    obtain ⟨row, hrow, hrevision, hbase, hidentity⟩ :=
      h.row_of_current hs hcommand ht' hrow' hversion
    exact h.closed hs (by decide) hrow (Command.ready_of_declines hdeclines hbase) hidentity
      (hd.declining worker command' t' row hcommand hdeclines ht' hrow hrevision)
  cases h.continues hs hcommand' with
  | kept hcommand => exact hstays hcommand
  | first r hfirst => rcases hfirst with rfl | rfl <;> exact hdeclines.elim
  | moved command input now hworker hcommand hmoves hreference hheard =>
      subst hworker
      have hstops : ¬ command'.mayPost .debit := Command.not_mayPost_of_declines hdeclines
      rcases hmoves.declines hdeclines with
        rfl | ⟨t, refusal, rfl, rfl⟩ | ⟨t₀, m, t, error, t₁, rfl, rfl, ht₁, hdebit⟩ |
        ⟨t, t₁, rfl, rfl, ht₁, hrevision⟩
      · exact hstays hcommand
      · obtain ⟨now', hevent⟩ := hheard.of_answer
          (show (Answer.refused refusal).input = _ from rfl)
        exact h.closed_of_refused hs hcommand hcommand' (h.learned _ _ _ hevent) rfl rfl trivial
          hstops (by decide) hreference hrow'
      · -- The save of the debit was refused: what it leaves is never saved as Declined.
        exfalso
        cases ht'.symm.trans ht₁
        cases hheard.aggregate_of_failed
        have hrecorded := (hs.payments.fits _ _ hcommand).shape.2
        rw [← hdebit] at hrecorded
        have hdeclined : t'.payment.Declining :=
          declining_of_current (hs.payments.step h.step) hcommand' hdeclines ht' hrow' hversion
        have hcoherent := hdeclined.2.1
        have hstatus : t'.payment.columns.status = .declined := hdeclined.1
        simp only [PaymentColumns.Coherent, hstatus] at hcoherent
        simp [hrecorded] at hcoherent
      · obtain ⟨now', hevent⟩ := hheard.of_answer (show (Answer.found none).input = _ from rfl)
        cases ht'.symm.trans ht₁
        obtain ⟨row, hrow, -, hbase, hidentity⟩ :=
          h.row_of_current hs hcommand rfl (hreference ▸ hrow') (hrevision ▸ hversion)
        have hcolumns : row.toPaymentColumns = t.payment.columns := hbase t rfl
        have hprocessing := (hs.payments.fits _ _ hcommand).shape.1.status
        refine h.closed hs (by decide) hrow ?_ hidentity ?_
        · rw [hcolumns]
          intro hpending
          cases hprocessing.symm.trans hpending
        · rw [hcolumns]
          refine hconclusive _ _ t (hevent ▸ hlabel).lookUp_of_absent hcommand ?_
          cases h.learned _ _ _ hevent with
          | absent wallet key hawait hnone =>
              cases (Workers.await_of_command hcommand).symm.trans hawait
              exact hnone

/-- A step whose look ups are conclusive keeps the debits of Declined payments closed. -/
theorem DeclinedClosed.step {maxAttempts : ℕ} {s s' : State} {e : Event} (hs : Invariant s)
    (hd : DeclinedClosed s) (hconclusive : Conclusive s e)
    (hstep : Platform.step maxAttempts s e = some s') : DeclinedClosed s' := by
  have hnetwork : s'.payments = s.payments → DeclinedClosed s' := by
    intro hpayments
    have hstays : ∀ {reference : String} {row : PaymentOrmEntity},
        s.row reference = some row → row.Ready .debit → s.Closed row.toPaymentColumns .debit →
        s'.Closed row.toPaymentColumns .debit := by
      intro reference row hrow hready hclosed
      obtain ⟨row', hrow', -, -, hclosed'⟩ :=
        hs.closed_step hstep (show Leg.debit ≠ .refund from nofun) hrow hready hclosed
      rw [State.row, hpayments] at hrow'
      cases hrow.symm.trans hrow'
      exact hclosed'
    refine ⟨fun worker command t row hcommand hdeclines ht hrow hversion => ?_,
      fun reference row hrow hstatus => ?_⟩
    · rw [State.command, hpayments] at hcommand
      rw [State.row, hpayments] at hrow
      have hbase := base_of_current hs.payments hcommand ht hrow hversion
      exact hstays hrow (Command.ready_of_declines hdeclines hbase)
        (hd.declining worker command t row hcommand hdeclines ht hrow hversion)
    · rw [State.row, hpayments] at hrow
      exact hstays hrow (ready_of_declined hstatus) (hd.declined reference row hrow hstatus)
  cases step_cases hstep with
  | moved event hinternal hlabel =>
      refine ⟨fun worker command t row hcommand hdeclines ht hrow hversion =>
        hinternal.declining hs hd hlabel hconclusive hcommand hdeclines ht hrow hversion,
        fun reference row' hrow' hstatus => ?_⟩
      have hidentity : ∀ {row : PaymentOrmEntity}, s.row reference = some row →
          row'.identity = row.identity := by
        intro row hrow
        obtain ⟨row'', hrow'', hprecedes⟩ := hinternal.evolves hs _ row hrow
        cases hrow'.symm.trans hrow''
        exact hprecedes.identity
      rcases ((Workers.step_cases hinternal.step).2.rows hs.payments).origin hrow' with
        ⟨row, hrow, hcolumns, -⟩ | ⟨-, hpending, -⟩ |
        ⟨command, work, row, hcommand, hawait, haggregate, hsame, hrow, hbase, hrevision, -, -,
          hcolumns⟩
      · have hdeclined : row.status = .declined := by
          rw [← hstatus, hcolumns]
        exact hinternal.closed hs (nofun) hrow (ready_of_declined hdeclined) (hidentity hrow)
          (hd.declined reference row hrow hdeclined)
      · cases hpending.symm.trans hstatus
      · have hreference : command.reference = reference :=
          (Command.reference_of_aggregate haggregate).trans hsame
        have hdeclines := Command.declines_of_transaction hawait
          (hs.payments.fits _ command hcommand).shape (hcolumns ▸ hstatus)
        exact hinternal.closed hs (nofun) hrow (Command.ready_of_declines hdeclines hbase)
          (hidentity hrow) (hd.declining _ command _ row hcommand hdeclines haggregate
            (hreference ▸ hrow) hrevision)
  | sent _ _ _ _ _ _ hpayments => exact hnetwork hpayments
  | applied _ _ _ _ _ hpayments => exact hnetwork hpayments
  | refused _ _ _ _ _ hpayments => exact hnetwork hpayments
  | retried _ _ _ _ _ hpayments => exact hnetwork hpayments

/-!
# The debits of Declined payments
-/

/-- In a run whose look ups for a debit are conclusive, a Declined payment has no
debit, in the state that is reached and in every later one. -/
theorem declined_debit {maxAttempts : ℕ} {es fs : List Event} {s s' : State}
    (h : RunsUnder (step maxAttempts) Conclusive init es s) {row : PaymentOrmEntity}
    (hrow : row ∈ s.payments.database.payments) (hstatus : row.status = .declined)
    (hlater : run (step maxAttempts) s fs = some s') :
    s'.movements row.toPaymentColumns .debit = [] := by
  obtain ⟨hs, hd⟩ := h.invariant (I := fun s => Invariant s ∧ DeclinedClosed s)
    (fun s e s' hI hconclusive hstep =>
      ⟨hI.1.step hstep, hI.2.step hI.1 hconclusive hstep⟩)
    ⟨invariant_init, declinedClosed_init⟩
  have hfind : s.row row.reference = some row := hs.payments.database.unique.find_of_mem hrow
  exact hs.closed_run hlater (nofun) hfind (ready_of_declined hstatus)
    (hd.declined _ row hfind hstatus)

/-- Nothing has been sent, and no other worker runs a command. -/
structure Unsent (worker : ℕ) (s : State) : Prop where
  wire : s.wire = .empty
  others : ∀ other, other ≠ worker → s.command other = none

def Unposted (worker : ℕ) : Event → Prop
  | .internal event => event.worker = worker
  | .lookUp worker' _ _ => worker' = worker
  | _ => False

theorem Resolves.worker_of_unposted {e : Event} {event : Workers.Event} {worker : ℕ}
    (h : Resolves e event) (he : Unposted worker e) : event.worker = worker := by
  cases h with
  | internal => exact he
  | lookUp => exact he
  | receive => exact he.elim
  | fail => exact he.elim
  | circuitOpen => exact he.elim

theorem Unsent.step {maxAttempts worker : ℕ} {s s' : State} {e : Event} (h : Unsent worker s)
    (he : Unposted worker e) (hstep : Platform.step maxAttempts s e = some s') :
    Unsent worker s' := by
  have hrequest : ∀ id, s.wire.request? id = none := by
    intro id
    rw [h.wire]
    rfl
  cases step_cases hstep with
  | moved event hinternal hlabel =>
      refine ⟨hinternal.wire.trans h.wire, fun other hother => ?_⟩
      have hframe := hinternal.frame (hlabel.worker_of_unposted he ▸ Ne.symm hother)
      rw [State.command, hframe.1]
      exact h.others other hother
  | sent _ _ _ _ _ _ _ _ _ hevent =>
      rw [hevent] at he
      exact he.elim
  | applied id _ _ _ hsome => exact absurd (hsome.symm.trans (hrequest id)) (Option.some_ne_none _)
  | refused id _ _ hsome => exact absurd (hsome.symm.trans (hrequest id)) (Option.some_ne_none _)
  | retried _ _ _ _ _ hpayments _ hwire =>
      refine ⟨hwire.trans h.wire, fun other hother => ?_⟩
      rw [State.command, hpayments]
      exact h.others other hother

/-- A worker that is alone, and has sent nothing, finds no debit that could still come. -/
theorem Unsent.conclusive {worker : ℕ} {s : State} {e : Event} (h : Unsent worker s)
    (he : Unposted worker e) : Conclusive s e := by
  rintro worker' now t rfl hfind -
  obtain rfl : worker' = worker := he
  refine ⟨?_, fun other command hcommand hpost => ?_⟩
  · rw [h.wire]
    exact ⟨fun ⟨_, hrecord, _⟩ => List.not_mem_nil hrecord,
      fun ⟨_, hflight, _⟩ => List.not_mem_nil hflight⟩
  · by_cases hother : other = worker'
    · subst hother
      obtain rfl : command = .compensate (.findDebit t) :=
        Option.some.inj (hcommand.symm.trans hfind)
      exact hpost.elim
    · exact absurd (hcommand.symm.trans (h.others other hother)) (Option.some_ne_none _)

/-- A worker crashes before it posts the debit; the payment is recovered, and declined. -/
def declinedRun : List Event :=
  [.internal (.initiate 0 Workers.sampleInput Workers.sampleReference Workers.sampleMoment .none),
    .internal (.start 0), sampleQuery, sampleQuery, .internal (.crash 0),
    .internal (.recover 0 Workers.sampleReference), sampleQuery, sampleQuery,
    .lookUp 0 true Workers.sampleMoment.now, sampleQuery]

theorem declined_debit_declinedRun :
    ∃ s, run (step 3) init declinedRun = some s ∧
      s.payments.database.payments.map (·.status) = [.declined] ∧
      ∀ row ∈ s.payments.database.payments, row.status = .declined →
        s.movements row.toPaymentColumns .debit = [] := by
  have h : (run (step 3) init declinedRun).map
      (fun s => s.payments.database.payments.map (·.status)) = some [.declined] := by
    decide +kernel
  obtain ⟨s, hrun, hstatuses⟩ := Option.map_eq_some_iff.mp h
  have hunder : RunsUnder (step 3) Conclusive init declinedRun s :=
    runsUnder_of_invariant (I := Unsent 0) (A := Unposted 0)
      (fun _ _ _ hs he hstep => hs.step he hstep) (fun _ _ hs he => hs.conclusive he) hrun
      (by simp [declinedRun, sampleQuery, Unposted, Workers.Event.worker])
      ⟨rfl, fun _ _ => rfl⟩
  exact ⟨s, hrun, hstatuses, fun row hrow hstatus =>
    declined_debit hunder hrow hstatus (run_nil _ _)⟩

/-- The POST of a debit is still in flight when its sender crashes. The reconciler
finds no debit and declines the payment; then the POST is served. -/
def lateDebitRun : List Event :=
  [.internal (.initiate 0 Workers.sampleInput Workers.sampleReference Workers.sampleMoment .none),
    .internal (.start 0), sampleQuery, sampleQuery, .send 0, .internal (.crash 0),
    .internal (.recover 0 Workers.sampleReference), sampleQuery, sampleQuery,
    .lookUp 0 true Workers.sampleMoment.now, sampleQuery,
    .serve 0 (.apply Workers.sampleMovement.transactionReference 0)]

/-- A Declined payment whose source has been debited. -/
theorem lateDebitRun_declined_debit :
    ∃ s, run (step 3) init lateDebitRun = some s ∧
      ∃ row ∈ s.payments.database.payments, row.status = .declined ∧
        s.movements row.toPaymentColumns .debit ≠ [] := by
  have h : (run (step 3) init lateDebitRun).map (fun s =>
      s.payments.database.payments.map fun row =>
        (row.status, (s.movements row.toPaymentColumns .debit).length)) =
      some [(.declined, 1)] := by
    decide +kernel
  obtain ⟨s, hrun, hrows⟩ := Option.map_eq_some_iff.mp h
  obtain ⟨row, hpayments, hrow⟩ := List.map_eq_singleton_iff.mp hrows
  obtain ⟨hstatus, hlength⟩ := Prod.mk.inj hrow
  refine ⟨s, hrun, row, ?_, hstatus, ?_⟩
  · rw [hpayments]
    exact List.mem_singleton_self row
  · exact List.ne_nil_of_length_eq_add_one hlength

end Platform

end Payments

end Paynad
