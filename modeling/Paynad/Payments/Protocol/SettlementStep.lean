import Paynad.Payments.Protocol.Settlement

/-!
# The steps of the workers keep the settlement

A step of the workers leaves the wire as it is, so what is to show is that the
next command of its worker, and the row it has saved, fit the messages that are
already there: a leg is opened before anything was sent for it, and a refund is
decided only when the credit can no longer happen.
-/

namespace Paynad

namespace Payments

open Shared Transition TypeOrmPaymentRepository

namespace Platform

/-- A worker that learns something was waiting for it. -/
theorem Learned.expected {s : State} {worker : ℕ} {answer : Answer}
    (h : Learned s worker answer) (hbusy : s.clients worker ≠ .idle →
      ∃ call, (s.payments.workers worker).await = some (.movement call)) :
    ∃ await, (s.payments.workers worker).await = some await ∧
      await.expects answer.input = true := by
  cases h with
  | moved id attempt uncertain m hclient hanswer =>
      obtain ⟨call, hawait⟩ := hbusy (by rw [hclient]; exact nofun)
      exact ⟨_, hawait, rfl⟩
  | refused id attempt refusal hclient hanswer =>
      obtain ⟨call, hawait⟩ := hbusy (by rw [hclient]; exact nofun)
      exact ⟨_, hawait, rfl⟩
  | unavailable hclient =>
      by_cases hidle : s.clients worker = .idle
      · obtain ⟨call, hawait⟩ := hclient hidle
        exact ⟨_, hawait, rfl⟩
      · obtain ⟨call, hawait⟩ := hbusy hidle
        exact ⟨_, hawait, rfl⟩
  | found wallet key m hawait hrecord hkey => exact ⟨_, hawait, rfl⟩
  | absent wallet key hawait hnone => exact ⟨_, hawait, rfl⟩
  | lookupUnavailable wallet key hawait => exact ⟨_, hawait, rfl⟩

/-- Where the command of a worker comes from, and what becomes of its client. -/
inductive Continues (s s' : State) (e : Workers.Event) (worker : ℕ) (command' : Command) :
    Prop
  | kept (hcommand : s.command worker = some command')
      (hclient : s'.clients worker = s.clients worker)
  | first (reference : String) (hfirst : command' = .debit (.find reference) ∨
      command' = .compensate (.find reference))
  | moved (command : Command) (input : Input) (now : Date) (hworker : worker = e.worker)
      (hcommand : s.command worker = some command)
      (hmoves : Command.Moves command.reference now command input command')
      (hreference : command'.reference = command.reference)
      (hheard : Workers.Heard s.payments s'.payments e worker command input)
      (hclient : s'.clients worker = s.clients worker ∨
        s'.clients worker = .idle ∧
          ∃ answer, Learned s worker answer ∧ answer.input = input)

namespace Internal

variable {s s' : State} {e : Workers.Event}

theorem client_kept (h : Internal s s' e) {worker : ℕ} (hcrash : e ≠ .crash worker)
    (hanswer : ∀ answer now, e ≠ .answer worker answer now) :
    s'.clients worker = s.clients worker := by
  rw [h.clients]
  cases e with
  | answer w answer now =>
      refine Function.update_of_ne ?_ _ _
      rintro rfl
      exact hanswer _ _ rfl
  | crash w =>
      refine Function.update_of_ne ?_ _ _
      rintro rfl
      exact hcrash rfl
  | _ => rfl

theorem continues (h : Internal s s' e) (hs : Invariant s) {worker : ℕ} {command' : Command}
    (hcommand' : s'.command worker = some command') : Continues s s' e worker command' := by
  by_cases hworker : e.worker = worker
  · subst hworker
    rcases (Workers.step_cases h.step).2.command hs.payments hcommand' with
      ⟨hsame, -, hcrash, hanswer⟩ | ⟨reference, hfirst⟩ |
      ⟨command, input, now, hcommand, hmoves, hreference, hheard, hcrash, hinput⟩
    · refine .kept ?_ (h.client_kept hcrash hanswer)
      rw [State.command, ← hsame]
      exact hcommand'
    · exact .first reference hfirst
    · refine .moved command input now rfl hcommand hmoves hreference hheard ?_
      by_cases hends : ∃ answer now, e = .answer e.worker answer now
      · obtain ⟨answer, now', hevent⟩ := hends
        refine .inr ⟨?_, answer, h.learned _ answer now' hevent,
          (hinput answer now' hevent).symm⟩
        rw [h.clients, hevent]
        exact Function.update_self ..
      · exact .inl (h.client_kept hcrash fun answer now' hevent =>
          hends ⟨answer, now', hevent⟩)
  · obtain ⟨hprocess, hclient⟩ := h.frame hworker
    refine .kept ?_ hclient
    rw [State.command, ← hprocess]
    exact hcommand'

theorem process_kept (h : Internal s s' e) (hs : Invariant s) {worker : ℕ}
    (hbusy : s'.clients worker ≠ .idle) : Frame worker s s' := by
  by_cases hworker : e.worker = worker
  · have hcrash : e ≠ .crash worker := by
      rintro rfl
      rw [h.clients] at hbusy
      exact hbusy (Function.update_self ..)
    have hanswer : ∀ answer now, e ≠ .answer worker answer now := by
      rintro answer now rfl
      rw [h.clients] at hbusy
      exact hbusy (Function.update_self ..)
    have hclient := h.client_kept hcrash hanswer
    refine ⟨?_, hclient⟩
    obtain ⟨call, hawait⟩ := hs.busy worker (hclient ▸ hbusy)
    subst hworker
    cases (Workers.step_cases h.step).2 with
    | quiet _ _ _ hsame => exact hsame
    | crashed hevent => exact absurd hevent hcrash
    | started hbefore => rw [hbefore] at hawait; cases hawait
    | initiated hbefore => rw [hbefore] at hawait; cases hawait
    | queried await moment fault input hawait' hquery =>
        rw [hawait] at hawait'
        cases hawait'
        cases hquery
    | answered _ answer now hevent => exact absurd hevent (hanswer answer now)
  · exact h.frame hworker

theorem evolves (h : Internal s s' e) (hs : Invariant s) :
    Evolves s.payments.database.payments s'.payments.database.payments :=
  ((Workers.step_cases h.step).2.sound hs.payments).2

theorem ready (h : Internal s s' e) (hs : Invariant s) {reference : String}
    {row : PaymentOrmEntity} {leg : Leg} (hrow : s.row reference = some row)
    (hready : row.Ready leg) :
    ∃ row', s'.row reference = some row' ∧ row'.identity = row.identity ∧ row'.Ready leg := by
  obtain ⟨row', hrow', hprecedes⟩ := h.evolves hs reference row hrow
  exact ⟨row', hrow', hprecedes.identity, hready.advances hprecedes.advances⟩

/-- Closed legs stay closed: only the save that opens a leg starts a worker on it. -/
theorem closed (h : Internal s s' e) (hs : Invariant s) {reference : String}
    {row : PaymentOrmEntity} {leg : Leg} {c : PaymentColumns} (hleg : leg ≠ .refund)
    (hrow : s.row reference = some row) (hready : row.Ready leg)
    (hidentity : c.identity = row.identity) (hclosed : s.Closed row.toPaymentColumns leg) :
    s'.Closed c leg := by
  obtain ⟨hdead, hshut⟩ := hclosed
  rw [State.Closed, h.wire, PaymentColumns.legKey_congr hidentity,
    PaymentColumns.reference_congr hidentity]
  refine ⟨hdead, fun worker command' hcommand' hpost hsame => ?_⟩
  cases h.continues hs hcommand' with
  | kept hcommand => exact hshut worker command' hcommand hpost hsame
  | first r hfirst => rcases hfirst with rfl | rfl <;> cases leg <;> exact hpost
  | moved command input now _ hcommand hmoves hreference hheard =>
      rcases hmoves.mayPost hpost hleg with hbefore | ⟨hopens, t, rfl⟩
      · exact hshut worker command hcommand hbefore (hreference.symm.trans hsame)
      · obtain ⟨aggregate, row', -, haggregate, hrow', hbase, -⟩ := hheard.row_of_committed
        rw [← Command.reference_of_aggregate haggregate, ← hreference, hsame,
          reference_of_rowOf hrow] at hrow'
        obtain rfl := Option.some.inj (hrow.symm.trans hrow')
        exact Command.not_ready_of_opens hopens hbase hready

/-- An answer of `accounts` reports a movement of the leg that was asked about. -/
theorem recorded (hs : Invariant s) {worker : ℕ} {command : Command} {answer : Answer}
    {movement : MovementResult} (hcommand : s.command worker = some command)
    (hlearned : Learned s worker answer)
    (hanswer : answer.input = .moved movement ∨ answer.input = .found (some movement))
    {leg : Leg} {t : Tracked} (hleg : command.leg = some leg)
    (ht : command.aggregate = some t) :
    ∃ m ∈ s.wire.records, m.identifier = t.payment.columns.legKey leg ∧
      m.result = movement := by
  have hcall := Workers.await_of_command hcommand
  cases hlearned with
  | moved id attempt uncertain m hclient hrecord =>
      obtain ⟨call, hawait⟩ := hs.busy worker (by rw [hclient]; exact nofun)
      obtain ⟨hm, hkey⟩ := hs.wire.recorded id m hrecord
      obtain ⟨leg', t', hleg', ht', rfl, -⟩ :=
        Command.call_of_await (Option.some.inj (hcall.symm.trans hawait))
      cases hleg.symm.trans hleg'
      cases ht.symm.trans ht'
      refine ⟨m, hm, ?_, ?_⟩
      · rw [← Payment.identifier_legCall]
        exact (hkey _ (hs.waiting _ _ _ _ _ hclient hawait)).symm
      · rcases hanswer with hanswer | hanswer <;> cases hanswer
        rfl
  | found wallet key m hawait hrecord hkey =>
      obtain ⟨leg', t', hleg', ht', hkey'⟩ :=
        Command.key_of_await (Option.some.inj (hcall.symm.trans hawait))
      cases hleg.symm.trans hleg'
      cases ht.symm.trans ht'
      refine ⟨m, hrecord, hkey.trans hkey', ?_⟩
      rcases hanswer with hanswer | hanswer <;> cases hanswer
      rfl
  | refused => rcases hanswer with hanswer | hanswer <;> cases hanswer
  | unavailable => rcases hanswer with hanswer | hanswer <;> cases hanswer
  | absent => rcases hanswer with hanswer | hanswer <;> cases hanswer
  | lookupUnavailable => rcases hanswer with hanswer | hanswer <;> cases hanswer

theorem rows (h : Internal s s' e) (hs : Invariant s) {reference : String}
    {row' : PaymentOrmEntity} (hrow' : s'.row reference = some row') :
    row'.Backed s.wire.records := by
  rcases ((Workers.step_cases h.step).2.rows hs.payments).origin hrow' with
    ⟨row, hrow, hcolumns, -⟩ | ⟨-, hpending, hcoherent⟩ |
    ⟨command, work, row, hcommand, -, haggregate, -, -, -, -, -, -, hcolumns⟩
  · rw [hcolumns]
    exact hs.rows reference row hrow
  · exact PaymentColumns.backed_of_pending hpending hcoherent _
  · rw [hcolumns]
    exact hs.held _ command _ hcommand haggregate

theorem held (h : Internal s s' e) (hs : Invariant s) {worker : ℕ} {command' : Command}
    {t' : Tracked} (hcommand' : s'.command worker = some command')
    (ht' : command'.aggregate = some t') : t'.payment.columns.Backed s.wire.records := by
  cases h.continues hs hcommand' with
  | kept hcommand => exact hs.held worker command' t' hcommand ht'
  | first r hfirst => rcases hfirst with rfl | rfl <;> cases ht'
  | moved command input now _ hcommand hmoves hreference hheard =>
      refine hmoves.backed (fun t ht => hs.held worker command t hcommand ht) ?_ ?_ ht'
      · rintro t (rfl | rfl | ⟨error, rfl⟩)
        · obtain ⟨row, hrow, hcolumns⟩ := hheard.row_of_loaded
          exact hcolumns ▸ h.rows hs hrow
        · obtain ⟨aggregate, -, -, haggregate, -, -, -, -, hcolumns⟩ := hheard.row_of_committed
          exact hcolumns ▸ hs.held worker command aggregate hcommand haggregate
        · exact hs.held worker command t hcommand hheard.aggregate_of_failed
      · intro movement hmovement leg t hleg ht
        have hanswered : ∃ answer : Answer, answer.input = input := by
          rcases hmovement with rfl | rfl
          · exact ⟨.moved movement, rfl⟩
          · exact ⟨.found (some movement), rfl⟩
        obtain ⟨answer, hanswer⟩ := hanswered
        obtain ⟨now', hevent⟩ := hheard.of_answer hanswer
        exact recorded hs hcommand (h.learned _ answer now' hevent) (hanswer ▸ hmovement)
          hleg ht

theorem opened (h : Internal s s' e) (hs : Invariant s) {worker : ℕ} {command' : Command}
    {leg : Leg} (hcommand' : s'.command worker = some command') (hpast : command'.past leg) :
    ∃ row', s'.row command'.reference = some row' ∧ row'.Ready leg := by
  have hbefore : ∀ {command : Command}, s.command worker = some command →
      command.past leg → command'.reference = command.reference →
      ∃ row', s'.row command'.reference = some row' ∧ row'.Ready leg := by
    intro command hcommand hpast hreference
    obtain ⟨row, hrow, hready⟩ := hs.opened worker command leg hcommand hpast
    obtain ⟨row', hrow', -, hready'⟩ := h.ready hs hrow hready
    exact ⟨row', hreference ▸ hrow', hready'⟩
  cases h.continues hs hcommand' with
  | kept hcommand => exact hbefore hcommand hpast rfl
  | first r hfirst => rcases hfirst with rfl | rfl <;> cases leg <;> exact hpast.elim
  | moved command input now _ hcommand hmoves hreference hheard =>
      rcases hmoves.past hpast with
        hold | ⟨hopens, t, rfl⟩ | ⟨rfl, t, rfl, hstatus, haggregate⟩
      · exact hbefore hcommand hold hreference
      · obtain ⟨aggregate, -, row', haggregate, -, -, hrow', hcolumns, -⟩ :=
          hheard.row_of_committed
        refine ⟨row', ?_, ?_⟩
        · rw [hreference, Command.reference_of_aggregate haggregate]
          exact hrow'
        · rw [hcolumns]
          exact Command.ready_of_opens hopens
            (hs.payments.fits worker command hcommand).shape haggregate
      · obtain ⟨row', hrow', hcolumns⟩ := hheard.row_of_loaded
        refine ⟨row', ?_, ?_⟩
        · rw [Command.reference_of_aggregate haggregate]
          exact hrow'
        · rw [hcolumns]
          exact .inl hstatus

/-- A worker claims a payment that nobody owns: its row is still Pending. -/
theorem owner_claims (h : Internal s s' e) (hs : Invariant s) {worker : ℕ}
    {command' : Command} (hcommand' : s'.command worker = some command')
    (howns : command'.owns) :
    (∃ command, s.command worker = some command ∧ command.owns ∧
      command.reference = command'.reference) ∨
    ∃ row, s.row command'.reference = some row ∧ ¬ row.Ready .debit := by
  cases h.continues hs hcommand' with
  | kept hcommand => exact .inl ⟨command', hcommand, howns, rfl⟩
  | first r hfirst => rcases hfirst with rfl | rfl <;> exact howns.elim
  | moved command input now _ hcommand hmoves hreference hheard =>
      rcases hmoves.past (show command'.past .debit from howns) with
        hold | ⟨hopens, t, rfl⟩ | ⟨hleg, -⟩
      · exact .inl ⟨command, hcommand, hold, hreference.symm⟩
      · obtain ⟨aggregate, row, -, haggregate, hrow, hbase, -⟩ := hheard.row_of_committed
        refine .inr ⟨row, ?_, Command.not_ready_of_opens hopens hbase⟩
        rw [hreference, Command.reference_of_aggregate haggregate]
        exact hrow
      · cases hleg

theorem owner (h : Internal s s' e) (hs : Invariant s) {worker worker' : ℕ}
    {command command' : Command} (hcommand : s'.command worker = some command)
    (hcommand' : s'.command worker' = some command') (howns : command.owns)
    (howns' : command'.owns) (hreference : command.reference = command'.reference) :
    worker = worker' := by
  -- Only one worker steps, so one of the two commands was there before.
  have hsteps : worker = worker' ∨ (∃ worker₁ worker₂ command₁ command₂,
      (worker₁ = worker ∧ worker₂ = worker' ∨ worker₁ = worker' ∧ worker₂ = worker) ∧
      s'.command worker₁ = some command₁ ∧ command₁.owns ∧ s.command worker₂ = some command₂ ∧
      command₂.owns ∧ command₁.reference = command₂.reference) := by
    obtain ⟨hframe, -⟩ := Workers.step_cases h.step
    by_cases hworker : worker = e.worker
    · by_cases hworker' : worker' = e.worker
      · exact .inl (hworker.trans hworker'.symm)
      · refine .inr ⟨worker, worker', command, command', .inl ⟨rfl, rfl⟩, hcommand, howns, ?_,
          howns', hreference⟩
        rw [State.command, ← hframe worker' hworker']
        exact hcommand'
    · refine .inr ⟨worker', worker, command', command, .inr ⟨rfl, rfl⟩, hcommand', howns', ?_,
        howns, hreference.symm⟩
      rw [State.command, ← hframe worker hworker]
      exact hcommand
  rcases hsteps with hsame |
    ⟨worker₁, worker₂, command₁, command₂, hpair, hcommand₁, howns₁, hcommand₂, howns₂, href⟩
  · exact hsame
  · have hone : worker₁ = worker₂ := by
      rcases h.owner_claims hs hcommand₁ howns₁ with
        ⟨before, hbefore, hold, hsame⟩ | ⟨row, hrow, hready⟩
      · exact hs.owner worker₁ worker₂ before command₂ hbefore hcommand₂ hold howns₂
          (hsame.trans href)
      · obtain ⟨row', hrow', hready'⟩ := hs.opened worker₂ command₂ .debit hcommand₂ howns₂
        rw [href] at hrow
        cases hrow.symm.trans hrow'
        exact absurd hready' hready
    rcases hpair with ⟨rfl, rfl⟩ | ⟨rfl, rfl⟩
    · exact hone
    · exact hone.symm

theorem fresh (h : Internal s s' e) (hs : Invariant s) {worker : ℕ} {command' : Command}
    {leg : Leg} {row' : PaymentOrmEntity} (hcommand' : s'.command worker = some command')
    (hpost : command'.mayPost leg) (hleg : leg ≠ .refund)
    (hrow' : s'.row command'.reference = some row') :
    (s'.clients worker).Fresh s'.wire (row'.legKey leg) := by
  rw [h.wire]
  have hkey : ∀ {row : PaymentOrmEntity}, s.row command'.reference = some row →
      row'.legKey leg = row.legKey leg := by
    intro row hrow
    obtain ⟨row'', hrow'', hprecedes⟩ := h.evolves hs _ row hrow
    cases hrow'.symm.trans hrow''
    exact PaymentColumns.legKey_congr hprecedes.identity leg
  have hbefore : ∀ {command : Command}, s.command worker = some command →
      command.mayPost leg → command'.reference = command.reference →
      s'.clients worker = s.clients worker →
      (s'.clients worker).Fresh s.wire (row'.legKey leg) := by
    intro command hcommand hposted hreference hclient
    obtain ⟨row, hrow, -⟩ :=
      hs.opened worker command leg hcommand (Command.past_of_mayPost hposted)
    rw [hclient, hkey (hreference ▸ hrow)]
    exact hs.fresh worker command leg row hcommand hposted hleg hrow
  cases h.continues hs hcommand' with
  | kept hcommand hclient => exact hbefore hcommand hpost rfl hclient
  | first r hfirst => rcases hfirst with rfl | rfl <;> cases leg <;> exact hpost.elim
  | moved command input now _ hcommand hmoves hreference hheard hclient =>
      rcases hclient with hclient | ⟨-, answer, hlearned, hanswer⟩
      · rcases hmoves.mayPost hpost hleg with hposted | ⟨hopens, t, rfl⟩
        · exact hbefore hcommand hposted hreference hclient
        · obtain ⟨aggregate, row, -, haggregate, hrow, hbase, -⟩ := hheard.row_of_committed
          have hsame : command'.reference = aggregate.payment.reference.value :=
            hreference.trans (Command.reference_of_aggregate haggregate)
          have hidle : s.clients worker = .idle := by
            refine hs.client_idle fun call hawait => ?_
            obtain ⟨command₁, leg₁, -, -, hcommand₁, hpost₁, -⟩ := hs.call hawait
            cases hcommand.symm.trans hcommand₁
            exact Command.not_mayPost_of_opens hopens hpost₁
          rw [hclient, hidle, hkey (hsame ▸ hrow)]
          exact fun hsent => Command.not_ready_of_opens hopens hbase
            (hs.ready_of_sent hrow hsent)
      · obtain ⟨await, hawait, hexpected⟩ := hlearned.expected (hs.busy worker)
        cases (Workers.await_of_command hcommand).symm.trans hawait
        exact absurd hpost
          (hmoves.not_mayPost_of_answer hanswer (hanswer ▸ hexpected) hleg)

/-- A command that stays put with a current aggregate: nobody saved its row. -/
theorem row_of_current (h : Internal s s' e) (hs : Invariant s) {worker : ℕ}
    {command : Command} {t : Tracked} {row' : PaymentOrmEntity}
    (hcommand : s.command worker = some command) (ht : command.aggregate = some t)
    (hrow' : s'.row command.reference = some row') (hversion : t.revision = some row'.version) :
    ∃ row, s.row command.reference = some row ∧ t.revision = some row.version ∧
      command.Base row.toPaymentColumns ∧ row'.identity = row.identity := by
  obtain ⟨row, revision, hrow, hrevision, -, hle, hbase⟩ :=
    (hs.payments.fits worker command hcommand).based t ht
  rw [← Command.reference_of_aggregate ht] at hrow
  obtain ⟨row'', hrow'', hprecedes⟩ := h.evolves hs _ row hrow
  cases hrow'.symm.trans hrow''
  have hsame : revision = row.version := by
    cases hrevision.symm.trans hversion
    exact le_antisymm hle hprecedes.version
  exact ⟨row, hrow, hsame ▸ hrevision, hbase hsame, hprecedes.identity⟩

/-- A refusal of the only request under the key of a leg closes it: its worker has
stopped posting, and no other worker owns the payment. -/
theorem closed_of_refused (h : Internal s s' e) (hs : Invariant s) {command command' : Command}
    {refusal : Refusal} {leg : Leg} {t : Tracked} {row' : PaymentOrmEntity}
    (hcommand : s.command e.worker = some command)
    (hcommand' : s'.command e.worker = some command')
    (hlearned : Learned s e.worker (.refused refusal))
    (hawait : command.await = .movement (t.payment.legCall leg))
    (ht : command.aggregate = some t) (hpost : command.mayPost leg)
    (hstops : ¬ command'.mayPost leg) (hleg : leg ≠ .refund)
    (hreference : command'.reference = command.reference)
    (hrow' : s'.row command'.reference = some row') : s'.Closed row'.toPaymentColumns leg := by
  obtain ⟨row, hrow, hready⟩ :=
    hs.opened e.worker command leg hcommand (Command.past_of_mayPost hpost)
  obtain ⟨row₁, hrow₁, hidentity⟩ := hs.row_of_aggregate hcommand ht
  cases hrow.symm.trans hrow₁
  obtain ⟨row₂, hrow₂, hprecedes⟩ := h.evolves hs _ row (hreference ▸ hrow)
  cases hrow'.symm.trans hrow₂
  have hkey : (t.payment.legCall leg).identifier = row.legKey leg := by
    rw [Payment.identifier_legCall, PaymentColumns.legKey_congr hidentity]
  rw [State.Closed, h.wire, PaymentColumns.legKey_congr hprecedes.identity, ← hkey]
  refine ⟨?_, fun other command₁ hcommand₁ hpost₁ hsame => ?_⟩
  · cases hlearned with
    | refused id attempt _ hclient hanswer =>
        have hfresh := hs.fresh e.worker command leg row hcommand hpost hleg hrow
        rw [hclient, ← hkey] at hfresh
        have hsent := hs.waiting e.worker id attempt false _ hclient
          ((Workers.await_of_command hcommand).trans (congrArg some hawait))
        exact hs.wire.dead_of_refused hanswer hsent hfresh
  · by_cases hother : other = e.worker
    · subst hother
      cases hcommand'.symm.trans hcommand₁
      exact hstops hpost₁
    · have hold : s.command other = some command₁ := by
        rw [State.command, ← (h.frame (Ne.symm hother)).1]
        exact hcommand₁
      refine hother (hs.owner other e.worker command₁ command hold hcommand
        (Command.owns_of_mayPost hpost₁ hleg) (Command.owns_of_mayPost hpost hleg) ?_)
      rw [hsame, reference_of_rowOf hrow', hreference]

/-- While the row of a payment is not ready for a leg, nobody moves that leg. -/
theorem closed_of_not_ready (h : Internal s s' e) (hs : Invariant s) {command' : Command}
    {leg : Leg} {row row' : PaymentOrmEntity} (hcommand' : s'.command e.worker = some command')
    (hstops : ¬ command'.mayPost leg) (hrow : s.row command'.reference = some row)
    (hready : ¬ row.Ready leg) (hrow' : s'.row command'.reference = some row') :
    s'.Closed row'.toPaymentColumns leg := by
  obtain ⟨row₁, hrow₁, hprecedes⟩ := h.evolves hs _ row hrow
  cases hrow'.symm.trans hrow₁
  rw [State.Closed, h.wire, PaymentColumns.legKey_congr hprecedes.identity]
  refine ⟨hs.dead_of_not_ready hrow hready, fun other command₁ hcommand₁ hpost hsame => ?_⟩
  by_cases hother : other = e.worker
  · subst hother
    cases hcommand'.symm.trans hcommand₁
    exact hstops hpost
  · have hold : s.command other = some command₁ := by
      rw [State.command, ← (h.frame (Ne.symm hother)).1]
      exact hcommand₁
    obtain ⟨row₂, hrow₂, hready₂⟩ :=
      hs.opened other command₁ leg hold (Command.past_of_mayPost hpost)
    rw [hsame, reference_of_rowOf hrow'] at hrow₂
    cases hrow.symm.trans hrow₂
    exact hready hready₂

/-- When a refund is decided the credit is closed: it was refused without any other
request under its key, or its debit had not even been recorded. -/
theorem decided (h : Internal s s' e) (hs : Invariant s) {worker : ℕ} {command' : Command}
    {t' : Tracked} {row' : PaymentOrmEntity} (hcommand' : s'.command worker = some command')
    (hdecides : command'.decides) (ht' : command'.aggregate = some t')
    (hrow' : s'.row command'.reference = some row') (hversion : t'.revision = some row'.version) :
    s'.Closed row'.toPaymentColumns .credit := by
  have hstays : s.command worker = some command' →
      s'.Closed row'.toPaymentColumns .credit := by
    intro hcommand
    obtain ⟨row, hrow, hrevision, hbase, hidentity⟩ :=
      h.row_of_current hs hcommand ht' hrow' hversion
    refine h.closed hs (nofun) hrow ?_ hidentity
      (hs.decided worker command' t' row hcommand hdecides ht' hrow hrevision)
    exact Command.debit_of_decides hdecides ht'
      (hs.payments.fits worker command' hcommand).shape hbase
  cases h.continues hs hcommand' with
  | kept hcommand => exact hstays hcommand
  | first r hfirst => rcases hfirst with rfl | rfl <;> exact hdecides.elim
  | moved command input now hworker hcommand hmoves hreference hheard =>
      subst hworker
      have hstops : ¬ command'.mayPost .credit := Command.not_mayPost_of_decides hdecides
      rcases hmoves.decides hdecides with
        rfl | ⟨t, refusal, rfl, rfl⟩ | ⟨t₀, m, t, rfl, rfl⟩
      · exact hstays hcommand
      · obtain ⟨now', hevent⟩ := hheard.of_answer (show (Answer.refused refusal).input = _ from rfl)
        exact h.closed_of_refused hs hcommand hcommand' (h.learned _ _ _ hevent) rfl rfl trivial
          hstops nofun hreference hrow'
      · obtain ⟨aggregate, row, -, haggregate, hrow, hbase, -⟩ := hheard.row_of_committed
        refine h.closed_of_not_ready hs hcommand' hstops ?_ (fun hready => hready hbase.2) hrow'
        rw [hreference, Command.reference_of_aggregate haggregate]
        exact hrow

/-- Once the decision to refund is committed, the credit is closed. -/
theorem closed_of_refund (h : Internal s s' e) (hs : Invariant s) {reference : String}
    {row' : PaymentOrmEntity} (hrow' : s'.row reference = some row')
    (hready : row'.Ready .refund) : s'.Closed row'.toPaymentColumns .credit := by
  have hdebit : ∀ {row : PaymentOrmEntity}, s.row reference = some row →
      row.Ready .refund → row.Ready .credit := by
    intro row hrow hrefund
    have hcoherent := (hs.payments.database.rows reference row hrow).coherent
    rcases hrefund with hstatus | hstatus <;>
      simp only [PaymentColumns.Coherent, hstatus] at hcoherent <;> exact hcoherent.1
  have hidentity : ∀ {row : PaymentOrmEntity}, s.row reference = some row →
      row'.identity = row.identity := by
    intro row hrow
    obtain ⟨row'', hrow'', hprecedes⟩ := h.evolves hs _ row hrow
    cases hrow'.symm.trans hrow''
    exact hprecedes.identity
  rcases ((Workers.step_cases h.step).2.rows hs.payments).origin hrow' with
    ⟨row, hrow, hcolumns, -⟩ | ⟨-, hpending, -⟩ |
    ⟨command, work, row, hcommand, hawait, haggregate, hsame, hrow, hbase, hrevision, -, -,
      hcolumns⟩
  · have hrefund : row.Ready .refund := by
      rw [← hcolumns]
      exact hready
    exact h.closed hs (by decide) hrow (hdebit hrow hrefund) (hidentity hrow)
      (hs.closed reference row hrow hrefund)
  · rcases hready with hready | hready <;> cases hpending.symm.trans hready
  · have hfits := hs.payments.fits _ command hcommand
    have hreference : command.reference = reference :=
      (Command.reference_of_aggregate haggregate).trans hsame
    rcases Command.decides_of_transaction hawait hfits.shape hbase (hcolumns ▸ hready) with
      hdecides | hpending
    · exact h.closed hs (by decide) hrow
        (Command.debit_of_decides hdecides haggregate hfits.shape hbase) (hidentity hrow)
        (hs.decided _ command _ row hcommand hdecides haggregate (hreference ▸ hrow) hrevision)
    · have hrefund : row.Ready .refund := .inl hpending
      exact h.closed hs (by decide) hrow (hdebit hrow hrefund) (hidentity hrow)
        (hs.closed reference row hrow hrefund)

end Internal

/-!
# The invariant over runs
-/

/-- A step of the workers keeps the invariant. -/
theorem Invariant.internal {s s' : State} {e : Workers.Event} (hs : Invariant s)
    (h : Internal s s' e) : Invariant s' := by
  refine ⟨hs.payments.step h.step, h.wire ▸ hs.wire, ?_, ?_, ?_, ?_, ?_, ?_, ?_, ?_, ?_, ?_⟩
  · intro worker hbusy
    obtain ⟨hprocess, hclient⟩ := h.process_kept hs hbusy
    rw [hprocess]
    exact hs.busy worker (hclient ▸ hbusy)
  · intro worker id attempt uncertain call hclient hawait
    obtain ⟨hprocess, hkept⟩ := h.process_kept hs (by rw [hclient]; exact nofun)
    rw [h.wire]
    exact hs.waiting worker id attempt uncertain call (hkept ▸ hclient) (hprocess ▸ hawait)
  · intro call hcall
    rw [h.wire] at hcall
    obtain ⟨leg, p, row, rfl, hrow, hidentity, hready⟩ := hs.requests call hcall
    obtain ⟨row', hrow', hsame, hready'⟩ := h.ready hs hrow hready
    exact ⟨leg, p, row', rfl, hrow', hsame.trans hidentity, hready'⟩
  · intro reference row hrow
    rw [h.wire]
    exact h.rows hs hrow
  · intro worker command t hcommand ht
    rw [h.wire]
    exact h.held hs hcommand ht
  · exact fun worker command leg hcommand hpast => h.opened hs hcommand hpast
  · exact fun worker worker' command command' hcommand hcommand' howns howns' href =>
      h.owner hs hcommand hcommand' howns howns' href
  · exact fun worker command leg row hcommand hpost hleg hrow =>
      h.fresh hs hcommand hpost hleg hrow
  · exact fun worker command t row hcommand hdecides ht hrow hversion =>
      h.decided hs hcommand hdecides ht hrow hversion
  · exact fun reference row hrow hready => h.closed_of_refund hs hrow hready

theorem Invariant.step {maxAttempts : ℕ} {s s' : State} {e : Event} (hs : Invariant s)
    (h : step maxAttempts s e = some s') : Invariant s' := by
  cases step_cases h with
  | moved event hinternal => exact hs.internal hinternal
  | sent worker attempt uncertain call hawait hclient hpayments hclients hwire =>
      exact hs.sent hawait hclient hpayments hclients hwire
  | applied id call reference balanceAfter hrequest hpayments hclients hwire =>
      refine hs.served hpayments hclients ?_ ?_ ?_ ?_ <;> rw [hwire]
      · exact hs.wire.apply hrequest rfl ⟨rfl, rfl⟩
      · exact Wire.sent_apply ..
      · exact fun m hm => Wire.mem_records_apply hm
      · exact fun k hdead => hdead.apply hrequest rfl
  | refused id call refusal hrequest hrefusable hpayments hclients hwire =>
      refine hs.served hpayments hclients ?_ ?_ ?_ ?_ <;> rw [hwire]
      · exact hs.wire.refuse refusal hrequest hrefusable
      · rfl
      · exact fun m hm => hm
      · exact fun k hdead => hdead.answer id (.inr refusal)
  | retried worker id attempt uncertain hclient hpayments hclients hwire =>
      exact hs.retried hclient hpayments hclients hwire

theorem invariant_of_reachable {maxAttempts : ℕ} {s : State}
    (h : Reachable (step maxAttempts) init s) : Invariant s :=
  h.invariant invariant_init fun _ _ _ hs hstep => hs.step hstep

theorem Invariant.ready_step {maxAttempts : ℕ} {s s' : State} {e : Event} (hs : Invariant s)
    (hstep : Platform.step maxAttempts s e = some s') {reference : String}
    {row : PaymentOrmEntity} {leg : Leg} (hrow : s.row reference = some row)
    (hready : row.Ready leg) :
    ∃ row', s'.row reference = some row' ∧ row'.identity = row.identity ∧ row'.Ready leg := by
  have hsame : s'.payments = s.payments →
      ∃ row', s'.row reference = some row' ∧ row'.identity = row.identity ∧ row'.Ready leg := by
    intro hpayments
    exact ⟨row, by rw [State.row, hpayments]; exact hrow, rfl, hready⟩
  cases step_cases hstep with
  | moved event hinternal => exact hinternal.ready hs hrow hready
  | sent _ _ _ _ _ _ hpayments => exact hsame hpayments
  | applied _ _ _ _ _ hpayments => exact hsame hpayments
  | refused _ _ _ _ _ hpayments => exact hsame hpayments
  | retried _ _ _ _ _ hpayments => exact hsame hpayments

end Platform

end Payments

end Paynad
