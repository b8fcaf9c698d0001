import Paynad.Library.Inevitable
import Paynad.Payments.Protocol.Execution

/-!
# Undisturbed workflows

A workflow is undisturbed when its worker takes every step and nothing fails: the
database answers every query, `accounts` serves what is posted at once, and its
answer is read. `accounts` keeps its own mind: `Verdicts` says which requests it
would refuse, and a recorded movement is replayed whatever it would answer now.
A `Checkpoint` describes the payment between two such steps, and what the rest of
the platform keeps meanwhile.
-/

namespace Wire

variable {ρ μ ν κ : Type*} [DecidableEq κ] {recordKey : μ → κ} {w : Wire ρ μ ν}

theorem isSome_find_iff {k : κ} :
    (Table.find recordKey w.records k).isSome = true ↔ w.Recorded recordKey k := by
  simp [Table.find, List.find?_isSome, Recorded]

theorem recorded_apply {id : ℕ} {m : μ} {k : κ} :
    (w.apply recordKey id m).Recorded recordKey k ↔
      w.Recorded recordKey k ∨ recordKey m = k := by
  constructor
  · rintro ⟨m', hm', hk⟩
    rcases apply_cases recordKey w id m with ⟨_, -, -, heq⟩ | ⟨-, heq⟩
    · rw [heq] at hm'
      exact .inl ⟨m', hm', hk⟩
    · rw [heq] at hm'
      rcases List.mem_append.mp hm' with hm' | hm'
      · exact .inl ⟨m', hm', hk⟩
      · rw [List.mem_singleton] at hm'
        exact .inr (hm' ▸ hk)
  · rintro (⟨m', hm', hk⟩ | rfl)
    · exact ⟨m', mem_records_apply hm', hk⟩
    · rcases apply_cases recordKey w id m with ⟨m', hm', hk, heq⟩ | ⟨-, heq⟩ <;> rw [heq]
      · exact ⟨m', hm', hk⟩
      · exact ⟨m, List.mem_append_right _ (List.mem_singleton_self m), rfl⟩

end Wire

namespace Paynad

namespace Payments

open Shared Transition TypeOrmPaymentRepository

theorem Payment.legCall_congr {p q : Payment} (h : p.columns.identity = q.columns.identity)
    (leg : Leg) : p.legCall leg = q.legCall leg := by
  have hreference : p.reference = q.reference := Reference.ext (congrArg PaymentColumns.reference h)
  have hsource : p.source = q.source :=
    Reference.ext (congrArg PaymentColumns.sourceWalletReference h)
  have hdestination : p.destination = q.destination :=
    Reference.ext (congrArg PaymentColumns.destinationWalletReference h)
  have hmoney : p.money = q.money :=
    Money.ext (congrArg PaymentColumns.amount h) (congrArg PaymentColumns.currency h)
  have hdescription : p.description = q.description := congrArg PaymentColumns.description h
  cases leg <;>
    simp only [legCall, DebitSourceWallet.call, CreditDestinationWallet.call,
      CompensatePayment.call, hreference, hsource, hdestination, hmoney, hdescription]

theorem Work.run_of_current (moment : Moment) {database : Database} {w : Work}
    {row : PaymentOrmEntity}
    (hrow : rowOf database.payments w.aggregate.payment.reference.value = some row)
    (hrevision : w.aggregate.revision = some row.version) :
    ∃ database' t, w.run moment .none database = .committed database' t := by
  have htail : Statement.save ∉ w.movements.toList.map Statement.record ++
      if w.enqueues then [.enqueueEvents] else [] := by
    cases w.movements <;> cases w.enqueues <;> simp
  obtain ⟨⟨database', t⟩, hrest⟩ := runStatements_of_none moment htail 1 _ _
  refine ⟨database', t, ?_⟩
  simp only [Work.run, Work.statements, runStatements, Fault.breaks, Statement.run,
    save_of_current hrow hrevision, Except.map]
  rw [hrest]

namespace Platform

/-- What `accounts` answers to a request it has no movement for: a refusal, or the
movement. -/
abbrev Verdicts := MovementCall → Option Refusal

/-- How `accounts` serves a request: a recorded movement is replayed. -/
def verdictOf (verdicts : Verdicts) (around : Surroundings) (s : State) (call : MovementCall) :
    Verdict :=
  match Table.find Movement.identifier s.wire.records call.identifier, verdicts call with
  | none, some refusal => .refuse refusal
  | _, _ => .apply around.reference around.balanceAfter

/-- What comes next when nothing fails. -/
def courseOf (verdicts : Verdicts) (around : Surroundings) (worker : ℕ) (s : State) : Event :=
  match (s.process worker).await, s.clients worker with
  | some (.movement call), .waiting id _ _ =>
      if id ∈ s.wire.inFlight then
        .serve id (verdictOf verdicts around s call)
      else
        .receive worker around.moment.now
  | _, _ => nextEvent around worker s

def proceed (maxAttempts : ℕ) (verdicts : Verdicts) (worker : ℕ) (around : Surroundings)
    (s : State) : Option State :=
  step maxAttempts s (courseOf verdicts around worker s)

/-- A payment in a workflow that began in `s₀`: `row` is its row, and `moved` the
legs that `accounts` has recorded. Nothing else has changed. -/
structure Situation (s₀ : State) (q : Payment) (row : PaymentOrmEntity) (moved : Leg → Bool)
    (s : State) : Prop where
  found : s.row q.reference.value = some row
  identity : row.identity = q.columns.identity
  attempts : (s₀.row q.reference.value).map (·.reconciliationAttempts) =
    some row.reconciliationAttempts
  moved : ∀ leg, s.wire.Recorded Movement.identifier (q.columns.legKey leg) ↔ moved leg = true
  others : ∀ reference, reference ≠ q.reference.value → s.row reference = s₀.row reference
  foreign : ∀ k, (∀ leg, k ≠ q.columns.legKey leg) →
    (s.wire.Recorded Movement.identifier k ↔ s₀.wire.Recorded Movement.identifier k)

/-- A payment between two steps of an undisturbed workflow. -/
structure Checkpoint (s₀ : State) (worker : ℕ) (q : Payment) (row : PaymentOrmEntity)
    (moved : Leg → Bool) (s : State) : Prop extends Situation s₀ q row moved s where
  invariant : Invariant s
  client : s.clients worker = .idle

section

variable {maxAttempts worker : ℕ} {verdicts : Verdicts} {around : Surroundings}
  {s₀ s : State} {q : Payment} {row : PaymentOrmEntity} {moved : Leg → Bool}

theorem courseOf_eq_nextEvent {await : Await} (hawait : (s.process worker).await = some await)
    (hcall : ∀ call, await ≠ .movement call) :
    courseOf verdicts around worker s = nextEvent around worker s := by
  unfold courseOf
  split
  · rename_i call _ _ _ hmovement _
    exact absurd (Option.some.inj (hawait.symm.trans hmovement)) (hcall call)
  · rfl

/-- A database call that keeps the other payments leads from checkpoint to checkpoint. -/
theorem Checkpoint.query (h : Checkpoint s₀ worker q row moved s) {await : Await}
    (hawait : (s.process worker).await = some await) {database : Database} {input : Input}
    (hquery : await.query s.payments.database around.moment .none = some (database, input))
    {row' : PaymentOrmEntity} (hrow : rowOf database.payments q.reference.value = some row')
    (hidentity : row'.identity = row.identity)
    (hattempts : row'.reconciliationAttempts = row.reconciliationAttempts)
    (hothers : ∀ reference, reference ≠ q.reference.value →
      rowOf database.payments reference = s.row reference) :
    ∃ s', proceed maxAttempts verdicts worker around s = some s' ∧
      Checkpoint s₀ worker q row' moved s' ∧
      s'.process worker = (s.process worker).resume input around.moment.now := by
  have hcall : ∀ call, await ≠ .movement call := by
    rintro call rfl
    cases hquery
  obtain ⟨s', ⟨hstep, hprocess, hwire⟩, hdatabase, hclients⟩ :=
    advance_query maxAttempts hawait hquery
  refine ⟨s', ?_, ⟨⟨?_, hidentity.trans h.identity, ?_, ?_, ?_, ?_⟩,
    h.invariant.step hstep, hclients ▸ h.client⟩, hprocess⟩
  · rw [proceed, courseOf_eq_nextEvent hawait hcall]
    exact hstep
  · rw [State.row, hdatabase]
    exact hrow
  · rw [hattempts]
    exact h.attempts
  · rw [hwire]
    exact h.moved
  · intro reference hne
    rw [State.row, hdatabase, hothers reference hne]
    exact h.others reference hne
  · rw [hwire]
    exact h.foreign

/-- The end of a call to `accounts`: the process, the client, and what stays. -/
theorem finish_spec (s : State) {await : Await}
    (hcall : (∃ call, await = .movement call) ∨ ∃ wallet key, await = .findMovement wallet key)
    (hawait : (s.process worker).await = some await) (answer : Answer) (now : Date) :
    ∃ s', finish s worker answer now = some s' ∧
      s'.process worker = (s.process worker).resume answer.input now ∧
      s'.payments.database = s.payments.database ∧ s'.clients worker = .idle ∧
      s'.wire = s.wire := by
  refine ⟨{ s with
    payments := s.payments.put worker ((s.process worker).resume answer.input now)
    clients := clientsAfter s.clients (.answer worker answer now) }, ?_, ?_, ?_, ?_, rfl⟩
  · rcases hcall with ⟨call, rfl⟩ | ⟨wallet, key, rfl⟩ <;>
      simp only [finish, Workers.step, show (s.payments.workers worker).await = _ from hawait] <;>
      rfl
  · simp [State.process]
  · simp
  · simp [clientsAfter]

theorem Situation.same (h : Situation s₀ q row moved s) {s' : State}
    (hdatabase : s'.payments.database = s.payments.database)
    (hrecords : s'.wire.records = s.wire.records) : Situation s₀ q row moved s' := by
  refine ⟨State.row_of_database hdatabase h.found, h.identity, h.attempts, ?_, ?_, ?_⟩
  · intro leg
    rw [← h.moved leg, Wire.Recorded, Wire.Recorded, hrecords]
  · intro reference hne
    rw [State.row, hdatabase]
    exact h.others reference hne
  · intro k hk
    rw [← h.foreign k hk, Wire.Recorded, Wire.Recorded, hrecords]

theorem Checkpoint.find (h : Checkpoint s₀ worker q row moved s)
    (hawait : (s.process worker).await = some (.findByReference q.reference.value)) :
    ∃ s' t, proceed maxAttempts verdicts worker around s = some s' ∧
      Checkpoint s₀ worker q row moved s' ∧ t.payment.columns = row.toPaymentColumns ∧
      t.revision = some row.version ∧
      s'.process worker = (s.process worker).resume (.loaded (some t)) around.moment.now := by
  obtain ⟨t, hfind, hcolumns, hrevision⟩ :=
    findByReference_of_row (h.invariant.payments.database.rows _ row h.found) h.found
  have hquery : (Await.findByReference q.reference.value).query s.payments.database around.moment
      .none = some (s.payments.database, .loaded (some t)) := by
    simp only [Await.query, hfind, Fault.breaks]
  obtain ⟨s', hproceed, hcheckpoint, hprocess⟩ :=
    h.query hawait hquery h.found rfl rfl fun _ _ => rfl
  exact ⟨s', t, hproceed, hcheckpoint, hcolumns, hrevision, hprocess⟩

theorem Checkpoint.transaction (h : Checkpoint s₀ worker q row moved s) {w : Work}
    (hidentity : w.aggregate.payment.columns.identity = row.identity)
    (hrevision : w.aggregate.revision = some row.version)
    (hawait : (s.process worker).await = some (.transaction w)) :
    ∃ s' t row', proceed maxAttempts verdicts worker around s = some s' ∧
      Checkpoint s₀ worker q row' moved s' ∧
      row'.toPaymentColumns = w.aggregate.payment.columns ∧
      t.payment.columns = w.aggregate.payment.columns ∧ t.revision = some row'.version ∧
      s'.process worker = (s.process worker).resume (.committed t) around.moment.now := by
  have hreference : w.aggregate.payment.reference.value = q.reference.value :=
    reference_of_identity (hidentity.trans h.identity)
  have hrow : rowOf s.payments.database.payments w.aggregate.payment.reference.value =
      some row := by
    rw [hreference]
    exact h.found
  obtain ⟨database, t, hrun⟩ := Work.run_of_current around.moment hrow hrevision
  have hquery : (Await.transaction w).query s.payments.database around.moment .none =
      some (database, .committed t) := by
    simp only [Await.query, hrun, TransactionResult.outcome]
  obtain ⟨-, hcolumns'⟩ := stored_of_changes hrow hrevision hidentity.symm (.inl hrun)
  obtain ⟨rows, saved, hsave, rfl, ht⟩ := Work.run_changes (.inl hrun)
  rw [save_of_current hrow hrevision] at hsave
  obtain ⟨rfl, rfl⟩ := Prod.mk.inj (Except.ok.inj hsave)
  have hcolumns := Based.updatedRow_columns around.moment.now hidentity.symm
  obtain ⟨s', hproceed, hcheckpoint, hprocess⟩ := h.query hawait hquery
    (show rowOf _ _ = some (updatedRow w.aggregate.payment.columns around.moment.now row) by
      rw [← hreference]
      exact rowOf_update_self hrow)
    (by rw [hcolumns, hidentity]) rfl fun reference hne => rowOf_update_ne (hreference ▸ hne)
  refine ⟨s', t, _, hproceed, hcheckpoint, hcolumns, hcolumns', ?_, hprocess⟩
  rw [ht]
  cases hw : w.enqueues <;> simp [Work.afterwards, hw, updatedRow]

/-- The look up of a leg finds its movement if there is one. -/
theorem Checkpoint.lookUp (h : Checkpoint s₀ worker q row moved s) {leg : Leg}
    {wallet : Reference .wlt} {key : String}
    (hkey : (wallet.value, key) = q.columns.legKey leg)
    (hawait : (s.process worker).await = some (.findMovement wallet key)) :
    ∃ s' found, proceed maxAttempts verdicts worker around s = some s' ∧
      Checkpoint s₀ worker q row moved s' ∧ found.isSome = moved leg ∧
      s'.process worker = (s.process worker).resume (.found found) around.moment.now := by
  have hcall : ∀ call, Await.findMovement wallet key ≠ .movement call := by
    rintro call ⟨⟩
  have hstep : step maxAttempts s (courseOf verdicts around worker s) =
      finish s worker (.found ((Table.find Movement.identifier s.wire.records
        (wallet.value, key)).map Movement.result)) around.moment.now := by
    rw [courseOf_eq_nextEvent hawait hcall]
    simp only [nextEvent, hawait, Platform.step, if_true]
  obtain ⟨s', hproceed, hprocess, hdatabase, hclient, hwire⟩ :=
    finish_spec s (.inr ⟨_, _, rfl⟩) hawait (.found ((Table.find Movement.identifier s.wire.records
        (wallet.value, key)).map Movement.result)) around.moment.now
  refine ⟨s', _, hstep.trans hproceed, ⟨h.same hdatabase (congrArg Wire.records hwire),
    h.invariant.step (hstep.trans hproceed), hclient⟩, ?_, hprocess⟩
  have hmoved := h.moved leg
  rw [← hkey] at hmoved
  rw [Option.isSome_map, Bool.eq_iff_iff, ← hmoved, Wire.isSome_find_iff]

/-- What `accounts` refuses when a leg is posted: nothing it has already recorded. -/
def refusalOf (verdicts : Verdicts) (q : Payment) (moved : Leg → Bool) (leg : Leg) :
    Option Refusal :=
  if moved leg then none else verdicts (q.legCall leg)

/-- A leg that is applied is recorded. -/
theorem Situation.applied (h : Situation s₀ q row moved s) {s' : State} {leg : Leg} {id : ℕ}
    {reference : Reference .trx} {balanceAfter : ℤ}
    (hdatabase : s'.payments.database = s.payments.database)
    (hwire : s'.wire = s.wire.apply Movement.identifier id
      ((q.legCall leg).movement reference balanceAfter)) :
    Situation s₀ q row (Function.update moved leg true) s' := by
  have hkey : ((q.legCall leg).movement reference balanceAfter).identifier =
      q.columns.legKey leg := q.identifier_legCall leg
  refine ⟨State.row_of_database hdatabase h.found, h.identity, h.attempts, ?_, ?_, ?_⟩
  · intro leg'
    rw [hwire, Wire.recorded_apply, hkey, h.moved leg']
    by_cases hleg : leg' = leg
    · simp [hleg]
    · rw [Function.update_of_ne hleg]
      exact or_iff_left fun heq => hleg (Payment.legKey_inj heq).2.symm
  · intro other hne
    rw [State.row, hdatabase]
    exact h.others other hne
  · intro k hk
    rw [hwire, Wire.recorded_apply, hkey, h.foreign k hk]
    exact or_iff_left (hk leg).symm

structure Served (s₀ : State) (worker : ℕ) (q : Payment) (row : PaymentOrmEntity)
    (moved : Leg → Bool) (process : Process) (answer : Movement ⊕ Refusal) (s : State) :
    Prop extends Situation s₀ q row moved s where
  invariant : Invariant s
  stands : s.process worker = process
  read : ∃ id, s.clients worker = .waiting id 1 false ∧ id ∉ s.wire.inFlight ∧
    Table.find Prod.fst s.wire.answers id = some (id, answer)

theorem Served.receive {process : Process} {answer : Movement ⊕ Refusal}
    (h : Served s₀ worker q row moved process answer s) {leg : Leg}
    (hawait : process.await = some (.movement (q.legCall leg))) :
    ∃ s', proceed maxAttempts verdicts worker around s = some s' ∧
      Checkpoint s₀ worker q row moved s' ∧ s'.process worker = process.resume
        (match answer with
          | .inl m => .moved m.result
          | .inr refusal => .refused refusal) around.moment.now := by
  obtain ⟨id, hclient, hserved, hanswer⟩ := h.read
  have hawait' : (s.process worker).await = some (.movement (q.legCall leg)) := by
    rw [h.stands]
    exact hawait
  obtain ⟨s', hfinish, hprocess, hdatabase, hclient', hwire⟩ :=
    finish_spec s (.inl ⟨_, rfl⟩) hawait' (match answer with
      | .inl m => .moved m.result
      | .inr refusal => .refused refusal) around.moment.now
  have hstep : step maxAttempts s (courseOf verdicts around worker s) = some s' := by
    simp only [courseOf, hawait', hclient, if_neg hserved, Platform.step, hanswer]
    cases answer <;> exact hfinish
  refine ⟨s', hstep, ⟨h.same hdatabase (congrArg Wire.records hwire),
    h.invariant.step hstep, hclient'⟩, ?_⟩
  rw [hprocess, h.stands]
  cases answer <;> rfl

structure Posted (s₀ : State) (worker : ℕ) (q : Payment) (row : PaymentOrmEntity)
    (moved : Leg → Bool) (process : Process) (leg : Leg) (s : State) :
    Prop extends Situation s₀ q row moved s where
  invariant : Invariant s
  stands : s.process worker = process
  await : process.await = some (.movement (q.legCall leg))
  waiting : ∃ id, s.clients worker = .waiting id 1 false ∧
    s.wire.request? id = some (q.legCall leg)

theorem Checkpoint.post (h : Checkpoint s₀ worker q row moved s) {leg : Leg}
    (hawait : (s.process worker).await = some (.movement (q.legCall leg))) :
    ∃ s', proceed maxAttempts verdicts worker around s = some s' ∧
      Posted s₀ worker q row moved (s.process worker) leg s' := by
  have hsend : proceed maxAttempts verdicts worker around s =
      some { s with
        clients := Function.update s.clients worker (.waiting s.wire.next 1 false)
        wire := s.wire.send (q.legCall leg) } := by
    simp only [proceed, courseOf, hawait, h.client, Client.idle, nextEvent, Platform.step]
  refine ⟨_, hsend, ⟨h.same rfl rfl, h.invariant.step hsend, rfl, hawait, s.wire.next, ?_, ?_⟩⟩
  · exact Function.update_self ..
  · have hflight : s.wire.next ∈ (s.wire.send (q.legCall leg)).inFlight := List.mem_cons_self ..
    rw [Wire.request?, if_pos hflight]
    exact Wire.getElem?_send_next _

/-- `accounts` serves a posted leg: a movement unless it refuses. -/
theorem Posted.serve {process : Process} {leg : Leg}
    (h : Posted s₀ worker q row moved process leg s) :
    ∃ s', proceed maxAttempts verdicts worker around s = some s' ∧
      ((∃ m, refusalOf verdicts q moved leg = none ∧
        Served s₀ worker q row (Function.update moved leg true) process (.inl m) s') ∨
      ∃ refusal, refusalOf verdicts q moved leg = some refusal ∧
        Served s₀ worker q row moved process (.inr refusal) s') := by
  obtain ⟨id, hclient, hrequest⟩ := h.waiting
  have hawait : (s.process worker).await = some (.movement (q.legCall leg)) := by
    rw [h.stands]
    exact h.await
  have hcourse : courseOf verdicts around worker s =
      .serve id (verdictOf verdicts around s (q.legCall leg)) := by
    simp only [courseOf, hawait, hclient, if_pos (Wire.request?_eq_some hrequest).1]
  have hfind : (Table.find Movement.identifier s.wire.records (q.legCall leg).identifier).isSome =
      moved leg := by
    rw [Bool.eq_iff_iff, ← h.moved leg, Wire.isSome_find_iff, q.identifier_legCall]
  cases hrefusal : refusalOf verdicts q moved leg with
  | none =>
      have hverdict : verdictOf verdicts around s (q.legCall leg) =
          .apply around.reference around.balanceAfter := by
        unfold verdictOf
        split
        · rename_i hnone hrefuses
          rw [hnone] at hfind
          simp [refusalOf, ← hfind, hrefuses] at hrefusal
        · rfl
      have hstep : proceed maxAttempts verdicts worker around s = some { s with
          wire := s.wire.apply Movement.identifier id
            ((q.legCall leg).movement around.reference around.balanceAfter) } := by
        simp only [proceed, hcourse, hverdict, Platform.step, hrequest]
      obtain ⟨hserved, m, hanswer⟩ := Wire.answered_apply Movement.identifier s.wire id
        ((q.legCall leg).movement around.reference around.balanceAfter)
      exact ⟨_, hstep, .inl ⟨m, rfl, ⟨h.applied rfl rfl, h.invariant.step hstep, h.stands, id,
        hclient, hserved, hanswer⟩⟩⟩
  | some refusal =>
      have hnone : Table.find Movement.identifier s.wire.records (q.legCall leg).identifier =
          none := by
        rw [← Option.not_isSome_iff_eq_none, hfind]
        intro hmoved
        simp [refusalOf, hmoved] at hrefusal
      have hrefuses : verdicts (q.legCall leg) = some refusal := by
        unfold refusalOf at hrefusal
        split at hrefusal
        · cases hrefusal
        · exact hrefusal
      have hrefusable : s.wire.refusable MovementCall.identifier Movement.identifier id
          (q.legCall leg).identifier = true := by
        simp [Wire.refusable, hnone]
      have hstep : proceed maxAttempts verdicts worker around s =
          some { s with wire := s.wire.answer id (.inr refusal) } := by
        simp only [proceed, hcourse, verdictOf, hnone, hrefuses, Platform.step, hrequest,
          if_pos hrefusable]
      refine ⟨_, hstep, .inr ⟨refusal, rfl, ⟨h.same rfl rfl, h.invariant.step hstep, h.stands, id,
        hclient, ?_, ?_⟩⟩⟩
      · intro hmem
        simpa using (List.mem_filter.mp hmem).2
      · simp [Wire.answer, Table.find_cons]

/-- A posted leg is served and its answer is read. -/
theorem Checkpoint.exchange (h : Checkpoint s₀ worker q row moved s) {leg : Leg}
    (hawait : (s.process worker).await = some (.movement (q.legCall leg))) :
    Inevitable (proceed maxAttempts verdicts worker) (fun s' =>
      (∃ m now, refusalOf verdicts q moved leg = none ∧
        Checkpoint s₀ worker q row (Function.update moved leg true) s' ∧
        s'.process worker = (s.process worker).resume (.moved m) now) ∨
      ∃ refusal now, refusalOf verdicts q moved leg = some refusal ∧
        Checkpoint s₀ worker q row moved s' ∧
        s'.process worker = (s.process worker).resume (.refused refusal) now) s := by
  refine .step fun around => ?_
  obtain ⟨s₁, hpost, hposted⟩ := h.post hawait
  refine ⟨s₁, hpost, .step fun around => ?_⟩
  obtain ⟨s₂, hserve, hserved⟩ := hposted.serve
  refine ⟨s₂, hserve, .step fun around => ?_⟩
  rcases hserved with ⟨m, hrefusal, hserved⟩ | ⟨refusal, hrefusal, hserved⟩
  · obtain ⟨s', hreceive, hcheckpoint, hprocess⟩ := hserved.receive hawait
    exact ⟨s', hreceive, .now (.inl ⟨m.result, _, hrefusal, hcheckpoint, hprocess⟩)⟩
  · obtain ⟨s', hreceive, hcheckpoint, hprocess⟩ := hserved.receive hawait
    exact ⟨s', hreceive, .now (.inr ⟨refusal, _, hrefusal, hcheckpoint, hprocess⟩)⟩

end

end Platform

end Payments

end Paynad
