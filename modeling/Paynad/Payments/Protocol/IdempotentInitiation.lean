import Paynad.Payments.Protocol.Creation

/-!
# Idempotent initiation

What `Sound` means to the callers of `POST /payments`: one payment for a key, one
reference in all answers, a refusal for another request, nothing left by a failure.
-/

namespace Paynad

namespace Payments

namespace Initiation

open Shared Transition

variable {hash : InitiatePaymentCommand → String} {s t : State} {c : ℕ} {x x' : Execution}
  {record : IdempotencyRecord} {e : Event} {es : List Event}

theorem Named.payment {result : Option InitiatePaymentResult} (hsound : Sound hash s)
    (h : Named hash s x result) :
    ∃ payment ∈ s.payments, payment.transactionId = x.key ∧
      result = some ⟨payment.reference⟩ := by
  obtain ⟨record, hfind, -, rfl⟩ := h
  obtain ⟨-, payment, hpayment, htransaction, -, hbody⟩ :=
    hsound.tables.completed record (Table.mem_of_find hfind)
  exact ⟨payment, hpayment, htransaction.trans (Table.key_of_find hfind), hbody⟩

theorem hash_of_created (hsound : Sound hash s) (hx : s.executions c = some x)
    (hfind : s.find x.key = some record)
    (hcreation : ∃ creation ∈ s.creations, creation.execution = c) :
    record.requestHash = hash x.command := by
  obtain ⟨creation, hmem, rfl⟩ := hcreation
  obtain ⟨x', record', hx', hkey, -, hfind', hhash, -⟩ := hsound.created creation hmem
  obtain rfl : x = x' := Option.some.inj (hx.symm.trans hx')
  rw [← hkey, hfind] at hfind'
  obtain rfl := Option.some.inj hfind'
  exact hhash

/-- An execution whose request is not the recorded one has not been answered. -/
theorem not_answered_of_conflict (hsound : Sound hash s)
    (hx : s.executions c = some x) (hfind : s.find x.key = some record)
    (hhash : record.requestHash ≠ hash x.command) (result : Option InitiatePaymentResult) :
    x.stage ≠ .answered result := by
  intro hstage
  have hstanding := hsound.executions c x hx
  rw [hstage] at hstanding
  obtain ⟨record', hfind', hhash', -⟩ := hstanding
  obtain rfl : record = record' := Option.some.inj (hfind.symm.trans hfind')
  exact hhash hhash'

theorem conflict_refused (reference : Reference .pay) (now : Date)
    (hx : s.executions c = some x) (hfind : s.find x.key = some record)
    (hhash : record.requestHash ≠ hash x.command)
    (hstage : x.stage = .claiming ∨ x.stage = .finding) :
    ∃ n t, run (step hash) s (List.replicate n (.resume c reference now)) = some t ∧
      t.executions c = some { x with stage := .failed (.idempotencyConflict x.key) } ∧
      t.keys = s.keys ∧ t.payments = s.payments := by
  have hrefuse : ∀ s : State, ∀ x₀ : Execution, s.executions c = some x₀ →
      x₀.command = x.command → x₀.stage = .finding → s.find x.key = some record →
      ∃ t, run (step hash) s (List.replicate 2 (.resume c reference now)) = some t ∧
        t.executions c = some { x with stage := .failed (.idempotencyConflict x.key) } ∧
        t.keys = s.keys ∧ t.payments = s.payments := by
    intro s x₀ hx₀ hcommand hstage hfind
    have hkey : x₀.key = x.key := congrArg InitiatePaymentCommand.transactionId hcommand
    have hresolve : resolveExisting x₀.key (hash x₀.command) (s.find x₀.key) =
        .error (.idempotencyConflict x.key) := by
      rw [hkey, hfind, hcommand]
      exact if_pos hhash
    have hfirst : step hash s (.resume c reference now) =
        some (s.goTo c x₀ (.failing (.idempotencyConflict x.key))) := by
      simp only [step, hx₀, Option.bind_some, resume, hstage, hresolve]
    have hsecond : step hash (s.goTo c x₀ (.failing (.idempotencyConflict x.key)))
        (.resume c reference now) =
        some (((s.goTo c x₀ (.failing (.idempotencyConflict x.key))).unlock c).goTo c
          { x₀ with stage := .failing (.idempotencyConflict x.key) }
          (.failed (.idempotencyConflict x.key))) := by
      simp only [step, goTo_self, Option.bind_some, resume]
    have hrun : run (step hash) s (List.replicate 2 (.resume c reference now)) = some
        (((s.goTo c x₀ (.failing (.idempotencyConflict x.key))).unlock c).goTo c
          { x₀ with stage := .failing (.idempotencyConflict x.key) }
          (.failed (.idempotencyConflict x.key))) := by
      rw [List.replicate_succ, run_cons_of_step hfirst, List.replicate_succ,
        run_cons_of_step hsecond]
      rfl
    refine ⟨_, hrun, ?_, rfl, rfl⟩
    rw [goTo_self, ← hcommand]
  rcases hstage with hstage | hstage
  · have hfirst : step hash s (.resume c reference now) = some (s.goTo c x .finding) := by
      simp only [step, hx, Option.bind_some, resume, hstage, claim, hfind]
    obtain ⟨t, hrun, ht⟩ := hrefuse (s.goTo c x .finding) _ goTo_self rfl rfl hfind
    refine ⟨3, t, ?_, ht⟩
    rw [List.replicate_succ, run_cons_of_step hfirst]
    exact hrun
  · exact ⟨2, hrefuse s x hx rfl hstage hfind⟩

/-- An execution that ends without having committed leaves the tables as they were and
holds nothing. -/
theorem failure_leaves_nothing (hsound : Sound hash s) (hstep : step hash s e = some t)
    (hx : s.executions c = some x) (hopen : x.stage.open = true) (he : e.execution = some c)
    (hx' : t.executions c = some x') (hover : x'.stage.over = true)
    (hnone : ∀ creation ∈ t.creations, creation.execution ≠ c) :
    t.keys = s.keys ∧ t.payments = s.payments ∧ ∀ slot, t.locks slot ≠ some c := by
  have hlocks : ∀ slot, t.locks slot ≠ some c := by
    intro slot hslot
    obtain ⟨x'', hx'', hopen', -⟩ := (step_sound hsound hstep).slots slot c hslot
    obtain rfl : x' = x'' := Option.some.inj (hx'.symm.trans hx'')
    cases (not_over_of_open hopen').symm.trans hover
  have hstays : ∀ stage : Stage, stage.over = false → ∀ u : State, t = u.goTo c x stage →
      t.keys = s.keys ∧ t.payments = s.payments ∧ ∀ slot, t.locks slot ≠ some c := by
    rintro stage hstage u rfl
    rw [goTo_self] at hx'
    obtain rfl := Option.some.inj hx'
    exact absurd (hover.symm.trans hstage) (by decide)
  cases e with
  | execute c' command =>
      obtain rfl : c' = c := Option.some.inj he
      simp [step, hx] at hstep
  | resume c' reference now =>
      obtain rfl : c' = c := Option.some.inj he
      simp only [step, hx, Option.bind_some, resume] at hstep
      cases hstage : x.stage with
      | claiming =>
          simp only [hstage, claim] at hstep
          split at hstep
          · exact hstays _ rfl _ (Option.some.inj hstep).symm
          · split_ifs at hstep
            exact hstays _ rfl _ (Option.some.inj hstep).symm
      | finding =>
          simp only [hstage] at hstep
          split at hstep <;> exact hstays _ rfl _ (Option.some.inj hstep).symm
      | working record =>
          simp only [hstage, work] at hstep
          split at hstep
          · exact hstays _ rfl _ (Option.some.inj hstep).symm
          · split at hstep
            · exact hstays _ rfl _ (Option.some.inj hstep).symm
            · split_ifs at hstep
              exact hstays _ rfl _ (Option.some.inj hstep).symm
      | completing record payment =>
          simp only [hstage] at hstep
          exact hstays _ rfl _ (Option.some.inj hstep).symm
      | committing record payment =>
          simp only [hstage] at hstep
          exact hstays _ rfl _ (Option.some.inj hstep).symm
      | replaying result =>
          simp only [hstage] at hstep
          obtain rfl := Option.some.inj hstep
          exact ⟨rfl, rfl, hlocks⟩
      | failing error =>
          simp only [hstage] at hstep
          obtain rfl := Option.some.inj hstep
          exact ⟨rfl, rfl, hlocks⟩
      | _ => simp [hstage, Stage.open] at hopen
  | fail c' message =>
      obtain rfl : c' = c := Option.some.inj he
      simp only [step, hx, Option.bind_some, hopen, if_true] at hstep
      exact hstays _ rfl _ (Option.some.inj hstep).symm
  | unacknowledge c' message =>
      obtain rfl : c' = c := Option.some.inj he
      simp only [step, hx, Option.bind_some] at hstep
      split at hstep
      · obtain rfl := Option.some.inj hstep
        exact absurd rfl (hnone _ (List.mem_append_right _ (List.mem_singleton_self _)))
      · cases hstep
  | finish c' error =>
      obtain rfl : c' = c := Option.some.inj he
      simp only [step, hx, Option.bind_some] at hstep
      split at hstep
      · next result hstage =>
          rw [hstage] at hopen
          cases hopen
      · next result error hstage =>
          rw [hstage] at hopen
          cases hopen
      · cases hstep
  | crash c' =>
      obtain rfl : c' = c := Option.some.inj he
      simp only [step, hx, Option.bind_some] at hstep
      split_ifs at hstep
      obtain rfl := Option.some.inj hstep
      exact ⟨rfl, rfl, hlocks⟩
  | rewrite reference columns now => cases he

theorem slot_free (hsound : Sound hash s) {key : String} {slot : Slot}
    (hslot : slot = .key key ∨ slot = .transaction key)
    (hidle : ∀ c x, s.executions c = some x → x.key = key → x.stage.open = false) :
    s.locks slot = none := by
  cases hheld : s.locks slot with
  | none => rfl
  | some c =>
      obtain ⟨x, hx, hopen, hinserted⟩ := hsound.slots slot c hheld
      have hkey : x.key = key := by
        rcases hslot with rfl | rfl
        · exact Eq.symm hinserted
        · exact Eq.symm hinserted
      exact absurd (hopen.symm.trans (hidle c x hx hkey)) (by decide)

section

variable (hash)

theorem step_claim (reference : Reference .pay) (now : Date) (hx : s.executions c = some x)
    (hstage : x.stage = .claiming) (hfind : s.find x.key = none)
    (hlock : s.locks (.key x.key) = none) :
    step hash s (.resume c reference now) =
      some ({ s with locks := s.locks.acquire c (.key x.key) }.goTo c x
        (.working (claimed hash x.command))) := by
  have havailable : s.locks.available c (.key x.key) = true := Locks.available_of_free hlock
  simp only [step, hx, Option.bind_some, resume, hstage, claim, hfind, havailable, if_true]

theorem step_work {reference : Reference .pay} {now : Date} {payment : Payment}
    (hx : s.executions c = some x) (hstage : x.stage = .working record)
    (hpayment : x.command.payment reference now = .ok payment)
    (hnone : ∀ row ∈ s.payments, row.reference ≠ payment.reference.value ∧
      row.transactionId ≠ payment.transactionId)
    (hreference : s.locks (.reference payment.reference.value) = none)
    (htransaction : s.locks (.transaction payment.transactionId) = none) :
    ∃ t, step hash s (.resume c reference now) = some t ∧
      t.executions c = some ⟨x.command, .completing record
        (TypeOrmPaymentRepository.insertedRow (PaymentOrmMapper.toPersistence payment) now)⟩ := by
  have hsave : ∃ saved, TypeOrmPaymentRepository.save s.payments ⟨payment, none⟩ now =
      .ok saved := by
    refine ⟨_, if_neg fun hany => ?_⟩
    obtain ⟨row, hrow, hsame⟩ := List.any_eq_true.mp hany
    simp only [Bool.or_eq_true, decide_eq_true_eq] at hsame
    exact hsame.elim (hnone row hrow).1 (hnone row hrow).2
  obtain ⟨saved, hsave⟩ := hsave
  have havailable : [Slot.reference payment.reference.value,
      .transaction payment.transactionId].all (s.locks.available c) = true := by
    simp [Locks.available_of_free hreference, Locks.available_of_free htransaction]
  have hstep : step hash s (.resume c reference now) =
      some ({ s with
        locks := s.locks.acquireAll c [.reference payment.reference.value,
          .transaction payment.transactionId] }.goTo c x (.completing record
        (TypeOrmPaymentRepository.insertedRow (PaymentOrmMapper.toPersistence payment) now))) := by
    simp only [step, hx, Option.bind_some, resume, hstage, work, hpayment, hsave, havailable,
      if_true]
  exact ⟨_, hstep, goTo_self⟩

theorem run_commit (reference : Reference .pay) (now : Date) {payment : PaymentOrmEntity}
    (hx : s.executions c = some x) (hstage : x.stage = .completing record payment) :
    ∃ t, run (step hash) s (List.replicate 2 (.resume c reference now)) = some t ∧
      t.executions c = some { x with stage := .initiated ⟨payment.reference⟩ } := by
  let completed := completed record payment.reference ⟨payment.reference⟩
  let s₁ := s.goTo c x (.committing completed payment)
  let x₁ : Execution := ⟨x.command, .committing completed payment⟩
  have hcomplete : step hash s (.resume c reference now) = some s₁ := by
    simp only [step, hx, Option.bind_some, resume, hstage]
    rfl
  have hx₁ : s₁.executions c = some x₁ := goTo_self
  have hcommit : step hash s₁ (.resume c reference now) =
      some ((s₁.commit c completed payment).goTo c x₁ (.initiated ⟨payment.reference⟩)) := by
    simp only [step, hx₁, Option.bind_some, resume, x₁]
  have hrun : run (step hash) s (List.replicate 2 (.resume c reference now)) =
      some ((s₁.commit c completed payment).goTo c x₁ (.initiated ⟨payment.reference⟩)) := by
    rw [List.replicate_succ, run_cons_of_step hcomplete, List.replicate_succ,
      run_cons_of_step hcommit]
    rfl
  exact ⟨_, hrun, goTo_self⟩

end

/-- Once no execution of a key is in progress and none has committed, a new one that draws
a fresh reference creates its payment. -/
theorem retry_succeeds (hsound : Sound hash s) {command : InitiatePaymentCommand}
    {reference : Reference .pay} {now : Date} {payment : Payment} (hnew : s.executions c = none)
    (hfind : s.find command.transactionId = none)
    (hidle : ∀ c x, s.executions c = some x → x.key = command.transactionId →
      x.stage.open = false)
    (hpayment : command.payment reference now = .ok payment)
    (hfresh : ∀ row ∈ s.payments, row.reference ≠ reference.value)
    (hslot : s.locks (.reference reference.value) = none) :
    ∃ t, run (step hash) s (.execute c command ::
        List.replicate 4 (.resume c reference now)) = some t ∧
      t.executions c = some ⟨command, .initiated ⟨reference.value⟩⟩ := by
  have hkey := slot_free hsound (.inl rfl) hidle
  have htransaction := slot_free hsound (.inr rfl) hidle
  obtain ⟨hid, hreference⟩ := InitiatePaymentCommand.of_payment hpayment
  have hstart : step hash s (.execute c command) =
      some (s.goTo c ⟨command, .claiming⟩ .claiming) := by
    simp only [step, hnew]
  have hx : (s.goTo c ⟨command, .claiming⟩ .claiming).executions c =
      some ⟨command, .claiming⟩ := goTo_self
  have hclaim := step_claim hash reference now hx rfl hfind hkey
  have hnone : ∀ row ∈ s.payments, row.reference ≠ payment.reference.value ∧
      row.transactionId ≠ payment.transactionId := by
    intro row hrow
    refine ⟨by rw [hreference]; exact hfresh row hrow, fun heq => ?_⟩
    obtain ⟨record, hrecord, hrecordKey⟩ := hsound.tables.reserved row hrow
    refine Table.find_eq_none_iff.mp hfind record hrecord ?_
    rw [hrecordKey, heq, hid]
  have hslot' : s.locks.acquire c (.key command.transactionId)
      (.reference payment.reference.value) = none := by
    rw [hreference, Locks.acquire_of_ne (by simp), hslot]
  have htransaction' : s.locks.acquire c (.key command.transactionId)
      (.transaction payment.transactionId) = none := by
    rw [hid, Locks.acquire_of_ne (by simp), htransaction]
  let s₁ := s.goTo c ⟨command, .claiming⟩ .claiming
  obtain ⟨s₃, hwork, hx₃⟩ := step_work hash
    (s := { s₁ with locks := s₁.locks.acquire c (.key command.transactionId) }.goTo c
      ⟨command, .claiming⟩ (.working (claimed hash command)))
    goTo_self rfl hpayment hnone hslot' htransaction'
  obtain ⟨t, hrun, ht⟩ := run_commit hash reference now hx₃ rfl
  refine ⟨t, ?_, ?_⟩
  · rw [run_cons_of_step hstart, List.replicate_succ, run_cons_of_step hclaim,
      List.replicate_succ]
    exact (run_cons_of_step hwork _).trans hrun
  · rw [ht, ← hreference]
    rfl

/-- In every reachable state: a transaction id has at most one payment; what an execution
has returned is the reference of the payment of its key; an execution whose request is
not the recorded one never succeeds, creates nothing and is refused by the steps it has
left; an execution that ends before its commit leaves no row and no lock, and a later one
can then succeed; a committed key is completed and names its payment; and a saga is
started by the creator of a payment only, once for a key. -/
theorem idempotent_initiation (h : Reachable (step hash) init s) :
    Table.Unique (fun payment : PaymentOrmEntity => payment.transactionId) s.payments ∧
    (∀ c x result, s.executions c = some x → x.stage = .answered result →
      ∃ payment ∈ s.payments, payment.transactionId = x.key ∧
        result = some ⟨payment.reference⟩) ∧
    (∀ c x record, s.executions c = some x → s.find x.key = some record →
      record.requestHash ≠ hash x.command →
      (∀ result, x.stage ≠ .answered result) ∧
      (∀ creation ∈ s.creations, creation.execution ≠ c) ∧
      (x.stage = .claiming ∨ x.stage = .finding → ∀ reference now,
        ∃ n t, run (step hash) s (List.replicate n (.resume c reference now)) = some t ∧
          t.executions c = some { x with stage := .failed (.idempotencyConflict x.key) } ∧
          t.keys = s.keys ∧ t.payments = s.payments)) ∧
    (∀ e t c x x', step hash s e = some t → e.execution = some c → s.executions c = some x →
      x.stage.open = true → t.executions c = some x' → x'.stage.over = true →
      (∀ creation ∈ t.creations, creation.execution ≠ c) →
      t.keys = s.keys ∧ t.payments = s.payments ∧ ∀ slot, t.locks slot ≠ some c) ∧
    (∀ c command reference now payment, s.executions c = none →
      s.find command.transactionId = none →
      (∀ c x, s.executions c = some x → x.key = command.transactionId →
        x.stage.open = false) →
      command.payment reference now = .ok payment →
      (∀ row ∈ s.payments, row.reference ≠ reference.value) →
      s.locks (.reference reference.value) = none →
      ∃ t, run (step hash) s (.execute c command ::
          List.replicate 4 (.resume c reference now)) = some t ∧
        t.executions c = some ⟨command, .initiated ⟨reference.value⟩⟩) ∧
    (∀ record ∈ s.keys, record.status = .COMPLETED ∧ ∃ payment ∈ s.payments,
      payment.transactionId = record.key ∧ record.paymentReference = some payment.reference) ∧
    Table.Unique Creation.key s.sagas ∧ ∀ saga ∈ s.sagas, saga ∈ s.creations := by
  have hsound := sound_of_reachable h
  refine ⟨hsound.tables.transactions, ?_, ?_, ?_, ?_, ?_, hsound.sagas, ?_⟩
  · intro c x result hx hstage
    have hstanding := hsound.executions c x hx
    rw [hstage] at hstanding
    exact hstanding.payment hsound
  · intro c x record hx hfind hhash
    refine ⟨not_answered_of_conflict hsound hx hfind hhash, fun creation hcreation heq => ?_, ?_⟩
    · exact hhash (hash_of_created hsound hx hfind ⟨creation, hcreation, heq⟩)
    · exact fun hstage reference now => conflict_refused reference now hx hfind hhash hstage
  · intro e t c x x' hstep he hx hopen hx' hover hnone
    exact failure_leaves_nothing hsound hstep hx hopen he hx' hover hnone
  · intro c command reference now payment hnew hfind hidle hpayment hfresh hslot
    exact retry_succeeds hsound hnew hfind hidle hpayment hfresh hslot
  · intro record hrecord
    obtain ⟨hstatus, payment, hpayment, htransaction, hreference, -⟩ :=
      hsound.tables.completed record hrecord
    exact ⟨hstatus, payment, hpayment, htransaction, hreference⟩
  · exact fun saga hsaga => (hsound.started saga hsaga).1

def State.returned (s : State) (c : ℕ) : Option InitiatePaymentResult :=
  match (s.executions c).map Execution.stage with
  | some (.answered result) => result
  | _ => none

def sampleCommand : InitiatePaymentCommand where
  transactionId := "tx-00000001"
  sourceWallet := "wlt_00000000000000000000000000"
  destinationWallet := "wlt_00000000000000000000000001"
  amount := 500
  currency := .XOF
  description := "Paiement"
  lang := .fr
  metadata := none

def samplePaymentReference : Reference .pay := ⟨"pay_00000000000000000000000001", Eq.refl true⟩

/-- Two executions of one request: the second one waits at its claim, then replays. -/
def replayedRun : List Event :=
  [.execute 0 sampleCommand, .execute 1 sampleCommand] ++
    List.replicate 5 (.resume 0 samplePaymentReference 0) ++ [.finish 0 none] ++
    List.replicate 3 (.resume 1 samplePaymentReference 0)

theorem idempotent_initiation_replayedRun :
    ∃ s, run (step InitiatePaymentCommand.transactionId) init replayedRun = some s ∧
      (s.returned 0, s.returned 1) =
        (some ⟨"pay_00000000000000000000000001"⟩, some ⟨"pay_00000000000000000000000001"⟩) ∧
      Table.Unique (fun payment : PaymentOrmEntity => payment.transactionId) s.payments ∧
      Table.Unique Creation.key s.sagas := by
  have h : (run (step InitiatePaymentCommand.transactionId) init replayedRun).map
      (fun s => (s.returned 0, s.returned 1)) =
      some (some ⟨"pay_00000000000000000000000001"⟩,
        some ⟨"pay_00000000000000000000000001"⟩) := by
    decide +kernel
  obtain ⟨s, hrun, hs⟩ := Option.map_eq_some_iff.mp h
  obtain ⟨htransactions, -, -, -, -, -, hsagas, -⟩ := idempotent_initiation ⟨_, hrun⟩
  exact ⟨s, hrun, hs, htransactions, hsagas⟩

end Initiation

end Payments

end Paynad
