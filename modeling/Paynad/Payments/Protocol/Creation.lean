import Paynad.Library.Transition
import Paynad.Payments.Application.Initiation

/-!
# One payment for a key

A committed key is completed and names the one payment of its transaction id. The
transaction that has inserted a key holds its slot until it ends, so a key is
committed by one execution, and a saga is started by no other (`Sound`).
-/

namespace Paynad

namespace Payments

namespace Initiation

open Shared Transition

variable {hash : InitiatePaymentCommand → String}

def Complete (payments : List PaymentOrmEntity) (record : IdempotencyRecord) : Prop :=
  record.status = .COMPLETED ∧ ∃ payment ∈ payments,
    payment.transactionId = record.key ∧ record.paymentReference = some payment.reference ∧
      record.responseBody = some ⟨payment.reference⟩

structure Tables (keys : List IdempotencyRecord) (payments : List PaymentOrmEntity) : Prop where
  unique : Table.Unique IdempotencyRecord.key keys
  transactions : Table.Unique (fun payment : PaymentOrmEntity => payment.transactionId) payments
  completed : ∀ record ∈ keys, Complete payments record
  reserved : ∀ payment ∈ payments, ∃ record ∈ keys, record.key = payment.transactionId

/-- The key of the execution is committed with its own request, and names `result`. -/
def Named (hash : InitiatePaymentCommand → String) (s : State) (x : Execution)
    (result : Option InitiatePaymentResult) : Prop :=
  ∃ record, s.find x.key = some record ∧ record.requestHash = hash x.command ∧
    result = record.responseBody

def Holds (s : State) (c : ℕ) (x : Execution) : Prop :=
  s.locks (.key x.key) = some c ∧ s.find x.key = none

/-- What the locals of an execution mean at each of its awaits. -/
def Standing (hash : InitiatePaymentCommand → String) (s : State) (c : ℕ) (x : Execution) :
    Stage → Prop
  | .working record => Holds s c x ∧ record = claimed hash x.command
  | .completing record payment =>
      Holds s c x ∧ record = claimed hash x.command ∧ payment.transactionId = x.key
  | .committing record payment =>
      Holds s c x ∧ payment.transactionId = x.key ∧
        record = completed (claimed hash x.command) payment.reference ⟨payment.reference⟩
  | .replaying result | .answered result => Named hash s x result
  | .initiated result =>
      ⟨c, x.key, result.reference⟩ ∈ s.creations ∧ (∀ saga ∈ s.sagas, saga.execution ≠ c) ∧
        Named hash s x (some result)
  | .saga result => Named hash s x (some result)
  | _ => True

def Stage.started : Stage → Bool
  | .saga _ | .answered _ | .failed _ | .crashed => true
  | _ => false

def Created (hash : InitiatePaymentCommand → String) (s : State) (creation : Creation) : Prop :=
  ∃ x record, s.executions creation.execution = some x ∧ x.key = creation.key ∧
    x.stage.open = false ∧ s.find creation.key = some record ∧
    record.requestHash = hash x.command ∧ record.paymentReference = some creation.reference

def Inserted (x : Execution) : Slot → Prop
  | .key key => key = x.key
  | .reference _ => True
  | .transaction transactionId => transactionId = x.key

structure Sound (hash : InitiatePaymentCommand → String) (s : State) : Prop where
  tables : Tables s.keys s.payments
  creations : Table.Unique Creation.key s.creations
  created : ∀ creation ∈ s.creations, Created hash s creation
  recorded : ∀ record ∈ s.keys, ∃ creation ∈ s.creations, creation.key = record.key
  sagas : Table.Unique Creation.key s.sagas
  started : ∀ saga ∈ s.sagas, saga ∈ s.creations ∧
    ∃ x, s.executions saga.execution = some x ∧ x.stage.started = true
  slots : ∀ slot c, s.locks slot = some c →
    ∃ x, s.executions c = some x ∧ x.stage.open = true ∧ Inserted x slot
  executions : ∀ c x, s.executions c = some x → Standing hash s c x x.stage

variable {s t u : State} {c c' : ℕ} {x x' : Execution} {stage : Stage}
  {record : IdempotencyRecord} {payment : PaymentOrmEntity} {keys : List IdempotencyRecord}
  {payments : List PaymentOrmEntity} {result : Option InitiatePaymentResult}

/-! ## The tables -/

theorem Tables.empty : Tables [] [] where
  unique := .nil _
  transactions := .nil _
  completed := by simp
  reserved := by simp

theorem Tables.create (h : Tables keys payments)
    (hfree : Table.find IdempotencyRecord.key keys record.key = none)
    (htransaction : payment.transactionId = record.key)
    (hrecord : Complete [payment] record) :
    Tables (Table.insert keys record) (Table.insert payments payment) where
  unique := h.unique.insert hfree
  transactions := by
    refine h.transactions.insert (Table.find_eq_none_iff.mpr fun payment' hpayment' heq => ?_)
    obtain ⟨record', hrecord', hkey⟩ := h.reserved payment' hpayment'
    refine Table.find_eq_none_iff.mp hfree record' hrecord' ?_
    rw [hkey, heq, htransaction]
  completed record' hrecord' := by
    rcases List.mem_append.mp hrecord' with hrecord' | hrecord'
    · obtain ⟨hstatus, payment', hpayment', hrest⟩ := h.completed record' hrecord'
      exact ⟨hstatus, payment', List.mem_append_left _ hpayment', hrest⟩
    · obtain rfl := List.mem_singleton.mp hrecord'
      obtain ⟨hstatus, payment', hpayment', hrest⟩ := hrecord
      exact ⟨hstatus, payment', List.mem_append_right _ hpayment', hrest⟩
  reserved payment' hpayment' := by
    rcases List.mem_append.mp hpayment' with hpayment' | hpayment'
    · obtain ⟨record', hrecord', hkey⟩ := h.reserved payment' hpayment'
      exact ⟨record', List.mem_append_left _ hrecord', hkey⟩
    · obtain rfl := List.mem_singleton.mp hpayment'
      exact ⟨record, List.mem_append_right _ (List.mem_singleton_self _), htransaction.symm⟩

theorem Tables.rewrite (h : Tables keys payments) (reference : String)
    (columns : PaymentColumns) (now : Date) :
    Tables keys (Table.modify (fun row => row.reference) payments reference
      (TypeOrmPaymentRepository.updatedRow columns now)) := by
  have hmap : (Table.modify (fun row => row.reference) payments reference
      (TypeOrmPaymentRepository.updatedRow columns now)).map
        (fun payment => payment.transactionId) =
      payments.map fun payment => payment.transactionId := Table.map_modify fun _ _ _ => rfl
  have hsame : ∀ payment : PaymentOrmEntity, ∃ payment' : PaymentOrmEntity,
      payment' = (if payment.reference = reference then
        TypeOrmPaymentRepository.updatedRow columns now payment else payment) ∧
      payment'.transactionId = payment.transactionId ∧
      payment'.reference = payment.reference := by
    intro payment
    by_cases hreference : payment.reference = reference <;>
      simp [hreference, TypeOrmPaymentRepository.updatedRow]
  refine ⟨h.unique, ?_, ?_, ?_⟩
  · rw [Table.Unique, hmap]
    exact h.transactions
  · intro record hrecord
    obtain ⟨hstatus, payment, hpayment, htransaction, hrest⟩ := h.completed record hrecord
    obtain ⟨payment', heq, htransaction', hreference'⟩ := hsame payment
    refine ⟨hstatus, payment', List.mem_map.mpr ⟨payment, hpayment, heq.symm⟩, ?_⟩
    rw [htransaction', hreference']
    exact ⟨htransaction, hrest⟩
  · intro payment hpayment
    obtain ⟨payment₀, hpayment₀, heq⟩ := List.mem_map.mp hpayment
    obtain ⟨payment', heq', htransaction', -⟩ := hsame payment₀
    obtain rfl : payment' = payment := heq'.trans heq
    obtain ⟨record, hrecord, hkey⟩ := h.reserved payment₀ hpayment₀
    exact ⟨record, hrecord, hkey.trans htransaction'.symm⟩

/-! ## The executions -/

theorem goTo_self : (s.goTo c x stage).executions c = some { x with stage := stage } :=
  Function.update_self ..

theorem goTo_of_ne (hne : c' ≠ c) :
    (s.goTo c x stage).executions c' = s.executions c' :=
  Function.update_of_ne hne ..

theorem standing_goTo {stage' : Stage} :
    Standing hash (s.goTo c' x' stage') c x stage ↔ Standing hash s c x stage := by
  cases stage <;> rfl

theorem standing_withStage {stage' : Stage} :
    Standing hash s c { x with stage := stage' } stage ↔ Standing hash s c x stage := by
  cases stage <;> rfl

theorem not_started_of_open (h : stage.open = true) : stage.started = false := by
  cases stage <;> first | rfl | cases h

theorem not_over_of_open (h : stage.open = true) : stage.over = false := by
  cases stage <;> first | rfl | cases h

theorem forall_goTo {Q : ℕ → Execution → Prop} (hself : Q c { x with stage := stage })
    (hothers : ∀ c' x', c' ≠ c → s.executions c' = some x' → Q c' x') (c' : ℕ) (x' : Execution)
    (h : (s.goTo c x stage).executions c' = some x') : Q c' x' := by
  by_cases hc : c' = c
  · subst hc
    obtain rfl := Option.some.inj (goTo_self.symm.trans h)
    exact hself
  · exact hothers c' x' hc ((goTo_of_ne hc).symm.trans h)

/-- The executions go on: one that is past its transaction stays so, and a saga that may
have started stays one. -/
def Lasts (s t : State) : Prop :=
  ∀ c x, s.executions c = some x → ∃ x', t.executions c = some x' ∧ x'.command = x.command ∧
    (x.stage.open = false → x'.stage.open = false) ∧
    (x.stage.started = true → x'.stage.started = true)

theorem Lasts.goTo (hexecutions : u.executions = s.executions)
    (hx : ∀ x₀, s.executions c = some x₀ → x₀ = x)
    (hopened : stage.open = true → x.stage.open = true)
    (hstarted : x.stage.started = true → stage.started = true) : Lasts s (u.goTo c x stage) := by
  intro c₀ x₀ hx₀
  by_cases hc : c₀ = c
  · subst hc
    obtain rfl := hx x₀ hx₀
    refine ⟨_, goTo_self, rfl, fun hclosed => ?_, hstarted⟩
    by_contra hopen
    have := hopened (by simpa using hopen)
    exact absurd (this.symm.trans hclosed) (by decide)
  · exact ⟨x₀, (goTo_of_ne hc).trans (hexecutions ▸ hx₀), rfl, id, id⟩

theorem Lasts.created (h : Lasts s t)
    (hfind : ∀ key record, s.find key = some record → t.find key = some record)
    {creation : Creation} (hcreated : Created hash s creation) : Created hash t creation := by
  obtain ⟨x, record, hx, hkey, hclosed, hrecord, hrest⟩ := hcreated
  obtain ⟨x', hx', hcommand, hclosed', -⟩ := h _ _ hx
  refine ⟨x', record, hx', ?_, hclosed' hclosed, hfind _ _ hrecord, ?_⟩
  · rw [Execution.key, hcommand]
    exact hkey
  · rw [hcommand]
    exact hrest

theorem Lasts.started (h : Lasts s t)
    (hstarted : ∃ x, s.executions c = some x ∧ x.stage.started = true) :
    ∃ x, t.executions c = some x ∧ x.stage.started = true := by
  obtain ⟨x, hx, hstarted⟩ := hstarted
  obtain ⟨x', hx', -, -, hstarted'⟩ := h c x hx
  exact ⟨x', hx', hstarted' hstarted⟩

/-- What the steps of the others leave to an execution. -/
structure Keeps (c : ℕ) (s t : State) : Prop where
  find : ∀ key record, s.find key = some record → t.find key = some record
  locks : ∀ slot, s.locks slot = some c → t.locks slot = some c
  free : ∀ key, s.locks (.key key) = some c → s.find key = none → t.find key = none
  creations : s.creations ⊆ t.creations
  sagas : ∀ saga ∈ t.sagas, saga.execution = c → saga ∈ s.sagas

theorem Named.mono (hkeeps : Keeps c s t) (h : Named hash s x result) : Named hash t x result := by
  obtain ⟨record, hrecord, hrest⟩ := h
  exact ⟨record, hkeeps.find _ _ hrecord, hrest⟩

theorem Holds.mono (hkeeps : Keeps c s t) (h : Holds s c x) : Holds t c x :=
  ⟨hkeeps.locks _ h.1, hkeeps.free _ h.1 h.2⟩

theorem Standing.mono (hkeeps : Keeps c s t) (h : Standing hash s c x stage) :
    Standing hash t c x stage := by
  cases stage with
  | working record => exact ⟨h.1.mono hkeeps, h.2⟩
  | completing record payment => exact ⟨h.1.mono hkeeps, h.2⟩
  | committing record payment => exact ⟨h.1.mono hkeeps, h.2⟩
  | replaying result => exact Named.mono hkeeps h
  | answered result => exact Named.mono hkeeps h
  | initiated result =>
      obtain ⟨hcreation, hsagas, hnamed⟩ := h
      refine ⟨hkeeps.creations hcreation, fun saga hsaga heq => ?_, hnamed.mono hkeeps⟩
      exact hsagas saga (hkeeps.sagas saga hsaga heq) heq
  | saga result => exact Named.mono hkeeps h
  | _ => trivial

/-! ## Steps that commit nothing -/

/-- An execution goes on under other locks: the tables and the history are as before. -/
structure Quiet (hash : InitiatePaymentCommand → String) (s : State) (c : ℕ) (x : Execution)
    (locks : Locks Slot ℕ) (stage : Stage) : Prop where
  others : ∀ slot c', c' ≠ c → (locks slot = some c' ↔ s.locks slot = some c')
  slots : ∀ slot, locks slot = some c → stage.open = true ∧ Inserted x slot
  opened : stage.open = true → x.stage.open = true
  started : x.stage.started = true → stage.started = true
  standing : Standing hash { s with locks := locks } c x stage

theorem Quiet.keep (hsound : Sound hash s) (hx : s.executions c = some x)
    (hopen : stage.open = x.stage.open) (hstarted : x.stage.started = true → stage.started = true)
    (h : Standing hash s c x stage) : Quiet hash s c x s.locks stage where
  others _ _ _ := Iff.rfl
  slots slot hslot := by
    obtain ⟨x', hx', hopen', hinserted⟩ := hsound.slots slot c hslot
    obtain rfl : x = x' := Option.some.inj (hx.symm.trans hx')
    exact ⟨hopen.trans hopen', hinserted⟩
  opened h := hopen ▸ h
  started := hstarted
  standing := h

theorem Quiet.release (hstage : stage.open = false)
    (hstarted : x.stage.started = true → stage.started = true)
    (h : Standing hash { s with locks := s.locks.release c } c x stage) :
    Quiet hash s c x (s.locks.release c) stage where
  others slot c' hne := ⟨fun hslot => (Locks.held_of_release hslot).2,
    fun hslot => Locks.release_of_held hslot hne⟩
  slots slot hslot := absurd rfl (Locks.held_of_release hslot).1
  opened h := absurd (hstage.symm.trans h) (by decide)
  started := hstarted
  standing := h

theorem Quiet.sound (hsound : Sound hash s)
    (hx : ∀ x₀, s.executions c = some x₀ → x₀ = x)
    {locks : Locks Slot ℕ} (h : Quiet hash s c x locks stage) :
    Sound hash ({ s with locks := locks }.goTo c x stage) := by
  have hlasts : Lasts s ({ s with locks := locks }.goTo c x stage) :=
    .goTo rfl hx h.opened h.started
  refine ⟨hsound.tables, hsound.creations, fun creation hcreation => ?_, hsound.recorded,
    hsound.sagas, fun saga hsaga => ?_, fun slot c₀ hslot => ?_, forall_goTo ?_ ?_⟩
  · exact hlasts.created (fun _ _ hfind => hfind) (hsound.created creation hcreation)
  · exact ⟨(hsound.started saga hsaga).1, hlasts.started (hsound.started saga hsaga).2⟩
  · by_cases hc : c₀ = c
    · subst hc
      obtain ⟨hopen, hinserted⟩ := h.slots slot hslot
      exact ⟨_, goTo_self, hopen, hinserted⟩
    · obtain ⟨x₀, hx₀, hrest⟩ := hsound.slots slot c₀ ((h.others slot c₀ hc).mp hslot)
      exact ⟨x₀, (goTo_of_ne hc).trans hx₀, hrest⟩
  · exact standing_goTo.mpr (standing_withStage.mpr h.standing)
  · intro c₀ x₀ hc hx₀
    have hkeeps : Keeps c₀ s { s with locks := locks } :=
      ⟨fun _ _ hfind => hfind, fun slot hslot => (h.others slot c₀ hc).mpr hslot,
        fun _ _ hfree => hfree, List.Subset.refl _, fun _ hsaga _ => hsaga⟩
    exact standing_goTo.mpr ((hsound.executions c₀ x₀ hx₀).mono hkeeps)

/-! ## The commit and the start of a saga -/

theorem commit_sound (hsound : Sound hash s) (hx : s.executions c = some x)
    (hopen : x.stage.open = true) (hholds : Holds s c x)
    (htransaction : payment.transactionId = x.key)
    (hrecord : record = completed (claimed hash x.command) payment.reference ⟨payment.reference⟩)
    (hstage : stage = .initiated ⟨payment.reference⟩ ∨ ∃ error, stage = .failed error) :
    Sound hash ((s.commit c record payment).goTo c x stage) := by
  have hkey : record.key = x.key := by rw [hrecord]; rfl
  have hfree : s.find record.key = none := by rw [hkey]; exact hholds.2
  have hfind : ∀ key record', s.find key = some record' →
      (s.commit c record payment).find key = some record' := fun _ _ h =>
    Table.find_insert_of_find h
  have hself : (s.commit c record payment).find x.key = some record := by
    rw [← hkey]
    exact Table.find_insert_self hfree
  have hnamed : Named hash (s.commit c record payment) x (some ⟨payment.reference⟩) :=
    ⟨record, hself, by rw [hrecord]; rfl, by rw [hrecord]; rfl⟩
  have hclosed : stage.open = false := by
    rcases hstage with rfl | ⟨error, rfl⟩ <;> rfl
  have hyoung : ∀ creation ∈ s.creations, creation.execution ≠ c := by
    intro creation hcreation heq
    obtain ⟨x', -, hx', -, hclosed', -⟩ := hsound.created creation hcreation
    rw [heq] at hx'
    obtain rfl : x = x' := Option.some.inj (hx.symm.trans hx')
    exact absurd (hopen.symm.trans hclosed') (by decide)
  have hlasts : Lasts s ((s.commit c record payment).goTo c x stage) := by
    refine .goTo rfl (fun x₀ hx₀ => Option.some.inj (hx₀.symm.trans hx)) (fun _ => hopen) ?_
    exact fun hstarted => absurd (not_started_of_open hopen) (by simp [hstarted])
  refine ⟨?_, ?_, ?_, ?_, hsound.sagas, ?_, ?_, forall_goTo ?_ ?_⟩
  · refine hsound.tables.create hfree (htransaction.trans hkey.symm) ⟨?_, payment, ?_, ?_⟩
    · rw [hrecord]
      rfl
    · exact List.mem_singleton_self _
    · rw [hrecord]
      exact ⟨htransaction, rfl, rfl⟩
  · refine hsound.creations.insert (Table.find_eq_none_iff.mpr fun creation hcreation heq => ?_)
    obtain ⟨-, record', -, -, -, hrecord', -⟩ := hsound.created creation hcreation
    have hkey' : creation.key = record.key := heq
    rw [hkey', hfree] at hrecord'
    cases hrecord'
  · intro creation hcreation
    rcases List.mem_append.mp hcreation with hcreation | hcreation
    · exact hlasts.created hfind (hsound.created creation hcreation)
    · obtain rfl := List.mem_singleton.mp hcreation
      refine ⟨_, record, goTo_self, hkey.symm, hclosed, ?_, ?_, ?_⟩
      · simp only [hkey]
        exact hself
      · rw [hrecord]
        rfl
      · rw [hrecord]
        rfl
  · intro record' hrecord'
    rcases List.mem_append.mp hrecord' with hrecord' | hrecord'
    · obtain ⟨creation, hcreation, heq⟩ := hsound.recorded record' hrecord'
      exact ⟨creation, List.mem_append_left _ hcreation, heq⟩
    · obtain rfl := List.mem_singleton.mp hrecord'
      exact ⟨_, List.mem_append_right _ (List.mem_singleton_self _), rfl⟩
  · intro saga hsaga
    obtain ⟨hcreation, hstarted⟩ := hsound.started saga hsaga
    exact ⟨List.mem_append_left _ hcreation, hlasts.started hstarted⟩
  · intro slot c' hslot
    have hslot' : s.locks.release c slot = some c' := hslot
    obtain ⟨hc, hheld⟩ := Locks.held_of_release hslot'
    obtain ⟨x', hx', hrest⟩ := hsound.slots slot c' hheld
    exact ⟨x', (goTo_of_ne hc).trans hx', hrest⟩
  · rw [standing_goTo, standing_withStage]
    rcases hstage with rfl | ⟨error, rfl⟩
    · refine ⟨List.mem_append_right _ (List.mem_singleton.mpr ?_), ?_, hnamed⟩
      · rw [hkey]
      · intro saga hsaga
        exact hyoung saga (hsound.started saga hsaga).1
    · trivial
  · intro c' x' hc hx'
    refine standing_goTo.mpr ((hsound.executions c' x' hx').mono
      ⟨hfind, fun slot hslot => Locks.release_of_held hslot hc, ?_,
        List.subset_append_left _ _, fun _ hsaga _ => hsaga⟩)
    intro key hlock hnone
    have hne : record.key ≠ key := by
      rintro rfl
      rw [hkey, hholds.1] at hlock
      exact hc (Option.some.inj hlock).symm
    exact (Table.find_insert_of_ne hne).trans hnone

theorem saga_sound {result : InitiatePaymentResult} (hsound : Sound hash s)
    (hx : s.executions c = some x) (hstage : x.stage = .initiated result) :
    Sound hash ((s.startSaga ⟨c, x.key, result.reference⟩).goTo c x (.saga result)) := by
  have hstanding := hsound.executions c x hx
  rw [hstage] at hstanding
  obtain ⟨hcreation, hyoung, hnamed⟩ := hstanding
  have hlasts : Lasts s ((s.startSaga ⟨c, x.key, result.reference⟩).goTo c x (.saga result)) :=
    .goTo rfl (fun x₀ hx₀ => Option.some.inj (hx₀.symm.trans hx)) nofun fun _ => rfl
  refine ⟨hsound.tables, hsound.creations, fun creation hcreation' => ?_, hsound.recorded,
    ?_, ?_, ?_, forall_goTo (standing_goTo.mpr hnamed) ?_⟩
  · exact hlasts.created (fun _ _ hfind => hfind) (hsound.created creation hcreation')
  · refine hsound.sagas.insert (Table.find_eq_none_iff.mpr fun saga hsaga heq => ?_)
    obtain ⟨hcreation', -⟩ := hsound.started saga hsaga
    have hsame : saga = ⟨c, x.key, result.reference⟩ :=
      List.inj_on_of_nodup_map hsound.creations hcreation' hcreation heq
    exact hyoung saga hsaga (congrArg Creation.execution hsame)
  · intro saga hsaga
    rcases List.mem_append.mp hsaga with hsaga | hsaga
    · obtain ⟨hcreation', hstarted⟩ := hsound.started saga hsaga
      exact ⟨hcreation', hlasts.started hstarted⟩
    · obtain rfl := List.mem_singleton.mp hsaga
      exact ⟨hcreation, _, goTo_self, rfl⟩
  · intro slot c₀ hslot
    obtain ⟨x₀, hx₀, hopen, hinserted⟩ := hsound.slots slot c₀ hslot
    have hc : c₀ ≠ c := by
      rintro rfl
      obtain rfl : x = x₀ := Option.some.inj (hx.symm.trans hx₀)
      rw [hstage] at hopen
      cases hopen
    exact ⟨x₀, (goTo_of_ne hc).trans hx₀, hopen, hinserted⟩
  · intro c₀ x₀ hc hx₀
    have hkeeps : Keeps c₀ s (s.startSaga ⟨c, x.key, result.reference⟩) := by
      refine ⟨fun _ _ hfind => hfind, fun _ hslot => hslot, fun _ _ hfree => hfree,
        List.Subset.refl _, fun saga hsaga heq => ?_⟩
      rcases List.mem_append.mp hsaga with hsaga | hsaga
      · exact hsaga
      · obtain rfl := List.mem_singleton.mp hsaga
        exact absurd heq.symm hc
    exact standing_goTo.mpr ((hsound.executions c₀ x₀ hx₀).mono hkeeps)

/-! ## The steps -/

theorem Quiet.sound_of (hsound : Sound hash s) (hx : s.executions c = some x)
    {locks : Locks Slot ℕ} (h : Quiet hash s c x locks stage) :
    Sound hash ({ s with locks := locks }.goTo c x stage) := by
  refine h.sound hsound fun x₀ hx₀ => ?_
  exact Option.some.inj (hx₀.symm.trans hx)

theorem Quiet.acquire (hsound : Sound hash s) (hx : s.executions c = some x)
    (hopen : x.stage.open = true) {slots : List Slot}
    (havailable : ∀ slot ∈ slots, s.locks.available c slot = true)
    (hinserted : ∀ slot ∈ slots, Inserted x slot) (hstage : stage.open = true)
    (hstarted : x.stage.started = true → stage.started = true)
    (h : Standing hash { s with locks := s.locks.acquireAll c slots } c x stage) :
    Quiet hash s c x (s.locks.acquireAll c slots) stage where
  others slot c' hne := by
    refine ⟨fun hslot => ?_, fun hslot => Locks.acquireAll_of_held havailable hslot⟩
    rcases Locks.held_of_acquireAll hslot with hheld | ⟨heq, -⟩
    · exact hheld
    · exact absurd heq hne
  slots slot hslot := by
    refine ⟨hstage, ?_⟩
    rcases Locks.held_of_acquireAll hslot with hheld | ⟨-, hmem⟩
    · obtain ⟨x', hx', -, hinserted'⟩ := hsound.slots slot c hheld
      obtain rfl : x = x' := Option.some.inj (hx.symm.trans hx')
      exact hinserted'
    · exact hinserted slot hmem
  opened _ := hopen
  started := hstarted
  standing := h

theorem resolveExisting_ok {key requestHash : String} {existing : Option IdempotencyRecord}
    (h : resolveExisting key requestHash existing = .ok result) :
    ∃ record, existing = some record ∧ record.requestHash = requestHash ∧
      result = record.responseBody := by
  unfold resolveExisting at h
  split at h
  · cases h
  · next record =>
      split_ifs at h with hhash hstatus
      exact ⟨record, rfl, by simpa using hhash, (Except.ok.inj h).symm⟩

/-- One step of an execution, stage by stage. -/
theorem resume_sound (hsound : Sound hash s) (hx : s.executions c = some x)
    {reference : Reference .pay} {now : Date} (h : resume hash s c x reference now = some t) :
    Sound hash t := by
  have hstanding := hsound.executions c x hx
  have hkeep : ∀ {stage : Stage}, stage.open = x.stage.open →
      (x.stage.started = true → stage.started = true) → Standing hash s c x stage →
      Sound hash (s.goTo c x stage) := fun hopen hstarted hs =>
    (Quiet.keep hsound hx hopen hstarted hs).sound_of hsound hx
  unfold resume at h
  cases hstage : x.stage with
  | claiming =>
      simp only [hstage, claim] at h hkeep
      split at h
      · obtain rfl := Option.some.inj h
        exact hkeep rfl (by rintro ⟨⟩) trivial
      · next hnone =>
          split_ifs at h with havailable
          obtain rfl := Option.some.inj h
          have hquiet : Quiet hash s c x (s.locks.acquireAll c [.key x.key])
              (.working (claimed hash x.command)) := by
            refine .acquire hsound hx (by rw [hstage]; rfl) ?_ ?_ rfl (by rw [hstage]; rintro ⟨⟩) ?_
            · simpa using havailable
            · simp [Inserted]
            · exact ⟨⟨Locks.acquire_self, hnone⟩, rfl⟩
          exact hquiet.sound_of hsound hx
  | finding =>
      simp only [hstage] at h hkeep
      split at h
      · obtain rfl := Option.some.inj h
        exact hkeep rfl (by rintro ⟨⟩) trivial
      · next result hresult =>
          obtain rfl := Option.some.inj h
          obtain ⟨record, hfind, hrest⟩ := resolveExisting_ok hresult
          exact hkeep rfl (by rintro ⟨⟩) ⟨record, hfind, hrest⟩
  | working record =>
      simp only [hstage, work] at h hkeep hstanding
      split at h
      · obtain rfl := Option.some.inj h
        exact hkeep rfl (by rintro ⟨⟩) trivial
      · next payment hpayment =>
          obtain ⟨htransaction, -⟩ := InitiatePaymentCommand.of_payment hpayment
          split at h
          · obtain rfl := Option.some.inj h
            exact hkeep rfl (by rintro ⟨⟩) trivial
          · split_ifs at h with havailable
            obtain rfl := Option.some.inj h
            obtain ⟨hholds, hrecord⟩ := hstanding
            have hall : ∀ slot ∈ [Slot.reference payment.reference.value,
                .transaction payment.transactionId], s.locks.available c slot = true :=
              List.all_eq_true.mp havailable
            have hquiet : Quiet hash s c x (s.locks.acquireAll c
                [.reference payment.reference.value, .transaction payment.transactionId])
                (.completing record (TypeOrmPaymentRepository.insertedRow
                  (PaymentOrmMapper.toPersistence payment) now)) := by
              refine .acquire hsound hx (by rw [hstage]; rfl) hall ?_ rfl
                (by rw [hstage]; rintro ⟨⟩) ?_
              · simp [Inserted, htransaction, Execution.key]
              · exact ⟨⟨Locks.acquireAll_of_held hall hholds.1, hholds.2⟩, hrecord, htransaction⟩
            exact hquiet.sound_of hsound hx
  | completing record payment =>
      simp only [hstage] at h hkeep hstanding
      obtain rfl := Option.some.inj h
      obtain ⟨hholds, rfl, htransaction⟩ := hstanding
      exact hkeep rfl (by rintro ⟨⟩) ⟨hholds, htransaction, rfl⟩
  | committing record payment =>
      simp only [hstage] at h hstanding
      obtain rfl := Option.some.inj h
      obtain ⟨hholds, htransaction, hrecord⟩ := hstanding
      exact commit_sound hsound hx (by rw [hstage]; rfl) hholds htransaction hrecord (.inl rfl)
  | replaying result =>
      simp only [hstage] at h hstanding
      obtain rfl := Option.some.inj h
      exact (Quiet.release rfl (by rw [hstage]; rintro ⟨⟩) hstanding).sound_of hsound hx
  | failing error =>
      simp only [hstage] at h
      obtain rfl := Option.some.inj h
      have hquiet : Quiet hash s c x (s.locks.release c) (.failed error) :=
        .release rfl (by rw [hstage]; rintro ⟨⟩) trivial
      exact hquiet.sound_of hsound hx
  | initiated result =>
      simp only [hstage] at h hkeep
      split at h
      · obtain rfl := Option.some.inj h
        exact hkeep rfl (by rintro ⟨⟩) trivial
      · next paymentReference hreference =>
          obtain rfl := Option.some.inj h
          rw [Reference.value_of_ok hreference]
          exact saga_sound hsound hx hstage
  | saga result => simp [hstage] at h
  | answered result => simp [hstage] at h
  | failed error => simp [hstage] at h
  | crashed => simp [hstage] at h

/-- Every step keeps everything sound. -/
theorem step_sound (hsound : Sound hash s) {e : Event} (h : step hash s e = some t) :
    Sound hash t := by
  cases e with
  | execute c command =>
      simp only [step] at h
      split at h
      · next hnone =>
          obtain rfl := Option.some.inj h
          have hquiet : Quiet hash s c ⟨command, .claiming⟩ s.locks .claiming := by
            refine ⟨fun _ _ _ => Iff.rfl, fun slot hslot => ?_, id, nofun, trivial⟩
            obtain ⟨x, hx, -⟩ := hsound.slots slot c hslot
            exact nomatch hnone.symm.trans hx
          exact hquiet.sound hsound fun _ hx => nomatch hnone.symm.trans hx
      · cases h
  | resume c reference now =>
      obtain ⟨x, hx, hresume⟩ := Option.bind_eq_some_iff.mp h
      exact resume_sound hsound hx hresume
  | fail c message =>
      obtain ⟨x, hx, h⟩ := Option.bind_eq_some_iff.mp h
      split_ifs at h with hopen
      obtain rfl := Option.some.inj h
      have hstarted : x.stage.started = true →
          (Stage.failing (.other message)).started = true :=
        fun hstarted => nomatch (not_started_of_open hopen).symm.trans hstarted
      have hquiet : Quiet hash s c x s.locks (.failing (.other message)) :=
        .keep hsound hx hopen.symm hstarted trivial
      exact hquiet.sound_of hsound hx
  | unacknowledge c message =>
      obtain ⟨x, hx, h⟩ := Option.bind_eq_some_iff.mp h
      split at h
      · next record payment hstage =>
          obtain rfl := Option.some.inj h
          have hstanding := hsound.executions c x hx
          rw [hstage] at hstanding
          obtain ⟨hholds, htransaction, hrecord⟩ := hstanding
          exact commit_sound hsound hx (by rw [hstage]; rfl) hholds htransaction hrecord
            (.inr ⟨_, rfl⟩)
      · cases h
  | finish c error =>
      obtain ⟨x, hx, h⟩ := Option.bind_eq_some_iff.mp h
      split at h
      · next result hstage _ =>
          obtain rfl := Option.some.inj h
          have hstanding := hsound.executions c x hx
          rw [hstage] at hstanding
          have hquiet : Quiet hash s c x s.locks (.answered (some result)) :=
            .keep hsound hx (by rw [hstage]; rfl) (fun _ => rfl) hstanding
          exact hquiet.sound_of hsound hx
      · next error hstage _ =>
          obtain rfl := Option.some.inj h
          have hquiet : Quiet hash s c x s.locks (.failed error) :=
            .keep hsound hx (by rw [hstage]; rfl) (fun _ => rfl) trivial
          exact hquiet.sound_of hsound hx
      · cases h
  | crash c =>
      obtain ⟨x, hx, h⟩ := Option.bind_eq_some_iff.mp h
      split_ifs at h
      obtain rfl := Option.some.inj h
      have hquiet : Quiet hash s c x (s.locks.release c) .crashed :=
        .release rfl (fun _ => rfl) trivial
      exact hquiet.sound_of hsound hx
  | rewrite reference columns now =>
      obtain rfl := Option.some.inj h
      refine ⟨hsound.tables.rewrite reference columns now, hsound.creations, hsound.created,
        hsound.recorded, hsound.sagas, hsound.started, hsound.slots, fun c x hx => ?_⟩
      have hstanding := hsound.executions c x hx
      cases hstage : x.stage <;> rw [hstage] at hstanding <;> exact hstanding

theorem sound_init : Sound hash init where
  tables := .empty
  creations := .nil _
  created := by simp [init]
  recorded := by simp [init]
  sagas := .nil _
  started := by simp [init]
  slots _ _ h := nomatch h
  executions _ _ h := nomatch h

theorem sound_of_reachable (h : Reachable (step hash) init s) : Sound hash s :=
  h.invariant sound_init fun _ _ _ hsound hstep => step_sound hsound hstep

end Initiation

end Payments

end Paynad
