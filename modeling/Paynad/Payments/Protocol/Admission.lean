import Paynad.Accounts.Wallets.WalletsController
import Paynad.Payments.Infrastructure.AccountsHttpClient
import Paynad.Payments.Presentation.InitiatePaymentRequest
import Paynad.Payments.Protocol.Legs

/-!
# From the edge down to `accounts`

Four validators stand between a request and the movements of its payment: the pipe
of the edge, the value objects, the rehydration of a row and the pipes of
`accounts`. What the first lets through, and what the saga derives from it, the
others let through as well. A row keeps for its whole life the values of the request
it was created for, so this holds along every run.
-/

namespace Paynad

namespace Payments

open Shared Transition TypeOrmPaymentRepository

/-! ## What the saga derives passes the patterns of the contract -/

theorem isTransactionIdChar_of_mem_alphabet :
    ∀ c ∈ alphabet, isTransactionIdChar c = true :=
  List.all_eq_true.mp (by decide)

theorem Reference.all_isTransactionIdChar {family : ReferencePrefixName}
    (reference : Reference family) :
    ∀ c ∈ reference.value.toList, isTransactionIdChar c = true := by
  have h := reference.wellFormed
  simp only [Reference.test, Bool.and_eq_true, beq_iff_eq, List.all_eq_true] at h
  obtain ⟨⟨hhead, -⟩, hbody⟩ := h
  have hfamily : (family.text ++ "_").toList.all isTransactionIdChar = true := by
    cases family <;> decide
  intro c hc
  rw [← List.take_append_drop 4 reference.value.toList, List.mem_append] at hc
  rcases hc with hc | hc
  · rw [hhead] at hc
    exact List.all_eq_true.mp hfamily c hc
  · exact isTransactionIdChar_of_mem_alphabet c (by simpa using hbody c hc)

/-- The key of every leg is a transaction id. -/
theorem transactionIdRegex_movementKey (reference : Reference .pay) (leg : Leg) :
    transactionIdRegex (movementKey reference.value leg) = true := by
  have hlength := reference.length_toList
  have hchars := reference.all_isTransactionIdChar
  have hsuffix : ∀ suffix : String, suffix.toList.length = 7 →
      suffix.toList.all isTransactionIdChar = true →
      transactionIdRegex (reference.value ++ suffix) = true := by
    intro suffix hseven hall
    simp only [transactionIdRegex, String.toList_append, List.length_append, hlength, hseven,
      List.all_append, hall, Bool.and_true, Bool.and_eq_true]
    exact ⟨by decide, List.all_eq_true.mpr hchars⟩
  cases leg with
  | debit =>
      simp only [movementKey, transactionIdRegex, hlength, Bool.and_eq_true, List.all_eq_true]
      exact ⟨by decide, hchars⟩
  | credit => exact hsuffix ":credit" (by decide) (by decide)
  | refund => exact hsuffix ":refund" (by decide) (by decide)

theorem referencePattern_value {family : ReferencePrefixName} (reference : Reference family) :
    referencePattern family.shared reference.value = true := by
  rw [referencePattern_eq]
  exact reference.wellFormed

theorem safeDescriptionRegex_refund (unicode : Unicode) :
    safeDescriptionRegex unicode "Refund of a failed payment" = true := by
  have hchars : ("Refund of a failed payment".toList.all fun c =>
      c.isAlpha || descriptionPunctuation.contains c) = true := by decide
  rw [safeDescriptionRegex, List.all_eq_true]
  intro c hc
  rcases Bool.or_eq_true_iff.mp (List.all_eq_true.mp hchars c hc) with halpha | hpunctuation
  · rw [unicode.letter_of_isAlpha c halpha]
    rfl
  · rw [hpunctuation, Bool.or_true]

/-! ## The pipes of `accounts` -/

structure DescriptionValid (unicode : Unicode) (description : String) : Prop where
  ne : description ≠ ""
  length : description.toList.length ≤ descriptionMaxLength
  safe : safeDescriptionRegex unicode description = true

theorem descriptionValid_refund (unicode : Unicode) :
    DescriptionValid unicode "Refund of a failed payment" where
  ne := by decide
  length := by decide
  safe := safeDescriptionRegex_refund unicode

/-- The request of a call, once both pipes of `accounts` have let it through. -/
structure Received (unicode : Unicode) (call : MovementCall)
    (request : Accounts.BalanceOperationRequest) : Prop where
  path : (movementRequest call).path = ["accounts", call.wallet.value, call.operation.text]
  received : Accounts.WalletsController.receive unicode call.wallet.value
    (.obj (movementRequest call).body) = some (call.wallet.value, request)
  transactionId : request.transactionId = call.idempotencyKey
  amount : request.amount = call.money.amount
  currency : request.currency = call.money.currency.code
  description : request.description = call.description
  paymentReference : request.paymentReference = some call.paymentReference.value

/-- A call whose key, amount and description are valid passes both pipes. -/
theorem received_of_valid {unicode : Unicode} {call : MovementCall}
    (hkey : transactionIdRegex call.idempotencyKey = true)
    (hamount : isValidAmount (.num call.money.amount) = true)
    (hdescription : DescriptionValid unicode call.description) :
    ∃ request, Received unicode call request := by
  obtain ⟨hne, hlength, hsafe⟩ := hdescription
  have hrules : invalidProperties (Accounts.BalanceOperationRequest.rules unicode)
      (movementRequest call).body = [] := by
    rw [invalidProperties_eq_nil_iff]
    simp only [Accounts.BalanceOperationRequest.rules, List.forall_mem_cons,
      List.not_mem_nil, false_implies, implies_true, and_true]
    refine ⟨isTransactionId_accepts.mpr ⟨_, rfl, hkey⟩, isAmount_accepts.mpr ⟨_, rfl, hamount⟩,
      isCurrency_accepts.mpr ?_, isSafeDescription_accepts.mpr ⟨_, rfl, hne, hlength, hsafe⟩,
      isOptional_accepts.mpr (.inr (.inr ?_))⟩
    · cases call.money.currency
      simp [movementRequest, List.lookup_cons, Currency.code]
    · exact referencePattern_value call.paymentReference
  have hpipe : pipeAccepts (Accounts.BalanceOperationRequest.rules unicode)
      (.obj (movementRequest call).body) = true := by
    rw [pipeAccepts, hrules]
    rfl
  obtain ⟨request, hread, htransactionId, hamount', hcurrency, hdescription', hpayment⟩ :=
    Accounts.BalanceOperationRequest.read_of_valid hrules
  have hwallet : referencePipe .WALLET call.wallet.value = some call.wallet.value :=
    if_pos (referencePattern_value call.wallet)
  refine ⟨request, rfl, ?_, ?_, ?_, ?_, ?_, hpayment⟩
  · simp only [Accounts.WalletsController.receive, hwallet,
      Accounts.BalanceOperationRequest.parse, hpipe, hread]
    rfl
  · have heq := Option.some.inj htransactionId
    exact (Json.str.inj heq).symm
  · have heq := Option.some.inj hamount'
    exact (Rat.intCast_inj.mp (Json.num.inj heq)).symm
  · have heq := Option.some.inj hcurrency
    exact (Json.str.inj heq).symm
  · have heq := Option.some.inj hdescription'
    exact (Json.str.inj heq).symm

/-! ## A row keeps the values of its request -/

/-- The value objects of a request the pipe has let through, as `accounts` wants them. -/
structure Admitted (unicode : Unicode) (input : InitiatePaymentInput) : Prop where
  amount : isValidAmount (.num input.money.amount) = true
  description : DescriptionValid unicode input.description

theorem InitiatePaymentRequest.Valid.admitted {unicode : Unicode}
    {request : InitiatePaymentRequest} {input : InitiatePaymentInput}
    (h : request.Valid unicode) (hyields : request.Yields input) : Admitted unicode input := by
  obtain ⟨money, hmoney, hamount⟩ := money_of_isValidAmount request.currency h.amount
  obtain rfl : money = input.money := Except.ok.inj (hmoney.symm.trans hyields.money)
  refine ⟨hamount ▸ h.amount, ?_⟩
  rw [hyields.description]
  exact ⟨h.description_ne, h.description_length, h.description_safe⟩

namespace Workers

/-- In the run `es`, it was `request` that the payment `reference` was created for. -/
def CreatedFor (request : InitiatePaymentRequest) (reference : Reference .pay)
    (es : List Event) : Prop :=
  ∃ es₁ worker input moment fault es₂ s₁ s₂,
    es = es₁ ++ .initiate worker input reference moment fault :: es₂ ∧ request.Yields input ∧
    run step init es₁ = some s₁ ∧
    step s₁ (.initiate worker input reference moment fault) = some s₂ ∧
    rowOf s₁.database.payments reference.value = none ∧
    (rowOf s₂.database.payments reference.value).isSome = true

theorem row_of_initiate {s t : State} {worker : ℕ} {input : InitiatePaymentInput}
    {reference : Reference .pay} {moment : Moment} {fault : Fault} {row : PaymentOrmEntity}
    (hstep : step s (.initiate worker input reference moment fault) = some t)
    (hnone : rowOf s.database.payments reference.value = none)
    (hrow : rowOf t.database.payments reference.value = some row) :
    ∃ payment, Payment.initiate input reference moment.now = .ok payment ∧
      row.toPaymentColumns = payment.columns := by
  have hkept : t.database.payments ≠ s.database.payments := by
    intro heq
    rw [heq, hnone] at hrow
    cases hrow
  have hsaved : ∀ {payment : Payment} {rows : List PaymentOrmEntity} {saved : Tracked},
      Payment.initiate input reference moment.now = .ok payment →
      save s.database.payments ⟨payment, none⟩ moment.now = .ok (rows, saved) →
      t.database.payments = rows → row.toPaymentColumns = payment.columns := by
    intro payment rows saved hinitiate hsave hrows
    rcases save_cases hsave with ⟨-, -, rfl, -⟩ | ⟨row, hrevision, -⟩
    · have hreference : (insertedRow payment.columns moment.now).reference = reference.value :=
        congrArg Reference.value (Payment.of_initiate hinitiate).1
      have hfree : rowOf s.database.payments
          (insertedRow payment.columns moment.now).reference = none := hreference ▸ hnone
      have hself := rowOf_insert_self hfree
      rw [hreference] at hself
      rw [hrows] at hrow
      obtain rfl := Option.some.inj (hself.symm.trans hrow)
      rfl
    · cases hrevision
  simp only [step] at hstep
  split at hstep
  · split at hstep
    · cases hstep
      exact absurd rfl hkept
    · next payment hinitiate =>
        split at hstep
        · next database tracked hrun =>
            obtain ⟨rows, saved, hsave, rfl, -⟩ := Work.run_changes (.inl hrun)
            refine ⟨payment, hinitiate, hsaved hinitiate hsave ?_⟩
            rw [← Option.some.inj hstep, State.put_database]
        · next database tracked message hrun =>
            obtain ⟨rows, saved, hsave, rfl, -⟩ := Work.run_changes (.inr ⟨message, hrun⟩)
            refine ⟨payment, hinitiate, hsaved hinitiate hsave ?_⟩
            rw [← Option.some.inj hstep]
        · cases hstep
          exact absurd rfl hkept
  · cases hstep

theorem identity_of_run {s t : State} {es : List Event} {reference : String}
    {row : PaymentOrmEntity} (hs : Invariant s) (h : run step s es = some t)
    (hrow : rowOf s.database.payments reference = some row) :
    ∃ row', rowOf t.database.payments reference = some row' ∧ row'.identity = row.identity := by
  let keeps (u : State) : Prop := Invariant u ∧
    ∃ row', rowOf u.database.payments reference = some row' ∧ row'.identity = row.identity
  have hkeeps : keeps t := by
    refine run_invariant (I := keeps) ?_ h ⟨hs, row, hrow, rfl⟩
    rintro u e v ⟨hu, row₁, hrow₁, hidentity⟩ hstep
    obtain ⟨row₂, hrow₂, hprecedes⟩ := ((step_cases hstep).2.sound hu).2 reference row₁ hrow₁
    exact ⟨hu.step hstep, row₂, hrow₂, hprecedes.identity.trans hidentity⟩
  exact hkeeps.2

/-- The row of a payment says what its request said. -/
theorem CreatedFor.row {request : InitiatePaymentRequest} {reference : Reference .pay}
    {es : List Event} {s : State} (h : CreatedFor request reference es)
    (hrun : run step init es = some s) :
    ∃ input now payment row, request.Yields input ∧
      Payment.initiate input reference now = .ok payment ∧
      rowOf s.database.payments reference.value = some row ∧
      row.identity = payment.columns.identity := by
  obtain ⟨es₁, worker, input, moment, fault, es₂, s₁, s₂, rfl, hyields, hrun₁, hstep, hnone,
    hsome⟩ := h
  obtain ⟨row, hrow⟩ := Option.isSome_iff_exists.mp hsome
  obtain ⟨payment, hinitiate, hcolumns⟩ := row_of_initiate hstep hnone hrow
  have hs₂ : Invariant s₂ := (invariant_of_reachable ⟨es₁, hrun₁⟩).step hstep
  rw [run_append, hrun₁, Option.bind_some, run_cons_of_step hstep] at hrun
  obtain ⟨row', hrow', hidentity⟩ := identity_of_run hs₂ hrun hrow
  refine ⟨input, moment.now, payment, row', hyields, hinitiate, hrow', ?_⟩
  rw [hidentity]
  exact congrArg PaymentColumns.identity hcolumns

theorem Invariant.leg_of_movement {s : State} (hs : Invariant s) {worker : ℕ}
    {call : MovementCall} (hawait : (s.workers worker).await = some (.movement call)) :
    ∃ (leg : Leg) (p : Payment) (row : PaymentOrmEntity), call = p.legCall leg ∧
      rowOf s.database.payments p.reference.value = some row ∧
      row.identity = p.columns.identity := by
  obtain ⟨command, hcommand⟩ : ∃ command, (s.workers worker).command = some command := by
    cases hprocess : s.workers worker with
    | idle | initiated => rw [hprocess] at hawait; cases hawait
    | saga reference command => exact ⟨command, rfl⟩
    | recovery reference stage =>
        cases stage with
        | saga command => exact ⟨command, rfl⟩
        | compensate stage => exact ⟨_, rfl⟩
        | find | refind | record => rw [hprocess] at hawait; cases hawait
  have hcall : command.await = .movement call :=
    Option.some.inj ((await_of_command hcommand).symm.trans hawait)
  obtain ⟨leg, t, -, haggregate, rfl, -⟩ := Command.call_of_await hcall
  obtain ⟨row, -, hrow, -, hidentity, -⟩ := (hs.fits worker command hcommand).based t haggregate
  exact ⟨leg, t.payment, row, rfl, hrow, hidentity⟩

/-- The calls of an admitted payment are received. -/
theorem received_of_leg {unicode : Unicode} {input : InitiatePaymentInput} {p q : Payment}
    {reference : Reference .pay} {now : Date} (h : Admitted unicode input)
    (hinitiate : Payment.initiate input reference now = .ok q)
    (hidentity : p.columns.identity = q.columns.identity) (leg : Leg) :
    ∃ request, Received unicode (p.legCall leg) request := by
  obtain ⟨-, -, hmoney, -, -, hdescription, -⟩ := Payment.of_initiate hinitiate
  have hamount : p.money.amount = input.money.amount :=
    (congrArg PaymentColumns.amount hidentity).trans (congrArg Money.amount hmoney)
  have hdescription' : p.description = input.description :=
    (congrArg PaymentColumns.description hidentity).trans hdescription
  have hvalid : isValidAmount (.num p.money.amount) = true := hamount ▸ h.amount
  have hsafe : DescriptionValid unicode p.description := hdescription' ▸ h.description
  cases leg with
  | debit => exact received_of_valid (transactionIdRegex_movementKey _ .debit) hvalid hsafe
  | credit => exact received_of_valid (transactionIdRegex_movementKey _ .credit) hvalid hsafe
  | refund =>
      exact received_of_valid (transactionIdRegex_movementKey _ .refund) hvalid
        (descriptionValid_refund unicode)

/-- A request with two different wallets that the edge accepts is accepted all the way
down: by the value objects, by the rehydration of each of its rows, and by the pipes of
`accounts` on each call made for it. -/
theorem accepted_downstream {unicode : Unicode} {body : Json}
    {request : InitiatePaymentRequest}
    (hparse : InitiatePaymentRequest.parse unicode body = some request)
    (hwallets : request.sourceWalletReference ≠ request.destinationWalletReference) :
    (∃ input, request.Yields input ∧ ∀ reference now, ∃ payment,
      Payment.initiate input reference now = .ok payment ∧
        request.toCommand.payment reference now = .ok payment) ∧
    ∀ es s reference, run step init es = some s → CreatedFor request reference es →
      (∀ row, rowOf s.database.payments reference.value = some row →
        ∃ payment, PaymentOrmMapper.toDomain row = .ok payment) ∧
      ∀ worker call, (s.workers worker).await = some (.movement call) →
        call.paymentReference = reference → ∃ received, Received unicode call received := by
  have hvalid := InitiatePaymentRequest.valid_of_parse hparse
  constructor
  · obtain ⟨input, hyields⟩ := hvalid.yields
    refine ⟨input, hyields, fun reference now => ?_⟩
    obtain ⟨payment, hinitiate⟩ := hyields.initiate hwallets reference now
    refine ⟨payment, hinitiate, ?_⟩
    rw [hyields.payment, hinitiate]
    rfl
  · intro es s reference hrun hcreated
    have hs := invariant_of_reachable ⟨es, hrun⟩
    constructor
    · intro row hrow
      obtain ⟨payment, hwritten⟩ := (hs.database.rows _ row hrow).written
      exact ⟨_, PaymentOrmMapper.toDomain_of_written hwritten⟩
    · intro worker call hawait hreference
      obtain ⟨leg, p, row, rfl, hrow, hidentity⟩ := hs.leg_of_movement hawait
      obtain ⟨input, now, q, row', hyields, hinitiate, hrow', hidentity'⟩ := hcreated.row hrun
      have hp : p.reference = reference := by
        cases leg <;> exact hreference
      obtain rfl : row = row' := Option.some.inj (hrow.symm.trans (hp ▸ hrow'))
      exact received_of_leg (hvalid.admitted hyields) hinitiate
        (hidentity.symm.trans hidentity') leg

def sampleBody : Json :=
  .obj [("transaction_id", .str "order-0001"),
    ("source_wallet_reference", .str "wlt_00000000000000000000000001"),
    ("destination_wallet_reference", .str "wlt_00000000000000000000000002"),
    ("amount", .num 500),
    ("currency", .str "XOF"),
    ("description", .str "Order 1"),
    ("lang", .str "fr")]

def sampleRequest : InitiatePaymentRequest where
  transactionId := "order-0001"
  sourceWalletReference := "wlt_00000000000000000000000001"
  destinationWalletReference := "wlt_00000000000000000000000002"
  amount := 500
  currency := .XOF
  description := "Order 1"
  lang := .fr
  metadata := none

theorem parse_sampleBody :
    InitiatePaymentRequest.parse Unicode.ascii sampleBody = some sampleRequest := by rfl

def admittedInput : InitiatePaymentInput := { sampleInput with transactionId := "order-0001" }

theorem yields_sampleRequest : sampleRequest.Yields admittedInput :=
  ⟨rfl, rfl, rfl, rfl, rfl, rfl⟩

theorem createdFor_of_first {request : InitiatePaymentRequest} {worker : ℕ}
    {input : InitiatePaymentInput} {reference : Reference .pay} {moment : Moment} {fault : Fault}
    (hyields : request.Yields input)
    (hsome : ((step init (.initiate worker input reference moment fault)).bind
      fun s => rowOf s.database.payments reference.value).isSome = true) (es : List Event) :
    CreatedFor request reference (.initiate worker input reference moment fault :: es) := by
  obtain ⟨row, hrow⟩ := Option.isSome_iff_exists.mp hsome
  obtain ⟨s, hstep, hrow⟩ := Option.bind_eq_some_iff.mp hrow
  exact ⟨[], worker, input, moment, fault, es, init, s, rfl, hyields, rfl, hstep, rfl,
    by rw [hrow]; rfl⟩

/-- An admitted payment up to the call of its debit. -/
def admittedRun : List Event :=
  [.initiate 0 admittedInput sampleReference sampleMoment .none, .start 0,
    .query 0 sampleMoment .none, .query 0 sampleMoment .none]

/-- The payment of the call a process awaits. -/
def Process.called (process : Process) : Option (Reference .pay) :=
  match process.await with
  | some (.movement call) => some call.paymentReference
  | _ => none

theorem accepted_downstream_admittedRun :
    ∃ s call, run step init admittedRun = some s ∧
      (s.workers 0).await = some (.movement call) ∧
      ∃ received, Received Unicode.ascii call received := by
  have h : ((run step init admittedRun).bind fun s => Process.called (s.workers 0)) =
      some sampleReference := by decide
  obtain ⟨s, hrun, hcalled⟩ := Option.bind_eq_some_iff.mp h
  obtain ⟨call, hawait, hreference⟩ : ∃ call, (s.workers 0).await = some (.movement call) ∧
      call.paymentReference = sampleReference := by
    unfold Process.called at hcalled
    split at hcalled
    · next call hawait => exact ⟨call, hawait, Option.some.inj hcalled⟩
    · cases hcalled
  have hdownstream := (accepted_downstream parse_sampleBody (by decide)).2
  exact ⟨s, call, hrun, hawait,
    (hdownstream admittedRun s sampleReference hrun
      (createdFor_of_first yields_sampleRequest (by decide) _)).2 0 call hawait hreference⟩

end Workers

end Payments

end Paynad
