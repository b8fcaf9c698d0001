import Paynad.Deployment.Agreement
import Paynad.Library.Simulation

/-!
# The two services refine the platform

Every run of the two services is a run of the platform: their workers do what its workers
do, and the entries of the ledger are the records of its wire.
-/

namespace Paynad

namespace Deployment

open Shared Payments Transition
open Payments.Platform (Client clientsAfter)

structure Refines (s : State) (p : Platform.State) : Prop where
  payments : p.payments = s.payments
  clients : p.clients = s.clients
  agrees : Agrees s.sent s.accounts p.wire

variable {s s' : State} {p : Platform.State} {id : ℕ} {post : MovementCall}
  {outcome : Accounts.Outcome}

/-! ## The steps of the two services -/

/-- A step of the two services, by what it does to `accounts`. -/
inductive Effect (unicode : Unicode) (maxAttempts : ℕ) (s s' : State) : Event → Prop
  | internal (event : Workers.Event)
      (hlocal : ∀ worker answer now, event ≠ .answer worker answer now)
      (hstep : Workers.step s.payments event = some s'.payments)
      (heq : s' = { s with payments := s'.payments, clients := clientsAfter s.clients event }) :
      Effect unicode maxAttempts s s' (.internal event)
  | sent (worker attempt : ℕ) (uncertain : Bool) (post : MovementCall)
      (hawait : (s.payments.workers worker).await = some (.movement post))
      (hclient : s.clients worker = .ready attempt uncertain)
      (heq : s' = { s with
        clients := Function.update s.clients worker (.waiting s.sent.length attempt uncertain)
        sent := s.sent ++ [post] }) :
      Effect unicode maxAttempts s s' (.send worker)
  | arrived (id : ℕ) (post : MovementCall) (reference : String)
      (request : Accounts.BalanceOperationRequest) (accounts : Accounts.State)
      (hpost : s.sent[id]? = some post)
      (hreceived : Accounts.WalletsController.receive unicode post.wallet.value
        (.obj (movementRequest post).body) = some (reference, request))
      (hstep : Accounts.step s.accounts (arrival post.operation id reference request) =
        some accounts)
      (heq : s' = { s with accounts := accounts }) :
      Effect unicode maxAttempts s s' (.arrive id)
  | resumed (id : ℕ) (trx : Reference .trx) (accounts : Accounts.State)
      (hstep : Accounts.step s.accounts (.resume id trx.value) = some accounts)
      (heq : s' = { s with accounts := accounts }) :
      Effect unicode maxAttempts s s' (.resume id trx)
  | served (event : Accounts.Event) (accounts : Accounts.State)
      (hresume : ∀ id trx, event ≠ .resume id trx)
      (hcredit : ∀ id reference request, event ≠ .credit id reference request)
      (hdebit : ∀ id reference request, event ≠ .debit id reference request)
      (hstep : Accounts.step s.accounts event = some accounts)
      (heq : s' = { s with accounts := accounts }) :
      Effect unicode maxAttempts s s' (.accounts event)
  | received (worker id attempt : ℕ) (uncertain : Bool) (outcome : Accounts.Outcome)
      (post : MovementCall) (now : Date)
      (hclient : s.clients worker = .waiting id attempt uncertain)
      (houtcome : outcomeOf s.accounts id = some outcome) (hpost : s.sent[id]? = some post)
      (hread : match readMovement post.wallet.value uncertain
          (.ofAnswer (Accounts.WalletsController.respond outcome)) with
        | .answered answer => finish s worker answer now = some s'
        | .failed retryable => failed maxAttempts s worker attempt retryable now = some s') :
      Effect unicode maxAttempts s s' (.receive worker now)
  | failed (worker id attempt : ℕ) (uncertain retryable : Bool) (now : Date)
      (hclient : s.clients worker = .waiting id attempt uncertain)
      (hfailed : failed maxAttempts s worker attempt retryable now = some s') :
      Effect unicode maxAttempts s s' (.fail worker retryable now)
  | opened (worker : ℕ) (post : MovementCall) (now : Date)
      (hawait : (s.payments.workers worker).await = some (.movement post))
      (hclient : s.clients worker = .ready 1 false)
      (hfinish : finish s worker .unavailable now = some s') :
      Effect unicode maxAttempts s s' (.circuitOpen worker now)
  | lookedUp (worker : ℕ) (available : Bool) (now : Date) (wallet : Reference .wlt) (key : String)
      (hawait : (s.payments.workers worker).await = some (.findMovement wallet key))
      (hfinish : finish s worker (if available then
          readLookup (.ofAnswer (Accounts.WalletsController.movement s.accounts wallet.value key))
        else .lookupUnavailable) now = some s') :
      Effect unicode maxAttempts s s' (.lookUp worker available now)

theorem step_cases {unicode : Unicode} {maxAttempts : ℕ} {e : Event}
    (h : step unicode maxAttempts s e = some s') : Effect unicode maxAttempts s s' e := by
  cases e with
  | internal event =>
      by_cases hanswer : ∃ worker answer now, event = .answer worker answer now
      · obtain ⟨worker, answer, now, rfl⟩ := hanswer
        cases h
      · have hmap : (Workers.step s.payments event).map (fun payments =>
            { s with payments := payments, clients := clientsAfter s.clients event }) =
              some s' := by
          cases event <;> first | exact h | exact absurd ⟨_, _, _, rfl⟩ hanswer
        obtain ⟨payments, hstep, rfl⟩ := Option.map_eq_some_iff.mp hmap
        exact .internal event (fun _ _ _ heq => hanswer ⟨_, _, _, heq⟩) hstep rfl
  | send worker =>
      simp only [step] at h
      split at h <;> cases h
      exact .sent worker _ _ _ ‹_› ‹_› rfl
  | arrive id =>
      obtain ⟨post, hpost, h⟩ := Option.bind_eq_some_iff.mp h
      obtain ⟨received, hreceived, h⟩ := Option.bind_eq_some_iff.mp h
      obtain ⟨accounts, hstep, rfl⟩ := Option.map_eq_some_iff.mp h
      exact .arrived id post _ _ accounts hpost hreceived hstep rfl
  | resume id trx =>
      obtain ⟨accounts, hstep, rfl⟩ := Option.map_eq_some_iff.mp h
      exact .resumed id trx accounts hstep rfl
  | accounts event =>
      have hcases : (∀ id trx, event ≠ .resume id trx) ∧
          (∀ id reference request, event ≠ .credit id reference request) ∧
          (∀ id reference request, event ≠ .debit id reference request) ∧
          (Accounts.step s.accounts event).map (fun accounts =>
            { s with accounts := accounts }) = some s' := by
        cases event <;> first | cases h | exact ⟨nofun, nofun, nofun, h⟩
      obtain ⟨hresume, hcredit, hdebit, hmap⟩ := hcases
      obtain ⟨accounts, hstep, rfl⟩ := Option.map_eq_some_iff.mp hmap
      exact .served event accounts hresume hcredit hdebit hstep rfl
  | receive worker now =>
      simp only [step] at h
      split at h
      · split at h
        · refine .received worker _ _ _ _ _ now ‹_› ‹_› ‹_› ?_
          split at h <;> simp only [*]
        · cases h
      · cases h
  | fail worker retryable now =>
      simp only [step] at h
      split at h
      · exact .failed worker _ _ _ retryable now ‹_› h
      · cases h
  | circuitOpen worker now =>
      simp only [step] at h
      split at h
      · exact .opened worker _ now ‹_› ‹_› h
      · cases h
  | lookUp worker available now =>
      simp only [step] at h
      split at h
      · exact .lookedUp worker available now _ _ ‹_› h
      · cases h

theorem Refines.finish (h : Refines s p) {worker : ℕ} {answer : Answer} {now : Date}
    (hfinish : Deployment.finish s worker answer now = some s') :
    ∃ p', Platform.finish p worker answer now = some p' ∧ Refines s' p' := by
  obtain ⟨payments, hstep, rfl⟩ := Option.map_eq_some_iff.mp hfinish
  refine ⟨⟨payments, clientsAfter p.clients (.answer worker answer now), p.wire⟩, ?_, rfl, ?_,
    h.agrees⟩
  · rw [Platform.finish, h.payments, hstep]
    rfl
  · rw [h.clients]

theorem Refines.failed (h : Refines s p) {maxAttempts worker id attempt : ℕ} {uncertain : Bool}
    {retryable : Bool} {now : Date} (hclient : s.clients worker = .waiting id attempt uncertain)
    (hfailed : Deployment.failed maxAttempts s worker attempt retryable now = some s') :
    ∃ p', Platform.step maxAttempts p (.fail worker retryable now) = some p' ∧ Refines s' p' := by
  rw [Deployment.failed] at hfailed
  simp only [Platform.step, h.clients, hclient]
  split_ifs at hfailed ⊢ with hretry
  · obtain rfl := Option.some.inj hfailed
    exact ⟨_, rfl, h.payments, rfl, h.agrees⟩
  · exact h.finish hfailed

/-! ## The runs -/

/-- What reaches the accounts of the two services, the service alone reaches. -/
theorem sound_of_reachable {unicode : Unicode} {maxAttempts : ℕ}
    (h : Reachable (step unicode maxAttempts) init s) : Accounts.Sound s.accounts := by
  refine Accounts.sound_of_reachable (h.map State.accounts fun s e s' hstep => ?_)
  have hfinish : ∀ {worker : ℕ} {answer : Answer} {now : Date},
      finish s worker answer now = some s' → s'.accounts = s.accounts := by
    intro worker answer now h
    obtain ⟨payments, -, rfl⟩ := Option.map_eq_some_iff.mp h
    rfl
  have hfailed : ∀ {worker attempt : ℕ} {retryable : Bool} {now : Date},
      failed maxAttempts s worker attempt retryable now = some s' → s'.accounts = s.accounts := by
    intro worker attempt retryable now h
    rw [failed] at h
    split_ifs at h
    · obtain rfl := Option.some.inj h
      rfl
    · exact hfinish h
  cases step_cases hstep with
  | internal event _ _ heq =>
      rw [heq]
      exact .inl rfl
  | sent _ _ _ _ _ _ heq =>
      rw [heq]
      exact .inl rfl
  | arrived id post reference request accounts _ _ hbegin heq =>
      rw [heq]
      exact .inr ⟨_, hbegin⟩
  | resumed id trx accounts hresume heq =>
      rw [heq]
      exact .inr ⟨_, hresume⟩
  | served event accounts _ _ _ hevent heq =>
      rw [heq]
      exact .inr ⟨_, hevent⟩
  | received _ _ _ _ _ _ _ _ _ _ hread =>
      left
      split at hread
      · exact hfinish hread
      · exact hfailed hread
  | failed _ _ _ _ _ _ _ h => exact .inl (hfailed h)
  | opened _ _ _ _ _ h => exact .inl (hfinish h)
  | lookedUp _ _ _ _ _ _ h => exact .inl (hfinish h)

theorem refines_init : Refines init Platform.init where
  payments := rfl
  clients := rfl
  agrees :=
    { posts := rfl
      arrived := fun _ _ hcall => nomatch hcall
      drawn := fun _ _ _ _ hcall => nomatch hcall
      inFlight := fun id hid => absurd hid (Nat.not_lt_zero id)
      moved := fun _ _ hsome => nomatch hsome
      refused := fun _ _ _ hsome => nomatch hsome
      recorded := fun _ hm => nomatch hm
      entries := fun _ he => nomatch he }

/-- What a worker reads of the answer to its request, the platform tells it. -/
theorem Refines.received (h : Refines s p) {maxAttempts worker attempt : ℕ} {uncertain : Bool}
    {now : Date} (hclient : s.clients worker = .waiting id attempt uncertain)
    (houtcome : outcomeOf s.accounts id = some outcome)
    (hread : match readMovement post.wallet.value uncertain
        (.ofAnswer (Accounts.WalletsController.respond outcome)) with
      | .answered answer => Deployment.finish s worker answer now = some s'
      | .failed retryable =>
          Deployment.failed maxAttempts s worker attempt retryable now = some s') :
    ∃ e p', Platform.step maxAttempts p e = some p' ∧ Refines s' p' := by
  have hsettled := settled_of_outcomeOf houtcome
  have hclient' : p.clients worker = .waiting id attempt uncertain := by rw [h.clients, hclient]
  cases outcome with
  | ok response =>
      obtain ⟨m, entry, hanswer, hsame, rfl⟩ := h.agrees.moved id response hsettled
      rw [readMovement_success, learned_of_reference hsame.reference] at hread
      obtain ⟨p', hp', hrefines⟩ := h.finish hread
      refine ⟨.receive worker now, p', ?_, hrefines⟩
      simp only [Platform.step, hclient', hanswer]
      rw [← hp', Movement.result, ← hsame.balanceAfter]
      rfl
  | error error =>
      rw [readMovement_refused] at hread
      cases hrefusal : refusalOf error with
      | none =>
          rw [hrefusal] at hread
          obtain ⟨p', hp', hrefines⟩ := h.failed hclient hread
          exact ⟨.fail worker false now, p', hp', hrefines⟩
      | some refusal =>
          rw [hrefusal] at hread
          have hanswer := h.agrees.refused id error refusal hsettled hrefusal
          obtain ⟨p', hp', hrefines⟩ := h.finish hread
          refine ⟨.receive worker now, p', ?_, hrefines⟩
          simp only [Platform.step, hclient', hanswer]
          exact hp'

/-- A look up is about the key of a payment. -/
theorem key_of_lookUp {process : Process} {wallet : Reference .wlt} {key : String}
    (h : process.await = some (.findMovement wallet key)) :
    ∃ (reference : Reference .pay) (leg : Leg), key = movementKey reference.value leg := by
  have hcommand : ∃ command : Command, command.await = .findMovement wallet key := by
    cases process with
    | idle => cases h
    | initiated reference => cases h
    | saga reference command => exact ⟨command, Option.some.inj h⟩
    | recovery reference stage =>
        cases stage with
        | saga command => exact ⟨command, Option.some.inj h⟩
        | compensate stage => exact ⟨.compensate stage, Option.some.inj h⟩
        | find => cases h
        | refind => cases h
        | record failure => cases h
  obtain ⟨command, hawait⟩ := hcommand
  obtain ⟨leg, t, -, -, hkey⟩ := Command.key_of_await hawait
  exact ⟨t.payment.reference, leg, by cases leg <;> exact congrArg Prod.snd hkey⟩

/-- A look up finds what the wire has under its key. -/
theorem Refines.lookedUp (h : Refines s p) (hs : Platform.Invariant p)
    (hsound : Accounts.Sound s.accounts) {worker : ℕ} {wallet : Reference .wlt} {key : String}
    (hawait : (s.payments.workers worker).await = some (.findMovement wallet key)) :
    readLookup (.ofAnswer (Accounts.WalletsController.movement s.accounts wallet.value key)) =
      .found ((Table.find Movement.identifier p.wire.records (wallet.value, key)).map
        Movement.result) := by
  rw [readLookup_movement]
  cases hfound : Deployment.lookedUp s.accounts wallet.value key with
  | none =>
      cases hfind : Table.find Movement.identifier p.wire.records (wallet.value, key) with
      | none => rfl
      | some m =>
          obtain ⟨walletId, entry, ⟨row, hrow, hreference⟩, he, -⟩ :=
            h.agrees.entry_of_record hsound (Table.mem_of_find hfind) (Table.key_of_find hfind)
          have hrow' := hsound.books.references.find_of_mem (Table.mem_of_find hrow)
          rw [hreference] at hrow'
          rw [Deployment.lookedUp, Accounts.State.findByReference, hrow', Option.bind_some,
            show row.id = walletId from Table.key_of_find hrow, he] at hfound
          cases hfound
  | some entry =>
      obtain ⟨row, hrow, he⟩ := Option.bind_eq_some_iff.mp hfound
      have hid : s.accounts.row row.id = some row :=
        hsound.books.ids.find_of_mem (Table.mem_of_find hrow)
      obtain ⟨m, hm, hsame, hidentifier⟩ :=
        h.agrees.movement (key_of_lookUp hawait) ⟨row, hid, Table.key_of_find hrow⟩ he
      have hfind := hs.wire.unique.find_of_mem hm
      rw [hidentifier] at hfind
      dsimp only
      rw [hfind, learned_of_reference hsame.reference, movementResult, hsame.balanceAfter]
      rfl

theorem simulates (unicode : Unicode) (maxAttempts : ℕ) :
    Simulates (step unicode maxAttempts) init (Platform.step maxAttempts) Platform.init
      Refines := by
  intro s e s' p hreached hreached' h hstep
  have hs := Platform.invariant_of_reachable hreached'
  have hsound := sound_of_reachable hreached
  cases step_cases hstep with
  | internal event hlocal hevent heq =>
      right
      refine ⟨.internal event, ⟨s'.payments, clientsAfter p.clients event, p.wire⟩, ?_, ?_⟩
      · have hmap : Platform.step maxAttempts p (.internal event) =
            (Workers.step p.payments event).map fun payments =>
              { p with payments := payments, clients := clientsAfter p.clients event } := by
          cases event <;> first | rfl | exact absurd rfl (hlocal _ _ _)
        rw [hmap, h.payments, hevent]
        rfl
      · rw [heq]
        exact ⟨rfl, congrArg (clientsAfter · event) h.clients, h.agrees⟩
  | sent worker attempt uncertain post hawait hclient heq =>
      right
      have hnext : p.wire.next = s.sent.length := congrArg List.length h.agrees.posts
      refine ⟨.send worker, ⟨p.payments, Function.update p.clients worker
        (.waiting p.wire.next attempt uncertain), p.wire.send post⟩, ?_, ?_⟩
      · simp only [Platform.step, h.payments, hawait, h.clients, hclient]
      · rw [heq]
        exact ⟨h.payments, by rw [h.clients, hnext], h.agrees.send post⟩
  | arrived id post reference request accounts hpost hreceived hbegin heq =>
      left
      obtain ⟨hreference, hkey, hamount⟩ := received_eq hreceived
      rw [heq]
      exact ⟨h.payments, h.clients, h.agrees.arrive hsound hpost hreference hkey hamount hbegin⟩
  | resumed id trx accounts hawaited heq =>
      obtain ⟨call, hcall, hresume⟩ := Option.bind_eq_some_iff.mp hawaited
      rw [heq]
      cases h.agrees.resume hs hsound hcall hresume with
      | quiet hagrees => exact .inl ⟨h.payments, h.clients, hagrees⟩
      | applied id' post reference balanceAfter hrequest hagrees =>
          refine .inr ⟨.serve id' (.apply reference balanceAfter), { p with
            wire := p.wire.apply Movement.identifier id' (post.movement reference balanceAfter) },
            ?_, h.payments, h.clients, hagrees⟩
          simp only [Platform.step, hrequest]
      | refused id' post refusal hrequest hrefusable hagrees =>
          refine .inr ⟨.serve id' (.refuse refusal), { p with
            wire := p.wire.answer id' (.inr refusal) }, ?_, h.payments, h.clients, hagrees⟩
          simp only [Platform.step, hrequest, hrefusable, if_true]
  | served event accounts hresume hcredit hdebit hevent heq =>
      left
      rw [heq]
      exact ⟨h.payments, h.clients, h.agrees.service hsound hresume hcredit hdebit hevent⟩
  | received worker id attempt uncertain outcome post now hclient houtcome hpost hread =>
      exact .inr (h.received hclient houtcome hread)
  | failed worker id attempt uncertain retryable now hclient hfailed =>
      obtain ⟨p', hp', hrefines⟩ := h.failed hclient hfailed
      exact .inr ⟨_, p', hp', hrefines⟩
  | opened worker post now hawait hclient hfinish =>
      obtain ⟨p', hp', hrefines⟩ := h.finish hfinish
      refine .inr ⟨.circuitOpen worker now, p', ?_, hrefines⟩
      simp only [Platform.step, h.payments, hawait, h.clients, hclient]
      exact hp'
  | lookedUp worker available now wallet key hawait hfinish =>
      obtain ⟨p', hp', hrefines⟩ := h.finish hfinish
      refine .inr ⟨.lookUp worker available now, p', ?_, hrefines⟩
      simp only [Platform.step, h.payments, hawait]
      rw [← hp']
      cases available with
      | false => rfl
      | true => rw [if_pos rfl, if_pos rfl, h.lookedUp hs hsound hawait]

/-- Every run of the two services is a run of the platform, in which the workers stand
where they stand and the wire has recorded the movements of the ledger. -/
theorem refinement {unicode : Unicode} {maxAttempts : ℕ} {es : List Event}
    (hrun : run (step unicode maxAttempts) init es = some s) :
    ∃ es' p, run (Platform.step maxAttempts) Platform.init es' = some p ∧ Refines s p ∧
      es'.length ≤ es.length :=
  (simulates unicode maxAttempts).run refines_init hrun

def sampleWallet (balance : ℤ) (h : 0 ≤ balance ∧ balance ≤ amountMax) :
    Accounts.CreateWalletRequest where
  currency := "XOF"
  initialBalance := some balance
  initialBalance_valid value hvalue := by
    obtain rfl := Option.some.inj hvalue
    exact h

def openedRun : List Event :=
  [.accounts (.create 0 "w1" Workers.sampleInput.source.value (sampleWallet 1000 (by decide))),
    .accounts (.resumeCreate 0 "trx_0"), .accounts (.resumeCreate 0 ""),
    .accounts (.create 1 "w2" Workers.sampleInput.destination.value (sampleWallet 0 (by decide))),
    .accounts (.resumeCreate 1 "")]

def sampleQuery : Event := .internal (.query 0 Workers.sampleMoment .none)

def sampleCall (id : ℕ) : List Event :=
  [.send 0, .arrive id] ++
    List.replicate 7 (.resume id Workers.sampleMovement.transactionReference) ++
    [.receive 0 Workers.sampleMoment.now]

def debitedRun : List Event :=
  openedRun ++
    [.internal (.initiate 0 Workers.sampleInput Workers.sampleReference Workers.sampleMoment .none),
      .internal (.start 0), sampleQuery, sampleQuery] ++ sampleCall 0

def approvedRun : List Event :=
  debitedRun ++ [sampleQuery, sampleQuery] ++ sampleCall 1 ++ [sampleQuery]

theorem refinement_approvedRun :
    ∃ s, run (step .ascii 3) init approvedRun = some s ∧
      s.payments.database.payments.map (·.status) = [.approved] ∧
      ∃ es' p, run (Platform.step 3) Platform.init es' = some p ∧ Refines s p ∧
        es'.length ≤ approvedRun.length := by
  have h : (run (step .ascii 3) init approvedRun).map
      (fun s => s.payments.database.payments.map (·.status)) = some [.approved] := by
    decide +kernel
  obtain ⟨s, hrun, hstatuses⟩ := Option.map_eq_some_iff.mp h
  exact ⟨s, hrun, hstatuses, refinement hrun⟩

end Deployment

end Paynad
