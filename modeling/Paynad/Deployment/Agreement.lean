import Paynad.Accounts.Protocol.ExactlyOnce
import Paynad.Deployment.Services
import Paynad.Payments.Protocol.MoneySafety

/-!
# The wire that the service of `accounts` shows

The platform takes `accounts` for a wire on which a key is applied at most once. The
service behind it keeps that promise under every interleaving of its own awaits: a
movement is applied when its call commits, replayed when the entry of its key is found,
refused when the call gives up, and left in flight as long as it has not ended.
`Agrees` relates the two, and each step of the service keeps it, against what the wire
makes of the step (`Served`).
-/

namespace Paynad

namespace Deployment

open Shared Payments Transition
open Payments.Platform (Client clientsAfter)

def typeOf : Operation → TransactionType
  | .debit => .DEBIT
  | .credit => .CREDIT

structure Same (accounts : Accounts.State) (m : Movement) (entry : Accounts.LedgerEntry) :
    Prop where
  wallet : ∃ row, accounts.row entry.walletId = some row ∧ row.reference = m.wallet.value
  key : entry.transactionId = m.key
  type : entry.type = typeOf m.operation
  amount : entry.amount = m.amount
  reference : entry.reference = m.reference.value
  balanceAfter : entry.balanceAfter = m.balanceAfter

structure Posted (post : MovementCall) (call : Accounts.Call) : Prop where
  reference : call.reference = post.wallet.value
  key : call.request.transactionId = post.idempotencyKey
  amount : call.request.amount = post.money.amount
  type : call.type = typeOf post.operation

def ended : Accounts.Stage → Option Accounts.Outcome
  | .settling outcome => some outcome
  | .done outcome => some outcome
  | _ => none

def settled (accounts : Accounts.State) (id : ℕ) : Option Accounts.Outcome :=
  (accounts.calls id).bind fun call => ended call.stage

def Running (accounts : Accounts.State) (id : ℕ) : Prop :=
  ∀ call, accounts.calls id = some call → ended call.stage = none ∧ call.stage ≠ .aborted

def IsOpening (entry : Accounts.LedgerEntry) : Prop :=
  "opening-".toList <+: entry.transactionId.toList

/-- The wire shows what the service has done. -/
structure Agrees (sent : List MovementCall) (accounts : Accounts.State)
    (wire : Wire MovementCall Movement Refusal) : Prop where
  posts : wire.sent = sent
  arrived : ∀ id call, accounts.calls id = some call →
    ∃ post, sent[id]? = some post ∧ Posted post call
  drawn : ∀ id call version entry, accounts.calls id = some call →
    call.stage = .committing version entry →
    ∃ trx : Reference .trx, entry = call.entry version trx.value
  inFlight : ∀ id, id < sent.length → Running accounts id → id ∈ wire.inFlight
  moved : ∀ id response, settled accounts id = some (.ok response) →
    ∃ m entry, Table.find Prod.fst wire.answers id = some (id, .inl m) ∧
      Same accounts m entry ∧ response = .approved entry
  refused : ∀ id error refusal, settled accounts id = some (.error error) →
    refusalOf error = some refusal →
    Table.find Prod.fst wire.answers id = some (id, .inr refusal)
  recorded : ∀ m ∈ wire.records, (∃ entry ∈ accounts.entries, Same accounts m entry) ∧
    ∃ id post, sent[id]? = some post ∧ post.identifier = m.identifier ∧ id ∉ wire.inFlight
  entries : ∀ entry ∈ accounts.entries, IsOpening entry ∨ ∃ m ∈ wire.records, Same accounts m entry

/-- The service has gone on: the tables have grown, and its calls are still those of their
POSTs. -/
structure GoesOn (sent : List MovementCall) (accounts accounts' : Accounts.State) : Prop where
  grows : Accounts.Grows accounts accounts'
  arrived : ∀ id call, accounts'.calls id = some call →
    ∃ post, sent[id]? = some post ∧ Posted post call
  drawn : ∀ id call version entry, accounts'.calls id = some call →
    call.stage = .committing version entry →
    ∃ trx : Reference .trx, entry = call.entry version trx.value

variable {p : Platform.State} {sent : List MovementCall} {accounts accounts' : Accounts.State}
  {wire wire' : Wire MovementCall Movement Refusal} {id c : ℕ} {call : Accounts.Call}
  {post : MovementCall} {m : Movement} {entry : Accounts.LedgerEntry}
  {outcome : Accounts.Outcome}

/-! ## What the relation is made of -/

theorem Same.mono (hgrows : Accounts.Grows accounts accounts') (h : Same accounts m entry) :
    Same accounts' m entry := by
  obtain ⟨row, hrow, hreference⟩ := h.wallet
  obtain ⟨row', hrow', heq⟩ := hgrows.rows _ _ hrow
  exact ⟨⟨row', hrow', heq.trans hreference⟩, h.key, h.type, h.amount, h.reference,
    h.balanceAfter⟩

theorem mem_entries_of_grows (hsound : Accounts.Sound accounts)
    (hgrows : Accounts.Grows accounts accounts') (he : entry ∈ accounts.entries) :
    entry ∈ accounts'.entries :=
  Table.mem_of_find (hgrows.entries _ _ _ (hsound.books.keys.find_of_mem he))

theorem not_isOpening {reference : Reference .pay} {leg : Leg}
    (h : entry.transactionId = movementKey reference.value leg) : ¬ IsOpening entry := by
  intro ⟨rest, hrest⟩
  have hpay : reference.value.toList.take 4 = "pay_".toList := by
    have hformed := reference.wellFormed
    simp only [Reference.test, Bool.and_eq_true, beq_iff_eq] at hformed
    exact hformed.1.1
  have htake : entry.transactionId.toList.take 4 = reference.value.toList.take 4 := by
    rw [h]
    have hlength := reference.length_toList
    cases leg <;>
      simp only [movementKey, String.toList_append,
        List.take_append_of_le_length (show 4 ≤ reference.value.toList.length by omega)]
  rw [← hrest, hpay, List.take_append_of_le_length (by decide)] at htake
  exact absurd htake (by decide)

theorem key_of_posted (hs : Platform.Invariant p) (hpost : post ∈ p.wire.sent) :
    ∃ (reference : Reference .pay) (leg : Leg),
      post.idempotencyKey = movementKey reference.value leg := by
  obtain ⟨leg, q, row, rfl, -⟩ := hs.requests post hpost
  exact ⟨q.reference, leg, by cases leg <;> rfl⟩

/-! ## The calls of the service -/

theorem settled_goTo_self {stage : Accounts.Stage} :
    settled (accounts.goTo c call stage) c = ended stage := by
  rw [settled, Accounts.goTo_calls_self]
  rfl

theorem running_congr (h : accounts'.calls id = accounts.calls id) :
    Running accounts' id ↔ Running accounts id := by
  rw [Running, h, Running]

theorem not_running_of_settled (h : settled accounts id = some outcome) :
    ¬ Running accounts id := by
  intro hrunning
  obtain ⟨call, hcall, hended⟩ := Option.bind_eq_some_iff.mp h
  cases (hrunning call hcall).1.symm.trans hended

theorem settled_congr (h : accounts'.calls id = accounts.calls id) :
    settled accounts' id = settled accounts id := by
  rw [settled, h, settled]

theorem settled_of_outcomeOf (h : outcomeOf accounts id = some outcome) :
    settled accounts id = some outcome := by
  obtain ⟨call, hcall, hstage⟩ := Option.bind_eq_some_iff.mp h
  rw [settled, hcall, Option.bind_some]
  split at hstage
  · next hdone => rw [hdone]; exact hstage
  · cases hstage

theorem resume_of_ended {trx : String} (hended : ended call.stage = some outcome)
    (h : Accounts.resume accounts c call trx = some accounts') :
    accounts' = accounts.goTo c call (.done outcome) := by
  unfold Accounts.resume at h
  cases hstage : call.stage with
  | settling o =>
      rw [hstage] at hended h
      obtain rfl : o = outcome := Option.some.inj hended
      exact (Option.some.inj h).symm
  | done o => simp [hstage] at h
  | _ => simp [hstage, ended] at hended

/-- The entry that a call is about to commit has the reference just drawn. -/
theorem drawn_of_resume {trx : String} {call' : Accounts.Call} {version : Accounts.Wallet}
    (h : Accounts.resume accounts c call trx = some accounts')
    (hcall : accounts'.calls c = some call') (hstage : call'.stage = .committing version entry) :
    entry = call'.entry version trx := by
  have hgo : ∀ {u : Accounts.State} {stage : Accounts.Stage}, accounts' = u.goTo c call stage →
      stage = .committing version entry ∧ call' = { call with stage := stage } := by
    rintro u stage rfl
    obtain rfl := Accounts.eq_of_goTo_calls hcall
    exact ⟨hstage, rfl⟩
  unfold Accounts.resume at h
  split at h
  case h_4 =>
    unfold Accounts.update at h
    split at h
    · cases (hgo (Option.some.inj h).symm).1
    · split_ifs at h <;> cases (hgo (Option.some.inj h).symm).1
  case h_7 =>
    split at h
    · cases (hgo (Option.some.inj h).symm).1
    · obtain ⟨heq, rfl⟩ := hgo (Option.some.inj h).symm
      cases heq
      rfl
  all_goals first
    | cases (hgo (Option.some.inj h).symm).1
    | split at h <;> cases (hgo (Option.some.inj h).symm).1
    | cases h

/-! ## What the service does without an answer -/

namespace Agrees

/-- The service has gone on, and no call has come to its end. -/
theorem quiet (h : Agrees sent accounts wire) (hsound : Accounts.Sound accounts)
    (hon : GoesOn sent accounts accounts')
    (hrunning : ∀ id, Running accounts' id → Running accounts id)
    (hsettled : ∀ id outcome, settled accounts' id = some outcome →
      settled accounts id = some outcome)
    (hentries : ∀ entry ∈ accounts'.entries, entry ∈ accounts.entries ∨ IsOpening entry) :
    Agrees sent accounts' wire where
  posts := h.posts
  arrived := hon.arrived
  drawn := hon.drawn
  inFlight id hid hrun := h.inFlight id hid (hrunning id hrun)
  moved id response hsome := by
    obtain ⟨m, entry, hanswer, hsame, hresponse⟩ := h.moved id response (hsettled id _ hsome)
    exact ⟨m, entry, hanswer, hsame.mono hon.grows, hresponse⟩
  refused id error refusal hsome := h.refused id error refusal (hsettled id _ hsome)
  recorded m hm := by
    obtain ⟨⟨entry, he, hsame⟩, horigin⟩ := h.recorded m hm
    exact ⟨⟨entry, mem_entries_of_grows hsound hon.grows he, hsame.mono hon.grows⟩, horigin⟩
  entries entry he := by
    rcases hentries entry he with hold | hopening
    · exact (h.entries entry hold).imp_right fun ⟨m, hm, hsame⟩ =>
        ⟨m, hm, hsame.mono hon.grows⟩
    · exact .inl hopening

/-- A call has ended, and the wire has an answer to its request if it can have one. -/
theorem settle (h : Agrees sent accounts wire) (hsound : Accounts.Sound accounts)
    (hon : GoesOn sent accounts accounts') (hsome : settled accounts' id = some outcome)
    (hothers : ∀ id', id' ≠ id → accounts'.calls id' = accounts.calls id')
    (hposts : wire'.sent = wire.sent)
    (hinFlight : ∀ id' ∈ wire.inFlight, id' ≠ id → id' ∈ wire'.inFlight)
    (hserved : ∀ id' ∈ wire'.inFlight, id' ∈ wire.inFlight)
    (hanswers : ∀ id', id' ≠ id →
      Table.find Prod.fst wire'.answers id' = Table.find Prod.fst wire.answers id')
    (hmoved : ∀ response, outcome = .ok response → ∃ m entry,
      Table.find Prod.fst wire'.answers id = some (id, .inl m) ∧ Same accounts' m entry ∧
        response = .approved entry)
    (hrefused : ∀ error refusal, outcome = .error error → refusalOf error = some refusal →
      Table.find Prod.fst wire'.answers id = some (id, .inr refusal))
    (hrecorded : ∀ m ∈ wire'.records, m ∈ wire.records ∨
      (∃ entry ∈ accounts'.entries, Same accounts' m entry) ∧
        ∃ post, sent[id]? = some post ∧ post.identifier = m.identifier ∧ id ∉ wire'.inFlight)
    (hkept : ∀ m ∈ wire.records, m ∈ wire'.records)
    (hentries : ∀ entry ∈ accounts'.entries, entry ∈ accounts.entries ∨
      ∃ m ∈ wire'.records, Same accounts' m entry) :
    Agrees sent accounts' wire' where
  posts := hposts.trans h.posts
  arrived := hon.arrived
  drawn := hon.drawn
  inFlight id' hid' hrunning := by
    have hne : id' ≠ id := by
      rintro rfl
      exact not_running_of_settled hsome hrunning
    exact hinFlight id' (h.inFlight id' hid' ((running_congr (hothers id' hne)).mp hrunning)) hne
  moved id' response hsome' := by
    by_cases hid : id' = id
    · subst hid
      exact hmoved response (Option.some.inj (hsome.symm.trans hsome'))
    · rw [settled_congr (hothers id' hid)] at hsome'
      obtain ⟨m, entry, hanswer, hsame, hresponse⟩ := h.moved id' response hsome'
      exact ⟨m, entry, (hanswers id' hid).trans hanswer, hsame.mono hon.grows, hresponse⟩
  refused id' error refusal hsome' hrefusal := by
    by_cases hid : id' = id
    · subst hid
      exact hrefused error refusal (Option.some.inj (hsome.symm.trans hsome')) hrefusal
    · rw [settled_congr (hothers id' hid)] at hsome'
      exact (hanswers id' hid).trans (h.refused id' error refusal hsome' hrefusal)
  recorded m hm := by
    rcases hrecorded m hm with hold | ⟨hentry, horigin⟩
    · obtain ⟨⟨entry, he, hsame⟩, id', post, hpost, hidentifier, hanswered⟩ := h.recorded m hold
      exact ⟨⟨entry, mem_entries_of_grows hsound hon.grows he, hsame.mono hon.grows⟩, id', post,
        hpost, hidentifier, fun hmem => hanswered (hserved id' hmem)⟩
    · exact ⟨hentry, id, horigin⟩
  entries entry he := by
    rcases hentries entry he with hold | hnew
    · exact (h.entries entry hold).imp_right fun ⟨m, hm, hsame⟩ =>
        ⟨m, hkept m hm, hsame.mono hon.grows⟩
    · exact .inr hnew

/-- A step of the service that begins no call lets it go on. -/
theorem goesOn {e : Accounts.Event} (h : Agrees sent accounts wire)
    (hsound : Accounts.Sound accounts) (hstep : Accounts.step accounts e = some accounts')
    (hbegun : ∀ id call, accounts'.calls id = some call → ∃ call, accounts.calls id = some call)
    (hdrawn : ∀ id, e.caller = some id → ∀ call version entry, accounts'.calls id = some call →
      call.stage = .committing version entry →
      ∃ trx : Reference .trx, entry = call.entry version trx.value) :
    GoesOn sent accounts accounts' := by
  have hframe := (Accounts.step_sound hsound hstep).2
  refine ⟨hframe.grows, fun id call' hcall' => ?_, fun id call' version entry hcall' hstage => ?_⟩
  · obtain ⟨call, hcall⟩ := hbegun id call' hcall'
    obtain ⟨stage, hcall''⟩ := Accounts.calls_of_step hsound hstep hcall
    obtain rfl := Option.some.inj (hcall''.symm.trans hcall')
    obtain ⟨post, hpost, hposted⟩ := h.arrived id call hcall
    exact ⟨post, hpost, hposted.reference, hposted.key, hposted.amount, hposted.type⟩
  · by_cases hcaller : e.caller = some id
    · exact hdrawn id hcaller call' version entry hcall' hstage
    · exact h.drawn id call' version entry
        ((hframe.others id hcaller).2.symm.trans hcall') hstage

theorem goesOn_resume {trx : Reference .trx} (h : Agrees sent accounts wire)
    (hsound : Accounts.Sound accounts) (hcall : accounts.calls c = some call)
    (hresume : Accounts.resume accounts c call trx.value = some accounts') :
    GoesOn sent accounts accounts' := by
  have hstep : Accounts.step accounts (.resume c trx.value) = some accounts' := by
    rw [Accounts.step, hcall, Option.bind_some, hresume]
  refine h.goesOn hsound hstep (fun id call' hcall' => ?_) fun id hid call' version entry => ?_
  · by_cases hid : id = c
    · exact ⟨call, hid ▸ hcall⟩
    · refine ⟨call', ?_⟩
      rw [← ((Accounts.step_sound hsound hstep).2.others id fun hcaller =>
        hid (Option.some.inj hcaller).symm).2, hcall']
  · obtain rfl : c = id := Option.some.inj hid
    exact fun hcall' hstage => ⟨trx, drawn_of_resume hresume hcall' hstage⟩

theorem request (h : Agrees sent accounts wire) (hcall : accounts.calls c = some call)
    (hrunning : Running accounts c) :
    ∃ post, wire.request? c = some post ∧ Posted post call ∧ sent[c]? = some post := by
  obtain ⟨post, hpost, hposted⟩ := h.arrived c call hcall
  obtain ⟨hlt, -⟩ := List.getElem?_eq_some_iff.mp hpost
  refine ⟨post, ?_, hposted, hpost⟩
  rw [Wire.request?, if_pos (h.inFlight c hlt hrunning), h.posts, hpost]

end Agrees

/-! ## What the service does with an answer -/

def Refers (accounts : Accounts.State) (walletId reference : String) : Prop :=
  ∃ row, accounts.row walletId = some row ∧ row.reference = reference

/-- An entry under the key of a payment is the movement the wire has under it. -/
theorem Agrees.movement (h : Agrees sent accounts wire) {walletId wallet key : String}
    (hkey : ∃ (reference : Reference .pay) (leg : Leg), key = movementKey reference.value leg)
    (hwallet : Refers accounts walletId wallet)
    (he : accounts.findByIdempotencyKey walletId key = some entry) :
    ∃ m ∈ wire.records, Same accounts m entry ∧ m.identifier = (wallet, key) := by
  have hentry : entry.key = (walletId, key) := Table.key_of_find he
  obtain ⟨hid, htransaction⟩ := Prod.mk.inj hentry
  rcases h.entries entry (Table.mem_of_find he) with hopening | ⟨m, hm, hsame⟩
  · obtain ⟨reference, leg, rfl⟩ := hkey
    exact absurd hopening (not_isOpening htransaction)
  · refine ⟨m, hm, hsame, Prod.ext ?_ (hsame.key.symm.trans htransaction)⟩
    obtain ⟨row, hrow, hreference⟩ := hsame.wallet
    obtain ⟨row', hrow', hreference'⟩ := hwallet
    rw [hid] at hrow
    obtain rfl := Option.some.inj (hrow.symm.trans hrow')
    exact hreference.symm.trans hreference'

theorem Agrees.entry_of_record (hsound : Accounts.Sound accounts) (h : Agrees sent accounts wire)
    (hm : m ∈ wire.records) {wallet key : String} (hidentifier : m.identifier = (wallet, key)) :
    ∃ walletId entry, Refers accounts walletId wallet ∧
      accounts.findByIdempotencyKey walletId key = some entry ∧ Same accounts m entry := by
  obtain ⟨⟨entry, he, hsame⟩, -⟩ := h.recorded m hm
  obtain ⟨rfl, rfl⟩ := Prod.mk.inj hidentifier
  refine ⟨entry.walletId, entry, hsame.wallet, ?_, hsame⟩
  rw [← hsame.key]
  exact hsound.books.keys.find_of_mem he

theorem Refers.unique (hsound : Accounts.Sound accounts) {walletId walletId' reference : String}
    (h : Refers accounts walletId reference) (h' : Refers accounts walletId' reference) :
    walletId = walletId' := by
  obtain ⟨row, hrow, hreference⟩ := h
  obtain ⟨row', hrow', hreference'⟩ := h'
  have hfind := hsound.books.references.find_of_mem (Table.mem_of_find hrow)
  have hfind' := hsound.books.references.find_of_mem (Table.mem_of_find hrow')
  rw [hreference] at hfind
  rw [hreference'] at hfind'
  obtain rfl := Option.some.inj (hfind.symm.trans hfind')
  exact (Table.key_of_find hrow).symm.trans (Table.key_of_find hrow')

/-- What the wire makes of a step of the service: nothing, or it serves a request. -/
inductive Served (sent : List MovementCall) (accounts' : Accounts.State)
    (wire : Wire MovementCall Movement Refusal) : Prop
  | quiet (h : Agrees sent accounts' wire)
  | applied (id : ℕ) (post : MovementCall) (reference : Reference .trx) (balanceAfter : ℤ)
      (hrequest : wire.request? id = some post)
      (h : Agrees sent accounts'
        (wire.apply Movement.identifier id (post.movement reference balanceAfter)))
  | refused (id : ℕ) (post : MovementCall) (refusal : Refusal)
      (hrequest : wire.request? id = some post)
      (hrefusable : wire.refusable MovementCall.identifier Movement.identifier id
        post.identifier = true)
      (h : Agrees sent accounts' (wire.answer id (.inr refusal)))

theorem find_answer (wire : Wire MovementCall Movement Refusal) (a : Movement ⊕ Refusal)
    {id' : ℕ} (hne : id' ≠ id) :
    Table.find Prod.fst (wire.answer id a).answers id' = Table.find Prod.fst wire.answers id' := by
  rw [Wire.answer, Table.find_cons, if_neg hne.symm]

theorem find_answer_self (wire : Wire MovementCall Movement Refusal) (a : Movement ⊕ Refusal) :
    Table.find Prod.fst (wire.answer id a).answers id = some (id, a) := by
  rw [Wire.answer, Table.find_cons, if_pos rfl]

/-- A call commits: the wire applies its request. -/
theorem Agrees.commit (hsound : Accounts.Sound accounts) (h : Agrees sent accounts wire)
    {trx : Reference .trx} {version : Accounts.Wallet} (hcall : accounts.calls c = some call)
    (hresume : Accounts.resume accounts c call trx.value = some accounts')
    (hstage : call.stage = .committing version entry)
    (heq : accounts' = ((accounts.commit version entry).unlock c).goTo c call
      (.settling (.ok (.approved entry)))) :
    Served sent accounts' wire := by
  have hrunning : Running accounts c := fun call' hcall' => by
    obtain rfl := Option.some.inj (hcall.symm.trans hcall')
    rw [hstage]
    exact ⟨rfl, nofun⟩
  obtain ⟨post, hrequest, hposted, hpost⟩ := h.request hcall hrunning
  obtain ⟨drawn, hentry⟩ := h.drawn c call version entry hcall hstage
  refine .applied c post drawn entry.balanceAfter hrequest ?_
  have hstanding := hsound.calls c call hcall
  rw [hstage] at hstanding
  obtain ⟨hwritten, -, hfresh⟩ := hstanding
  have hunrecorded : Table.find Movement.identifier wire.records post.identifier = none := by
    refine Table.find_eq_none_iff.mpr fun m hm hidentifier => ?_
    obtain ⟨walletId, entry', hrefers, he', -⟩ := h.entry_of_record hsound hm hidentifier
    obtain ⟨row, hrow, hreference⟩ := hwritten.known
    obtain rfl := hrefers.unique hsound ⟨row, hrow, hreference.trans hposted.reference⟩
    rw [hposted.key] at hfresh
    cases hfresh.symm.trans he'
  have hwire : wire.apply Movement.identifier c (post.movement drawn entry.balanceAfter) =
      { wire.answer c (.inl (post.movement drawn entry.balanceAfter)) with
        records := Table.insert wire.records (post.movement drawn entry.balanceAfter) } := by
    rw [Wire.apply, show (post.movement drawn entry.balanceAfter).identifier = post.identifier
      from rfl, hunrecorded]
  have hsame : Same accounts' (post.movement drawn entry.balanceAfter) entry := by
    obtain ⟨row, hrow, hreference, -, rfl, -⟩ := hwritten
    have hrow' : accounts'.row (row.move call.delta).id = some (row.move call.delta) := by
      rw [heq]
      exact Accounts.row_commit_self entry ⟨row, hrow⟩
    subst hentry
    exact ⟨⟨_, hrow', hreference.trans hposted.reference⟩, hposted.key, hposted.type,
      hposted.amount, rfl, rfl⟩
  have hentries : accounts'.entries = Table.insert accounts.entries entry := by
    rw [heq]
    rfl
  have hsome : settled accounts' c = some (.ok (.approved entry)) := by
    rw [heq, settled_goTo_self]
    rfl
  rw [hwire]
  refine h.settle hsound (h.goesOn_resume hsound hcall hresume) hsome (fun id hne => ?_) rfl
    (fun id hid hne => List.mem_filter.mpr ⟨hid, decide_eq_true hne⟩)
    (fun id hid => List.mem_of_mem_filter hid)
    (fun id hne => find_answer wire _ hne) ?_ nofun ?_ (fun m hm => List.mem_append_left _ hm) ?_
  · rw [heq]
    exact Accounts.goTo_calls_of_ne hne
  · rintro response ⟨⟩
    exact ⟨_, entry, find_answer_self wire _, hsame, rfl⟩
  · intro m hm
    rcases List.mem_append.mp hm with hold | hnew
    · exact .inl hold
    · obtain rfl := List.mem_singleton.mp hnew
      refine .inr ⟨⟨entry, ?_, hsame⟩, post, hpost, rfl, fun hmem => ?_⟩
      · rw [hentries]
        exact List.mem_append_right _ (List.mem_singleton_self _)
      · exact of_decide_eq_true (List.mem_filter.mp hmem).2 rfl
  · rw [hentries]
    intro entry' he'
    rcases List.mem_append.mp he' with hold | hnew
    · exact .inl hold
    · obtain rfl := List.mem_singleton.mp hnew
      exact .inr ⟨_, List.mem_append_right _ (List.mem_singleton_self _), hsame⟩

/-- A key that is recorded while a request under it is in flight has another request. -/
theorem Agrees.refusable (h : Agrees sent accounts wire) (hinFlight : id ∈ wire.inFlight)
    (post : MovementCall) : wire.refusable MovementCall.identifier Movement.identifier id
      post.identifier = true := by
  rw [Wire.refusable, Bool.or_eq_true]
  cases hfind : Table.find Movement.identifier wire.records post.identifier with
  | none => exact .inl rfl
  | some m =>
      right
      obtain ⟨-, other, post', hpost', hidentifier, hserved⟩ :=
        h.recorded m (Table.mem_of_find hfind)
      obtain ⟨hlt, -⟩ := List.getElem?_eq_some_iff.mp hpost'
      have hne : other ≠ id := fun heq => hserved (heq ▸ hinFlight)
      refine List.any_eq_true.mpr ⟨other, ?_, ?_⟩
      · rw [h.posts]
        exact List.mem_range.mpr hlt
      · rw [h.posts, hpost', Option.map_some, hidentifier, Table.key_of_find hfind]
        simpa using hne

/-- A call that succeeds without a write has found the entry of its key. -/
theorem replayed_of_abstain (hsound : Accounts.Sound accounts) {trx : String}
    {stage : Accounts.Stage} {u : Accounts.State} {response : Accounts.BalanceOperationResponse}
    (hcall : accounts.calls c = some call)
    (hresume : Accounts.resume accounts c call trx = some accounts')
    (heq : accounts' = u.goTo c call stage) (hu : Accounts.Abstains accounts c call stage u)
    (hended : ended stage = some (.ok response)) :
    ∃ walletId entry, Accounts.Known accounts call walletId ∧
      accounts.findByIdempotencyKey walletId call.request.transactionId = some entry ∧
      response = .approved entry := by
  have hstep : Accounts.step accounts (.resume c trx) = some accounts' := by
    rw [Accounts.step, hcall, Option.bind_some, hresume]
  have hsound' := (Accounts.step_sound hsound hstep).1
  have hcall' : accounts'.calls c = some { call with stage := stage } := by
    rw [heq, Accounts.goTo_calls_self]
  have htruthful : Accounts.Truthful accounts' { call with stage := stage } (.ok response) := by
    have hstanding := hsound'.calls c _ hcall'
    cases stage with
    | settling o =>
        cases hended
        exact hstanding
    | done o =>
        cases hended
        exact hstanding
    | _ => cases hended
  obtain ⟨entry, ⟨walletId, ⟨row, hrow, hreference⟩, he, -⟩, hresponse⟩ := htruthful response rfl
  have hwallets : accounts'.wallets = accounts.wallets := by
    rw [heq]
    exact hu.wallets
  have hentries : accounts'.entries = accounts.entries := by
    rw [heq]
    exact hu.entries
  rw [Accounts.State.row, hwallets] at hrow
  rw [Accounts.State.findByIdempotencyKey, hentries] at he
  exact ⟨walletId, entry, ⟨row, hrow, hreference⟩, he, hresponse⟩

/-- A call ends without a write: it replays the entry of its key, or it is refused. -/
theorem Agrees.abstain (hs : Platform.Invariant p) (hsound : Accounts.Sound accounts)
    (h : Agrees sent accounts p.wire) {trx : Reference .trx} {stage : Accounts.Stage}
    {u : Accounts.State} (hcall : accounts.calls c = some call)
    (hresume : Accounts.resume accounts c call trx.value = some accounts')
    (heq : accounts' = u.goTo c call stage) (hu : Accounts.Abstains accounts c call stage u)
    (hrunning : Running accounts c) (hended : ended stage = some outcome) :
    Served sent accounts' p.wire := by
  have hon := h.goesOn_resume hsound hcall hresume
  have hsome : settled accounts' c = some outcome := by
    rw [heq, settled_goTo_self, hended]
  have hothers : ∀ id, id ≠ c → accounts'.calls id = accounts.calls id := fun id hne => by
    rw [heq, Accounts.goTo_calls_of_ne hne, hu.calls]
  have hentries : ∀ entry ∈ accounts'.entries, entry ∈ accounts.entries ∨
      ∃ m ∈ p.wire.records, Same accounts' m entry := by
    rw [heq]
    exact fun entry he => .inl (hu.entries ▸ he)
  obtain ⟨post, hrequest, hposted, hpost⟩ := h.request hcall hrunning
  have hinFlight := (Wire.request?_eq_some hrequest).1
  cases outcome with
  | ok response =>
      obtain ⟨walletId, entry, hknown, he, rfl⟩ :=
        replayed_of_abstain hsound hcall hresume heq hu hended
      obtain ⟨row, hrow, hreference⟩ := hknown
      have hkey := key_of_posted hs (h.posts ▸ List.mem_of_getElem? hpost)
      rw [hposted.key] at he
      obtain ⟨m, hm, hsame, hidentifier⟩ :=
        h.movement hkey ⟨row, hrow, hreference.trans hposted.reference⟩ he
      have hfind := hs.wire.unique.find_of_mem hm
      have hwire : p.wire.apply Movement.identifier c (post.movement m.reference m.balanceAfter) =
          p.wire.answer c (.inl m) := by
        rw [Wire.apply, show (post.movement m.reference m.balanceAfter).identifier = m.identifier
          from hidentifier.symm, hfind]
      refine .applied c post m.reference m.balanceAfter hrequest ?_
      rw [hwire]
      refine h.settle hsound hon hsome hothers rfl
        (fun id hid hne => List.mem_filter.mpr ⟨hid, decide_eq_true hne⟩)
        (fun id hid => List.mem_of_mem_filter hid) (fun id hne => find_answer p.wire _ hne) ?_
        nofun (fun _ => .inl) (fun _ hm => hm) hentries
      rintro response ⟨⟩
      exact ⟨m, entry, find_answer_self p.wire _, hsame.mono hon.grows, rfl⟩
  | error error =>
      cases hrefusal : refusalOf error with
      | none =>
          refine .quiet (h.settle hsound hon hsome hothers rfl
            (fun _ hid _ => hid) (fun _ hid => hid) (fun _ _ => rfl) nofun ?_ (fun _ => .inl)
            (fun _ hm => hm) hentries)
          rintro _ refusal ⟨⟩ hsome'
          cases hrefusal.symm.trans hsome'
      | some refusal =>
          refine .refused c post refusal hrequest (h.refusable hinFlight post)
            (h.settle hsound hon hsome hothers rfl
              (fun id hid hne => List.mem_filter.mpr ⟨hid, decide_eq_true hne⟩)
              (fun id hid => List.mem_of_mem_filter hid)
              (fun id hne => find_answer p.wire _ hne) nofun ?_ (fun _ => .inl) (fun _ hm => hm)
              hentries)
          rintro _ refusal' ⟨⟩ hsome'
          obtain rfl := Option.some.inj (hrefusal.symm.trans hsome')
          exact find_answer_self p.wire _

theorem Agrees.resume (hs : Platform.Invariant p) (hsound : Accounts.Sound accounts)
    (h : Agrees sent accounts p.wire) {trx : Reference .trx} (hcall : accounts.calls c = some call)
    (hresume : Accounts.resume accounts c call trx.value = some accounts') :
    Served sent accounts' p.wire := by
  have hon := h.goesOn_resume hsound hcall hresume
  have hquiet : ∀ {u : Accounts.State} {stage : Accounts.Stage}, accounts' = u.goTo c call stage →
      u.calls = accounts.calls → u.entries = accounts.entries →
      (ended stage = none → Running accounts c) →
      (∀ outcome, ended stage = some outcome → ended call.stage = some outcome) →
      Served sent accounts' p.wire := by
    intro u stage heq hcalls hentries hrunning hsettled
    have hothers : ∀ id, id ≠ c → accounts'.calls id = accounts.calls id := fun id hne => by
      rw [heq, Accounts.goTo_calls_of_ne hne, hcalls]
    refine .quiet (h.quiet hsound hon (fun id hrun => ?_) (fun id outcome hsome => ?_) ?_)
    · by_cases hid : id = c
      · subst hid
        refine hrunning (hrun { call with stage := stage } ?_).1
        rw [heq, Accounts.goTo_calls_self]
      · exact (running_congr (hothers id hid)).mp hrun
    · by_cases hid : id = c
      · subst hid
        rw [heq, settled_goTo_self] at hsome
        rw [settled, hcall, Option.bind_some, hsettled outcome hsome]
      · rwa [settled_congr (hothers id hid)] at hsome
    · rw [heq]
      exact fun entry he => .inl (hentries ▸ he)
  cases hended : ended call.stage with
  | some outcome =>
      exact hquiet (resume_of_ended hended hresume) rfl rfl (by rintro ⟨⟩)
        fun _ hsome => hended.trans hsome
  | none =>
      have hrunning : Running accounts c := fun call' hcall' => by
        obtain rfl := Option.some.inj (hcall.symm.trans hcall')
        refine ⟨hended, fun haborted => ?_⟩
        rw [Accounts.resume, haborted] at hresume
        cases hresume
      rcases Accounts.resume_writes hcall hresume with
        ⟨version, entry, hstage, heq⟩ | ⟨stage, u, heq, hu⟩
      · exact h.commit hsound hcall hresume hstage heq
      · cases hstage : ended stage with
        | none =>
            refine hquiet heq hu.calls hu.entries (fun _ => hrunning) fun _ hsome => ?_
            cases hstage.symm.trans hsome
        | some outcome => exact h.abstain hs hsound hcall hresume heq hu hrunning hstage

theorem Agrees.aside {e : Accounts.Event} (hsound : Accounts.Sound accounts)
    (h : Agrees sent accounts wire) (hcaller : e.caller = none)
    (hstep : Accounts.step accounts e = some accounts')
    (hentries : ∀ entry ∈ accounts'.entries, entry ∈ accounts.entries ∨ IsOpening entry) :
    Agrees sent accounts' wire := by
  have hcalls : ∀ id, accounts'.calls id = accounts.calls id := fun id =>
    ((Accounts.step_sound hsound hstep).2.others id fun hid => nomatch hcaller.symm.trans hid).2
  refine h.quiet hsound (h.goesOn hsound hstep (fun id call hcall => ?_) fun id hid => ?_)
    (fun id => (running_congr (hcalls id)).mp) (fun id outcome hsome => ?_) hentries
  · exact ⟨call, (hcalls id).symm.trans hcall⟩
  · exact nomatch hcaller.symm.trans hid
  · rwa [settled_congr (hcalls id)] at hsome

theorem entries_resumeCreate (hsound : Accounts.Sound accounts) {creation : Accounts.Creation}
    (hcreation : creation ∈ accounts.creations) (trx : String) :
    ∀ entry ∈ (Accounts.resumeCreate accounts creation trx).entries,
      entry ∈ accounts.entries ∨ IsOpening entry := by
  unfold Accounts.resumeCreate
  split_ifs
  · exact fun entry => .inl
  · intro entry he
    refine (List.mem_append.mp he).imp_right fun hopening => ?_
    obtain ⟨_, rfl⟩ :=
      (hsound.pending.openings creation hcreation).entry entry (Option.mem_toList.mp hopening)
    rw [IsOpening, Accounts.openingEntry, String.toList_append]
    exact List.prefix_append ..

theorem Agrees.abort (hsound : Accounts.Sound accounts) (h : Agrees sent accounts wire)
    (hstep : Accounts.step accounts (.abort c) = some accounts') : Agrees sent accounts' wire := by
  obtain ⟨call, hcall, habort⟩ := Option.bind_eq_some_iff.mp hstep
  have heq : accounts' = (accounts.unlock c).goTo c call .aborted := by
    split_ifs at habort
    exact (Option.some.inj habort).symm
  have hself : accounts'.calls c = some { call with stage := .aborted } := by
    rw [heq, Accounts.goTo_calls_self]
  have hothers : ∀ id, id ≠ c → accounts'.calls id = accounts.calls id := fun id hne => by
    rw [heq, Accounts.goTo_calls_of_ne hne]
    rfl
  refine h.quiet hsound (h.goesOn hsound hstep (fun id call' hcall' => ?_)
    fun id hid call' version entry hcall' hstage => ?_) (fun id hrunning => ?_)
    (fun id outcome hsome => ?_) ?_
  · by_cases hid : id = c
    · exact ⟨call, hid ▸ hcall⟩
    · exact ⟨call', (hothers id hid).symm.trans hcall'⟩
  · obtain rfl : c = id := Option.some.inj hid
    obtain rfl := Option.some.inj (hself.symm.trans hcall')
    cases hstage
  · by_cases hid : id = c
    · subst hid
      exact absurd rfl (hrunning _ hself).2
    · exact (running_congr (hothers id hid)).mp hrunning
  · by_cases hid : id = c
    · subst hid
      rw [settled, hself] at hsome
      cases hsome
    · rwa [settled_congr (hothers id hid)] at hsome
  · rw [heq]
    exact fun entry => .inl

/-- Whatever else happens to the service shows on no wire. -/
theorem Agrees.service {e : Accounts.Event} (hsound : Accounts.Sound accounts)
    (h : Agrees sent accounts wire) (hresume : ∀ id trx, e ≠ .resume id trx)
    (hcredit : ∀ id reference request, e ≠ .credit id reference request)
    (hdebit : ∀ id reference request, e ≠ .debit id reference request)
    (hstep : Accounts.step accounts e = some accounts') : Agrees sent accounts' wire := by
  cases e with
  | credit id reference request => exact absurd rfl (hcredit _ _ _)
  | debit id reference request => exact absurd rfl (hdebit _ _ _)
  | resume id trx => exact absurd rfl (hresume _ _)
  | abort c => exact h.abort hsound hstep
  | create session id reference request =>
      refine h.aside hsound rfl hstep ?_
      simp only [Accounts.step] at hstep
      split_ifs at hstep
      obtain rfl := Option.some.inj hstep
      exact fun entry => .inl
  | resumeCreate session trx =>
      refine h.aside hsound rfl hstep ?_
      obtain ⟨creation, hcreation, rfl⟩ := Option.map_eq_some_iff.mp hstep
      exact entries_resumeCreate hsound (Table.mem_of_find hcreation) trx
  | abortCreate session =>
      refine h.aside hsound rfl hstep ?_
      obtain ⟨creation, -, rfl⟩ := Option.map_eq_some_iff.mp hstep
      exact fun entry => .inl
  | setStatus id status =>
      refine h.aside hsound rfl hstep ?_
      simp only [Accounts.step] at hstep
      split_ifs at hstep
      obtain rfl := Option.some.inj hstep
      exact fun entry => .inl

/-! ## What reaches the service -/

/-- What the controller passes on is what the client has sent. -/
theorem received_eq {unicode : Unicode} {received : String × Accounts.BalanceOperationRequest}
    (h : Accounts.WalletsController.receive unicode post.wallet.value
      (.obj (movementRequest post).body) = some received) :
    received.1 = post.wallet.value ∧ received.2.transactionId = post.idempotencyKey ∧
      received.2.amount = post.money.amount := by
  obtain ⟨reference, hreference, h⟩ := Option.bind_eq_some_iff.mp h
  obtain ⟨request, hrequest, h⟩ := Option.bind_eq_some_iff.mp h
  cases h
  have hvalue : reference = post.wallet.value := by
    rw [referencePipe] at hreference
    split_ifs at hreference
    exact (Option.some.inj hreference).symm
  rw [Accounts.BalanceOperationRequest.parse] at hrequest
  split_ifs at hrequest with hpipe
  obtain ⟨hvalid, -⟩ := Bool.and_eq_true_iff.mp hpipe
  obtain ⟨request', hread, hkey, hamount, -⟩ :=
    Accounts.BalanceOperationRequest.read_of_valid (List.isEmpty_iff.mp hvalid)
  obtain rfl := Option.some.inj (hread.symm.trans hrequest)
  exact ⟨hvalue, (Json.str.inj (Option.some.inj hkey)).symm,
    (Rat.intCast_inj.mp (Json.num.inj (Option.some.inj hamount))).symm⟩

theorem Agrees.arrive (hsound : Accounts.Sound accounts) (h : Agrees sent accounts wire)
    (hpost : sent[id]? = some post) {reference : String}
    {request : Accounts.BalanceOperationRequest} (hreference : reference = post.wallet.value)
    (hkey : request.transactionId = post.idempotencyKey)
    (hamount : request.amount = post.money.amount)
    (hstep : Accounts.step accounts (arrival post.operation id reference request) =
      some accounts') : Agrees sent accounts' wire := by
  have hstart : Accounts.start accounts id reference request (typeOf post.operation) =
      some accounts' := by
    cases hoperation : post.operation <;> rw [hoperation] at hstep <;> exact hstep
  obtain ⟨hnone, rfl⟩ := Accounts.start_eq hstart
  refine h.quiet hsound ⟨Accounts.grows_goTo, ?_, ?_⟩ (fun id' hrunning => ?_)
    (fun id' outcome hsome => ?_) fun entry => .inl
  · exact Accounts.forall_goTo_calls ⟨post, hpost, hreference, hkey, hamount, rfl⟩
      fun id' call' _ hcall' => h.arrived id' call' hcall'
  · intro id' call' version entry hcall' hstage
    by_cases hid : id' = id
    · subst hid
      rw [← Accounts.eq_of_goTo_calls hcall'] at hstage
      cases hstage
    · exact h.drawn id' call' version entry
        ((Accounts.goTo_calls_of_ne hid).symm.trans hcall') hstage
  · by_cases hid : id' = id
    · subst hid
      exact fun call' hcall' => nomatch hnone.symm.trans hcall'
    · exact (running_congr (Accounts.goTo_calls_of_ne hid)).mp hrunning
  · by_cases hid : id' = id
    · subst hid
      rw [settled_goTo_self] at hsome
      cases hsome
    · rwa [settled_congr (Accounts.goTo_calls_of_ne hid)] at hsome

theorem Agrees.send (h : Agrees sent accounts wire) (post : MovementCall) :
    Agrees (sent ++ [post]) accounts (wire.send post) := by
  have hkeep : ∀ {id post'}, sent[id]? = some post' → (sent ++ [post])[id]? = some post' :=
    fun hpost' => by
      rw [List.getElem?_append_left (List.getElem?_eq_some_iff.mp hpost').1, hpost']
  have hnext : wire.next = sent.length := congrArg List.length h.posts
  refine ⟨by rw [Wire.send, h.posts], fun id call hcall => ?_, h.drawn, fun id hid hrunning => ?_,
    h.moved, h.refused, fun m hm => ?_, h.entries⟩
  · obtain ⟨post', hpost', hposted⟩ := h.arrived id call hcall
    exact ⟨post', hkeep hpost', hposted⟩
  · rw [List.length_append, List.length_singleton] at hid
    by_cases hlast : id = sent.length
    · rw [hlast, ← hnext]
      exact List.mem_cons_self ..
    · exact List.mem_cons_of_mem _ (h.inFlight id (by omega) hrunning)
  · obtain ⟨hentry, id, post', hpost', hidentifier, hserved⟩ := h.recorded m hm
    refine ⟨hentry, id, post', hkeep hpost', hidentifier, fun hmem => ?_⟩
    have hlt : id < sent.length := (List.getElem?_eq_some_iff.mp hpost').1
    rcases List.mem_cons.mp hmem with hnew | hold
    · omega
    · exact hserved hold

end Deployment

end Paynad
