import Paynad.Accounts.Wallets.Books
import Paynad.Library.Transition

/-!
# What a call knows at each of its awaits

`Standing` says of a call what its locals still mean: the wallet it has read
exists, the version it has written is the committed row moved by its own amount,
under a lock no one else has, and an answer carries an entry of the ledger. The
tables only grow (`Grows`), and what a transaction has locked is left to it
(`Keeps`): the two carry a standing through the steps of all other calls.
-/

namespace Paynad

namespace Accounts

open Shared Transition

def Known (s : State) (call : Call) (id : String) : Prop :=
  ∃ row, s.row id = some row ∧ row.reference = call.reference

/-- The UPDATE of the call has written `version`, and holds its row. -/
def Written (s : State) (c : ℕ) (call : Call) (version : Wallet) : Prop :=
  ∃ row, s.row version.id = some row ∧ row.reference = call.reference ∧
    row.accepts call.delta call.request.currency = true ∧
    version = row.move call.delta ∧ s.locks version.id = some c

def Recorded (s : State) (call : Call) (entry : LedgerEntry) : Prop :=
  ∃ id, Known s call id ∧
    s.findByIdempotencyKey id call.request.transactionId = some entry ∧
    sameOperation entry call.request call.type = true

def Truthful (s : State) (call : Call) (outcome : Outcome) : Prop :=
  ∀ response, outcome = .ok response →
    ∃ entry, Recorded s call entry ∧ response = .approved entry

def Standing (s : State) (c : ℕ) (call : Call) : Stage → Prop
  | .looking wallet | .checking wallet | .moving wallet | .rereading wallet =>
      Known s call wallet.id ∧ wallet.reference = call.reference
  | .appending version => Written s c call version
  | .committing version entry =>
      Written s c call version ∧ (∃ trx, entry = call.entry version trx) ∧
        s.findByIdempotencyKey version.id call.request.transactionId = none
  | .violating id | .relooking id =>
      Known s call id ∧
        ∃ entry, s.findByIdempotencyKey id call.request.transactionId = some entry
  | .settling outcome | .done outcome => Truthful s call outcome
  | .reading | .declining _ | .aborted => True

structure Grows (s t : State) : Prop where
  rows : ∀ id row, s.row id = some row →
    ∃ row', t.row id = some row' ∧ row'.reference = row.reference
  entries : ∀ id key entry, s.findByIdempotencyKey id key = some entry →
    t.findByIdempotencyKey id key = some entry

/-- A row that a call has locked, and its entries, are left to that call. -/
def Keeps (c : ℕ) (s t : State) : Prop :=
  ∀ id row, s.row id = some row → s.locks id = some c →
    t.row id = some row ∧ t.locks id = some c ∧
      ∀ key, t.findByIdempotencyKey id key = s.findByIdempotencyKey id key

def Stage.version : Stage → Option Wallet
  | .appending version => some version
  | .committing version _ => some version
  | _ => none

def Meets (s : State) (c : ℕ) (call : Call) (row : Wallet) : Prop :=
  ∃ wallet, s.calls c = some call ∧ call.stage = .moving wallet ∧
    s.row wallet.id = some row ∧ row.accepts call.delta call.request.currency = true

variable {s t u : State} {c c' : ℕ} {call : Call} {stage : Stage} {id : String}
  {version : Wallet} {entry : LedgerEntry} {outcome : Outcome}

theorem Grows.refl (s : State) : Grows s s :=
  ⟨fun _ row h => ⟨row, h, rfl⟩, fun _ _ _ h => h⟩

theorem Grows.trans (h : Grows s t) (h' : Grows t u) : Grows s u where
  rows id row hrow := by
    obtain ⟨row', hrow', heq⟩ := h.rows id row hrow
    obtain ⟨row'', hrow'', heq'⟩ := h'.rows id row' hrow'
    exact ⟨row'', hrow'', heq'.trans heq⟩
  entries id key entry he := h'.entries id key entry (h.entries id key entry he)

theorem Known.mono (hgrows : Grows s t) (h : Known s call id) : Known t call id := by
  obtain ⟨row, hrow, hreference⟩ := h
  obtain ⟨row', hrow', heq⟩ := hgrows.rows id row hrow
  exact ⟨row', hrow', heq.trans hreference⟩

theorem Recorded.mono (hgrows : Grows s t) (h : Recorded s call entry) :
    Recorded t call entry := by
  obtain ⟨id, hknown, hentry, hsame⟩ := h
  exact ⟨id, hknown.mono hgrows, hgrows.entries _ _ _ hentry, hsame⟩

theorem Truthful.mono (hgrows : Grows s t) (h : Truthful s call outcome) :
    Truthful t call outcome := by
  intro response hresponse
  obtain ⟨entry, hrecorded, heq⟩ := h response hresponse
  exact ⟨entry, hrecorded.mono hgrows, heq⟩

theorem Written.mono (hkeeps : Keeps c s t) (h : Written s c call version) :
    Written t c call version := by
  obtain ⟨row, hrow, hreference, haccepts, hversion, hlock⟩ := h
  obtain ⟨hrow', hlock', -⟩ := hkeeps _ _ hrow hlock
  exact ⟨row, hrow', hreference, haccepts, hversion, hlock'⟩

theorem Written.known (h : Written s c call version) : Known s call version.id := by
  obtain ⟨row, hrow, hreference, -⟩ := h
  exact ⟨row, hrow, hreference⟩

/-- A standing survives the steps of all other calls. -/
theorem Standing.mono (hgrows : Grows s t) (hkeeps : Keeps c s t)
    (h : Standing s c call stage) : Standing t c call stage := by
  cases stage with
  | reading => trivial
  | looking wallet => exact ⟨h.1.mono hgrows, h.2⟩
  | checking wallet => exact ⟨h.1.mono hgrows, h.2⟩
  | moving wallet => exact ⟨h.1.mono hgrows, h.2⟩
  | rereading wallet => exact ⟨h.1.mono hgrows, h.2⟩
  | declining error => trivial
  | appending version => exact Written.mono hkeeps h
  | committing version entry =>
      obtain ⟨hwritten, hentry, hnone⟩ := h
      refine ⟨hwritten.mono hkeeps, hentry, ?_⟩
      obtain ⟨row, hrow, -, -, -, hlock⟩ := hwritten
      rw [(hkeeps _ _ hrow hlock).2.2]
      exact hnone
  | violating id =>
      obtain ⟨hknown, entry, hentry⟩ := h
      exact ⟨hknown.mono hgrows, entry, hgrows.entries _ _ _ hentry⟩
  | relooking id =>
      obtain ⟨hknown, entry, hentry⟩ := h
      exact ⟨hknown.mono hgrows, entry, hgrows.entries _ _ _ hentry⟩
  | settling outcome => exact Truthful.mono hgrows h
  | done outcome => exact Truthful.mono hgrows h
  | aborted => trivial

/-! ## The writes -/

theorem standing_goTo {stage' : Stage} {call' : Call} :
    Standing (s.goTo c' call' stage') c call stage ↔ Standing s c call stage := by
  cases stage <;> rfl

theorem grows_goTo : Grows s (s.goTo c call stage) := ⟨(Grows.refl s).rows, (Grows.refl s).entries⟩

theorem keeps_goTo : Keeps c' s (s.goTo c call stage) := fun _ _ hrow hlock =>
  ⟨hrow, hlock, fun _ => rfl⟩

theorem keeps_unlock (hne : c' ≠ c) : Keeps c' s (s.unlock c) := fun _ _ hrow hlock =>
  ⟨hrow, Locks.release_of_held hlock hne, fun _ => rfl⟩

theorem keeps_acquire (h : s.locks.available c id = true) :
    Keeps c' s { s with locks := s.locks.acquire c id } := fun _ _ hrow hlock =>
  ⟨hrow, Locks.acquire_of_held h hlock, fun _ => rfl⟩

theorem row_commit_self (entry : LedgerEntry) (hrow : ∃ row, s.row version.id = some row) :
    (s.commit version entry).row version.id = some version := by
  obtain ⟨row, hrow⟩ := hrow
  have hself : (s.commit version entry).row version.id = (s.row version.id).map fun _ => version :=
    Table.find_modify_self (fun _ _ => rfl) _
  rw [hself, hrow]
  rfl

theorem row_commit_of_ne (entry : LedgerEntry) (hne : id ≠ version.id) :
    (s.commit version entry).row id = s.row id :=
  Table.find_modify_of_ne (fun _ _ => rfl) hne _

theorem findByIdempotencyKey_commit_of_ne (hne : id ≠ entry.walletId) (key : String) :
    (s.commit version entry).findByIdempotencyKey id key = s.findByIdempotencyKey id key :=
  Table.find_insert_of_ne fun heq => hne (congrArg Prod.fst heq).symm

theorem findByIdempotencyKey_commit_self (version : Wallet)
    (h : s.findByIdempotencyKey entry.walletId entry.transactionId = none) :
    (s.commit version entry).findByIdempotencyKey entry.walletId entry.transactionId =
      some entry :=
  Table.find_insert_self h

theorem grows_commit {row : Wallet} (hrow : s.row version.id = some row)
    (hreference : version.reference = row.reference) : Grows s (s.commit version entry) where
  rows id row' hrow' := by
    by_cases hid : id = version.id
    · subst hid
      obtain rfl : row = row' := Option.some.inj (hrow.symm.trans hrow')
      exact ⟨version, row_commit_self _ ⟨_, hrow⟩, hreference⟩
    · exact ⟨row', (row_commit_of_ne _ hid).trans hrow', rfl⟩
  entries _ _ _ he := Table.find_insert_of_find he

theorem keeps_commit (hne : c' ≠ c) (hlock : s.locks version.id = some c)
    (hwallet : entry.walletId = version.id) : Keeps c' s (s.commit version entry) := by
  intro id row hrow hlock'
  have hid : id ≠ version.id := by
    rintro rfl
    exact hne (Option.some.inj (hlock'.symm.trans hlock))
  refine ⟨(row_commit_of_ne _ hid).trans hrow, hlock', fun key => ?_⟩
  exact findByIdempotencyKey_commit_of_ne (by rwa [hwallet]) key

theorem row_create {wallet row : Wallet} {entries : List LedgerEntry}
    {creations : List Creation} (hrow : s.row id = some row) :
    State.row { s with
      wallets := Table.insert s.wallets wallet
      entries := entries
      creations := creations } id = some row :=
  Table.find_insert_of_find hrow

theorem findByIdempotencyKey_create {wallets : List Wallet} {opening : Option LedgerEntry}
    {creations : List Creation} {key : String} :
    State.findByIdempotencyKey { s with
      wallets := wallets
      entries := s.entries ++ opening.toList
      creations := creations } id key =
      (s.findByIdempotencyKey id key).or
        (Table.find LedgerEntry.key opening.toList (id, key)) := by
  cases opening with
  | none => simp [State.findByIdempotencyKey]
  | some entry =>
      have hinsert := Table.find_insert LedgerEntry.key s.entries entry (id, key)
      rw [Option.toList_some, Table.find_cons, Table.find_nil]
      exact hinsert

theorem row_setStatus {status : WalletStatus} {id' : String} {row : Wallet}
    (hrow : s.row id = some row) :
    ∃ row', State.row { s with
      wallets := Table.modify Wallet.id s.wallets id' fun row =>
        { row with status := status } } id = some row' ∧
      row'.reference = row.reference ∧ (id ≠ id' → row' = row) := by
  have hid : ∀ row : Wallet, row.id = id' → ({ row with status := status } : Wallet).id = id' :=
    fun _ hid => hid
  by_cases h : id = id'
  · subst h
    have hself := Table.find_modify_self hid s.wallets
    refine ⟨{ row with status := status }, ?_, rfl, fun hne => absurd rfl hne⟩
    refine hself.trans ?_
    rw [← State.row, hrow]
    rfl
  · exact ⟨row, (Table.find_modify_of_ne hid h s.wallets).trans hrow, rfl, fun _ => rfl⟩

/-! ## The steps of a call -/

theorem goTo_calls_self : (s.goTo c call stage).calls c = some { call with stage := stage } :=
  Function.update_self ..

theorem goTo_calls_of_ne (hne : c' ≠ c) : (s.goTo c call stage).calls c' = s.calls c' :=
  Function.update_of_ne hne ..

theorem eq_of_goTo_calls {call' : Call} (h : (s.goTo c call stage).calls c = some call') :
    { call with stage := stage } = call' :=
  Option.some.inj (goTo_calls_self.symm.trans h)

theorem forall_goTo_calls {Q : ℕ → Call → Prop} (hself : Q c { call with stage := stage })
    (hothers : ∀ c' call', c' ≠ c → s.calls c' = some call' → Q c' call') (c' : ℕ)
    (call' : Call) (h : (s.goTo c call stage).calls c' = some call') : Q c' call' := by
  by_cases hc : c' = c
  · subst hc
    obtain rfl := eq_of_goTo_calls h
    exact hself
  · rw [goTo_calls_of_ne hc] at h
    exact hothers c' call' hc h

theorem start_eq {reference : String} {request : BalanceOperationRequest}
    {type : TransactionType} (h : start s c reference request type = some t) :
    s.calls c = none ∧ t = s.goTo c ⟨reference, request, type, .reading⟩ .reading := by
  unfold start at h
  split at h
  · next hcall => exact ⟨hcall, (Option.some.inj h).symm⟩
  · cases h

/-- What the step of a call is: it begins, it goes on, or its connection is lost. -/
inductive CallStep (s : State) (c : ℕ) : Event → State → Prop
  | credit (reference : String) (request : BalanceOperationRequest)
      (hnone : s.calls c = none) : CallStep s c (.credit c reference request)
        (s.goTo c ⟨reference, request, .CREDIT, .reading⟩ .reading)
  | debit (reference : String) (request : BalanceOperationRequest)
      (hnone : s.calls c = none) : CallStep s c (.debit c reference request)
        (s.goTo c ⟨reference, request, .DEBIT, .reading⟩ .reading)
  | resume (call : Call) (trx : String) (t : State) (hcall : s.calls c = some call)
      (hresume : resume s c call trx = some t) : CallStep s c (.resume c trx) t
  | abort (call : Call) (hcall : s.calls c = some call) (hover : call.stage.over = false) :
      CallStep s c (.abort c) ((s.unlock c).goTo c call .aborted)

theorem callStep_of_caller {e : Event} (hstep : step s e = some t) (hcaller : e.caller = some c) :
    CallStep s c e t := by
  cases e with
  | credit c' reference request =>
      obtain rfl : c' = c := Option.some.inj hcaller
      obtain ⟨hnone, rfl⟩ := start_eq hstep
      exact .credit reference request hnone
  | debit c' reference request =>
      obtain rfl : c' = c := Option.some.inj hcaller
      obtain ⟨hnone, rfl⟩ := start_eq hstep
      exact .debit reference request hnone
  | resume c' trx =>
      obtain rfl : c' = c := Option.some.inj hcaller
      obtain ⟨call, hcall, hresume⟩ := Option.bind_eq_some_iff.mp hstep
      exact .resume call trx t hcall hresume
  | abort c' =>
      obtain rfl : c' = c := Option.some.inj hcaller
      obtain ⟨call, hcall, habort⟩ := Option.bind_eq_some_iff.mp hstep
      split_ifs at habort with hover
      obtain rfl := Option.some.inj habort
      exact .abort call hcall (Bool.not_eq_true _ ▸ hover)
  | create session id reference request => cases hcaller
  | resumeCreate session trx => cases hcaller
  | abortCreate session => cases hcaller
  | setStatus id status => cases hcaller

/-- On its way to `stage` a call leaves the tables alone; a version that it did not have
is that of its UPDATE. -/
structure Abstains (s : State) (c : ℕ) (call : Call) (stage : Stage) (u : State) : Prop where
  wallets : u.wallets = s.wallets
  entries : u.entries = s.entries
  creations : u.creations = s.creations
  calls : u.calls = s.calls
  version : ∀ version, stage.version = some version → call.stage.version = some version ∨
    ∃ row, Meets s c call row ∧ version = row.move call.delta

theorem Abstains.keep {stage : Stage} (h : stage.version = none) :
    Abstains s c call stage s :=
  ⟨rfl, rfl, rfl, rfl, fun _ hversion => nomatch h.symm.trans hversion⟩

theorem Abstains.unlock {stage : Stage} (h : stage.version = none) :
    Abstains s c call stage (s.unlock c) :=
  ⟨rfl, rfl, rfl, rfl, fun _ hversion => nomatch h.symm.trans hversion⟩

theorem resume_writes (hcall : s.calls c = some call) (h : resume s c call trx = some t) :
    (∃ version entry, call.stage = .committing version entry ∧
      t = ((s.commit version entry).unlock c).goTo c call
        (.settling (.ok (.approved entry)))) ∨
    ∃ stage u, t = u.goTo c call stage ∧ Abstains s c call stage u := by
  unfold resume at h
  split at h
  case h_1 => split at h <;> exact .inr ⟨_, s, (Option.some.inj h).symm, .keep rfl⟩
  case h_2 => split at h <;> exact .inr ⟨_, s, (Option.some.inj h).symm, .keep rfl⟩
  case h_3 => split at h <;> exact .inr ⟨_, s, (Option.some.inj h).symm, .keep rfl⟩
  case h_4 wallet hstage =>
    unfold update at h
    split at h
    · exact .inr ⟨_, s, (Option.some.inj h).symm, .keep rfl⟩
    · next row hrow =>
        split_ifs at h with haccepts havailable
        · refine .inr ⟨_, _, (Option.some.inj h).symm, rfl, rfl, rfl, rfl, ?_⟩
          intro version hversion
          obtain rfl := Option.some.inj hversion
          exact .inr ⟨row, ⟨wallet, hcall, hstage, hrow, haccepts⟩, rfl⟩
        · exact .inr ⟨_, s, (Option.some.inj h).symm, .keep rfl⟩
  case h_5 => exact .inr ⟨_, s, (Option.some.inj h).symm, .keep rfl⟩
  case h_6 => exact .inr ⟨_, _, (Option.some.inj h).symm, .unlock rfl⟩
  case h_7 version hstage =>
    split at h
    · exact .inr ⟨_, s, (Option.some.inj h).symm, .keep rfl⟩
    · refine .inr ⟨_, s, (Option.some.inj h).symm, rfl, rfl, rfl, rfl, ?_⟩
      intro version' hversion
      obtain rfl := Option.some.inj hversion
      exact .inl (by rw [hstage]; rfl)
  case h_8 version entry hstage =>
    exact .inl ⟨version, entry, hstage, (Option.some.inj h).symm⟩
  case h_9 => exact .inr ⟨_, _, (Option.some.inj h).symm, .unlock rfl⟩
  case h_10 => split at h <;> exact .inr ⟨_, s, (Option.some.inj h).symm, .keep rfl⟩
  case h_11 => exact .inr ⟨_, s, (Option.some.inj h).symm, .keep rfl⟩
  case h_12 => cases h
  case h_13 => cases h

end Accounts

end Paynad
