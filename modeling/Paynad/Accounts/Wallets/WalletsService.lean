import Paynad.Accounts.Wallets.Wallet
import Paynad.Library.Locks
import Paynad.Library.Table

/-!
# The accounts service under concurrency

Any number of calls of `applyMovement` and of `create` are in progress at once
over the committed tables. A call rests at one of its awaits, with the locals it
needs later; `resume` lets that await return, so a rival may commit between any
two statements of a call. Reads see what is committed. The conditional UPDATE
decides on the committed row, waits while another transaction has written it, and
holds the lock of the row until the transaction ends.
-/

namespace Paynad

namespace Accounts

open Shared

/-- The awaits of `applyMovement`. -/
inductive Stage where
  /-- `wallets.findByReference`. -/
  | reading
  /-- `ledger.findByIdempotencyKey`, before the transaction. -/
  | looking (wallet : Wallet)
  /-- The lookup has found nothing: `assertOperable` runs next. -/
  | checking (wallet : Wallet)
  /-- The transaction is open: `wallets.move`. -/
  | moving (wallet : Wallet)
  /-- The UPDATE has matched no row: `findByReference` in the transaction. -/
  | rereading (wallet : Wallet)
  /-- A refusal was thrown in the transaction: ROLLBACK. -/
  | declining (error : AppException)
  /-- The UPDATE has written `version`: `ledger.append`. -/
  | appending (version : Wallet)
  /-- The entry is inserted: COMMIT. -/
  | committing (version : Wallet) (entry : LedgerEntry)
  /-- The insertion has met the unique constraint: ROLLBACK. -/
  | violating (walletId : String)
  /-- `ledger.findByIdempotencyKey`, after the rollback. -/
  | relooking (walletId : String)
  /-- The last statement has returned, the caller is not answered yet. -/
  | settling (outcome : Outcome)
  | done (outcome : Outcome)
  /-- The driver has failed, or the process has died. -/
  | aborted
  deriving DecidableEq

structure Call where
  reference : String
  request : BalanceOperationRequest
  type : TransactionType
  stage : Stage
  deriving DecidableEq

structure Creation where
  session : ℕ
  wallet : Wallet
  opening : Option LedgerEntry

structure State where
  wallets : List Wallet
  entries : List LedgerEntry
  locks : Locks String ℕ
  calls : ℕ → Option Call
  creations : List Creation

def init : State := ⟨[], [], .empty, fun _ => none, []⟩

namespace State

def findByReference (s : State) (reference : String) : Option Wallet :=
  Table.find Wallet.reference s.wallets reference

def row (s : State) (id : String) : Option Wallet :=
  Table.find Wallet.id s.wallets id

def findByIdempotencyKey (s : State) (walletId transactionId : String) :
    Option LedgerEntry :=
  Table.find LedgerEntry.key s.entries (walletId, transactionId)

def creation (s : State) (session : ℕ) : Option Creation :=
  Table.find Creation.session s.creations session

def goTo (s : State) (c : ℕ) (call : Call) (stage : Stage) : State :=
  { s with calls := Function.update s.calls c (some { call with stage := stage }) }

def unlock (s : State) (c : ℕ) : State := { s with locks := s.locks.release c }

/-- COMMIT of a movement: the version of the row and the entry are there for all. -/
def commit (s : State) (version : Wallet) (entry : LedgerEntry) : State :=
  { s with
    wallets := Table.modify Wallet.id s.wallets version.id fun _ => version
    entries := Table.insert s.entries entry }

def drop (s : State) (session : ℕ) : State :=
  { s with creations := s.creations.filter fun creation => creation.session ≠ session }

end State

namespace Call

def delta (call : Call) : ℤ := Accounts.delta call.request call.type

def entry (call : Call) (version : Wallet) (trx : String) : LedgerEntry where
  reference := trx
  walletId := version.id
  transactionId := call.request.transactionId
  type := call.type
  amount := call.request.amount
  currency := call.request.currency
  balanceBefore := version.balance - call.delta
  balanceAfter := version.balance
  description := call.request.description
  paymentReference := call.request.paymentReference

/-- The error of `applyInTransaction` when the UPDATE has matched no row. -/
def refusal (call : Call) (wallet : Wallet) (current : Option Wallet) : AppException :=
  match current with
  | none => .walletNotFound wallet.reference
  | some current =>
      match assertOperable current call.request with
      | .error error => error
      | .ok () =>
          .insufficientBalance (.declined call.request current.balance .INSUFFICIENT_BALANCE)

end Call

inductive Event where
  | credit (call : ℕ) (reference : String) (request : BalanceOperationRequest)
  | debit (call : ℕ) (reference : String) (request : BalanceOperationRequest)
  /-- The await of a call returns; `trx` is what `generateReference` draws. -/
  | resume (call : ℕ) (trx : String)
  /-- A statement of a call fails or its process dies: the transaction is rolled back. -/
  | abort (call : ℕ)
  /-- `create` inserts the wallet. -/
  | create (session : ℕ) (id reference : String) (request : CreateWalletRequest)
  /-- `create` appends the opening entry, or commits once there is nothing to append. -/
  | resumeCreate (session : ℕ) (trx : String)
  | abortCreate (session : ℕ)
  /-- An operator changes the status of a wallet. -/
  | setStatus (id : String) (status : WalletStatus)

def Event.caller : Event → Option ℕ
  | .credit c _ _ => some c
  | .debit c _ _ => some c
  | .resume c _ => some c
  | .abort c => some c
  | _ => none

def start (s : State) (c : ℕ) (reference : String) (request : BalanceOperationRequest)
    (type : TransactionType) : Option State :=
  match s.calls c with
  | none => some (s.goTo c ⟨reference, request, type, .reading⟩ .reading)
  | some _ => none

/-- The conditional UPDATE of `WalletRepository.move`. -/
def update (s : State) (c : ℕ) (call : Call) (wallet : Wallet) : Option State :=
  match s.row wallet.id with
  | none => some (s.goTo c call (.rereading wallet))
  | some row =>
      if row.accepts call.delta call.request.currency then
        if s.locks.available c row.id then
          some ({ s with locks := s.locks.acquire c row.id }.goTo c call
            (.appending (row.move call.delta)))
        else
          none
      else
        some (s.goTo c call (.rereading wallet))

def resume (s : State) (c : ℕ) (call : Call) (trx : String) : Option State :=
  match call.stage with
  | .reading =>
      match s.findByReference call.reference with
      | none => some (s.goTo c call (.settling (.error (.walletNotFound call.reference))))
      | some wallet => some (s.goTo c call (.looking wallet))
  | .looking wallet =>
      match s.findByIdempotencyKey wallet.id call.request.transactionId with
      | some replayed =>
          some (s.goTo c call (.settling (replay replayed call.request call.type)))
      | none => some (s.goTo c call (.checking wallet))
  | .checking wallet =>
      match assertOperable wallet call.request with
      | .error error => some (s.goTo c call (.settling (.error error)))
      | .ok () => some (s.goTo c call (.moving wallet))
  | .moving wallet => update s c call wallet
  | .rereading wallet =>
      some (s.goTo c call
        (.declining (call.refusal wallet (s.findByReference wallet.reference))))
  | .declining error => some ((s.unlock c).goTo c call (.settling (.error error)))
  | .appending version =>
      match s.findByIdempotencyKey version.id call.request.transactionId with
      | some _ => some (s.goTo c call (.violating version.id))
      | none => some (s.goTo c call (.committing version (call.entry version trx)))
  | .committing version entry =>
      some (((s.commit version entry).unlock c).goTo c call
        (.settling (.ok (.approved entry))))
  | .violating walletId => some ((s.unlock c).goTo c call (.relooking walletId))
  | .relooking walletId =>
      match s.findByIdempotencyKey walletId call.request.transactionId with
      | some original =>
          some (s.goTo c call (.settling (replay original call.request call.type)))
      -- The driver's error is thrown again.
      | none => some (s.goTo c call .aborted)
  | .settling outcome => some (s.goTo c call (.done outcome))
  | .done _ => none
  | .aborted => none

def Stage.over : Stage → Bool
  | .done _ => true
  | .aborted => true
  | _ => false

def openWallet (id reference : String) (request : CreateWalletRequest) : Wallet where
  id := id
  reference := reference
  currency := request.currency
  balance := request.initialBalance.getD 0
  reservedAmount := 0
  status := .ACTIVE

def openingEntry (wallet : Wallet) (trx : String) : LedgerEntry where
  reference := trx
  walletId := wallet.id
  transactionId := "opening-" ++ String.ofList (wallet.reference.toList.replaceF
    fun char => if char = '_' then some '-' else none)
  type := .CREDIT
  amount := wallet.balance
  currency := wallet.currency
  balanceBefore := 0
  balanceAfter := wallet.balance
  description := "Opening balance"
  paymentReference := none

/-- The id and the reference of a wallet are not taken, not even by a transaction
that may still commit. -/
def State.free (s : State) (id reference : String) : Bool :=
  let fresh := fun wallet : Wallet => wallet.id ≠ id && wallet.reference ≠ reference
  s.wallets.all fresh && s.creations.all fun creation => fresh creation.wallet

def resumeCreate (s : State) (creation : Creation) (trx : String) : State :=
  if 0 < creation.wallet.balance ∧ creation.opening = none then
    { s with
      creations := Table.modify Creation.session s.creations creation.session fun creation =>
        { creation with opening := some (openingEntry creation.wallet trx) } }
  else
    { s.drop creation.session with
      wallets := Table.insert s.wallets creation.wallet
      entries := s.entries ++ creation.opening.toList }

def step (s : State) : Event → Option State
  | .credit c reference request => start s c reference request .CREDIT
  | .debit c reference request => start s c reference request .DEBIT
  | .resume c trx => (s.calls c).bind fun call => resume s c call trx
  | .abort c =>
      (s.calls c).bind fun call =>
        if call.stage.over then none else some ((s.unlock c).goTo c call .aborted)
  | .create session id reference request =>
      if s.free id reference && (s.creation session).isNone then
        some { s with
          creations := Table.insert s.creations
            ⟨session, openWallet id reference request, none⟩ }
      else
        none
  | .resumeCreate session trx =>
      (s.creation session).map fun creation => resumeCreate s creation trx
  | .abortCreate session => (s.creation session).map fun _ => s.drop session
  | .setStatus id status =>
      if s.locks id = none then
        some { s with
          wallets := Table.modify Wallet.id s.wallets id fun row =>
            { row with status := status } }
      else
        none

end Accounts

end Paynad
