import Paynad.Shared.Contract

/-!
# Wallets and movements

The rows of the accounts service, the body of a balance operation and its two
answers, and the three decisions that `WalletsService` takes without a query: is
the wallet operable, does the row accept the move, is a replay the same operation.
-/

namespace Paynad

namespace Accounts

open Shared

inductive WalletStatus where
  | ACTIVE
  | FROZEN
  deriving DecidableEq, Repr

structure Wallet where
  id : String
  reference : String
  currency : String
  balance : ℤ
  reservedAmount : ℤ
  status : WalletStatus
  deriving DecidableEq, Repr

structure LedgerEntry where
  reference : String
  walletId : String
  transactionId : String
  type : TransactionType
  amount : ℤ
  currency : String
  balanceBefore : ℤ
  balanceAfter : ℤ
  description : String
  paymentReference : Option String
  deriving DecidableEq, Repr

def LedgerEntry.key (entry : LedgerEntry) : String × String :=
  (entry.walletId, entry.transactionId)

structure BalanceOperationRequest where
  transactionId : String
  amount : ℤ
  currency : String
  description : String
  paymentReference : Option String
  amount_valid : isValidAmount (.num amount) = true
  deriving DecidableEq

/-- The body of a wallet creation; `null` or an absent balance is `none`. -/
structure CreateWalletRequest where
  currency : String
  initialBalance : Option ℤ
  initialBalance_valid : ∀ balance ∈ initialBalance, 0 ≤ balance ∧ balance ≤ amountMax

inductive DeclinedReason where
  | INSUFFICIENT_BALANCE
  | WALLET_FROZEN
  | CURRENCY_MISMATCH
  deriving DecidableEq, Repr

inductive OperationStatus where
  | APPROVED
  | DECLINED
  deriving DecidableEq, Repr

structure BalanceOperationResponse where
  transactionId : String
  reference : Option String
  amount : ℤ
  currency : String
  balanceBefore : ℤ
  balanceAfter : ℤ
  status : OperationStatus
  declinedReason : Option DeclinedReason
  deriving DecidableEq, Repr

namespace BalanceOperationResponse

def approved (entry : LedgerEntry) : BalanceOperationResponse where
  transactionId := entry.transactionId
  reference := some entry.reference
  amount := entry.amount
  currency := entry.currency
  balanceBefore := entry.balanceBefore
  balanceAfter := entry.balanceAfter
  status := .APPROVED
  declinedReason := none

def declined (request : BalanceOperationRequest) (balance : ℤ) (reason : DeclinedReason) :
    BalanceOperationResponse where
  transactionId := request.transactionId
  reference := none
  amount := request.amount
  currency := request.currency
  balanceBefore := balance
  balanceAfter := balance
  status := .DECLINED
  declinedReason := some reason

structure Carries (response : BalanceOperationResponse) (entry : LedgerEntry) : Prop where
  transactionId : response.transactionId = entry.transactionId
  reference : response.reference = some entry.reference
  amount : response.amount = entry.amount
  currency : response.currency = entry.currency
  balanceBefore : response.balanceBefore = entry.balanceBefore
  balanceAfter : response.balanceAfter = entry.balanceAfter
  status : response.status = .APPROVED
  declinedReason : response.declinedReason = none

theorem approved_carries (entry : LedgerEntry) : (approved entry).Carries entry :=
  ⟨rfl, rfl, rfl, rfl, rfl, rfl, rfl, rfl⟩

end BalanceOperationResponse

inductive AppException where
  | walletNotFound (reference : String)
  | walletFrozen (payload : BalanceOperationResponse)
  | currencyMismatch (payload : BalanceOperationResponse)
  | insufficientBalance (payload : BalanceOperationResponse)
  | idempotencyConflict (transactionId reference : String) (recordedType : TransactionType)
      (recordedAmount : ℤ) (recordedCurrency : String)
  deriving DecidableEq, Repr

abbrev Outcome := Except AppException BalanceOperationResponse

def assertOperable (wallet : Wallet) (request : BalanceOperationRequest) :
    Except AppException Unit :=
  if wallet.status = .FROZEN then
    .error (.walletFrozen (.declined request wallet.balance .WALLET_FROZEN))
  else if wallet.currency ≠ request.currency then
    .error (.currencyMismatch (.declined request wallet.balance .CURRENCY_MISMATCH))
  else
    .ok ()

def sameOperation (original : LedgerEntry) (request : BalanceOperationRequest)
    (type : TransactionType) : Bool :=
  original.type = type && original.amount = request.amount &&
    original.currency = request.currency

def replay (original : LedgerEntry) (request : BalanceOperationRequest)
    (type : TransactionType) : Outcome :=
  if sameOperation original request type then
    .ok (.approved original)
  else
    .error (.idempotencyConflict request.transactionId original.reference original.type
      original.amount original.currency)

theorem replay_of_same {original : LedgerEntry} {request : BalanceOperationRequest}
    {type : TransactionType} (h : sameOperation original request type = true) :
    replay original request type = .ok (.approved original) :=
  if_pos h

/-- A replay succeeds only for the recorded operation, with the recorded movement. -/
theorem replay_ok {original : LedgerEntry} {request : BalanceOperationRequest}
    {type : TransactionType} {response : BalanceOperationResponse}
    (h : replay original request type = .ok response) :
    sameOperation original request type = true ∧ response = .approved original := by
  unfold replay at h
  split at h
  · next hsame => exact ⟨hsame, (Except.ok.inj h).symm⟩
  · cases h

def delta (request : BalanceOperationRequest) (type : TransactionType) : ℤ :=
  if type = .CREDIT then request.amount else -request.amount

namespace Wallet

/-- The `WHERE` of `WalletRepository.move`, on one version of the row. -/
def accepts (wallet : Wallet) (delta : ℤ) (currency : String) : Bool :=
  wallet.status = .ACTIVE && wallet.currency = currency &&
    (!decide (delta < 0) || decide (-delta ≤ wallet.balance - wallet.reservedAmount))

/-- The `SET` of `WalletRepository.move`. -/
def move (wallet : Wallet) (delta : ℤ) : Wallet :=
  { wallet with balance := wallet.balance + delta }

/-- A move that the row accepts leaves an available balance that is not negative. -/
theorem available_move {wallet : Wallet} {delta : ℤ} {currency : String}
    (hnonneg : 0 ≤ wallet.balance - wallet.reservedAmount)
    (h : wallet.accepts delta currency = true) :
    0 ≤ (wallet.move delta).balance - (wallet.move delta).reservedAmount := by
  simp only [accepts, Bool.and_eq_true, Bool.or_eq_true, Bool.not_eq_true',
    decide_eq_false_iff_not, decide_eq_true_eq] at h
  simp only [move]
  omega

end Wallet

end Accounts

end Paynad
