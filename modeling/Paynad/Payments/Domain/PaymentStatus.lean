import Paynad.Payments.Domain.Reference

/-!
# Statuses, failure reasons and domain errors
-/

namespace Paynad

namespace Payments

inductive PaymentStatus where
  | pending
  | processing
  | approved
  | declined
  | compensated
  | compensationPending
  deriving DecidableEq, Repr

def PaymentStatus.value : PaymentStatus → String
  | .pending => "Pending"
  | .processing => "Processing"
  | .approved => "Approved"
  | .declined => "Declined"
  | .compensated => "Compensated"
  | .compensationPending => "CompensationPending"

def allowedTransitions : PaymentStatus → List PaymentStatus
  | .pending => [.processing, .declined]
  | .processing => [.approved, .declined, .compensated, .compensationPending]
  | .compensationPending => [.compensated]
  | .approved => []
  | .declined => []
  | .compensated => []

def terminalStatuses : List PaymentStatus :=
  [.approved, .declined, .compensated]

theorem mem_terminalStatuses_iff (status : PaymentStatus) :
    status ∈ terminalStatuses ↔ allowedTransitions status = [] := by
  cases status <;> simp [terminalStatuses, allowedTransitions]

inductive FailureReason where
  | insufficientBalance
  | walletNotFound
  | walletFrozen
  | currencyMismatch
  | accountsUnavailable
  | creditFailed
  deriving DecidableEq, Repr

def FailureReason.value : FailureReason → String
  | .insufficientBalance => "INSUFFICIENT_BALANCE"
  | .walletNotFound => "WALLET_NOT_FOUND"
  | .walletFrozen => "WALLET_FROZEN"
  | .currencyMismatch => "CURRENCY_MISMATCH"
  | .accountsUnavailable => "ACCOUNTS_UNAVAILABLE"
  | .creditFailed => "CREDIT_FAILED"

inductive DomainError where
  | invalidTransition (origin target : PaymentStatus)
  | sameWallet (walletReference : String)
  | insufficientBalance (walletReference : String)
  | walletNotFound (walletReference : String)
  | walletFrozen (walletReference : String)
  | currencyMismatch (walletReference : String)
  | accountsUnavailable (operation : String)
  | paymentNotFound (reference : String)
  | concurrentPayment (reference : String)
  deriving DecidableEq, Repr

namespace DomainError

def code : DomainError → String
  | .invalidTransition _ _ => "INVALID_TRANSITION"
  | .sameWallet _ => "SAME_WALLET"
  | .insufficientBalance _ => "INSUFFICIENT_BALANCE"
  | .walletNotFound _ => "WALLET_NOT_FOUND"
  | .walletFrozen _ => "WALLET_FROZEN"
  | .currencyMismatch _ => "CURRENCY_MISMATCH"
  | .accountsUnavailable _ => "ACCOUNTS_UNAVAILABLE"
  | .paymentNotFound _ => "PAYMENT_NOT_FOUND"
  | .concurrentPayment _ => "PAYMENT_CONFLICT"

def message : DomainError → String
  | .invalidTransition origin target =>
      "a payment cannot move from " ++ origin.value ++ " to " ++ target.value
  | .sameWallet _ => "the source and destination wallets must differ"
  | .insufficientBalance w => "wallet " ++ w ++ " does not hold enough funds"
  | .walletNotFound w => "wallet " ++ w ++ " does not exist"
  | .walletFrozen w => "wallet " ++ w ++ " is frozen"
  | .currencyMismatch w => "wallet " ++ w ++ " is held in another currency"
  | .accountsUnavailable operation => "accounts is unavailable (" ++ operation ++ ")"
  | .paymentNotFound reference => "payment " ++ reference ++ " does not exist"
  | .concurrentPayment _ => "payment is already being processed or has changed"

end DomainError

/-- `BY_CODE` of `failure-reason.ts`. -/
def failureReasonByCode : List (String × FailureReason) :=
  [("INSUFFICIENT_BALANCE", .insufficientBalance),
    ("WALLET_NOT_FOUND", .walletNotFound),
    ("WALLET_FROZEN", .walletFrozen),
    ("CURRENCY_MISMATCH", .currencyMismatch),
    ("ACCOUNTS_UNAVAILABLE", .accountsUnavailable)]

def failureReasonOf (error : DomainError) : FailureReason :=
  (failureReasonByCode.lookup error.code).getD .accountsUnavailable

/-- What an awaited call can throw: a `DomainError` or any other error. -/
inductive Thrown where
  | domain (error : DomainError)
  | other (message : String)
  deriving DecidableEq, Repr

def Thrown.message : Thrown → String
  | .domain error => error.message
  | .other message => message

end Payments

end Paynad
