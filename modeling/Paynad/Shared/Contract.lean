import Paynad.Shared.Json

/-!
# The contract shared by the three services

The bounds of an amount and the enumerations of a movement, as the shared package
exports them.
-/

namespace Paynad

namespace Shared

inductive TransactionType where
  | DEBIT
  | CREDIT
  | REFUND
  deriving DecidableEq, Repr

/-- Capitalised on the wire. -/
inductive TransactionStatus where
  | PENDING
  | APPROVED
  | DECLINED
  deriving DecidableEq, Repr

inductive Currency where
  | XOF
  deriving DecidableEq, Repr

def TransactionType.text : TransactionType → String
  | .DEBIT => "DEBIT"
  | .CREDIT => "CREDIT"
  | .REFUND => "REFUND"

def TransactionType.ofText (text : String) : Option TransactionType :=
  [.DEBIT, .CREDIT, .REFUND].find? fun type => type.text = text

def TransactionStatus.text : TransactionStatus → String
  | .PENDING => "Pending"
  | .APPROVED => "Approved"
  | .DECLINED => "Declined"

def TransactionStatus.ofText (text : String) : Option TransactionStatus :=
  [.PENDING, .APPROVED, .DECLINED].find? fun status => status.text = text

def Currency.code : Currency → String
  | .XOF => "XOF"

def Currency.ofText (text : String) : Option Currency :=
  [.XOF].find? fun currency => currency.code = text

def amountMin : ℤ := 5

def amountStep : ℤ := 5

def amountMax : ℤ := 1000000000000

def isValidAmount : Json → Bool
  | .num value =>
      value.den == 1 && decide (amountMin ≤ value.num) && decide (value.num ≤ amountMax) &&
        value.num % amountStep == 0
  | _ => false

theorem isValidAmount_int {amount : ℤ} :
    isValidAmount (.num amount) = true ↔
      5 ≤ amount ∧ amount ≤ 1000000000000 ∧ amount % 5 = 0 := by
  simp only [isValidAmount, Bool.and_eq_true, decide_eq_true_eq, beq_iff_eq, and_assoc]
  simp [amountMin, amountMax, amountStep]

end Shared

end Paynad
