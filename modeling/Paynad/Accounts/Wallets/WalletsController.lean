import Paynad.Shared.Validation
import Paynad.Accounts.Wallets.Wallet

/-!
# The endpoints of a balance operation

A credit and a debit reach `WalletsService` once the reference of the path and the
body have passed their pipes.
-/

namespace Paynad

namespace Accounts

open Shared

namespace BalanceOperationRequest

def rules (unicode : Unicode) : List Rule :=
  [.isTransactionId "transaction_id",
    .isAmount "amount",
    .isCurrency "currency",
    .isSafeDescription unicode "description",
    ⟨"payment_reference", isOptional (matchesRegex (referencePattern .PAYMENT))⟩]

def read (entries : JsonObject) : Option BalanceOperationRequest := do
  let transactionId ← (entries.lookup "transaction_id").bind Json.str?
  let amount ← (entries.lookup "amount").bind Json.int?
  let currency ← (entries.lookup "currency").bind Json.str?
  let description ← (entries.lookup "description").bind Json.str?
  let paymentReference := (entries.lookup "payment_reference").bind Json.str?
  if h : isValidAmount (.num amount) = true then
    some ⟨transactionId, amount, currency, description, paymentReference, h⟩
  else
    none

def parse (unicode : Unicode) (body : Json) : Option BalanceOperationRequest :=
  match body with
  | .obj entries => if pipeAccepts (rules unicode) body then read entries else none
  | _ => none

/-- A body that the pipe lets through is read, property by property. -/
theorem read_of_valid {unicode : Unicode} {entries : JsonObject}
    (h : invalidProperties (rules unicode) entries = []) :
    ∃ request, read entries = some request ∧
      entries.lookup "transaction_id" = some (.str request.transactionId) ∧
      entries.lookup "amount" = some (.num request.amount) ∧
      entries.lookup "currency" = some (.str request.currency) ∧
      entries.lookup "description" = some (.str request.description) ∧
      request.paymentReference = (entries.lookup "payment_reference").bind Json.str? := by
  rw [invalidProperties_eq_nil_iff] at h
  simp only [rules, List.forall_mem_cons, List.not_mem_nil, false_implies, implies_true,
    and_true, Rule.property_isTransactionId, Rule.property_isAmount, Rule.property_isCurrency,
    Rule.property_isSafeDescription] at h
  obtain ⟨htransactionId, hamount, hcurrency, hdescription, -⟩ := h
  obtain ⟨transactionId, htransactionId, -⟩ := isTransactionId_accepts.mp htransactionId
  obtain ⟨amount, hamount, hvalid⟩ := isAmount_accepts.mp hamount
  have hcurrency := isCurrency_accepts.mp hcurrency
  obtain ⟨description, hdescription, -⟩ := isSafeDescription_accepts.mp hdescription
  refine ⟨⟨transactionId, amount, "XOF", description,
    (entries.lookup "payment_reference").bind Json.str?, hvalid⟩, ?_, htransactionId, hamount,
    hcurrency, hdescription, rfl⟩
  simp [read, htransactionId, hamount, hcurrency, hdescription, Json.str?, hvalid]

end BalanceOperationRequest

namespace WalletsController

/-- What `credit` and `debit` pass on: the reference and the request, after their pipes. -/
def receive (unicode : Unicode) (reference : String) (body : Json) :
    Option (String × BalanceOperationRequest) := do
  let reference ← referencePipe .WALLET reference
  let request ← BalanceOperationRequest.parse unicode body
  return (reference, request)

end WalletsController

end Accounts

end Paynad
