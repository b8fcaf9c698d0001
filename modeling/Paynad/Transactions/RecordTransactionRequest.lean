import Paynad.Shared.Validation

/-!
# The request that records a movement

One movement to append to the ledger. The event of the queue and the body of the HTTP
fallback carry this shape and pass the same decorators. What the validator and the
runtime make of the text of an instant is given from outside.
-/

namespace Paynad

namespace Transactions

open Shared

/-- The readers of `occurred_at`: the strict check of `IsISO8601`, `new Date` and the
range of `timestamptz`. -/
structure Timestamps where
  isISO8601 : String → Bool
  parse : String → Option ℤ
  storable : ℤ → Bool

structure RecordTransactionRequest where
  transactionId : String
  paymentReference : String
  type : TransactionType
  walletReference : String
  userReference : String
  amount : ℤ
  currency : Currency
  description : String
  status : TransactionStatus
  occurredAt : String
  deriving DecidableEq

namespace RecordTransactionRequest

variable (unicode : Unicode) (timestamps : Timestamps)

def rules : List Rule :=
  [.isTransactionId "transaction_id",
    .isReference .PAYMENT "payment_reference",
    ⟨"type", isEnum ["DEBIT", "CREDIT", "REFUND"]⟩,
    .isReference .WALLET "wallet_reference",
    .isReference .USER "user_reference",
    .isAmount "amount",
    .isCurrency "currency",
    .isSafeDescription unicode "description",
    ⟨"status", isEnum ["Pending", "Approved", "Declined"]⟩,
    ⟨"occurred_at", matchesRegex timestamps.isISO8601⟩]

def properties : List String :=
  ["transaction_id", "payment_reference", "type", "wallet_reference", "user_reference",
    "amount", "currency", "description", "status", "occurred_at"]

def read (entries : JsonObject) : Option RecordTransactionRequest := do
  let transactionId ← (entries.lookup "transaction_id").bind Json.str?
  let paymentReference ← (entries.lookup "payment_reference").bind Json.str?
  let type ← ((entries.lookup "type").bind Json.str?).bind TransactionType.ofText
  let walletReference ← (entries.lookup "wallet_reference").bind Json.str?
  let userReference ← (entries.lookup "user_reference").bind Json.str?
  let amount ← (entries.lookup "amount").bind Json.int?
  let currency ← ((entries.lookup "currency").bind Json.str?).bind Currency.ofText
  let description ← (entries.lookup "description").bind Json.str?
  let status ← ((entries.lookup "status").bind Json.str?).bind TransactionStatus.ofText
  let occurredAt ← (entries.lookup "occurred_at").bind Json.str?
  return {
    transactionId, paymentReference, type, walletReference, userReference, amount, currency,
    description, status, occurredAt }

structure Valid (request : RecordTransactionRequest) : Prop where
  transactionId : transactionIdRegex request.transactionId = true
  paymentReference : referencePattern .PAYMENT request.paymentReference = true
  walletReference : referencePattern .WALLET request.walletReference = true
  userReference : referencePattern .USER request.userReference = true
  amount : isValidAmount (.num request.amount) = true
  description_length : request.description.toList.length ≤ descriptionMaxLength
  occurredAt : timestamps.isISO8601 request.occurredAt = true

/-- The entries of an object that say what a request says. -/
structure Says (entries : JsonObject) (request : RecordTransactionRequest) : Prop where
  transactionId : entries.lookup "transaction_id" = some (.str request.transactionId)
  paymentReference : entries.lookup "payment_reference" = some (.str request.paymentReference)
  type : entries.lookup "type" = some (.str request.type.text)
  walletReference : entries.lookup "wallet_reference" = some (.str request.walletReference)
  userReference : entries.lookup "user_reference" = some (.str request.userReference)
  amount : entries.lookup "amount" = some (.num request.amount)
  currency : entries.lookup "currency" = some (.str request.currency.code)
  description : entries.lookup "description" = some (.str request.description)
  status : entries.lookup "status" = some (.str request.status.text)
  occurredAt : entries.lookup "occurred_at" = some (.str request.occurredAt)

variable {unicode timestamps}

theorem isType_accepts {value : Option Json} :
    isEnum ["DEBIT", "CREDIT", "REFUND"] value = true ↔
      ∃ type : TransactionType, value = some (.str type.text) := by
  rw [isEnum_accepts]
  constructor
  · rintro ⟨text, htext, rfl⟩
    simp only [List.mem_cons, List.not_mem_nil, or_false] at htext
    rcases htext with rfl | rfl | rfl
    · exact ⟨.DEBIT, rfl⟩
    · exact ⟨.CREDIT, rfl⟩
    · exact ⟨.REFUND, rfl⟩
  · rintro ⟨type, rfl⟩
    exact ⟨type.text, by cases type <;> simp [TransactionType.text], rfl⟩

theorem isStatus_accepts {value : Option Json} :
    isEnum ["Pending", "Approved", "Declined"] value = true ↔
      ∃ status : TransactionStatus, value = some (.str status.text) := by
  rw [isEnum_accepts]
  constructor
  · rintro ⟨text, htext, rfl⟩
    simp only [List.mem_cons, List.not_mem_nil, or_false] at htext
    rcases htext with rfl | rfl | rfl
    · exact ⟨.PENDING, rfl⟩
    · exact ⟨.APPROVED, rfl⟩
    · exact ⟨.DECLINED, rfl⟩
  · rintro ⟨status, rfl⟩
    exact ⟨status.text, by cases status <;> simp [TransactionStatus.text], rfl⟩

theorem isISO8601_accepts {value : Option Json} :
    matchesRegex timestamps.isISO8601 value = true ↔
      ∃ text, value = some (.str text) ∧ timestamps.isISO8601 text = true := by
  rcases value with _ | (_ | _ | _ | text | _ | _) <;> simp [matchesRegex]

theorem read_of_says {entries : JsonObject} {request : RecordTransactionRequest}
    (h : Says entries request) : read entries = some request := by
  obtain ⟨transactionId, paymentReference, type, walletReference, userReference, amount, currency,
    description, status, occurredAt⟩ := request
  obtain ⟨h₁, h₂, h₃, h₄, h₅, h₆, h₇, h₈, h₉, h₁₀⟩ := h
  have htype : TransactionType.ofText type.text = some type := by cases type <;> decide
  have hcurrency : Currency.ofText currency.code = some currency := by cases currency; decide
  have hstatus : TransactionStatus.ofText status.text = some status := by cases status <;> decide
  simp only at h₁ h₂ h₃ h₄ h₅ h₆ h₇ h₈ h₉ h₁₀
  simp [read, h₁, h₂, h₃, h₄, h₅, h₆, h₇, h₈, h₉, h₁₀, Json.str?, htype, hcurrency, hstatus]

theorem says_of_valid {entries : JsonObject}
    (h : invalidProperties (rules unicode timestamps) entries = []) :
    ∃ request, Says entries request ∧ Valid timestamps request := by
  rw [invalidProperties_eq_nil_iff] at h
  simp only [rules, List.forall_mem_cons, List.not_mem_nil, false_implies, implies_true,
    and_true, Rule.property_isTransactionId, Rule.property_isReference, Rule.property_isAmount,
    Rule.property_isCurrency, Rule.property_isSafeDescription] at h
  obtain ⟨htransactionId, hpayment, htype, hwallet, huser, hamount, hcurrency, hdescription,
    hstatus, hoccurredAt⟩ := h
  obtain ⟨transactionId, htransactionId, hid⟩ := isTransactionId_accepts.mp htransactionId
  obtain ⟨payment, hpayment, hpaymentPattern⟩ := isReference_accepts.mp hpayment
  obtain ⟨type, htype⟩ := isType_accepts.mp htype
  obtain ⟨wallet, hwallet, hwalletPattern⟩ := isReference_accepts.mp hwallet
  obtain ⟨user, huser, huserPattern⟩ := isReference_accepts.mp huser
  obtain ⟨amount, hamount, hvalid⟩ := isAmount_accepts.mp hamount
  obtain ⟨description, hdescription, -, hlength, -⟩ := isSafeDescription_accepts.mp hdescription
  obtain ⟨status, hstatus⟩ := isStatus_accepts.mp hstatus
  obtain ⟨occurredAt, hoccurredAt, hiso⟩ := isISO8601_accepts.mp hoccurredAt
  exact ⟨⟨transactionId, payment, type, wallet, user, amount, .XOF, description, status,
      occurredAt⟩,
    ⟨htransactionId, hpayment, htype, hwallet, huser, hamount, isCurrency_accepts.mp hcurrency,
      hdescription, hstatus, hoccurredAt⟩,
    ⟨hid, hpaymentPattern, hwalletPattern, huserPattern, hvalid, hlength, hiso⟩⟩

end RecordTransactionRequest

end Transactions

end Paynad
