import Paynad.Accounts.Wallets.WalletsController
import Paynad.Accounts.Wallets.WalletsService
import Paynad.Payments.Protocol.Classification
import Paynad.Payments.Protocol.Workers

/-!
# What `accounts` answers and what `payments` reads

The two services share an HTTP contract and no code for it: `accounts` writes envelopes,
through its controller and its exception filter, and the client of `payments` reads
them back. Every end of a movement is read for what it is, and so is every look up.
-/

namespace Paynad

namespace Accounts

open Shared

def DeclinedReason.text : DeclinedReason → String
  | .INSUFFICIENT_BALANCE => "INSUFFICIENT_BALANCE"
  | .WALLET_FROZEN => "WALLET_FROZEN"
  | .CURRENCY_MISMATCH => "CURRENCY_MISMATCH"

def OperationStatus.text : OperationStatus → String
  | .APPROVED => "Approved"
  | .DECLINED => "Declined"

def BalanceOperationResponse.json (response : BalanceOperationResponse) : Json :=
  .obj
    [("transaction_id", .str response.transactionId),
      ("reference", (response.reference.map Json.str).getD .null),
      ("amount", .num response.amount),
      ("currency", .str response.currency),
      ("balance_before", .num response.balanceBefore),
      ("balance_after", .num response.balanceAfter),
      ("status", .str response.status.text),
      ("declined_reason",
        (response.declinedReason.map fun reason => .str reason.text).getD .null)]

def AppException.exception : AppException → Exception
  | .walletNotFound reference =>
      .app 404 "4003" "WALLET_NOT_FOUND" (.obj [("reference", .str reference)])
  | .walletFrozen payload => .app 422 "4004" "WALLET_FROZEN" payload.json
  | .currencyMismatch payload => .app 422 "4005" "CURRENCY_MISMATCH" payload.json
  | .insufficientBalance payload => .app 422 "4001" "INSUFFICIENT_BALANCE" payload.json
  | .idempotencyConflict transactionId reference recordedType recordedAmount recordedCurrency =>
      .app 409 "4007" "IDEMPOTENCY_CONFLICT"
        (.obj
          [("transaction_id", .str transactionId),
            ("reference", .str reference),
            ("recorded_type", .str recordedType.text),
            ("recorded_amount", .num recordedAmount),
            ("recorded_currency", .str recordedCurrency)])

def movementNotFound (reference transactionId : String) : Exception :=
  .app 404 "4008" "TRANSACTION_NOT_FOUND"
    (.obj [("reference", .str reference), ("transaction_id", .str transactionId)])

namespace WalletsController

/-- A payload under `@HttpCode(OK)`, once `ResponseInterceptor` has wrapped it. -/
def success (response : BalanceOperationResponse) : ℕ × ApiResponse :=
  (200, ⟨"200", "SUCCESS", response.json⟩)

/-- The status and the body that `credit` and `debit` end with. -/
def respond : Outcome → ℕ × ApiResponse
  | .ok response => success response
  | .error error => AllExceptionsFilter.describe error.exception

def movement (s : State) (reference transactionId : String) : ℕ × ApiResponse :=
  match s.findByReference reference with
  | none => AllExceptionsFilter.describe (AppException.walletNotFound reference).exception
  | some wallet =>
      match s.findByIdempotencyKey wallet.id transactionId with
      | none => AllExceptionsFilter.describe (movementNotFound reference transactionId)
      | some entry => success (.approved entry)

end WalletsController

end Accounts

namespace Payments

open Shared

def HttpOutcome.ofAnswer (answer : ℕ × ApiResponse) : HttpOutcome :=
  .response answer.1 answer.2.json

def ClientMovement.result (movement : ClientMovement) : MovementResult :=
  ⟨movement.transactionReference, (movement.balanceAfter.bind Json.int?).getD 0⟩

def Refusal.ofError : DomainError → Option Refusal
  | .insufficientBalance _ => some .insufficientBalance
  | .walletNotFound _ => some .walletNotFound
  | .walletFrozen _ => some .walletFrozen
  | .currencyMismatch _ => some .currencyMismatch
  | _ => none

@[simp] theorem Refusal.ofError_error (refusal : Refusal) (wallet : String) :
    Refusal.ofError (refusal.error wallet) = some refusal := by
  cases refusal <;> rfl

/-- What an attempt is for the loop of `send`: an answer that ends the call, or a failure
that may be worth another attempt. -/
inductive Reading where
  | answered (answer : Answer)
  | failed (retryable : Bool)

/-- How `send` and `movement` read an attempt; a refusal after an uncertain attempt is
not taken for an answer. -/
def readMovement (wallet : String) (uncertain : Bool) (outcome : HttpOutcome) : Reading :=
  match sendAttempt wallet outcome with
  | .ok payload =>
      match toMovementResult payload with
      | .ok movement => .answered (.moved movement.result)
      | .error _ => .answered .unavailable
  | .error (.domain error) =>
      match uncertain, Refusal.ofError error with
      | false, some refusal => .answered (.refused refusal)
      | _, _ => .answered .unavailable
  | .error error => .failed error.retryable

/-- How `read` and `findMovement` read an answer. -/
def readLookup (outcome : HttpOutcome) : Answer :=
  match readAttempt outcome with
  | .ok none => .found none
  | .ok (some payload) =>
      match toMovementResult payload with
      | .ok movement => .found (some movement.result)
      | .error _ => .lookupUnavailable
  | .error _ => .lookupUnavailable

end Payments

/-!
# Each side understands the other
-/

namespace Deployment

open Shared Payments
open Accounts (AppException BalanceOperationResponse LedgerEntry)
open Accounts.BalanceOperationResponse (approved_carries)

def refusalOf : AppException → Option Refusal
  | .walletNotFound _ => some .walletNotFound
  | .walletFrozen _ => some .walletFrozen
  | .currencyMismatch _ => some .currencyMismatch
  | .insufficientBalance _ => some .insufficientBalance
  | .idempotencyConflict _ _ _ _ _ => none

def movementResult (reference : Reference .trx) (entry : LedgerEntry) : MovementResult :=
  ⟨reference, entry.balanceAfter⟩

variable {entry : LedgerEntry} {reference : Reference .trx} {response : BalanceOperationResponse}

theorem toMovementResult_carries (h : response.Carries entry)
    (hreference : entry.reference = reference.value) :
    toMovementResult response.json = .ok ⟨reference, some (.num entry.balanceAfter)⟩ := by
  have hne : reference.value ≠ "" := by
    intro hempty
    have hlength := reference.length_toList
    rw [hempty] at hlength
    cases hlength
  simp [toMovementResult, BalanceOperationResponse.json, h.reference, h.balanceAfter,
    List.lookup_cons, truthy, hreference, hne]

theorem toMovementResult_malformed {error : MalformedValueError} (h : response.Carries entry)
    (hreference : Reference.of .trx entry.reference = .error error) :
    ∃ thrown, toMovementResult response.json = .error thrown := by
  by_cases hempty : entry.reference = "" <;>
    simp [toMovementResult, BalanceOperationResponse.json, h.reference, List.lookup_cons, truthy,
      hreference, hempty]

theorem sendAttempt_success (wallet : String) (response : BalanceOperationResponse) :
    sendAttempt wallet (.ofAnswer (Accounts.WalletsController.success response)) =
      .ok response.json := by
  simp [sendAttempt, HttpOutcome.ofAnswer, Accounts.WalletsController.success, asDomainError,
    payloadOf, envelopeData, ApiResponse.json, List.lookup_cons, truthy,
    BalanceOperationResponse.json]

theorem readAttempt_success (response : BalanceOperationResponse) :
    readAttempt (.ofAnswer (Accounts.WalletsController.success response)) =
      .ok (some response.json) := by
  simp [readAttempt, HttpOutcome.ofAnswer, Accounts.WalletsController.success, payloadOf,
    envelopeData, ApiResponse.json, List.lookup_cons, truthy, BalanceOperationResponse.json,
    Except.map]

/-- A refusal that `payments` has a word for is read for that word, an idempotency
conflict for a failure that no other attempt would mend. -/
theorem sendAttempt_refused (wallet : String) (error : AppException) :
    sendAttempt wallet (.ofAnswer (Accounts.WalletsController.respond (.error error))) =
      .error (match refusalOf error with
        | some refusal => .domain (refusal.error wallet)
        | none => .upstream 409 "IDEMPOTENCY_CONFLICT") := by
  cases error <;>
    simp [sendAttempt, HttpOutcome.ofAnswer, Accounts.WalletsController.respond,
      AppException.exception, AllExceptionsFilter.describe, asDomainError, envelopeName,
      envelopeMessage, ApiResponse.json, List.lookup_cons, Json.str?, Refusal.ofMessage,
      refusalOf, payloadOf, inheritedNames]

def learned (entry : LedgerEntry) : Option MovementResult :=
  match Reference.of .trx entry.reference with
  | .ok reference => some (movementResult reference entry)
  | .error _ => none

theorem learned_of_reference (hreference : entry.reference = reference.value) :
    learned entry = some (movementResult reference entry) := by
  rw [learned, hreference, Reference.of_value]

theorem readMovement_success (wallet : String) (uncertain : Bool) (entry : LedgerEntry) :
    readMovement wallet uncertain
        (.ofAnswer (Accounts.WalletsController.respond (.ok (.approved entry)))) =
      .answered (((learned entry).map Answer.moved).getD .unavailable) := by
  rw [Accounts.WalletsController.respond, readMovement, sendAttempt_success]
  cases hof : Reference.of .trx entry.reference with
  | ok reference =>
      have hreference := (Reference.value_of_ok hof).symm
      dsimp only
      rw [toMovementResult_carries (approved_carries entry) hreference,
        learned_of_reference hreference]
      simp [ClientMovement.result, movementResult]
  | error error =>
      obtain ⟨thrown, hthrown⟩ := toMovementResult_malformed (approved_carries entry) hof
      dsimp only
      rw [hthrown, learned, hof]
      rfl

/-- A refusal is an answer to a first attempt only. -/
theorem readMovement_refused (wallet : String) (uncertain : Bool) (error : AppException) :
    readMovement wallet uncertain
        (.ofAnswer (Accounts.WalletsController.respond (.error error))) =
      match refusalOf error with
      | some refusal => .answered (if uncertain then .unavailable else .refused refusal)
      | none => .failed false := by
  rw [readMovement, sendAttempt_refused]
  cases refusalOf error with
  | none => rfl
  | some refusal => cases uncertain <;> simp

def lookedUp (s : Accounts.State) (wallet key : String) : Option LedgerEntry :=
  (s.findByReference wallet).bind fun row => s.findByIdempotencyKey row.id key

theorem readLookup_movement (s : Accounts.State) (wallet key : String) :
    readLookup (.ofAnswer (Accounts.WalletsController.movement s wallet key)) =
      match lookedUp s wallet key with
      | none => .found none
      | some entry => ((learned entry).map fun m => .found (some m)).getD .lookupUnavailable := by
  unfold Accounts.WalletsController.movement lookedUp
  cases s.findByReference wallet with
  | none => rfl
  | some row =>
      dsimp only [Option.bind_some]
      cases s.findByIdempotencyKey row.id key with
      | none => rfl
      | some entry =>
          dsimp only
          rw [readLookup, readAttempt_success]
          cases hof : Reference.of .trx entry.reference with
          | ok reference =>
              have hreference := (Reference.value_of_ok hof).symm
              rw [learned_of_reference hreference]
              simp [toMovementResult_carries (approved_carries entry) hreference,
                ClientMovement.result, movementResult]
          | error error =>
              obtain ⟨thrown, hthrown⟩ := toMovementResult_malformed (approved_carries entry) hof
              simp [hthrown, learned, hof]

/-- Whatever a movement ends with, the client of `payments` reads it for what it is: a
success for the movement of its entry, a refusal for its reason unless an earlier attempt
is uncertain, an idempotency conflict for a failure that is final, a failure of the driver
for one that is worth another attempt; and a look up is read for the entry under its key,
or for its absence. -/
theorem contract (s : Accounts.State) (wallet key : String) (uncertain : Bool) :
    (∀ entry, readMovement wallet uncertain
        (.ofAnswer (Accounts.WalletsController.respond (.ok (.approved entry)))) =
      .answered (((learned entry).map Answer.moved).getD .unavailable)) ∧
    (∀ error, readMovement wallet uncertain
        (.ofAnswer (Accounts.WalletsController.respond (.error error))) =
      match refusalOf error with
      | some refusal => .answered (if uncertain then .unavailable else .refused refusal)
      | none => .failed false) ∧
    readMovement wallet uncertain (.ofAnswer (AllExceptionsFilter.describe .other)) =
      .failed true ∧
    readLookup (.ofAnswer (Accounts.WalletsController.movement s wallet key)) =
      match lookedUp s wallet key with
      | none => .found none
      | some entry => ((learned entry).map fun m => .found (some m)).getD .lookupUnavailable :=
  ⟨readMovement_success wallet uncertain, readMovement_refused wallet uncertain, rfl,
    readLookup_movement s wallet key⟩

end Deployment

end Paynad
