import Paynad.Accounts.Wallets.WalletsService
import Paynad.Library.Rounding
import Mathlib.Algebra.Order.Group.Unbundled.Int

/-!
# The numbers of the accounts service

The balances are `bigint` columns: the database adds and compares them exactly. The
driver hands them over as text, which the service converts to a JavaScript number
before it computes with them. `Numbers.step` is the step of the service with these
conversions in their places, where `step` computes with integers.
-/

namespace Paynad

namespace Accounts

open Shared

def number (value : ℤ) : ℤ := Rounding.round 53 value

def maxSafeInteger : ℤ := 2 ^ 53 - 1

def Wallet.read (wallet : Wallet) : Wallet :=
  { wallet with
    balance := number wallet.balance
    reservedAmount := number wallet.reservedAmount }

def LedgerEntry.read (entry : LedgerEntry) : LedgerEntry :=
  { entry with
    amount := number entry.amount
    balanceBefore := number entry.balanceBefore
    balanceAfter := number entry.balanceAfter }

/-- The entry that `applyInTransaction` appends: `move` returns the number of the balance
it has written, and the balance before is a difference of two numbers. -/
def Call.append (call : Call) (version : Wallet) (trx : String) : LedgerEntry :=
  { call.entry version trx with
    balanceBefore := number (number version.balance - call.delta)
    balanceAfter := number version.balance }

namespace Numbers

def resume (s : State) (c : ℕ) (call : Call) (trx : String) : Option State :=
  match call.stage with
  | .reading =>
      match s.findByReference call.reference with
      | none => some (s.goTo c call (.settling (.error (.walletNotFound call.reference))))
      | some wallet => some (s.goTo c call (.looking wallet.read))
  | .looking wallet =>
      match s.findByIdempotencyKey wallet.id call.request.transactionId with
      | some replayed =>
          some (s.goTo c call (.settling (replay replayed.read call.request call.type)))
      | none => some (s.goTo c call (.checking wallet))
  | .rereading wallet =>
      let current := (s.findByReference wallet.reference).map Wallet.read
      some (s.goTo c call (.declining (call.refusal wallet current)))
  | .appending version =>
      match s.findByIdempotencyKey version.id call.request.transactionId with
      | some _ => some (s.goTo c call (.violating version.id))
      | none => some (s.goTo c call (.committing version (call.append version trx)))
  | .relooking walletId =>
      match s.findByIdempotencyKey walletId call.request.transactionId with
      | some original =>
          some (s.goTo c call (.settling (replay original.read call.request call.type)))
      -- The driver's error is thrown again.
      | none => some (s.goTo c call .aborted)
  -- The other awaits convert nothing.
  | _ => Accounts.resume s c call trx

def step (s : State) : Event → Option State
  | .resume c trx => (s.calls c).bind fun call => resume s c call trx
  | e => Accounts.step s e

end Numbers

variable {wallet version : Wallet} {entry : LedgerEntry} {call : Call} {trx : String}

theorem number_of_safe {value : ℤ} (h : |value| ≤ maxSafeInteger) : number value = value := by
  refine Rounding.round_of_natAbs_lt ?_
  have habs : (value.natAbs : ℤ) ≤ 2 ^ 53 - 1 := Int.abs_eq_natAbs value ▸ h
  omega

theorem number_of_le_amountMax {value : ℤ} (hnonneg : 0 ≤ value) (h : value ≤ amountMax) :
    number value = value := by
  refine number_of_safe ?_
  rw [abs_of_nonneg hnonneg]
  exact h.trans (by decide)

theorem Wallet.read_eq (hbalance : number wallet.balance = wallet.balance)
    (hreserved : wallet.reservedAmount = 0) : wallet.read = wallet := by
  have hzero : number 0 = 0 := by decide
  rw [Wallet.read, hbalance, hreserved, hzero, ← hreserved]

theorem LedgerEntry.read_eq (hamount : number entry.amount = entry.amount)
    (hbefore : number entry.balanceBefore = entry.balanceBefore)
    (hafter : number entry.balanceAfter = entry.balanceAfter) : entry.read = entry := by
  rw [LedgerEntry.read, hamount, hbefore, hafter]

theorem Call.append_eq (hafter : number version.balance = version.balance)
    (hbefore : number (version.balance - call.delta) = version.balance - call.delta) :
    call.append version trx = call.entry version trx := by
  rw [Call.append, hafter, hbefore]
  rfl

end Accounts

end Paynad
