import Paynad.Accounts.Protocol.UndisturbedCalls

/-!
# Money in multiples of the step

The amount of a movement is a multiple of `AMOUNT_STEP`; the opening balance of a wallet
is only bounded. Where it is a multiple as well, and no movement takes a balance to an
integer that a number does not represent, all money is in multiples of the step, and a
wallet can be emptied by debits.
-/

namespace Paynad

namespace Accounts

open Shared Transition

/-- Every balance, and all that an entry records, is a multiple of the step. -/
structure InSteps (s : State) : Prop where
  wallets : ∀ wallet ∈ s.wallets, amountStep ∣ wallet.balance
  entries : ∀ entry ∈ s.entries, amountStep ∣ entry.amount ∧
    amountStep ∣ entry.balanceBefore ∧ amountStep ∣ entry.balanceAfter

/-- An opening balance is a multiple of the step, and the balance that an UPDATE leaves is
converted exactly. -/
def Stepped (s : State) : Event → Prop
  | .create _ _ _ request => amountStep ∣ request.initialBalance.getD 0
  | .resume c _ => ∀ call row, Meets s c call row →
      number (row.balance + call.delta) = row.balance + call.delta
  | _ => True

def Stepwise (balance : ℤ) : Prop := number balance = balance ∧ amountStep ∣ balance

variable {s t : State} {e : Event} {es : List Event} {wallet : Wallet} {n : ℕ}

theorem amountStep_dvd_amount (request : BalanceOperationRequest) :
    amountStep ∣ request.amount :=
  Int.dvd_of_emod_eq_zero (isValidAmount_int.mp request.amount_valid).2.2

theorem amountStep_dvd_delta (call : Call) : amountStep ∣ call.delta := by
  rw [Call.delta, delta]
  split_ifs
  · exact amountStep_dvd_amount call.request
  · exact (Int.dvd_neg).mpr (amountStep_dvd_amount call.request)

theorem admits_stepwise (h : Everywhere Stepwise s) (hstepped : Stepped s e) :
    Admits Stepwise s e := by
  cases e with
  | create session id reference request =>
      obtain ⟨hnonneg, hmax⟩ := initialBalance_bounds request
      exact ⟨number_of_le_amountMax hnonneg hmax, hstepped⟩
  | resume c trx =>
      intro call row hmeets
      obtain ⟨wallet, -, -, hrow, -⟩ := id hmeets
      obtain ⟨⟨-, hbalance⟩, -⟩ := h.wallets row (Table.mem_of_find hrow)
      exact ⟨hstepped call row hmeets, Int.dvd_add hbalance (amountStep_dvd_delta call)⟩
  | _ => trivial

theorem Everywhere.inSteps (hsound : Sound s) (h : Everywhere Stepwise s) : InSteps s where
  wallets wallet hwallet := (h.wallets wallet hwallet).1.2
  entries entry he := by
    obtain ⟨hbefore, hafter, -⟩ := h.entries entry he
    have hdelta : amountStep ∣ entry.delta := by
      have hsum := (hsound.books.balanced entry he).after
      rw [hsum] at hafter
      exact (Int.dvd_add_right hbefore.2).mp hafter.2
    refine ⟨?_, hbefore.2, hafter.2⟩
    rw [LedgerEntry.delta] at hdelta
    split_ifs at hdelta
    · exact hdelta
    · exact Int.dvd_neg.mp hdelta

/-! ## Emptying a wallet -/

/-- The events of debits that follow each other; `trx` is what is drawn for each. -/
def debits (reference : String) (trx : ℕ → String)
    (requests : List (ℕ × BalanceOperationRequest)) : List Event :=
  requests.flatMap fun request => movement request.1 reference request.2 (trx request.1) .DEBIT

def largestAmount (balance : ℤ) : ℤ := min balance amountMax

theorem largestAmount_valid {balance : ℤ} (hpos : 0 < balance) (h : amountStep ∣ balance) :
    isValidAmount (.num (largestAmount balance)) = true := by
  refine isValidAmount_int.mpr ?_
  simp only [largestAmount, amountStep, amountMax] at h ⊢
  omega

def largestDebit (wallet : Wallet) (n : ℕ)
    (h : isValidAmount (.num (largestAmount wallet.balance)) = true) :
    BalanceOperationRequest where
  transactionId := movementKey n
  amount := largestAmount wallet.balance
  currency := wallet.currency
  description := "Retrait"
  paymentReference := none
  amount_valid := h

/-- A wallet that is not held is emptied by debits of the largest amounts, one after the
other: what each leaves is again a multiple of the step. -/
theorem exists_emptying (trx : ℕ → String) (h : Idle s wallet n)
    (hactive : wallet.status = .ACTIVE) (hreserved : wallet.reservedAmount = 0)
    (hnonneg : 0 ≤ wallet.balance) (hstep : amountStep ∣ wallet.balance) :
    ∃ requests t, run Numbers.step s (debits wallet.reference trx requests) = some t ∧
      t.row wallet.id = some { wallet with balance := 0 } := by
  -- On the balance, which every debit makes smaller.
  induction hk : wallet.balance.toNat using Nat.strong_induction_on
    generalizing s wallet n with
  | _ k ih =>
      rcases hnonneg.eq_or_lt with hzero | hpos
      · refine ⟨[], s, rfl, ?_⟩
        rw [h.row, hzero]
      · have hvalid := largestAmount_valid hpos hstep
        have hdelta : delta (largestDebit wallet n hvalid) .DEBIT =
            -largestAmount wallet.balance := rfl
        have hamount : 0 < largestAmount wallet.balance ∧
            largestAmount wallet.balance ≤ wallet.balance := by
          simp only [largestAmount, amountMax]
          omega
        have haccepts : wallet.accepts (delta (largestDebit wallet n hvalid) .DEBIT)
            wallet.currency = true := by
          simp [Wallet.accepts, hactive, hdelta, hreserved, hamount.2]
        obtain ⟨t, hrun, hidle, -⟩ := run_movement (trx n) h (.inr rfl) rfl haccepts
        rw [hdelta] at hidle
        have hrest : (wallet.move (-largestAmount wallet.balance)).balance =
            wallet.balance - largestAmount wallet.balance := rfl
        have hdvd : amountStep ∣ largestAmount wallet.balance :=
          amountStep_dvd_amount (largestDebit wallet n hvalid)
        obtain ⟨requests, u, hrun', hrow⟩ := ih _ (by rw [hrest]; omega) hidle hactive hreserved
          (by rw [hrest]; omega) (by rw [hrest]; exact Int.dvd_sub hstep hdvd) rfl
        refine ⟨(n, largestDebit wallet n hvalid) :: requests, u, ?_, hrow⟩
        rw [debits, List.flatMap_cons, run_append, hrun]
        exact hrun'

/-- In a run whose opening balances are multiples of the step and whose balances are
converted exactly, all money is in multiples of the step, and an active wallet whose row
is not held can be emptied by debits, whatever references are drawn for them. -/
theorem balances_in_steps (h : RunsUnder Numbers.step Stepped init es s) :
    InSteps s ∧ ∀ wallet ∈ s.wallets, wallet.status = .ACTIVE → s.locks wallet.id = none →
      ∀ trx : ℕ → String, ∃ requests t,
        run Numbers.step s (debits wallet.reference trx requests) = some t ∧
          t.row wallet.id = some { wallet with balance := 0 } := by
  obtain ⟨-, ⟨hsound, heverywhere⟩, hrun⟩ := numbers_run
    (fun _ hvalue => hvalue.1) ⟨by decide, Int.dvd_zero _⟩ (fun _ _ => admits_stepwise) h
  refine ⟨heverywhere.inSteps hsound, fun wallet hwallet hactive hunlocked trx => ?_⟩
  obtain ⟨n, hidle⟩ := exists_idle ⟨es, hrun⟩ hwallet hunlocked
  obtain ⟨⟨-, hstep⟩, hreserved⟩ := heverywhere.wallets wallet hwallet
  have havailable := hsound.books.available wallet hwallet
  exact exists_emptying trx hidle hactive hreserved (by omega) hstep

theorem balances_in_steps_openRun :
    ∃ s, RunsUnder Numbers.step Stepped init openRun s ∧ InSteps s ∧
      ∀ wallet ∈ s.wallets, wallet.status = .ACTIVE → s.locks wallet.id = none →
        ∃ requests t, run Numbers.step s (debits wallet.reference Nat.repr requests) = some t ∧
          t.row wallet.id = some { wallet with balance := 0 } := by
  have hrun : ∃ s, run Numbers.step init openRun = some s := ⟨_, rfl⟩
  obtain ⟨s, hrun⟩ := hrun
  have hunder : RunsUnder Numbers.step Stepped init openRun s := by
    refine runsUnder_of_forall hrun fun t e he => ?_
    simp only [openRun, List.mem_cons, List.not_mem_nil, or_false] at he
    rcases he with rfl | rfl | rfl
    · exact Int.dvd_of_emod_eq_zero rfl
    · trivial
    · trivial
  obtain ⟨hsteps, hemptied⟩ := balances_in_steps hunder
  exact ⟨s, hunder, hsteps, fun wallet hwallet hactive hunlocked =>
    hemptied wallet hwallet hactive hunlocked Nat.repr⟩

def oddOpening : CreateWalletRequest where
  currency := "XOF"
  initialBalance := some 7
  initialBalance_valid balance hbalance := by
    obtain rfl := Option.some.inj hbalance
    decide

def oddRun : List Event :=
  [.create 0 "w1" "wlt_1" oddOpening, .resumeCreate 0 "trx_0", .resumeCreate 0 ""]

theorem oddRun_not_inSteps :
    ∃ s, run Numbers.step init oddRun = some s ∧ ¬ InSteps s ∧
      s.wallets.map Wallet.balance = [7] ∧ s.entries.map LedgerEntry.amount = [7] := by
  refine ⟨_, rfl, fun h => ?_, rfl, rfl⟩
  have hdvd : amountStep ∣ 7 := h.wallets _ (List.mem_singleton_self _)
  exact absurd hdvd (by decide)

end Accounts

end Paynad
