import Paynad.Accounts.Protocol.UndisturbedCalls

/-!
# Balances that a number represents

The amount of a movement has a bound and the balance has none: enough credits take it
past `Number.MAX_SAFE_INTEGER`, where the number the service reads is not the integer
the database has. Up to there every conversion is exact, and the service records what
it would record with integers. A run stays there exactly when each of its credits meets
a row that still has room for its amount.
-/

namespace Paynad

namespace Accounts

open Shared Transition

/-- The balances, stored, recorded or about to be committed, are safe integers. -/
structure Bounded (s : State) : Prop where
  wallets : ∀ wallet ∈ s.wallets, |wallet.balance| ≤ maxSafeInteger
  entries : ∀ entry ∈ s.entries,
    |entry.balanceBefore| ≤ maxSafeInteger ∧ |entry.balanceAfter| ≤ maxSafeInteger
  versions : ∀ c call version, s.calls c = some call →
    call.stage.version = some version → |version.balance| ≤ maxSafeInteger

/-- A credit whose UPDATE is next meets a row with room for its amount. -/
def Fits (s : State) : Event → Prop
  | .resume c _ => ∀ call row, Meets s c call row → call.type = .CREDIT →
      row.balance + call.request.amount ≤ maxSafeInteger
  | _ => True

def Safe (balance : ℤ) : Prop := 0 ≤ balance ∧ balance ≤ maxSafeInteger

variable {s t : State} {e : Event} {es : List Event} {balance : ℤ}

theorem Safe.abs_le (h : Safe balance) : |balance| ≤ maxSafeInteger := by
  rw [abs_of_nonneg h.1]
  exact h.2

theorem Safe.number_eq (h : Safe balance) : number balance = balance := number_of_safe h.abs_le

theorem Safe.of_le_amountMax (h : 0 ≤ balance ∧ balance ≤ amountMax) : Safe balance :=
  ⟨h.1, h.2.trans (by decide)⟩

/-! ## Runs whose credits fit -/

/-- A debit is taken from what is there, and a credit fits. -/
theorem admits_safe (h : Everywhere Safe s) (hfits : Fits s e) : Admits Safe s e := by
  cases e with
  | create session id reference request => exact .of_le_amountMax (initialBalance_bounds request)
  | resume c trx =>
      intro call row hmeets
      obtain ⟨-, hamount⟩ := amount_bounds call.request
      have hnonneg := (amount_bounds call.request).1
      obtain ⟨wallet, -, -, hrow, haccepts⟩ := id hmeets
      obtain ⟨⟨hbalance, hmax⟩, hreserved⟩ := h.wallets row (Table.mem_of_find hrow)
      by_cases htype : call.type = .CREDIT
      · have hdelta : call.delta = call.request.amount := if_pos htype
        have hroom := hfits call row hmeets htype
        rw [hdelta]
        exact ⟨by omega, hroom⟩
      · have hdelta : call.delta = -call.request.amount := if_neg htype
        have havailable := Wallet.available_move (by omega) haccepts
        simp only [Wallet.move, hreserved] at havailable
        exact ⟨by omega, by omega⟩
  | _ => trivial

theorem Everywhere.bounded (h : Everywhere Safe s) : Bounded s where
  wallets wallet hwallet := (h.wallets wallet hwallet).1.abs_le
  entries entry he := by
    obtain ⟨hbefore, hafter, -⟩ := h.entries entry he
    exact ⟨hbefore.abs_le, hafter.abs_le⟩
  versions c call version hcall hversion := (h.versions c call version hcall hversion).abs_le

/-! ## Runs that stay within the bound -/

theorem fits_of_bounded (hstep : Numbers.step s e = some t) (h : Bounded t) : Fits s e := by
  cases e with
  | resume c trx =>
      rintro call row ⟨wallet, hcall, hstage, hrow, haccepts⟩ htype
      obtain ⟨call', hcall', hresume⟩ := Option.bind_eq_some_iff.mp hstep
      obtain rfl : call = call' := Option.some.inj (hcall.symm.trans hcall')
      simp only [Numbers.resume, resume, hstage, update, hrow, haccepts, if_true] at hresume
      split_ifs at hresume
      obtain rfl := Option.some.inj hresume
      have hversion := h.versions c _ (row.move call.delta) goTo_calls_self rfl
      have hdelta : call.delta = call.request.amount := if_pos htype
      rw [Wallet.move, hdelta] at hversion
      exact (le_abs_self _).trans hversion
  | _ => trivial

def HasRoom (s : State) : Prop :=
  ∀ wallet ∈ s.wallets, wallet.balance + amountMax ≤ maxSafeInteger

instance (s : State) : Decidable (HasRoom s) :=
  inferInstanceAs (Decidable (∀ wallet ∈ s.wallets, _))

theorem HasRoom.fits (h : HasRoom s) : Fits s e := by
  cases e with
  | resume c trx =>
      rintro call row ⟨wallet, -, -, hrow, -⟩ -
      have hroom := h row (Table.mem_of_find hrow)
      have hamount := (amount_bounds call.request).2
      omega
  | _ => trivial

/-- All along a run the balances are safe integers and are converted exactly, and the run
records what it would record with integers, if and only if every credit meets a row with
room for its amount. -/
theorem balances_exact_iff (h : run Numbers.step init es = some s) :
    ((∀ t ∈ trace Numbers.step init es, Bounded t ∧ Exact t) ∧ run step init es = some s) ↔
      RunsUnder Numbers.step Fits init es s := by
  constructor
  · rintro ⟨hall, -⟩
    exact runsUnder_of_forall_trace (fun _ _ _ hstep _ ht => fits_of_bounded hstep ht.1) h hall
  · intro hunder
    obtain ⟨hall, -, hrun⟩ := numbers_run (fun _ => Safe.number_eq)
      ⟨le_rfl, by decide⟩ (fun _ _ => admits_safe) hunder
    refine ⟨fun t ht => ?_, hrun⟩
    obtain ⟨hsound, hsafe⟩ := hall t ht
    exact ⟨hsafe.bounded, hsafe.exact (fun _ => Safe.number_eq) hsound⟩

/-- The wallet of `openRun` is credited, and debited of as much. -/
def creditedRun : List Event :=
  openRun ++ movement 0 "wlt_1" sampleRequest "trx_1" .CREDIT ++
    movement 1 "wlt_1" { sampleRequest with transactionId := "pay_0002" } "trx_2" .DEBIT

theorem balances_exact_iff_creditedRun :
    ∃ s, run Numbers.step init creditedRun = some s ∧ run step init creditedRun = some s ∧
      s.entries.map (fun entry => (entry.balanceBefore, entry.balanceAfter)) =
        [(0, 150), (150, 250), (250, 150)] ∧
      ∀ t ∈ trace Numbers.step init creditedRun, Bounded t ∧ Exact t := by
  have h : (run (guarded Numbers.step fun s _ => HasRoom s) init creditedRun).map (fun s =>
      s.entries.map fun entry => (entry.balanceBefore, entry.balanceAfter)) =
      some [(0, 150), (150, 250), (250, 150)] := by
    decide +kernel
  obtain ⟨s, hguarded, hentries⟩ := Option.map_eq_some_iff.mp h
  have hunder : RunsUnder Numbers.step Fits init creditedRun s :=
    runsUnder_of_guarded (fun _ _ hroom => hroom.fits) hguarded
  obtain ⟨hall, hexact⟩ := (balances_exact_iff hunder.run_eq_some).mpr hunder
  exact ⟨s, hunder.run_eq_some, hexact, hentries, hall⟩

/-! ## Enough credits -/

def largestOpening : CreateWalletRequest where
  currency := "XOF"
  initialBalance := some amountMax
  initialBalance_valid balance hbalance := by
    obtain rfl := Option.some.inj hbalance
    decide

theorem amountMax_valid : isValidAmount (.num amountMax) = true :=
  isValidAmount_int.mpr (by decide)

def operation (c : ℕ) (amount : ℤ) (h : isValidAmount (.num amount) = true) :
    BalanceOperationRequest where
  transactionId := movementKey c
  amount := amount
  currency := "XOF"
  description := "Paiement"
  paymentReference := none
  amount_valid := h

def credit (c : ℕ) (amount : ℤ) (h : isValidAmount (.num amount) = true) : List Event :=
  movement c "wlt_1" (operation c amount h) ("trx_" ++ (c + 1).repr) .CREDIT

/-- A wallet is opened with the largest amount, and credited `n` times with it. -/
def richRun (n : ℕ) : List Event :=
  [.create 0 "w1" "wlt_1" largestOpening, .resumeCreate 0 "trx_0", .resumeCreate 0 ""] ++
    (List.range n).flatMap fun c => credit c amountMax amountMax_valid

def richWallet (balance : ℤ) : Wallet := ⟨"w1", "wlt_1", "XOF", balance, 0, .ACTIVE⟩

/-- A credit is accepted whatever the balance. -/
theorem run_credit {n : ℕ} {amount : ℤ} {h : isValidAmount (.num amount) = true}
    (hidle : Idle s (richWallet balance) n) :
    ∃ t, run Numbers.step s (credit n amount h) = some t ∧
      Idle t (richWallet (balance + amount)) (n + 1) ∧
      ∃ entry ∈ t.entries, entry.walletId = "w1" ∧ entry.transactionId = movementKey n ∧
        entry.balanceAfter = number (balance + amount) := by
  have haccepts : (richWallet balance).accepts (delta (operation n amount h) .CREDIT) "XOF" =
      true := by
    have hnonneg : 0 ≤ amount := (amount_bounds (operation n amount h)).1
    have hdelta : delta (operation n amount h) .CREDIT = amount := rfl
    simp [Wallet.accepts, richWallet, hdelta, hnonneg]
  obtain ⟨t, hrun, hidle', hentries⟩ := run_movement _ hidle (.inl rfl) rfl haccepts
  refine ⟨t, hrun, hidle', Call.append ⟨"wlt_1", operation n amount h, .CREDIT, .reading⟩
    ((richWallet balance).move (delta (operation n amount h) .CREDIT))
    ("trx_" ++ (n + 1).repr), ?_, rfl, rfl, rfl⟩
  rw [hentries]
  exact List.mem_append_right _ (List.mem_singleton_self _)

theorem run_richRun (n : ℕ) :
    ∃ s, run Numbers.step init (richRun n) = some s ∧
      Idle s (richWallet (amountMax + n * amountMax)) n := by
  induction n with
  | zero =>
      refine ⟨_, rfl, rfl, rfl, rfl, fun _ _ => rfl, fun c _ => ?_⟩
      refine Table.find_eq_none_iff.mpr fun entry he heq => ?_
      obtain rfl := List.mem_singleton.mp he
      have hkey := congrArg (fun key : String × String => key.2.toList.head?) heq
      simp [LedgerEntry.key, openingEntry, movementKey] at hkey
  | succ n ih =>
      obtain ⟨s, hrun, hidle⟩ := ih
      obtain ⟨t, hrun', hidle', -⟩ := run_credit hidle
      refine ⟨t, ?_, ?_⟩
      · rw [richRun, List.range_succ, List.flatMap_append, ← List.append_assoc, run_append]
        rw [← richRun, hrun, Option.bind_some, List.flatMap_singleton]
        exact hrun'
      · rw [add_assoc] at hidle'
        rw [Int.natCast_succ, Int.add_mul, Int.one_mul]
        exact hidle'

/-- Nine thousand credits and one of the smallest amount: the balance is past the safe
integers, and the ledger records another one. -/
theorem richRun_not_bounded :
    ∃ s, run Numbers.step init
        (richRun 9007 ++ credit 9007 5 (isValidAmount_int.mpr (by decide))) = some s ∧
      ¬ Bounded s ∧ ∃ wallet ∈ s.wallets, ∃ entry ∈ s.entries,
        entry.walletId = wallet.id ∧ entry.transactionId = movementKey 9007 ∧
        wallet.balance = 9008000000000005 ∧ entry.balanceAfter = 9008000000000004 := by
  obtain ⟨s, hrun, hidle⟩ := run_richRun 9007
  obtain ⟨t, hrun', hidle', entry, he, hwallet, hkey, hafter⟩ := run_credit hidle
  have hbalance : amountMax + (9007 : ℕ) * amountMax + 5 = 9008000000000005 := by decide
  rw [hbalance] at hidle' hafter
  have hmem := Table.mem_of_find hidle'.row
  refine ⟨t, ?_, fun hbounded => ?_, _, hmem, entry, he, hwallet, hkey, rfl, ?_⟩
  · rw [run_append, hrun]
    exact hrun'
  · exact absurd (hbounded.wallets _ hmem) (by decide)
  · rw [hafter]
    decide +kernel

end Accounts

end Paynad
