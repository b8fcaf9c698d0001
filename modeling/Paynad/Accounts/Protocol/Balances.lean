import Paynad.Accounts.Protocol.CachedSum
import Paynad.Accounts.Wallets.Numbers

/-!
# What holds of every balance

A balance enters the tables when a wallet is created and when the conditional UPDATE
of a movement goes through, and nowhere else: a predicate that the two keep
(`Admits`) holds of every balance, stored, recorded or about to be committed
(`Everywhere`). Where the conversions are exact on all of them, the service computes
what it would compute with integers.
-/

namespace Paynad

namespace Accounts

open Shared Transition

/-- A step brings in no balance but such that `P` holds of it. -/
def Admits (P : ℤ → Prop) (s : State) : Event → Prop
  | .create _ _ _ request => P (request.initialBalance.getD 0)
  | .resume c _ => ∀ call row, Meets s c call row → P (row.balance + call.delta)
  | _ => True

structure Everywhere (P : ℤ → Prop) (s : State) : Prop where
  wallets : ∀ wallet ∈ s.wallets, P wallet.balance ∧ wallet.reservedAmount = 0
  entries : ∀ entry ∈ s.entries, P entry.balanceBefore ∧ P entry.balanceAfter ∧
    0 ≤ entry.amount ∧ entry.amount ≤ amountMax
  creations : ∀ creation ∈ s.creations, P creation.wallet.balance ∧
    creation.wallet.balance ≤ amountMax
  versions : ∀ c call version, s.calls c = some call →
    call.stage.version = some version → P version.balance

variable {P : ℤ → Prop} {s t : State} {c : ℕ} {call : Call} {e : Event} {es : List Event}
  {trx session : String}

theorem everywhere_init (P : ℤ → Prop) : Everywhere P init where
  wallets := by simp [init]
  entries := by simp [init]
  creations := by simp [init]
  versions _ _ _ h := nomatch h

/-! ## The writes of a call -/

theorem versions_goTo {u : State} {stage : Stage} (h : Everywhere P s)
    (hcalls : u.calls = s.calls)
    (hstage : ∀ version, stage.version = some version → P version.balance) :
    ∀ c' call' version, (u.goTo c call stage).calls c' = some call' →
      call'.stage.version = some version → P version.balance := by
  intro c' call' version
  refine forall_goTo_calls (Q := fun _ call => call.stage.version = some version →
    P version.balance) (hstage version) (fun c' call' _ hcall' => ?_) c' call'
  rw [hcalls] at hcall'
  exact h.versions c' call' version hcall'

theorem Everywhere.abstain {u : State} {stage : Stage} (h : Everywhere P s)
    (hcall : s.calls c = some call) (hu : Abstains s c call stage u)
    (hadmits : ∀ row, Meets s c call row → P (row.balance + call.delta)) :
    Everywhere P (u.goTo c call stage) := by
  refine ⟨?_, ?_, ?_, versions_goTo h hu.calls fun version hversion => ?_⟩
  · exact fun wallet hwallet => h.wallets wallet (hu.wallets ▸ hwallet)
  · exact fun entry he => h.entries entry (hu.entries ▸ he)
  · exact fun creation hcreation => h.creations creation (hu.creations ▸ hcreation)
  · rcases hu.version version hversion with hold | ⟨row, hmeets, rfl⟩
    · exact h.versions c call version hcall hold
    · exact hadmits row hmeets

theorem amount_bounds (request : BalanceOperationRequest) :
    0 ≤ request.amount ∧ request.amount ≤ amountMax := by
  obtain ⟨hmin, hmax, -⟩ := isValidAmount_int.mp request.amount_valid
  exact ⟨by omega, hmax⟩

theorem Everywhere.commit {version : Wallet} {entry : LedgerEntry} (h : Everywhere P s)
    (hcall : s.calls c = some call) (hstage : call.stage = .committing version entry)
    (hstanding : Standing s c call (.committing version entry)) :
    Everywhere P (((s.commit version entry).unlock c).goTo c call
      (.settling (.ok (.approved entry)))) := by
  obtain ⟨⟨row, hrow, -, -, hversion, -⟩, ⟨trx, rfl⟩, -⟩ := hstanding
  obtain ⟨hbalance, hreserved⟩ := h.wallets row (Table.mem_of_find hrow)
  have hnew : P version.balance := h.versions c call version hcall (by rw [hstage]; rfl)
  refine ⟨?_, ?_, h.creations, versions_goTo h rfl fun _ hnone => nomatch hnone⟩
  · intro wallet hwallet
    rcases mem_rewrite hwallet with ⟨hold, -⟩ | rfl
    · exact h.wallets wallet hold
    · refine ⟨hnew, ?_⟩
      rw [hversion]
      exact hreserved
  · intro entry he
    rcases List.mem_append.mp he with he | he
    · exact h.entries entry he
    · obtain rfl := List.mem_singleton.mp he
      have hbefore : version.balance - call.delta = row.balance := by
        rw [hversion]
        exact add_sub_cancel_right ..
      refine ⟨?_, hnew, amount_bounds call.request⟩
      exact (congrArg P hbefore).mpr hbalance

/-! ## The steps of the service -/

theorem initialBalance_bounds (request : CreateWalletRequest) :
    0 ≤ request.initialBalance.getD 0 ∧ request.initialBalance.getD 0 ≤ amountMax := by
  cases hbalance : request.initialBalance with
  | none => exact ⟨le_rfl, by decide⟩
  | some balance => exact request.initialBalance_valid balance hbalance

theorem Everywhere.resumeCreate {creation : Creation} (hzero : P 0) (hsound : Sound s)
    (h : Everywhere P s) (hcreation : creation ∈ s.creations) :
    Everywhere P (resumeCreate s creation trx) := by
  obtain ⟨hbalance, hmax⟩ := h.creations creation hcreation
  have hopening := hsound.pending.openings creation hcreation
  unfold Accounts.resumeCreate
  split_ifs with hopen
  · refine ⟨h.wallets, h.entries, fun other hother => ?_, h.versions⟩
    rcases Table.mem_modify hother with ⟨hold, -⟩ | ⟨other₀, hold, -, rfl⟩
    · exact h.creations other hold
    · exact h.creations other₀ hold
  · refine ⟨fun wallet hwallet => ?_, fun entry he => ?_, fun other hother => ?_, h.versions⟩
    · rcases List.mem_append.mp hwallet with hold | hnew
      · exact h.wallets wallet hold
      · obtain rfl := List.mem_singleton.mp hnew
        exact ⟨hbalance, hopening.reserved⟩
    · rcases List.mem_append.mp he with hold | hnew
      · exact h.entries entry hold
      · obtain ⟨_, rfl⟩ := hopening.entry entry (Option.mem_toList.mp hnew)
        exact ⟨hzero, hbalance, hopening.balance_nonneg, hmax⟩
    · exact h.creations other (List.mem_of_mem_filter hother)

theorem Everywhere.step (hzero : P 0) (hsound : Sound s) (h : Everywhere P s)
    (hadmits : Admits P s e) (hstep : step s e = some t) : Everywhere P t := by
  cases e with
  | credit c reference request =>
      obtain ⟨-, rfl⟩ := start_eq hstep
      exact ⟨h.wallets, h.entries, h.creations, versions_goTo h rfl fun _ hnone => nomatch hnone⟩
  | debit c reference request =>
      obtain ⟨-, rfl⟩ := start_eq hstep
      exact ⟨h.wallets, h.entries, h.creations, versions_goTo h rfl fun _ hnone => nomatch hnone⟩
  | resume c trx =>
      obtain ⟨call, hcall, hresume⟩ := Option.bind_eq_some_iff.mp hstep
      rcases resume_writes hcall hresume with ⟨version, entry, hstage, rfl⟩ | ⟨stage, u, rfl, hu⟩
      · have hstanding := hsound.calls c call hcall
        rw [hstage] at hstanding
        exact h.commit hcall hstage hstanding
      · exact h.abstain hcall hu fun row => hadmits call row
  | abort c =>
      obtain ⟨call, hcall, habort⟩ := Option.bind_eq_some_iff.mp hstep
      split_ifs at habort
      obtain rfl := Option.some.inj habort
      exact ⟨h.wallets, h.entries, h.creations, versions_goTo h rfl fun _ hnone => nomatch hnone⟩
  | create session id reference request =>
      simp only [Accounts.step] at hstep
      split_ifs at hstep
      obtain rfl := Option.some.inj hstep
      refine ⟨h.wallets, h.entries, fun creation hcreation => ?_, h.versions⟩
      rcases List.mem_append.mp hcreation with hold | hnew
      · exact h.creations creation hold
      · obtain rfl := List.mem_singleton.mp hnew
        exact ⟨hadmits, (initialBalance_bounds request).2⟩
  | resumeCreate session trx =>
      obtain ⟨creation, hcreation, rfl⟩ := Option.map_eq_some_iff.mp hstep
      exact h.resumeCreate hzero hsound (Table.mem_of_find hcreation)
  | abortCreate session =>
      obtain ⟨creation, -, rfl⟩ := Option.map_eq_some_iff.mp hstep
      exact ⟨h.wallets, h.entries,
        fun creation hcreation => h.creations creation (List.mem_of_mem_filter hcreation),
        h.versions⟩
  | setStatus id status =>
      simp only [Accounts.step] at hstep
      split_ifs at hstep
      obtain rfl := Option.some.inj hstep
      refine ⟨fun wallet hwallet => ?_, h.entries, h.creations, h.versions⟩
      rcases Table.mem_modify hwallet with ⟨hold, -⟩ | ⟨row, hold, -, rfl⟩
      · exact h.wallets wallet hold
      · exact h.wallets row hold

/-! ## The conversions -/

/-- The rows are read as they are, and an entry that is due is the one of the integers. -/
structure Exact (s : State) : Prop where
  wallets : ∀ wallet ∈ s.wallets, wallet.read = wallet
  entries : ∀ entry ∈ s.entries, entry.read = entry
  versions : ∀ c call version trx, s.calls c = some call →
    call.stage = .appending version → call.append version trx = call.entry version trx

theorem Everywhere.exact (hP : ∀ value, P value → number value = value) (hsound : Sound s)
    (h : Everywhere P s) : Exact s where
  wallets wallet hwallet := by
    obtain ⟨hbalance, hreserved⟩ := h.wallets wallet hwallet
    exact Wallet.read_eq (hP _ hbalance) hreserved
  entries entry he := by
    obtain ⟨hbefore, hafter, hnonneg, hmax⟩ := h.entries entry he
    exact LedgerEntry.read_eq (number_of_le_amountMax hnonneg hmax) (hP _ hbefore) (hP _ hafter)
  versions c call version trx hcall hstage := by
    have hversion : P version.balance := h.versions c call version hcall (by rw [hstage]; rfl)
    have hstanding := hsound.calls c call hcall
    rw [hstage] at hstanding
    obtain ⟨row, hrow, -, -, rfl, -⟩ := hstanding
    have hbefore : (row.move call.delta).balance - call.delta = row.balance :=
      add_sub_cancel_right ..
    refine Call.append_eq (hP _ hversion) ?_
    rw [hbefore]
    exact hP _ (h.wallets row (Table.mem_of_find hrow)).1

/-- Where the conversions are exact, the service takes the steps it takes on integers. -/
theorem Exact.step_eq (h : Exact s) (e : Event) : Numbers.step s e = Accounts.step s e := by
  cases e with
  | resume c trx =>
      refine Option.bind_congr fun call hcall => ?_
      unfold Numbers.resume Accounts.resume
      cases hstage : call.stage with
      | reading =>
          dsimp only
          cases hwallet : s.findByReference call.reference with
          | none => rfl
          | some wallet => simp only [h.wallets wallet (Table.mem_of_find hwallet)]
      | looking wallet =>
          dsimp only
          cases he : s.findByIdempotencyKey wallet.id call.request.transactionId with
          | none => rfl
          | some replayed => simp only [h.entries replayed (Table.mem_of_find he)]
      | rereading wallet =>
          dsimp only
          cases hwallet : s.findByReference wallet.reference with
          | none => rfl
          | some current =>
              simp only [Option.map_some, h.wallets current (Table.mem_of_find hwallet)]
      | appending version =>
          dsimp only
          cases s.findByIdempotencyKey version.id call.request.transactionId with
          | none => simp only [h.versions c call version trx hcall hstage]
          | some _ => rfl
      | relooking walletId =>
          dsimp only
          cases he : s.findByIdempotencyKey walletId call.request.transactionId with
          | none => rfl
          | some original => simp only [h.entries original (Table.mem_of_find he)]
      | _ => rfl
  | _ => rfl

/-- A run whose steps admit only balances that are converted exactly has only such balances,
and is the run on integers. -/
theorem numbers_run {C : State → Event → Prop}
    (hP : ∀ value, P value → number value = value) (hzero : P 0)
    (hadmits : ∀ s e, Everywhere P s → C s e → Admits P s e)
    (h : RunsUnder Numbers.step C init es s) :
    (∀ t ∈ trace Numbers.step init es, Sound t ∧ Everywhere P t) ∧ (Sound s ∧ Everywhere P s) ∧
      run Accounts.step init es = some s := by
  have hinit : Sound init ∧ Everywhere P init := ⟨sound_init, everywhere_init P⟩
  have hsame : ∀ s e, Sound s ∧ Everywhere P s → Numbers.step s e = Accounts.step s e :=
    fun s e hs => (hs.2.exact hP hs.1).step_eq e
  have hkept : ∀ s e t, Sound s ∧ Everywhere P s → C s e → Numbers.step s e = some t →
      Sound t ∧ Everywhere P t := by
    intro s e t hs hC hstep
    rw [hsame s e hs] at hstep
    exact ⟨(step_sound hs.1 hstep).1, hs.2.step hzero hs.1 (hadmits s e hs.2 hC) hstep⟩
  exact ⟨h.forall_trace hkept hinit, h.invariant hkept hinit,
    h.run_eq hkept (fun s e hs => (hsame s e hs).symm) hinit⟩

end Accounts

end Paynad
