import Paynad.Deployment.Refinement
import Paynad.Payments.Protocol.Conservation

/-!
# The wallets of the two services

Through the refinement the books of `accounts` are those of the payments: a wallet holds
what it was opened with and what the payments have moved on it, and all the wallets
together hold what they were opened with, less what is in transit.
-/

namespace Paynad

namespace Deployment

open Shared Payments Transition

def isOpening (entry : Accounts.LedgerEntry) : Bool :=
  "opening-".toList.isPrefixOf entry.transactionId.toList

def State.opened (s : State) (wallet : Accounts.Wallet) : ℤ :=
  (((Accounts.entriesOf s.accounts.entries wallet.id).filter isOpening).map
    Accounts.LedgerEntry.delta).sum

def State.hasMoved (s : State) (c : PaymentColumns) (leg : Leg) : Bool :=
  (lookedUp s.accounts (c.legWallet leg) (c.legKey leg).2).isSome

variable {s : State} {p : Platform.State} {m : Movement} {entry : Accounts.LedgerEntry}

theorem isOpening_iff : isOpening entry = true ↔ IsOpening entry := by
  rw [isOpening, IsOpening, List.isPrefixOf_iff_prefix]

theorem Same.delta (h : Same s.accounts m entry) : entry.delta = m.delta := by
  rw [Accounts.LedgerEntry.delta, Movement.delta, h.type, h.amount]
  cases m.operation <;> rfl

theorem nodup_rest {ρ κ κ' ν : Type*} {key : ρ → κ × κ'} {t : List ρ} (ht : Table.Unique key t)
    {k : κ} (hk : ∀ r ∈ t, (key r).1 = k) (f : ρ → ν) :
    (t.map fun r => ((key r).2, f r)).Nodup := by
  refine List.Nodup.of_map Prod.fst ?_
  have hrest : ((t.map key).map Prod.snd).Nodup := by
    refine ht.map_on fun x hx y hy heq => Prod.ext ?_ heq
    obtain ⟨r, hr, rfl⟩ := List.mem_map.mp hx
    obtain ⟨r', hr', rfl⟩ := List.mem_map.mp hy
    rw [hk r hr, hk r' hr']
  rw [List.map_map] at hrest ⊢
  exact hrest

theorem Refines.not_isOpening (h : Refines s p) (hs : Platform.Invariant p)
    (hm : m ∈ p.wire.records) (hsame : Same s.accounts m entry) : isOpening entry = false := by
  obtain ⟨-, id, post, hpost, hidentifier, -⟩ := h.agrees.recorded m hm
  obtain ⟨reference, leg, hkey⟩ :=
    key_of_posted hs (h.agrees.posts ▸ List.mem_of_getElem? hpost)
  rw [Bool.eq_false_iff, Ne, isOpening_iff]
  have htransaction : entry.transactionId = movementKey reference.value leg := by
    rw [hsame.key, ← hkey]
    exact (congrArg Prod.snd hidentifier).symm
  exact Deployment.not_isOpening htransaction

/-- The entries of a wallet but its opening are the movements of the wire on it. -/
theorem Refines.perm (h : Refines s p) (hs : Platform.Invariant p)
    (hsound : Accounts.Sound s.accounts) {wallet : Accounts.Wallet}
    (hwallet : wallet ∈ s.accounts.wallets) :
    (((Accounts.entriesOf s.accounts.entries wallet.id).filter fun entry =>
        !isOpening entry).map fun entry => (entry.transactionId, entry.delta)).Perm
      ((p.wire.records.filter fun m => m.wallet.value = wallet.reference).map fun m =>
        (m.key, m.delta)) := by
  have hrow : s.accounts.row wallet.id = some wallet := hsound.books.ids.find_of_mem hwallet
  refine (List.perm_ext_iff_of_nodup ?_ ?_).mpr fun pair => ⟨fun hpair => ?_, fun hpair => ?_⟩
  · exact nodup_rest
      (hsound.books.keys.sublist ((List.filter_sublist.trans List.filter_sublist).map _))
      (fun entry he => of_decide_eq_true (List.mem_filter.mp (List.mem_filter.mp he).1).2)
      Accounts.LedgerEntry.delta
  · exact nodup_rest (hs.wire.unique.sublist (List.filter_sublist.map _))
      (fun m hm => of_decide_eq_true (List.mem_filter.mp hm).2) Movement.delta
  · obtain ⟨entry, he, rfl⟩ := List.mem_map.mp hpair
    obtain ⟨hmem, hopening⟩ := List.mem_filter.mp he
    obtain ⟨hentry, hid⟩ := List.mem_filter.mp hmem
    rcases h.agrees.entries entry hentry with hopening' | ⟨m, hm, hsame⟩
    · rw [isOpening_iff.mpr hopening'] at hopening
      cases hopening
    · obtain ⟨row, hrow', hreference⟩ := hsame.wallet
      rw [of_decide_eq_true hid, hrow] at hrow'
      obtain rfl := Option.some.inj hrow'
      exact List.mem_map.mpr ⟨m, List.mem_filter.mpr ⟨hm, decide_eq_true hreference.symm⟩,
        by rw [hsame.key, hsame.delta]⟩
  · obtain ⟨m, hm, rfl⟩ := List.mem_map.mp hpair
    obtain ⟨hrecord, hreference⟩ := List.mem_filter.mp hm
    obtain ⟨⟨entry, he, hsame⟩, -⟩ := h.agrees.recorded m hrecord
    have hid : entry.walletId = wallet.id :=
      Refers.unique hsound hsame.wallet ⟨wallet, hrow, (of_decide_eq_true hreference).symm⟩
    refine List.mem_map.mpr ⟨entry, List.mem_filter.mpr ⟨List.mem_filter.mpr
      ⟨he, decide_eq_true hid⟩, ?_⟩, by rw [hsame.key, hsame.delta]⟩
    rw [h.not_isOpening hs hrecord hsame]
    rfl

theorem sum_filter_add {ρ : Type*} (t : List ρ) (test : ρ → Bool) (f : ρ → ℤ) :
    ((t.filter test).map f).sum + ((t.filter fun r => !test r).map f).sum = (t.map f).sum := by
  induction t with
  | nil => rfl
  | cons r t ih => cases htest : test r <;> simp [htest] <;> omega

theorem Refines.balance (h : Refines s p) (hs : Platform.Invariant p)
    (hsound : Accounts.Sound s.accounts) {wallet : Accounts.Wallet}
    (hwallet : wallet ∈ s.accounts.wallets) :
    wallet.balance = s.opened wallet + p.balanceChange wallet.reference := by
  have hbalanced : ∀ entry ∈ Accounts.entriesOf s.accounts.entries wallet.id, entry.Balanced :=
    fun entry he => hsound.books.balanced entry (List.mem_of_mem_filter he)
  have hsum := (hsound.books.explained wallet hwallet).sum fun entry he =>
    (hbalanced entry he).after
  have hperm := ((h.perm hs hsound hwallet).map Prod.snd).sum_eq
  simp only [List.map_map] at hperm
  have hsplit := sum_filter_add (Accounts.entriesOf s.accounts.entries wallet.id) isOpening
    Accounts.LedgerEntry.delta
  rw [hsum, zero_add, ← hsplit, State.opened]
  exact congrArg _ hperm

/-- The ledger has the movement of a leg if the wire has. -/
theorem Refines.hasMoved (h : Refines s p) (hs : Platform.Invariant p)
    (hsound : Accounts.Sound s.accounts) {reference : String} {row : PaymentOrmEntity}
    (hrow : p.row reference = some row) (leg : Leg) :
    s.hasMoved row.toPaymentColumns leg = p.hasMoved row.toPaymentColumns leg := by
  obtain ⟨q, hq⟩ := (hs.payments.database.rows reference row hrow).written
  have hkey : ∃ (reference : Reference .pay) (leg' : Leg),
      (row.legKey leg).2 = movementKey reference.value leg' :=
    ⟨q.reference, leg, by rw [hq]; cases leg <;> rfl⟩
  rw [Bool.eq_iff_iff, Platform.hasMoved_iff, State.hasMoved, Option.isSome_iff_exists]
  constructor
  · rintro ⟨entry, hfound⟩
    obtain ⟨wallet, hwallet, he⟩ := Option.bind_eq_some_iff.mp hfound
    obtain ⟨m, hm, -, hidentifier⟩ := h.agrees.movement hkey
      ⟨wallet, hsound.books.ids.find_of_mem (Table.mem_of_find hwallet),
        Table.key_of_find hwallet⟩ he
    exact List.ne_nil_of_mem (Platform.mem_movements.mpr ⟨hm, hidentifier⟩)
  · intro hmoved
    obtain ⟨m, hm⟩ := List.exists_mem_of_ne_nil _ hmoved
    obtain ⟨hrecord, hidentifier⟩ := Platform.mem_movements.mp hm
    have hidentifier' : m.identifier = (row.legWallet leg, (row.legKey leg).2) := hidentifier
    obtain ⟨walletId, entry, ⟨wallet, hwallet, hreference⟩, he, -⟩ :=
      h.agrees.entry_of_record hsound hrecord hidentifier'
    have hfind := hsound.books.references.find_of_mem (Table.mem_of_find hwallet)
    refine ⟨entry, ?_⟩
    rw [Deployment.lookedUp, Accounts.State.findByReference, ← hreference, hfind,
      Option.bind_some, show wallet.id = walletId from Table.key_of_find hwallet, he]

theorem Refines.wallet_of_record (h : Refines s p) (hm : m ∈ p.wire.records) :
    m.wallet.value ∈ s.accounts.wallets.map Accounts.Wallet.reference := by
  obtain ⟨⟨entry, -, hsame⟩, -⟩ := h.agrees.recorded m hm
  obtain ⟨wallet, hwallet, hreference⟩ := hsame.wallet
  exact List.mem_map.mpr ⟨wallet, Table.mem_of_find hwallet, hreference⟩

theorem Refines.sum_balances (h : Refines s p) (hs : Platform.Invariant p)
    (hsound : Accounts.Sound s.accounts) :
    (s.accounts.wallets.map Accounts.Wallet.balance).sum =
      (s.accounts.wallets.map s.opened).sum + (p.wire.records.map Movement.delta).sum := by
  have hbalances : s.accounts.wallets.map Accounts.Wallet.balance =
      s.accounts.wallets.map fun wallet =>
        s.opened wallet + p.balanceChange wallet.reference :=
    List.map_congr_left fun wallet hwallet => h.balance hs hsound hwallet
  have hchanges : (s.accounts.wallets.map fun wallet => p.balanceChange wallet.reference).sum =
      (p.wire.records.map Movement.delta).sum := by
    rw [← Grouping.sum_map_keys hsound.books.references
      (fun m hm => h.wallet_of_record hm) Movement.delta, List.map_map]
    rfl
  rw [hbalances, List.sum_map_add, hchanges]

/-- The wallets of `accounts` are accounted for by the payments. -/
structure Balanced (s : State) : Prop where
  wallets : ∀ wallet ∈ s.accounts.wallets, wallet.balance = s.opened wallet +
    (s.payments.database.payments.map fun row =>
      row.share (s.hasMoved row.toPaymentColumns) wallet.reference).sum
  total : (s.accounts.wallets.map Accounts.Wallet.balance).sum =
    (s.accounts.wallets.map s.opened).sum -
      (s.payments.database.payments.map fun row =>
        row.inTransit (s.hasMoved row.toPaymentColumns)).sum
  approved : ∀ row ∈ s.payments.database.payments, row.status = .approved →
    ∀ wallet, row.share (s.hasMoved row.toPaymentColumns) wallet =
      (if row.destinationWalletReference = wallet then row.amount else 0) -
        (if row.sourceWalletReference = wallet then row.amount else 0)
  returned : ∀ row ∈ s.payments.database.payments,
    row.status = .pending ∨ row.status = .compensated →
    ∀ wallet, row.share (s.hasMoved row.toPaymentColumns) wallet = 0
  settled : (∀ row ∈ s.payments.database.payments,
      row.status = .pending ∨ row.status = .approved ∨ row.status = .compensated) →
    (s.accounts.wallets.map Accounts.Wallet.balance).sum =
      (s.accounts.wallets.map s.opened).sum

theorem Refines.balanced (h : Refines s p) (hs : Platform.Invariant p)
    (hsound : Accounts.Sound s.accounts) : Balanced s := by
  have hconserved := hs.conserved
  have hmoved : ∀ row ∈ s.payments.database.payments,
      s.hasMoved row.toPaymentColumns = p.hasMoved row.toPaymentColumns := by
    intro row hrow
    rw [← h.payments] at hrow
    exact funext (h.hasMoved hs hsound (hs.payments.database.unique.find_of_mem hrow))
  have hsum : ∀ f : PaymentOrmEntity → (Leg → Bool) → ℤ,
      (s.payments.database.payments.map fun row =>
        f row (s.hasMoved row.toPaymentColumns)).sum =
      (p.payments.database.payments.map fun row =>
        f row (p.hasMoved row.toPaymentColumns)).sum := by
    intro f
    rw [h.payments]
    exact congrArg List.sum (List.map_congr_left fun row hrow => by rw [hmoved row hrow])
  refine ⟨fun wallet hwallet => ?_, ?_, fun row hrow hstatus => ?_, fun row hrow hstatus => ?_,
    fun hsettled => ?_⟩
  · rw [h.balance hs hsound hwallet, hconserved.wallets,
      hsum fun row moved => row.share moved wallet.reference]
  · rw [h.sum_balances hs hsound, hconserved.total,
      hsum fun row moved => row.inTransit moved, Int.sub_eq_add_neg]
  · rw [hmoved row hrow]
    exact hconserved.approved row (h.payments ▸ hrow) hstatus
  · rw [hmoved row hrow]
    exact hconserved.returned row (h.payments ▸ hrow) hstatus
  · rw [h.sum_balances hs hsound, hconserved.settled (h.payments.symm ▸ hsettled), add_zero]

/-- In every reachable state of the two services, under every interleaving of the awaits of
both, with requests lost, late or sent again: a wallet holds what it was opened with and
what the payments have moved on it, and the wallets together lack what is in transit. -/
theorem wallet_balances {unicode : Unicode} {maxAttempts : ℕ}
    (h : Reachable (step unicode maxAttempts) init s) : Balanced s := by
  obtain ⟨p, hreached, hrefines⟩ := (simulates unicode maxAttempts).reachable refines_init h
  exact hrefines.balanced (Platform.invariant_of_reachable hreached) (sound_of_reachable h)

/-- The amount of the sample payment is in transit once debited, and arrives. -/
theorem wallet_balances_runs :
    (∃ s, run (step .ascii 3) init debitedRun = some s ∧
      s.accounts.wallets.map Accounts.Wallet.balance = [500, 0] ∧ Balanced s) ∧
    ∃ s, run (step .ascii 3) init approvedRun = some s ∧
      s.accounts.wallets.map Accounts.Wallet.balance = [500, 500] ∧ Balanced s := by
  have hdebited : (run (step .ascii 3) init debitedRun).map
      (fun s => s.accounts.wallets.map Accounts.Wallet.balance) = some [500, 0] := by
    decide +kernel
  have happroved : (run (step .ascii 3) init approvedRun).map
      (fun s => s.accounts.wallets.map Accounts.Wallet.balance) = some [500, 500] := by
    decide +kernel
  obtain ⟨s, hrun, hbalances⟩ := Option.map_eq_some_iff.mp hdebited
  obtain ⟨s', hrun', hbalances'⟩ := Option.map_eq_some_iff.mp happroved
  exact ⟨⟨s, hrun, hbalances, wallet_balances ⟨_, hrun⟩⟩,
    ⟨s', hrun', hbalances', wallet_balances ⟨_, hrun'⟩⟩⟩

end Deployment

end Paynad
