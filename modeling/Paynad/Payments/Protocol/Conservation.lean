import Mathlib.Algebra.Order.Ring.Int
import Mathlib.Algebra.Order.BigOperators.Group.List
import Paynad.Library.Grouping
import Paynad.Payments.Protocol.LedgerStory

/-!
# Conservation of money

What `accounts` has moved is summed payment by payment: the three keys of a payment
are its own, and every movement falls under one of them. A wallet has changed by what
its payments have moved on it, and all the wallets together lack exactly the amounts of
the payments whose debit is neither credited nor refunded.
-/

namespace Paynad

namespace Payments

open Shared Transition TypeOrmPaymentRepository

def Operation.signed : Operation → ℤ → ℤ
  | .debit, amount => -amount
  | .credit, amount => amount

def Movement.delta (m : Movement) : ℤ := m.operation.signed m.amount

def Leg.all : List Leg := [.debit, .credit, .refund]

theorem Leg.nodup_all : Leg.all.Nodup := by decide

theorem Leg.mem_all (leg : Leg) : leg ∈ Leg.all := by
  cases leg <;> decide

namespace PaymentColumns

/-- What a payment has added to a wallet when these legs have moved. -/
def share (c : PaymentColumns) (moved : Leg → Bool) (wallet : String) : ℤ :=
  (Leg.all.map fun leg =>
    if c.legWallet leg = wallet ∧ moved leg = true then leg.operation.signed c.amount else 0).sum

def inTransit (c : PaymentColumns) (moved : Leg → Bool) : ℤ :=
  if moved .debit = true ∧ moved .credit = false ∧ moved .refund = false then c.amount else 0

end PaymentColumns

namespace Platform

namespace State

def hasMoved (s : State) (c : PaymentColumns) (leg : Leg) : Bool :=
  !(s.movements c leg).isEmpty

def balanceChange (s : State) (wallet : String) : ℤ :=
  ((s.wire.records.filter fun m => m.wallet.value = wallet).map Movement.delta).sum

end State

variable {s : State} {c : PaymentColumns} {leg : Leg}

theorem hasMoved_iff : s.hasMoved c leg = true ↔ s.movements c leg ≠ [] := by
  simp [State.hasMoved]

theorem hasMoved_eq_false_iff : s.hasMoved c leg = false ↔ s.movements c leg = [] := by
  simp [State.hasMoved]

namespace Invariant

variable {reference : String} {row : PaymentOrmEntity}

theorem nodup_legKeys (hs : Invariant s) (hrow : s.row reference = some row) :
    (Leg.all.map row.legKey).Nodup :=
  Leg.nodup_all.map_on fun _ _ _ _ heq => (hs.legKey_inj hrow hrow heq).2

theorem nodup_keys (hs : Invariant s) :
    (s.payments.database.payments.flatMap fun row => Leg.all.map row.legKey).Nodup := by
  rw [List.nodup_flatMap]
  refine ⟨fun row hrow => hs.nodup_legKeys (hs.payments.database.unique.find_of_mem hrow), ?_⟩
  refine (List.pairwise_map.mp hs.payments.database.unique).imp_of_mem
    fun {row row'} hrow hrow' hne => ?_
  refine List.disjoint_left.mpr fun key hkey hkey' => hne ?_
  obtain ⟨leg, -, rfl⟩ := List.mem_map.mp hkey
  obtain ⟨leg', -, heq⟩ := List.mem_map.mp hkey'
  exact (hs.legKey_inj (hs.payments.database.unique.find_of_mem hrow)
    (hs.payments.database.unique.find_of_mem hrow') heq.symm).1

theorem owner_of_movement (hs : Invariant s) {m : Movement} (hm : m ∈ s.wire.records) :
    ∃ row ∈ s.payments.database.payments, m.identifier ∈ Leg.all.map row.legKey := by
  obtain ⟨call, hcall, hidentifier, -⟩ := hs.wire.origin m hm
  obtain ⟨leg, p, row, rfl, hrow, hidentity, -⟩ := hs.requests call hcall
  refine ⟨row, Table.mem_of_find hrow, List.mem_map.mpr ⟨leg, leg.mem_all, ?_⟩⟩
  rw [← hidentifier, Payment.identifier_legCall, PaymentColumns.legKey_congr hidentity]

theorem sum_records (hs : Invariant s) (f : Movement → ℤ) :
    (s.wire.records.map f).sum =
      (s.payments.database.payments.map fun row =>
        (Leg.all.map fun leg => ((s.movements row.toPaymentColumns leg).map f).sum).sum).sum := by
  rw [← Grouping.sum_map_owners hs.nodup_keys (fun m hm => hs.owner_of_movement hm) f]
  simp only [List.map_map]
  rfl

/-- What is summed over a leg is read off its only movement. -/
theorem sum_leg (hs : Invariant s) (hrow : s.row reference = some row) (leg : Leg)
    {f : Movement → ℤ} {a : ℤ}
    (hf : ∀ m : Movement, m.wallet.value = row.legWallet leg → m.operation = leg.operation →
      m.amount = row.amount → f m = a) :
    ((s.movements row.toPaymentColumns leg).map f).sum =
      if s.hasMoved row.toPaymentColumns leg = true then a else 0 := by
  have hlength := hs.movements_length row.toPaymentColumns leg
  cases hmovements : s.movements row.toPaymentColumns leg with
  | nil => simp [State.hasMoved, hmovements]
  | cons m rest =>
      rw [hmovements, List.length_cons] at hlength
      obtain rfl : rest = [] := List.length_eq_zero_iff.mp (by omega)
      have hm : m ∈ s.movements row.toPaymentColumns leg := by
        rw [hmovements]
        exact List.mem_singleton_self m
      obtain ⟨hoperation, hamount⟩ := hs.origin_of_mem_movements hrow hm
      have hwallet : m.wallet.value = row.legWallet leg :=
        congrArg Prod.fst (mem_movements.mp hm).2
      simp [State.hasMoved, hmovements, hf m hwallet hoperation hamount]

theorem balanceChange_eq (hs : Invariant s) (wallet : String) :
    s.balanceChange wallet =
      (s.payments.database.payments.map fun row =>
        row.share (s.hasMoved row.toPaymentColumns) wallet).sum := by
  rw [State.balanceChange, Grouping.sum_map_filter, hs.sum_records]
  refine congrArg List.sum (List.map_congr_left fun row hrow => ?_)
  refine congrArg List.sum (List.map_congr_left fun leg _ => ?_)
  have hfind : s.row row.reference = some row := hs.payments.database.unique.find_of_mem hrow
  rw [hs.sum_leg hfind leg (a := if row.legWallet leg = wallet then
    leg.operation.signed row.amount else 0) ?_]
  · split <;> split <;> simp_all
  · intro m hwallet hoperation hamount
    simp only [hwallet, Movement.delta, hoperation, hamount]

/-- The credit and the refund of a payment exclude each other and come with the debit. -/
theorem hasMoved_cases (hs : Invariant s) (hrow : s.row reference = some row) :
    (s.hasMoved row.toPaymentColumns .credit = true ∨
        s.hasMoved row.toPaymentColumns .refund = true →
      s.hasMoved row.toPaymentColumns .debit = true) ∧
    (s.hasMoved row.toPaymentColumns .credit = true →
      s.hasMoved row.toPaymentColumns .refund = false) := by
  simp only [hasMoved_iff, hasMoved_eq_false_iff]
  refine ⟨fun hmoved => hs.debit_ne_nil hrow
    (hmoved.imp (hs.ready_of_movements hrow) (hs.ready_of_movements hrow)), fun hcredit => ?_⟩
  by_contra hrefund
  exact hcredit (hs.credit_eq_nil hrow (hs.ready_of_movements hrow hrefund))

theorem sum_legs (hs : Invariant s) (hrow : s.row reference = some row) :
    (Leg.all.map fun leg =>
      ((s.movements row.toPaymentColumns leg).map Movement.delta).sum).sum =
      -row.inTransit (s.hasMoved row.toPaymentColumns) := by
  have hleg : ∀ leg, ((s.movements row.toPaymentColumns leg).map Movement.delta).sum =
      if s.hasMoved row.toPaymentColumns leg = true then leg.operation.signed row.amount else 0 :=
    fun leg => hs.sum_leg hrow leg fun m _ hoperation hamount => by
      rw [Movement.delta, hoperation, hamount]
  obtain ⟨hdebit, hexclusive⟩ := hs.hasMoved_cases hrow
  simp only [hleg, Leg.all, List.map_cons, List.map_nil, List.sum_cons, List.sum_nil,
    Leg.operation, Operation.signed, PaymentColumns.inTransit]
  cases hd : s.hasMoved row.toPaymentColumns .debit <;>
    cases hc : s.hasMoved row.toPaymentColumns .credit <;>
    cases hr : s.hasMoved row.toPaymentColumns .refund <;> simp_all

/-- An approved payment has taken its amount from its source to its destination. -/
theorem share_of_approved (hs : Invariant s) (hrow : s.row reference = some row)
    (hstatus : row.status = .approved) (wallet : String) :
    row.share (s.hasMoved row.toPaymentColumns) wallet =
      (if row.destinationWalletReference = wallet then row.amount else 0) -
        (if row.sourceWalletReference = wallet then row.amount else 0) := by
  have hsettled := hs.settled hrow
  simp only [Settled, hstatus, ← hasMoved_iff, ← hasMoved_eq_false_iff] at hsettled
  obtain ⟨hdebit, hcredit, hrefund⟩ := hsettled
  simp only [PaymentColumns.share, Leg.all, List.map_cons, List.map_nil, List.sum_cons,
    List.sum_nil, hdebit, hcredit, hrefund, PaymentColumns.legWallet, Leg.operation,
    Operation.signed, and_true, Bool.false_eq_true, and_false, if_false]
  split <;> split <;> omega

theorem share_of_returned (hs : Invariant s) (hrow : s.row reference = some row)
    (hstatus : row.status = .pending ∨ row.status = .compensated) (wallet : String) :
    row.share (s.hasMoved row.toPaymentColumns) wallet = 0 := by
  have hsettled := hs.settled hrow
  rcases hstatus with hstatus | hstatus
  · simp only [Settled, hstatus, ← hasMoved_eq_false_iff] at hsettled
    simp [PaymentColumns.share, Leg.all, hsettled]
  · simp only [Settled, hstatus, ← hasMoved_iff, ← hasMoved_eq_false_iff] at hsettled
    obtain ⟨hdebit, hcredit, hrefund⟩ := hsettled
    simp only [PaymentColumns.share, Leg.all, List.map_cons, List.map_nil, List.sum_cons,
      List.sum_nil, hdebit, hcredit, hrefund, PaymentColumns.legWallet, Leg.operation,
      Operation.signed, and_true]
    split <;> simp

/-- Nothing of a payment that is not started, approved or given back is in transit. -/
theorem inTransit_of_settled (hs : Invariant s) (hrow : s.row reference = some row)
    (hstatus : row.status = .pending ∨ row.status = .approved ∨ row.status = .compensated) :
    row.inTransit (s.hasMoved row.toPaymentColumns) = 0 := by
  have hsettled := hs.settled hrow
  refine if_neg fun ⟨hdebit, hcredit, hrefund⟩ => ?_
  rw [hasMoved_iff] at hdebit
  rw [hasMoved_eq_false_iff] at hcredit hrefund
  rcases hstatus with hstatus | hstatus | hstatus <;> simp only [Settled, hstatus] at hsettled
  · exact hdebit (hsettled .debit)
  · exact hsettled.2.1 hcredit
  · exact hsettled.2.2 hrefund

theorem inTransit_nonneg (hs : Invariant s) (hrow : s.row reference = some row) :
    0 ≤ row.inTransit (s.hasMoved row.toPaymentColumns) := by
  obtain ⟨p, hp⟩ := (hs.payments.database.rows reference row hrow).written
  have hamount : row.amount = p.money.amount := congrArg PaymentColumns.amount hp
  have hminimum := p.money.minimum_le
  unfold PaymentColumns.inTransit
  split
  · omega
  · exact le_rfl

end Invariant

/-- The movements of `accounts` are accounted for by the payments. -/
structure Conserved (s : State) : Prop where
  wallets : ∀ wallet, s.balanceChange wallet =
    (s.payments.database.payments.map fun row =>
      row.share (s.hasMoved row.toPaymentColumns) wallet).sum
  total : (s.wire.records.map Movement.delta).sum =
    -(s.payments.database.payments.map fun row =>
      row.inTransit (s.hasMoved row.toPaymentColumns)).sum
  approved : ∀ row ∈ s.payments.database.payments, row.status = .approved →
    ∀ wallet, row.share (s.hasMoved row.toPaymentColumns) wallet =
      (if row.destinationWalletReference = wallet then row.amount else 0) -
        (if row.sourceWalletReference = wallet then row.amount else 0)
  returned : ∀ row ∈ s.payments.database.payments,
    row.status = .pending ∨ row.status = .compensated →
    ∀ wallet, row.share (s.hasMoved row.toPaymentColumns) wallet = 0
  settled : (∀ row ∈ s.payments.database.payments,
      row.status = .pending ∨ row.status = .approved ∨ row.status = .compensated) →
    (s.wire.records.map Movement.delta).sum = 0

namespace Invariant

/-- All the wallets together lack what is in transit. -/
theorem sum_records_eq (hs : Invariant s) : (s.wire.records.map Movement.delta).sum =
    -(s.payments.database.payments.map fun row =>
      row.inTransit (s.hasMoved row.toPaymentColumns)).sum := by
  rw [hs.sum_records, List.sum_neg, List.map_map]
  exact congrArg List.sum (List.map_congr_left fun row hrow =>
    hs.sum_legs (hs.payments.database.unique.find_of_mem hrow))

theorem conserved (hs : Invariant s) : Conserved s := by
  have hfind : ∀ row ∈ s.payments.database.payments, s.row row.reference = some row :=
    fun row hrow => hs.payments.database.unique.find_of_mem hrow
  refine ⟨hs.balanceChange_eq, hs.sum_records_eq, fun row hrow hstatus wallet => ?_,
    fun row hrow hstatus wallet => ?_, fun hsettled => ?_⟩
  · exact hs.share_of_approved (hfind row hrow) hstatus wallet
  · exact hs.share_of_returned (hfind row hrow) hstatus wallet
  · rw [hs.sum_records_eq, neg_eq_zero]
    refine List.sum_eq_zero fun a ha => ?_
    obtain ⟨row, hrow, rfl⟩ := List.mem_map.mp ha
    exact hs.inTransit_of_settled (hfind row hrow) (hsettled row hrow)

end Invariant

/-- In every reachable state each wallet has changed by what the payments have moved on
it, and all the wallets together lack what is in transit: money is never created, and
none is missing once every payment is approved or given back. -/
theorem conservation {maxAttempts : ℕ} {s : State} (h : Reachable (step maxAttempts) init s) :
    Conserved s ∧ (s.wire.records.map Movement.delta).sum ≤ 0 := by
  have hs := invariant_of_reachable h
  refine ⟨hs.conserved, ?_⟩
  rw [hs.sum_records_eq, Int.neg_nonpos_iff]
  refine List.sum_nonneg fun a ha => ?_
  obtain ⟨row, hrow, rfl⟩ := List.mem_map.mp ha
  exact hs.inTransit_nonneg (hs.payments.database.unique.find_of_mem hrow)

/-- The amount of a debited payment is in transit; a refund brings it back. -/
theorem conservation_runs :
    (∃ s, run (step 3) init debitedRun = some s ∧
      (s.wire.records.map Movement.delta).sum = -500 ∧ Conserved s) ∧
    ∃ s, run (step 3) init compensatedRun = some s ∧
      (s.wire.records.map Movement.delta).sum = 0 ∧ Conserved s := by
  have hdebited : (run (step 3) init debitedRun).map
      (fun s => (s.wire.records.map Movement.delta).sum) = some (-500) := by
    decide +kernel
  have hcompensated : (run (step 3) init compensatedRun).map
      (fun s => (s.wire.records.map Movement.delta).sum) = some 0 := by
    decide +kernel
  obtain ⟨s, hrun, hsum⟩ := Option.map_eq_some_iff.mp hdebited
  obtain ⟨s', hrun', hsum'⟩ := Option.map_eq_some_iff.mp hcompensated
  exact ⟨⟨s, hrun, hsum, (conservation ⟨_, hrun⟩).1⟩,
    ⟨s', hrun', hsum', (conservation ⟨_, hrun'⟩).1⟩⟩

end Platform

end Payments

end Paynad
