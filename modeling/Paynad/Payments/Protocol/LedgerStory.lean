import Paynad.Payments.Protocol.MoneySafety

/-!
# What the ledger hears of the movements

`transactions` hears of the movements of a payment when it ends: both movements
of an approved payment, and the refund alone of a compensated one, whose debit
is never announced.
-/

namespace Paynad

namespace Payments

open Shared Transition TypeOrmPaymentRepository

def PaymentColumns.legLine (c : PaymentColumns) (leg : Leg) : LedgerLine :=
  (leg.movementType.text, c.legWallet leg, (c.amount : ℚ))

namespace Platform

namespace State

def ledgerLines (s : State) (reference : String) : List LedgerLine :=
  (s.payments.database.outbox.filter (·.aggregateReference = reference)).filterMap
    OutboxMessage.ledgerLine

/-- The movements `accounts` holds under the keys of a payment, as ledger lines. -/
def movementLines (s : State) (c : PaymentColumns) : List LedgerLine :=
  [Leg.debit, .credit, .refund].flatMap fun leg =>
    (s.movements c leg).map fun m => (leg.movementType.text, m.wallet.value, (m.amount : ℚ))

end State

/-- The lines of a settled payment are exactly the movements of `accounts`. -/
def LedgerTellsAll (s : State) : Prop :=
  ∀ row ∈ s.payments.database.payments, row.status ∈ terminalStatuses →
    ∀ line, line ∈ s.ledgerLines row.reference ↔
      line ∈ s.movementLines row.toPaymentColumns

variable {s : State} {reference : String} {row : PaymentOrmEntity}

theorem ledgerLines_eq (hs : Invariant s) (hrow : s.row reference = some row) :
    s.ledgerLines reference = row.toPaymentColumns.journal.filterMap Prod.snd := by
  have hjournal := hs.payments.database.journal reference
  rw [show rowOf s.payments.database.payments reference = some row from hrow, Option.map_some,
    Option.getD_some] at hjournal
  rw [← hjournal, List.filterMap_map]
  rfl

theorem map_movements (hs : Invariant s) (hrow : s.row reference = some row) {leg : Leg}
    (hmoved : s.movements row.toPaymentColumns leg ≠ []) :
    (s.movements row.toPaymentColumns leg).map
        (fun m => (leg.movementType.text, m.wallet.value, (m.amount : ℚ))) =
      [row.toPaymentColumns.legLine leg] := by
  have hlength := hs.movements_length row.toPaymentColumns leg
  cases hmovements : s.movements row.toPaymentColumns leg with
  | nil => exact absurd hmovements hmoved
  | cons m rest =>
      rw [hmovements, List.length_cons] at hlength
      obtain rfl : rest = [] := List.length_eq_zero_iff.mp (by omega)
      have hm : m ∈ s.movements row.toPaymentColumns leg := by
        rw [hmovements]
        exact List.mem_singleton_self m
      have hwallet : m.wallet.value = row.legWallet leg :=
        congrArg Prod.fst (mem_movements.mp hm).2
      simp [PaymentColumns.legLine, hwallet, (hs.origin_of_mem_movements hrow hm).2]

theorem journal_lines {c : PaymentColumns} :
    (c.status = .approved →
      c.journal.filterMap Prod.snd = [c.legLine .debit, c.legLine .credit]) ∧
    (c.status = .compensated → c.journal.filterMap Prod.snd = [c.legLine .refund]) := by
  refine ⟨fun hstatus => ?_, fun hstatus => ?_⟩ <;>
    simp [PaymentColumns.journal, hstatus, PaymentColumns.legLine, PaymentColumns.legWallet,
      Leg.movementType, MovementType.text]

/-- What the ledger hears of a payment and what `accounts` holds, status by status. -/
theorem ledger_and_movements {maxAttempts : ℕ} {s : State}
    (h : Reachable (step maxAttempts) init s) {row : PaymentOrmEntity}
    (hrow : row ∈ s.payments.database.payments) :
    (row.status = .approved →
      s.ledgerLines row.reference = [row.legLine .debit, row.legLine .credit] ∧
        s.movementLines row.toPaymentColumns = [row.legLine .debit, row.legLine .credit]) ∧
    (row.status = .compensated →
      s.ledgerLines row.reference = [row.legLine .refund] ∧
        s.movementLines row.toPaymentColumns = [row.legLine .debit, row.legLine .refund]) ∧
    (row.status = .declined →
      s.ledgerLines row.reference = [] ∧ s.movements row.toPaymentColumns .credit = [] ∧
        s.movements row.toPaymentColumns .refund = []) ∧
    (row.status ∉ terminalStatuses → s.ledgerLines row.reference = []) := by
  have hs := invariant_of_reachable h
  have hfind : s.row row.reference = some row := hs.payments.database.unique.find_of_mem hrow
  have hsettled := hs.settled hfind
  have hlines := ledgerLines_eq hs hfind
  refine ⟨fun hstatus => ?_, fun hstatus => ?_, fun hstatus => ?_, fun hstatus => ?_⟩
  · simp only [Settled, hstatus] at hsettled
    obtain ⟨hdebit, hcredit, hrefund⟩ := hsettled
    refine ⟨?_, ?_⟩
    · exact hlines.trans (journal_lines.1 hstatus)
    · simp only [State.movementLines, List.flatMap_cons, List.flatMap_nil,
        map_movements hs hfind hdebit, map_movements hs hfind hcredit, hrefund]
      rfl
  · simp only [Settled, hstatus] at hsettled
    obtain ⟨hdebit, hcredit, hrefund⟩ := hsettled
    refine ⟨?_, ?_⟩
    · exact hlines.trans (journal_lines.2 hstatus)
    · simp only [State.movementLines, List.flatMap_cons, List.flatMap_nil,
        map_movements hs hfind hdebit, map_movements hs hfind hrefund, hcredit]
      rfl
  · simp only [Settled, hstatus] at hsettled
    refine ⟨?_, hsettled⟩
    rw [hlines]
    simp [PaymentColumns.journal, hstatus]
  · rw [hlines]
    cases hs' : row.status <;> simp [hs', terminalStatuses] at hstatus <;>
      simp [PaymentColumns.journal, hs']

theorem ledger_and_movements_compensatedRun :
    ∃ s, run (step 3) init compensatedRun = some s ∧
      s.payments.database.payments.map (·.status) = [.compensated] ∧
      ∀ row ∈ s.payments.database.payments,
        row.status = .compensated → s.ledgerLines row.reference = [row.legLine .refund] := by
  obtain ⟨s, hrun, hstatuses⟩ := compensatedRun_statuses
  exact ⟨s, hrun, hstatuses, fun row hrow hstatus =>
    ((ledger_and_movements ⟨_, hrun⟩ hrow).2.1 hstatus).1⟩

/-- The debit of a compensated payment is a movement the ledger never hears of. -/
theorem not_ledgerTellsAll_compensatedRun :
    ∃ s, run (step 3) init compensatedRun = some s ∧ ¬ LedgerTellsAll s := by
  have h : (run (step 3) init compensatedRun).map (fun s =>
      s.payments.database.payments.map fun row =>
        (row.status, (s.ledgerLines row.reference).map Prod.fst,
          (s.movementLines row.toPaymentColumns).map Prod.fst)) =
      some [(.compensated, ["REFUND"], ["DEBIT", "REFUND"])] := by
    decide +kernel
  obtain ⟨s, hrun, hlines⟩ := Option.map_eq_some_iff.mp h
  refine ⟨s, hrun, fun hall => ?_⟩
  obtain ⟨row, hpayments, hrow⟩ := List.map_eq_singleton_iff.mp hlines
  obtain ⟨hstatus, hrest⟩ := Prod.mk.inj hrow
  obtain ⟨hledger, hmovements⟩ := Prod.mk.inj hrest
  have hmem : row ∈ s.payments.database.payments := by
    rw [hpayments]
    exact List.mem_singleton_self row
  have hdebit : "DEBIT" ∈ (s.movementLines row.toPaymentColumns).map Prod.fst := by
    rw [hmovements]
    decide
  obtain ⟨line, hline, hdirection⟩ := List.mem_map.mp hdebit
  have htold : line.1 ∈ (s.ledgerLines row.reference).map Prod.fst :=
    List.mem_map_of_mem ((hall row hmem (by rw [hstatus]; decide) line).mpr hline)
  rw [hledger, hdirection] at htold
  exact absurd htold (by decide)

end Platform

end Payments

end Paynad
