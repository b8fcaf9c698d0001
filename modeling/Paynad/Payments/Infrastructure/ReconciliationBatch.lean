import Paynad.Library.Paging
import Paynad.Payments.Infrastructure.Database
import Mathlib.Data.Prod.Lex

/-!
# The batch of the reconciler

`ReconciliationJob.reconcile` asks the repository for the payments that are left in
flight: those that have not been written for a while and whose next attempt is due, the
longest due first. The statement leaves open which of two rows comes first that agree in
both columns of its order; `place` settles it.
-/

namespace Paynad

namespace Payments

open Shared

namespace TypeOrmPaymentRepository

/-- The `WHERE` of `findStuck`. -/
def stuck (statuses : List PaymentStatus) (olderThan now : Date) (row : PaymentOrmEntity) :
    Bool :=
  decide (row.status ∈ statuses) && decide (row.updatedAt < olderThan) &&
    decide (row.nextReconciliationAt ≤ now)

/-- The columns of its `ORDER BY`, and the place of the row. -/
def recoveryOrder (place : String → ℕ) (row : PaymentOrmEntity) : Date ×ₗ Date ×ₗ ℕ :=
  toLex (row.nextReconciliationAt, toLex (row.updatedAt, place row.reference))

/-- The rows that `findStuck` selects. -/
def stuckRows (place : String → ℕ) (payments : List PaymentOrmEntity)
    (statuses : List PaymentStatus) (olderThan : Date) (limit : ℕ) (now : Date) :
    List PaymentOrmEntity :=
  Paging.page (fun row => OrderDual.toDual (recoveryOrder place row))
    (payments.filter (stuck statuses olderThan now)) 0 limit

def findStuck (place : String → ℕ) (payments : List PaymentOrmEntity)
    (statuses : List PaymentStatus) (olderThan : Date) (limit : ℕ) (now : Date) :
    Except MalformedValueError (List Tracked) :=
  (stuckRows place payments statuses olderThan limit now).mapM hydrate

variable {place : String → ℕ} {payments : List PaymentOrmEntity} {statuses : List PaymentStatus}
  {olderThan now : Date} {limit : ℕ} {row other : PaymentOrmEntity}

theorem stuck_iff : stuck statuses olderThan now row = true ↔
    row.status ∈ statuses ∧ row.updatedAt < olderThan ∧ row.nextReconciliationAt ≤ now := by
  simp only [stuck, Bool.and_eq_true, decide_eq_true_eq, and_assoc]

theorem mem_of_mem_stuckRows
    (h : row ∈ stuckRows place payments statuses olderThan limit now) :
    row ∈ payments ∧ stuck statuses olderThan now row = true :=
  List.mem_filter.mp ((Paging.page_subperm ..).subset h)

theorem nodup_stuckRows (h : Table.Unique (fun row => row.reference) payments) :
    ((stuckRows place payments statuses olderThan limit now).map
      (fun row => row.reference)).Nodup := by
  obtain ⟨rows, hperm, hsub⟩ :=
    Paging.page_subperm (fun row => OrderDual.toDual (recoveryOrder place row))
      (payments.filter (stuck statuses olderThan now)) 0 limit
  have hrows : (rows.map fun row => row.reference).Nodup :=
    h.sublist ((hsub.trans List.filter_sublist).map _)
  exact (hperm.map _).nodup_iff.mp hrows

theorem length_stuckRows :
    (stuckRows place payments statuses olderThan limit now).length ≤ limit := by
  rw [stuckRows, Paging.length_page]
  exact Nat.min_le_left ..

/-- A stuck payment that is left out of a batch has to wait for a whole batch that has been
due for at least as long. -/
theorem before_of_not_mem (hrow : row ∈ payments) (hstuck : stuck statuses olderThan now row = true)
    (hnot : row ∉ stuckRows place payments statuses olderThan limit now) :
    (stuckRows place payments statuses olderThan limit now).length = limit ∧
      ∀ other ∈ stuckRows place payments statuses olderThan limit now,
        other.nextReconciliationAt ≤ row.nextReconciliationAt := by
  obtain ⟨hfull, hbefore⟩ :=
    Paging.first_page_of_notMem (List.mem_filter.mpr ⟨hrow, hstuck⟩) hnot
  refine ⟨hfull, fun other hother => ?_⟩
  have horder : recoveryOrder place other ≤ recoveryOrder place row :=
    OrderDual.toDual_le_toDual.mp (hbefore other hother)
  rcases Prod.Lex.toLex_le_toLex.mp horder with hlt | ⟨heq, -⟩
  · exact hlt.le
  · exact heq.le

theorem mem_stuckRows_of_length_lt (hrow : row ∈ payments)
    (hstuck : stuck statuses olderThan now row = true) (hshort : payments.length < limit) :
    row ∈ stuckRows place payments statuses olderThan limit now := by
  by_contra hnot
  have hfull := (before_of_not_mem hrow hstuck hnot).1
  have hle : (stuckRows place payments statuses olderThan limit now).length ≤ payments.length :=
    (Paging.page_subperm ..).length_le.trans (List.length_filter_le ..)
  omega

/-- Rows that the mapper wrote are all read. -/
theorem findStuck_of_written (place : String → ℕ) (statuses : List PaymentStatus)
    (olderThan : Date) (limit : ℕ) (now : Date) (hwritten : ∀ row ∈ payments, ∃ p : Payment,
      row.toPaymentColumns = PaymentOrmMapper.toPersistence p) :
    ∃ batch, findStuck place payments statuses olderThan limit now = .ok batch ∧
      batch.map (fun t => t.payment.reference.value) =
        (stuckRows place payments statuses olderThan limit now).map (fun row => row.reference) := by
  have hread : ∀ rows : List PaymentOrmEntity, rows ⊆ payments →
      ∃ batch, rows.mapM hydrate = Except.ok (ε := MalformedValueError) batch ∧
        batch.map (fun t => t.payment.reference.value) = rows.map (fun row => row.reference) := by
    intro rows
    induction rows with
    | nil => exact fun _ => ⟨[], rfl, rfl⟩
    | cons row rows ih =>
        intro hsub
        obtain ⟨hrow, hrows⟩ := List.cons_subset.mp hsub
        obtain ⟨p, hp⟩ := hwritten row hrow
        obtain ⟨batch, hbatch, hreferences⟩ := ih hrows
        obtain ⟨t, ht⟩ : ∃ t, hydrate row = .ok t := ⟨_, hydrate_of_written hp⟩
        refine ⟨t :: batch, ?_, List.cons_eq_cons.mpr ⟨(hydrate_ok ht).1, hreferences⟩⟩
        rw [List.mapM_cons, ht, hbatch]
        rfl
  exact hread _ fun row hrow => (mem_of_mem_stuckRows hrow).1

end TypeOrmPaymentRepository

namespace ReconciliationJob

def stuckAfterMs : ℕ := 5 * 60 * 1000

def batchSize : ℕ := 20

def unsettledStatuses : List PaymentStatus := [.pending, .processing, .compensationPending]

theorem mem_unsettledStatuses_iff (status : PaymentStatus) :
    status ∈ unsettledStatuses ↔ status ∉ terminalStatuses := by
  cases status <;> decide

end ReconciliationJob

end Payments

end Paynad
