import Paynad.Payments.Protocol.SettlementStep

/-!
# Money safety

What the invariant says of the movements `accounts` holds under the three keys of
a payment, first leg by leg, then status by status.
-/

namespace Paynad

namespace Payments

open Shared Transition TypeOrmPaymentRepository

def Leg.operation : Leg → Operation
  | .debit => .debit
  | .credit => .credit
  | .refund => .credit

namespace Platform

def State.movements (s : State) (c : PaymentColumns) (leg : Leg) : List Movement :=
  s.wire.records.filter fun m => m.identifier = c.legKey leg

variable {s : State} {c : PaymentColumns} {leg : Leg}

theorem mem_movements {m : Movement} :
    m ∈ s.movements c leg ↔ m ∈ s.wire.records ∧ m.identifier = c.legKey leg := by
  simp [State.movements]

theorem movements_eq_nil_iff : s.movements c leg = [] ↔
    ¬ s.wire.Recorded Movement.identifier (c.legKey leg) := by
  simp only [State.movements, List.filter_eq_nil_iff, decide_eq_true_eq, Wire.Recorded,
    not_exists, not_and]

namespace Invariant

variable {reference : String} {row : PaymentOrmEntity}

theorem movements_length (hs : Invariant s) (c : PaymentColumns) (leg : Leg) :
    (s.movements c leg).length ≤ 1 := by
  rw [State.movements, hs.wire.unique.filter_key]
  cases Table.find Movement.identifier s.wire.records (c.legKey leg) <;> simp

theorem call_of_mem_movements (hs : Invariant s) (hrow : s.row reference = some row)
    {m : Movement} (hm : m ∈ s.movements row.toPaymentColumns leg) :
    ∃ p : Payment, row.identity = p.columns.identity ∧ row.Ready leg ∧
      MovementCall.Origin (p.legCall leg) m := by
  obtain ⟨hmem, hkey⟩ := mem_movements.mp hm
  obtain ⟨call, hcall, hidentifier, horigin⟩ := hs.wire.origin m hmem
  obtain ⟨leg', p, row', rfl, hrow', hidentity, hready⟩ := hs.requests call hcall
  rw [Payment.identifier_legCall, hkey, ← PaymentColumns.legKey_congr hidentity] at hidentifier
  obtain ⟨hreference, rfl⟩ := hs.legKey_inj hrow' hrow hidentifier
  rw [hreference, hrow] at hrow'
  cases hrow'
  exact ⟨p, hidentity, hready, horigin⟩

theorem origin_of_mem_movements (hs : Invariant s) (hrow : s.row reference = some row)
    {m : Movement} (hm : m ∈ s.movements row.toPaymentColumns leg) :
    m.operation = leg.operation ∧ m.amount = row.amount := by
  obtain ⟨p, hidentity, -, hoperation, hamount⟩ := hs.call_of_mem_movements hrow hm
  have hsame : row.amount = p.money.amount := congrArg PaymentColumns.amount hidentity
  rw [hoperation, hamount, hsame]
  cases leg <;> exact ⟨rfl, rfl⟩

/-- Only a leg its row is ready for has moved. -/
theorem ready_of_movements (hs : Invariant s) (hrow : s.row reference = some row)
    (hmoved : s.movements row.toPaymentColumns leg ≠ []) : row.Ready leg := by
  obtain ⟨m, hm⟩ := List.exists_mem_of_ne_nil _ hmoved
  obtain ⟨-, -, hready, -⟩ := hs.call_of_mem_movements hrow hm
  exact hready

theorem movements_eq_nil (hs : Invariant s) (hrow : s.row reference = some row)
    (hready : ¬ row.Ready leg) : s.movements row.toPaymentColumns leg = [] := by
  by_contra hmoved
  exact hready (hs.ready_of_movements hrow hmoved)

theorem movements_ne_nil (hs : Invariant s) (hrow : s.row reference = some row)
    (hrecorded : row.legReference leg ≠ none) : s.movements row.toPaymentColumns leg ≠ [] := by
  obtain ⟨value, hvalue⟩ := Option.ne_none_iff_exists'.mp hrecorded
  obtain ⟨m, hm, hkey, -⟩ := hs.rows reference row hrow leg value hvalue
  exact List.ne_nil_of_mem (mem_movements.mpr ⟨hm, hkey⟩)

/-- Once a refund is decided, the credit never moves. -/
theorem credit_eq_nil (hs : Invariant s) (hrow : s.row reference = some row)
    (hready : row.Ready .refund) : s.movements row.toPaymentColumns .credit = [] :=
  movements_eq_nil_iff.mpr (hs.closed reference row hrow hready).1.1

theorem debit_ne_nil (hs : Invariant s) (hrow : s.row reference = some row)
    (hready : row.Ready .credit ∨ row.Ready .refund) :
    s.movements row.toPaymentColumns .debit ≠ [] := by
  refine hs.movements_ne_nil hrow ?_
  have hcoherent := (hs.payments.database.rows reference row hrow).coherent
  rcases hready with hready | hstatus | hstatus
  · exact hready
  · simp only [PaymentColumns.Coherent, hstatus] at hcoherent
    exact hcoherent.1
  · simp only [PaymentColumns.Coherent, hstatus] at hcoherent
    exact hcoherent.1

end Invariant

/-- Which legs have moved, and which cannot have, in each status. A Declined
payment may still have a debit: that one is `declined_debit`. -/
def Settled (s : State) (c : PaymentColumns) : Prop :=
  match c.status with
  | .pending => ∀ leg, s.movements c leg = []
  | .processing => s.movements c .refund = []
  | .compensationPending => s.movements c .debit ≠ [] ∧ s.movements c .credit = []
  | .approved =>
      s.movements c .debit ≠ [] ∧ s.movements c .credit ≠ [] ∧ s.movements c .refund = []
  | .compensated =>
      s.movements c .debit ≠ [] ∧ s.movements c .credit = [] ∧ s.movements c .refund ≠ []
  | .declined => s.movements c .credit = [] ∧ s.movements c .refund = []

theorem Invariant.settled {reference : String} {row : PaymentOrmEntity} (hs : Invariant s)
    (hrow : s.row reference = some row) : Settled s row.toPaymentColumns := by
  have hcoherent := (hs.payments.database.rows reference row hrow).coherent
  have hrefund : row.status ≠ .compensationPending → row.status ≠ .compensated →
      s.movements row.toPaymentColumns .refund = [] := fun hpending hcompensated =>
    hs.movements_eq_nil hrow fun hready => hready.elim hpending hcompensated
  unfold Settled
  split <;> rename_i hstatus <;> simp only [PaymentColumns.Coherent, hstatus] at hcoherent <;>
    rw [hstatus] at hrefund
  · intro leg
    refine hs.movements_eq_nil hrow fun hready => ?_
    cases leg with
    | debit => exact hready hstatus
    | credit => exact hready hcoherent.1
    | refund => rcases hready with hready | hready <;> cases hstatus.symm.trans hready
  · exact hrefund (by decide) (by decide)
  · exact ⟨hs.debit_ne_nil hrow (.inr (.inl hstatus)), hs.credit_eq_nil hrow (.inl hstatus)⟩
  · exact ⟨hs.debit_ne_nil hrow (.inl hcoherent.1),
      hs.movements_ne_nil hrow (show row.legReference .credit ≠ none from hcoherent.2.1),
      hrefund (by decide) (by decide)⟩
  · exact ⟨hs.debit_ne_nil hrow (.inr (.inr hstatus)), hs.credit_eq_nil hrow (.inr hstatus),
      hs.movements_ne_nil hrow (show row.legReference .refund ≠ none from hcoherent.2.1)⟩
  · exact ⟨hs.movements_eq_nil hrow fun hready : row.Ready .credit => hready hcoherent.2.2.1,
      hrefund (by decide) (by decide)⟩

/-- In every reachable state a payment has at most one movement a leg, with the
operation and the amount of that leg; a credit or a refund comes with its debit,
the two never both exist, and the status says which ones do. -/
theorem money_safety {maxAttempts : ℕ} {s : State} (h : Reachable (step maxAttempts) init s)
    {row : PaymentOrmEntity} (hrow : row ∈ s.payments.database.payments) :
    (∀ leg, (s.movements row.toPaymentColumns leg).length ≤ 1 ∧
      ∀ m ∈ s.movements row.toPaymentColumns leg,
        m.operation = leg.operation ∧ m.amount = row.amount) ∧
    (s.movements row.toPaymentColumns .credit ≠ [] ∨
      s.movements row.toPaymentColumns .refund ≠ [] →
        s.movements row.toPaymentColumns .debit ≠ []) ∧
    (s.movements row.toPaymentColumns .credit = [] ∨
      s.movements row.toPaymentColumns .refund = []) ∧
    Settled s row.toPaymentColumns := by
  have hs := invariant_of_reachable h
  have hfind : s.row row.reference = some row := hs.payments.database.unique.find_of_mem hrow
  refine ⟨fun leg => ⟨hs.movements_length _ leg, fun m hm => hs.origin_of_mem_movements hfind hm⟩,
    fun hmoved => ?_, ?_, hs.settled hfind⟩
  · exact hs.debit_ne_nil hfind
      (hmoved.imp (hs.ready_of_movements hfind) (hs.ready_of_movements hfind))
  · by_cases hrefund : s.movements row.toPaymentColumns .refund = []
    · exact .inr hrefund
    · exact .inl (hs.credit_eq_nil hfind (hs.ready_of_movements hfind hrefund))

def sampleCall (id : ℕ) (verdict : Verdict) : List Event :=
  [.send 0, .serve id verdict, .receive 0 Workers.sampleMoment.now]

def sampleQuery : Event := .internal (.query 0 Workers.sampleMoment .none)

def debitedRun : List Event :=
  [.internal (.initiate 0 Workers.sampleInput Workers.sampleReference Workers.sampleMoment .none),
    .internal (.start 0), sampleQuery, sampleQuery] ++
    sampleCall 0 (.apply Workers.sampleMovement.transactionReference 0)

/-- The destination is frozen: its credit is refused and the source refunded. -/
def compensatedRun : List Event :=
  debitedRun ++ [sampleQuery, sampleQuery] ++ sampleCall 1 (.refuse .walletFrozen) ++
    [sampleQuery, sampleQuery] ++
    sampleCall 2 (.apply Workers.sampleMovement.transactionReference 500) ++ [sampleQuery]

theorem compensatedRun_statuses :
    ∃ s, run (step 3) init compensatedRun = some s ∧
      s.payments.database.payments.map (·.status) = [.compensated] := by
  have h : (run (step 3) init compensatedRun).map
      (fun s => s.payments.database.payments.map (·.status)) = some [.compensated] := by
    decide +kernel
  obtain ⟨s, hs, hstatuses⟩ := Option.map_eq_some_iff.mp h
  exact ⟨s, hs, hstatuses⟩

theorem money_safety_compensatedRun :
    ∃ s, run (step 3) init compensatedRun = some s ∧
      s.payments.database.payments.map (·.status) = [.compensated] ∧
      ∀ row ∈ s.payments.database.payments, Settled s row.toPaymentColumns := by
  obtain ⟨s, hrun, hstatuses⟩ := compensatedRun_statuses
  exact ⟨s, hrun, hstatuses, fun row hrow => (money_safety ⟨_, hrun⟩ hrow).2.2.2⟩

end Platform

end Payments

end Paynad
