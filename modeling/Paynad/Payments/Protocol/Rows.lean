import Paynad.Payments.Infrastructure.Database

/-!
# Coherent rows and what an aggregate knows of its row

`Coherent` says which columns a row fills in each status and `journal` which
messages it has put into the outbox. Rows evolve: a row is never lost, its
identity never changes, and its columns change only with its version. An
aggregate held in memory is `Based` on its row when its revision is not ahead of
it, so its knowledge of the columns is good as long as nobody saved in between.
-/

namespace Paynad

namespace Payments

open Shared TypeOrmPaymentRepository

def Leg.movementType : Leg → MovementType
  | .debit => .debit
  | .credit => .credit
  | .refund => .refund

def Payment.legWallet (p : Payment) : Leg → Reference .wlt
  | .debit => p.source
  | .credit => p.destination
  | .refund => p.source

namespace PaymentColumns

/-- `Payment.legWallet`, in the columns of the payment. -/
def legWallet (c : PaymentColumns) : Leg → String
  | .debit => c.sourceWalletReference
  | .credit => c.destinationWalletReference
  | .refund => c.sourceWalletReference

/-- Which columns are filled in each status. -/
def Coherent (c : PaymentColumns) : Prop :=
  match c.status with
  | .pending =>
      c.debitTransactionReference = none ∧ c.creditTransactionReference = none ∧
        c.refundTransactionReference = none ∧ c.failureReason = none ∧ c.completedAt = none
  | .processing =>
      c.creditTransactionReference = none ∧ c.refundTransactionReference = none ∧
        c.failureReason = none ∧ c.completedAt = none
  | .compensationPending =>
      c.debitTransactionReference ≠ none ∧ c.failureReason ≠ none ∧
        c.creditTransactionReference = none ∧ c.refundTransactionReference = none ∧
        c.completedAt = none
  | .approved =>
      c.debitTransactionReference ≠ none ∧ c.creditTransactionReference ≠ none ∧
        c.completedAt ≠ none ∧ c.refundTransactionReference = none ∧ c.failureReason = none
  | .compensated =>
      c.debitTransactionReference ≠ none ∧ c.refundTransactionReference ≠ none ∧
        c.failureReason ≠ none ∧ c.completedAt ≠ none ∧ c.creditTransactionReference = none
  | .declined =>
      c.failureReason ≠ none ∧ c.completedAt ≠ none ∧ c.debitTransactionReference = none ∧
        c.creditTransactionReference = none ∧ c.refundTransactionReference = none

/-- What the outbox holds for a payment, as its consumers read it. -/
def journal (c : PaymentColumns) : List (String × Option LedgerLine) :=
  match c.status with
  | .approved =>
      [(transactionRecorded, some ("DEBIT", c.sourceWalletReference, (c.amount : ℚ))),
        (transactionRecorded, some ("CREDIT", c.destinationWalletReference, (c.amount : ℚ))),
        ("payment.approved", none)]
  | .compensated =>
      [(transactionRecorded, some ("REFUND", c.sourceWalletReference, (c.amount : ℚ))),
        ("payment.compensated", none)]
  | .declined => [("payment.declined", none)]
  | _ => []

def identity (c : PaymentColumns) : PaymentColumns :=
  { c with
    status := .pending
    failureReason := none
    debitTransactionReference := none
    creditTransactionReference := none
    refundTransactionReference := none
    completedAt := none }

/-- A movement out of `c` that the transition table and the columns allow. -/
def Advances (c c' : PaymentColumns) : Prop :=
  (c'.status = c.status ∨ c'.status ∈ allowedTransitions c.status) ∧
    (c.debitTransactionReference = none ∨
      c'.debitTransactionReference = c.debitTransactionReference)

theorem Advances.refl (c : PaymentColumns) : Advances c c := ⟨.inl rfl, .inr rfl⟩

end PaymentColumns

abbrev Payment.columns (p : Payment) : PaymentColumns := PaymentOrmMapper.toPersistence p

theorem Payment.debit_eq_none_iff {p : Payment} {c : PaymentColumns} (h : p.columns = c) :
    p.debitTransactionReference = none ↔ c.debitTransactionReference = none := by
  subst h
  exact Option.map_eq_none_iff.symm

theorem Payment.columns_initiate {input : InitiatePaymentInput} {reference : Reference .pay}
    {now : Date} {p : Payment} (h : Payment.initiate input reference now = .ok p) :
    p.columns.status = .pending ∧ p.columns.Coherent := by
  unfold Payment.initiate at h
  split at h <;> cases h
  exact ⟨rfl, by simp [PaymentColumns.Coherent]⟩

structure PaymentOrmEntity.Sound (row : PaymentOrmEntity) : Prop where
  written : ∃ p : Payment, row.toPaymentColumns = p.columns
  coherent : row.toPaymentColumns.Coherent

/-!
# How the rows evolve
-/

structure PaymentOrmEntity.Precedes (row row' : PaymentOrmEntity) : Prop where
  identity : row'.identity = row.identity
  version : row.version ≤ row'.version
  columns : row'.version = row.version → row'.toPaymentColumns = row.toPaymentColumns
  advances : row.toPaymentColumns.Advances row'.toPaymentColumns

theorem PaymentOrmEntity.Precedes.refl (row : PaymentOrmEntity) : row.Precedes row :=
  ⟨rfl, le_rfl, fun _ => rfl, .refl _⟩

def Evolves (rows rows' : List PaymentOrmEntity) : Prop :=
  ∀ reference row, rowOf rows reference = some row →
    ∃ row', rowOf rows' reference = some row' ∧ row.Precedes row'

theorem Evolves.refl (rows : List PaymentOrmEntity) : Evolves rows rows :=
  fun _ row hrow => ⟨row, hrow, .refl row⟩

theorem evolves_insert (rows : List PaymentOrmEntity) (row : PaymentOrmEntity) :
    Evolves rows (Table.insert rows row) :=
  fun _ row' hrow => ⟨row', Table.find_insert_of_find hrow, .refl row'⟩

theorem evolves_recordRecoveryAttempt (rows : List PaymentOrmEntity) (reference : String)
    (failure : Option String) (now : Date) :
    Evolves rows (recordRecoveryAttempt rows reference failure now) := by
  intro other row hrow
  rw [rowOf_recordRecoveryAttempt, hrow]
  by_cases h : other = reference
  · rw [if_pos h]
    exact ⟨_, rfl, rfl, le_rfl, fun _ => rfl, .refl _⟩
  · rw [if_neg h]
    exact ⟨row, rfl, .refl row⟩

/-!
# Aggregates based on their row
-/

/-- The revision of `t` is not ahead of its row, and the columns satisfy `Q` unless
somebody saved the row since. -/
def Based (rows : List PaymentOrmEntity) (t : Tracked) (Q : PaymentColumns → Prop) : Prop :=
  ∃ row revision, rowOf rows t.payment.reference.value = some row ∧
    t.revision = some revision ∧ row.identity = t.payment.columns.identity ∧
    revision ≤ row.version ∧ (revision = row.version → Q row.toPaymentColumns)

namespace Based

variable {rows rows' : List PaymentOrmEntity} {t : Tracked} {Q : PaymentColumns → Prop}

theorem imp {Q' : PaymentColumns → Prop} (h : Based rows t Q)
    (hQ : ∀ c, Q c → Q' c) : Based rows t Q' := by
  obtain ⟨row, revision, hrow, hrevision, hidentity, hle, hcolumns⟩ := h
  exact ⟨row, revision, hrow, hrevision, hidentity, hle, fun heq => hQ _ (hcolumns heq)⟩

theorem withPayment {p : Payment} (h : Based rows t Q)
    (hp : p.columns.identity = t.payment.columns.identity) :
    Based rows { t with payment := p } Q := by
  obtain ⟨row, revision, hrow, hrevision, hidentity, hle, hcolumns⟩ := h
  have hreference : p.reference.value = t.payment.reference.value :=
    congrArg PaymentColumns.reference hp
  exact ⟨row, revision, hreference ▸ hrow, hrevision, hidentity.trans hp.symm, hle, hcolumns⟩

theorem evolve (h : Based rows t Q) (hrows : Evolves rows rows') : Based rows' t Q := by
  obtain ⟨row, revision, hrow, hrevision, hidentity, hle, hcolumns⟩ := h
  obtain ⟨row', hrow', hprecedes⟩ := hrows _ _ hrow
  refine ⟨row', revision, hrow', hrevision, hprecedes.identity.trans hidentity,
    hle.trans hprecedes.version, ?_⟩
  intro heq
  have hversion : row'.version = row.version :=
    le_antisymm (heq ▸ hle) hprecedes.version
  rw [hprecedes.columns hversion]
  exact hcolumns (heq.trans hversion)

theorem updatedRow_columns {row : PaymentOrmEntity} {columns : PaymentColumns} (now : Date)
    (h : row.identity = columns.identity) :
    (updatedRow columns now row).toPaymentColumns = columns := by
  have hreference := congrArg PaymentColumns.reference h
  have htransactionId := congrArg PaymentColumns.transactionId h
  simp only [PaymentColumns.identity] at hreference htransactionId
  simp [updatedRow, hreference, htransactionId]

/-- A save that commits found the row as its base describes it. -/
theorem save {t' : Tracked} {now : Date} (h : Based rows t Q)
    (hsave : TypeOrmPaymentRepository.save rows t now = .ok (rows', t')) :
    ∃ row, rowOf rows t.payment.reference.value = some row ∧ Q row.toPaymentColumns ∧
      row.identity = t.payment.columns.identity ∧
      rows' = Table.modify (fun row => row.reference) rows t.payment.reference.value
        (updatedRow t.payment.columns now) ∧
      t' = { t with revision := some (row.version + 1) } := by
  obtain ⟨row, revision, hrow, hrevision, hidentity, hle, hcolumns⟩ := h
  rcases save_cases hsave with ⟨hnone, _⟩ | ⟨row', hrevision', hrow', hrows, ht⟩
  · rw [hnone] at hrevision
    cases hrevision
  · obtain rfl : row' = row := Option.some.inj (hrow'.symm.trans hrow)
    have heq : revision = row'.version :=
      Option.some.inj (hrevision.symm.trans hrevision')
    exact ⟨row', hrow, hcolumns heq, hidentity, hrows, ht⟩

/-- What the base allows, the save does: the rows evolve. -/
theorem evolves_save {t' : Tracked} {now : Date} (h : Based rows t Q)
    (hQ : ∀ c, Q c → c.Advances t.payment.columns)
    (hsave : TypeOrmPaymentRepository.save rows t now = .ok (rows', t')) :
    Evolves rows rows' := by
  obtain ⟨row, hrow, hcolumns, hidentity, rfl, -⟩ := h.save hsave
  intro other row' hrow'
  by_cases heq : other = t.payment.reference.value
  · subst heq
    obtain rfl : row = row' := Option.some.inj (hrow.symm.trans hrow')
    refine ⟨_, rowOf_update_self hrow, ?_⟩
    have hupdated := updatedRow_columns now hidentity
    refine ⟨?_, ?_, ?_, ?_⟩
    · rw [hupdated, hidentity]
    · exact Nat.le_succ _
    · intro hversion
      exact absurd hversion (Nat.succ_ne_self _)
    · rw [hupdated]
      exact hQ _ hcolumns
  · refine ⟨row', ?_, .refl row'⟩
    rw [rowOf_update_ne heq]
    exact hrow'

theorem saved {t' : Tracked} {now : Date} (h : Based rows t Q)
    (hsave : TypeOrmPaymentRepository.save rows t now = .ok (rows', t')) :
    t'.payment = t.payment ∧ Based rows' t' (· = t.payment.columns) := by
  obtain ⟨row, hrow, -, hidentity, rfl, rfl⟩ := h.save hsave
  have hupdated := updatedRow_columns now hidentity
  refine ⟨rfl, _, _, rowOf_update_self hrow, rfl, ?_, le_rfl, fun _ => hupdated⟩
  rw [hupdated]

/-- An aggregate whose save was refused never saves again. -/
theorem refused {now : Date} {e : DomainError} (h : Based rows t Q)
    (hsave : TypeOrmPaymentRepository.save rows t now = .error e) :
    Based rows t fun _ => False := by
  obtain ⟨row, revision, hrow, hrevision, hidentity, hle, -⟩ := h
  refine ⟨row, revision, hrow, hrevision, hidentity, hle, ?_⟩
  intro heq
  exact (save_error hsave).2 row (heq ▸ hrevision) hrow

end Based

/-- A row that reads back is the base of the aggregate it yields. -/
theorem based_of_find {rows : List PaymentOrmEntity} {reference : String} {t : Tracked}
    (hsound : ∀ row, rowOf rows reference = some row → row.Sound)
    (h : findByReference rows reference = .ok (some t)) :
    t.payment.reference.value = reference ∧ t.payment.events = [] ∧
      t.payment.columns.Coherent ∧ Based rows t (· = t.payment.columns) := by
  unfold findByReference at h
  cases hrow : rowOf rows reference with
  | none => simp [hrow] at h
  | some row =>
      obtain ⟨⟨p, hp⟩, hcoherent⟩ := hsound row hrow
      simp only [hrow, hydrate_of_written hp] at h
      cases h
      have hcolumns : ({ p with
          events := [], createdAt := row.createdAt, updatedAt := row.updatedAt } :
          Payment).columns = row.toPaymentColumns := hp.symm
      have hreference : p.reference.value = reference := by
        have hkey := Table.key_of_find hrow
        rw [← hkey, hp]
        rfl
      refine ⟨hreference, rfl, hcolumns ▸ hcoherent, row, row.version, ?_, rfl, ?_, le_rfl,
        fun _ => hcolumns.symm⟩
      · exact hreference ▸ hrow
      · rw [← hcolumns]

end Payments

end Paynad
