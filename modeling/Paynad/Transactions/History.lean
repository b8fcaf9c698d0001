import Paynad.Library.Paging
import Paynad.Shared.Pagination
import Paynad.Transactions.TransactionsService
import Mathlib.Data.Prod.Lex
import Mathlib.Data.String.Basic

/-!
# The history of the ledger

`TransactionsService.history` checks its query, reads one page of the rows that match it
and counts them all. `getManyAndCount` runs the two queries one after the other, each on
what is committed at its own instant.
-/

namespace Paynad

namespace Transactions

open Shared

structure ListTransactionsQuery extends PaginationQueryDto where
  userReference : Option String
  walletReference : Option String
  type : Option TransactionType
  deriving DecidableEq

def ListTransactionsQuery.valid (query : ListTransactionsQuery) : Bool :=
  query.toPaginationQueryDto.valid && query.userReference.all (referencePattern .USER) &&
    query.walletReference.all (referencePattern .WALLET)

structure HistoryFilter where
  userReference : Option String
  walletReference : Option String
  type : Option TransactionType
  deriving DecidableEq

inductive HistoryError where
  | validationFailed
  | unscopedHistory
  deriving DecidableEq

/-- A movement as the endpoint shows it; its two instants are left as they are. -/
structure TransactionResponse where
  reference : String
  transactionId : String
  paymentReference : String
  type : TransactionType
  walletReference : String
  userReference : String
  amount : ℤ
  currency : Currency
  description : String
  status : TransactionStatus
  occurredAt : ℤ
  recordedAt : Date
  deriving DecidableEq

def TransactionResponse.ofTransaction (transaction : Transaction) : TransactionResponse where
  reference := transaction.reference
  transactionId := transaction.transactionId
  paymentReference := transaction.paymentReference
  type := transaction.type
  walletReference := transaction.walletReference
  userReference := transaction.userReference
  amount := transaction.amount
  currency := transaction.currency
  description := transaction.description
  status := transaction.status
  occurredAt := transaction.occurredAt
  recordedAt := transaction.recordedAt

/-- A filter that is there: neither `null` nor the empty string. -/
def truthy (text : Option String) : Option String := text.filter fun text => text ≠ ""

/-- The `WHERE` of `findPage`. -/
def HistoryFilter.selects (filter : HistoryFilter) (row : Transaction) : Bool :=
  (truthy filter.walletReference).all (fun wallet => row.walletReference = wallet) &&
    (truthy filter.userReference).all (fun user => row.userReference = user) &&
    filter.type.all fun type => row.type = type

/-- The columns of the `ORDER BY` of `findPage`. -/
def Transaction.position (row : Transaction) : ℤ ×ₗ Date ×ₗ String :=
  toLex (row.occurredAt, toLex (row.recordedAt, row.id))

def matching (filter : HistoryFilter) (rows : List Transaction) : List Transaction :=
  rows.filter filter.selects

def findRows (filter : HistoryFilter) (pagination : ResolvedPagination)
    (rows : List Transaction) : List Transaction :=
  Paging.page Transaction.position (matching filter rows) pagination.skip pagination.perPage

def countRows (filter : HistoryFilter) (rows : List Transaction) : ℕ :=
  (matching filter rows).length

def ListTransactionsQuery.filter (query : ListTransactionsQuery) : HistoryFilter :=
  ⟨query.userReference, query.walletReference, query.type⟩

/-- `history` up to the queries of `findPage`. -/
def history (query : ListTransactionsQuery) :
    Except HistoryError (HistoryFilter × ResolvedPagination) :=
  if !query.valid then
    .error .validationFailed
  else if truthy query.userReference = none ∧ truthy query.walletReference = none then
    .error .unscopedHistory
  else
    .ok (query.filter, resolvePagination query.toPaginationQueryDto)

def answer (pagination : ResolvedPagination) (rows : List Transaction) (total : ℕ) :
    PaginatedData TransactionResponse :=
  .new (rows.map .ofTransaction) pagination.page pagination.perPage total

variable {query : ListTransactionsQuery} {filter : HistoryFilter}
  {pagination : ResolvedPagination} {rows : List Transaction} {row : Transaction}

theorem history_ok (h : history query = .ok (filter, pagination)) :
    filter = query.filter ∧ pagination = resolvePagination query.toPaginationQueryDto := by
  unfold history at h
  split_ifs at h
  obtain ⟨rfl, rfl⟩ := Prod.mk.inj (Except.ok.inj h)
  exact ⟨rfl, rfl⟩

theorem position_unique (h : Table.Unique Transaction.id rows) (filter : HistoryFilter) :
    ((matching filter rows).map Transaction.position).Nodup := by
  have hids : ((matching filter rows).map Transaction.id).Nodup :=
    h.sublist (List.filter_sublist.map _)
  refine List.Nodup.of_map (fun position => (ofLex (ofLex position).2).2) ?_
  rw [List.map_map]
  exact hids

end Transactions

end Paynad
