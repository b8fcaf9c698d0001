import Mathlib.Data.Nat.Notation

/-!
# Pagination

The contract of every paginated endpoint: the query, what it resolves to, and the answer
with its `has_next`.
-/

namespace Paynad

namespace Shared

def defaultPerPage : ℕ := 20

def maxPerPage : ℕ := 100

def maxPage : ℕ := 10000

structure PaginationQueryDto where
  page : Option ℕ
  perPage : Option ℕ
  deriving DecidableEq

def PaginationQueryDto.valid (query : PaginationQueryDto) : Bool :=
  query.page.all (fun page => decide (1 ≤ page) && decide (page ≤ maxPage)) &&
    query.perPage.all fun perPage => decide (1 ≤ perPage) && decide (perPage ≤ maxPerPage)

structure PaginatedData (α : Type) where
  items : List α
  page : ℕ
  perPage : ℕ
  total : ℕ
  hasNext : Bool

def PaginatedData.new {α : Type} (items : List α) (page perPage total : ℕ) :
    PaginatedData α where
  items := items
  page := page
  perPage := perPage
  total := total
  hasNext := decide (page * perPage < total)

structure ResolvedPagination where
  page : ℕ
  perPage : ℕ
  skip : ℕ
  deriving DecidableEq

def resolvePagination (query : PaginationQueryDto) : ResolvedPagination :=
  let page := query.page.getD 1
  let perPage := query.perPage.getD defaultPerPage
  ⟨page, perPage, (page - 1) * perPage⟩

end Shared

end Paynad
