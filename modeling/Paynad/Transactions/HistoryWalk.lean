import Paynad.Transactions.History
import Paynad.Transactions.DeliveryOrder

/-!
# Paging through a ledger that grows

A client asks for the pages of a history from the first one on, until `has_next` is
false, while the ledger records. Between the two queries of a request, and between two
requests, rows may join anywhere in the order. A row that was there at the start is only
ever pushed back: as long as it is on none of the pages read, it comes after all of them
(`Ahead`), and the count of the last page would have seen it.
-/

namespace Paynad

namespace Transactions

open Shared Transition

namespace Ledger

variable {timestamps : Timestamps} {s t : State} {e : Event}

theorem rows_of_step (h : step timestamps s e = some t) :
    t.rows = s.rows ∨
      ∃ row, t.rows = s.rows ++ [row] ∧ ∀ other ∈ s.rows, other.id ≠ row.id := by
  cases e with
  | deliver c entry request =>
      simp only [step] at h
      split at h
      · exact .inl (Option.some.inj h ▸ rfl)
      · cases h
  | advance c generated fault =>
      simp only [step] at h
      split at h
      · cases h
      · next call hcall =>
          split_ifs at h
          obtain rfl := Option.some.inj h
          cases hwrites : (resume timestamps call.request s.rows generated fault call.stage).1 with
          | none =>
              left
              simp [State.rows]
          | some row =>
              right
              refine ⟨row, ?_, append_id (resume_append hwrites)⟩
              simp [State.rows]
  | crash c =>
      simp only [step] at h
      split at h
      · cases h
      · split_ifs at h
        exact .inl (Option.some.inj h ▸ rfl)

end Ledger

namespace HistoryWalk

inductive Stage where
  | asking (page : ℕ)
  /-- The row query of a page has returned. -/
  | counting (filter : HistoryFilter) (pagination : ResolvedPagination)
      (rows : List Transaction)
  /-- The last page had no next one. -/
  | finished
  | refused (error : HistoryError)

structure State where
  ledger : Ledger.State
  stage : Stage
  pages : List (PaginatedData TransactionResponse)

def start (ledger : Ledger.State) : State := ⟨ledger, .asking 1, []⟩

inductive Event where
  | ledger (event : Ledger.Event)
  /-- The row query of the page asked for. -/
  | rows
  /-- The count query, and the answer. -/
  | count
  /-- The answer without a count query: a page that is not full ends the rows. -/
  | infer

def request (query : ListTransactionsQuery) (page : ℕ) : ListTransactionsQuery :=
  { query with page := some page }

def State.fetch (s : State) (filter : HistoryFilter) (pagination : ResolvedPagination) : State :=
  { s with stage := .counting filter pagination (findRows filter pagination s.ledger.rows) }

def State.read (s : State) (data : PaginatedData TransactionResponse) : State :=
  { s with
    pages := s.pages ++ [data]
    stage := if data.hasNext then .asking (data.page + 1) else .finished }

def step (timestamps : Timestamps) (query : ListTransactionsQuery) (s : State) :
    Event → Option State
  | .ledger event =>
      (Ledger.step timestamps s.ledger event).map fun ledger => { s with ledger := ledger }
  | .rows =>
      match s.stage with
      | .asking page =>
          match history (request query page) with
          | .error error => some { s with stage := .refused error }
          | .ok (filter, pagination) => some (s.fetch filter pagination)
      | _ => none
  | .count =>
      match s.stage with
      | .counting filter pagination rows =>
          some (s.read (answer pagination rows (countRows filter s.ledger.rows)))
      | _ => none
  | .infer =>
      match s.stage with
      | .counting _ pagination rows =>
          if rows.length < pagination.perPage then
            some (s.read (answer pagination rows (pagination.skip + rows.length)))
          else
            none
      | _ => none

/-! ## The steps of the client -/

variable {timestamps : Timestamps} {query : ListTransactionsQuery} {s t : State} {e : Event}
  {es : List Event} {ledger : Ledger.State} {row : Transaction} {page : ℕ}

def pagination (query : ListTransactionsQuery) (page : ℕ) : ResolvedPagination :=
  resolvePagination (request query page).toPaginationQueryDto

def perPage (query : ListTransactionsQuery) : ℕ := query.perPage.getD defaultPerPage

/-- The total that an answer carries: what is committed now, or the end of a page that is
not full. -/
def Total (filter : HistoryFilter) (pagination : ResolvedPagination) (rows : List Transaction)
    (s : State) (total : ℕ) : Prop :=
  total = countRows filter s.ledger.rows ∨
    rows.length < pagination.perPage ∧ total = pagination.skip + rows.length

inductive Effect (timestamps : Timestamps) (query : ListTransactionsQuery) (s t : State) : Prop
  | recorded (event : Ledger.Event) (ledger : Ledger.State)
      (hstep : Ledger.step timestamps s.ledger event = some ledger)
      (hstate : t = { s with ledger := ledger })
  | refused (error : HistoryError) (hstate : t = { s with stage := .refused error })
  | fetched (page : ℕ) (hstage : s.stage = .asking page)
      (hstate : t = s.fetch query.filter (pagination query page))
  | answered (filter : HistoryFilter) (pagination : ResolvedPagination)
      (rows : List Transaction) (total : ℕ)
      (hstage : s.stage = .counting filter pagination rows)
      (htotal : Total filter pagination rows s total)
      (hstate : t = s.read (answer pagination rows total))

theorem step_cases (h : step timestamps query s e = some t) : Effect timestamps query s t := by
  cases e with
  | ledger event =>
      obtain ⟨ledger, hstep, rfl⟩ := Option.map_eq_some_iff.mp h
      exact .recorded event ledger hstep rfl
  | rows =>
      simp only [step] at h
      split at h
      · next page hstage =>
          split at h
          · exact .refused _ (Option.some.inj h).symm
          · next filter resolved hok =>
              obtain ⟨rfl, rfl⟩ := history_ok hok
              exact .fetched page hstage (Option.some.inj h).symm
      · cases h
  | count =>
      simp only [step] at h
      split at h
      · next filter resolved rows hstage =>
          exact .answered filter resolved rows _ hstage (.inl rfl) (Option.some.inj h).symm
      · cases h
  | infer =>
      simp only [step] at h
      split at h
      · next filter resolved rows hstage =>
          split_ifs at h with hshort
          exact .answered filter resolved rows _ hstage (.inr ⟨hshort, rfl⟩)
            (Option.some.inj h).symm
      · cases h

/-! ## No row is missed -/

def rank (query : ListTransactionsQuery) (s : State) (row : Transaction) : ℕ :=
  Paging.rank Transaction.position (matching query.filter s.ledger.rows) row

/-- Where a row stands that none of the pages has shown: after all of them, or on the one
that is being read. -/
def Ahead (query : ListTransactionsQuery) (s : State) (row : Transaction) : Stage → Prop
  | .asking page => 1 ≤ page ∧ (page - 1) * perPage query ≤ rank query s row
  | .counting filter resolved rows => filter = query.filter ∧ ∃ page, 1 ≤ page ∧
      resolved = pagination query page ∧ (row ∈ rows ∨
        rows.length = perPage query ∧ page * perPage query ≤ rank query s row)
  | .finished => False
  | .refused _ => True

theorem skip_add_perPage (query : ListTransactionsQuery) (h : 1 ≤ page) :
    (page - 1) * perPage query + perPage query = page * perPage query := by
  rw [← Nat.succ_mul, Nat.succ_eq_add_one, Nat.sub_add_cancel h]

/-- Rows that are recorded push a row back. -/
theorem rank_recorded (query : ListTransactionsQuery) {event : Ledger.Event}
    (hstep : Ledger.step timestamps s.ledger event = some ledger) :
    row ∈ s.ledger.rows → row ∈ ledger.rows ∧
      rank query s row ≤ rank query { s with ledger := ledger } row := by
  intro hmem
  rcases Ledger.rows_of_step hstep with hsame | ⟨new, happend, -⟩
  · rw [hsame]
    exact ⟨hmem, (congrArg (fun rows => Paging.rank Transaction.position
      (matching query.filter rows) row) hsame).ge⟩
  · refine ⟨?_, ?_⟩
    · rw [happend]
      exact List.mem_append_left _ hmem
    · rw [rank, rank, happend, matching, matching, List.filter_append]
      exact Paging.rank_le_rank_append

theorem Ahead.recorded {event : Ledger.Event}
    (hstep : Ledger.step timestamps s.ledger event = some ledger) (hmem : row ∈ s.ledger.rows)
    {stage : Stage} (h : Ahead query s row stage) :
    Ahead query { s with ledger := ledger } row stage := by
  have hrank := (rank_recorded query hstep hmem).2
  cases stage with
  | asking page => exact ⟨h.1, h.2.trans hrank⟩
  | counting filter resolved rows =>
      obtain ⟨hfilter, page, hpage, hresolved, hrow⟩ := h
      refine ⟨hfilter, page, hpage, hresolved, ?_⟩
      exact hrow.imp_right fun hfull => ⟨hfull.1, hfull.2.trans hrank⟩
  | finished => exact h
  | refused error => trivial

/-- A row ahead of a page is on it, or behind a full page. -/
theorem Ahead.fetched (hunique : Table.Unique Transaction.id s.ledger.rows)
    (hmem : row ∈ s.ledger.rows) (hselects : query.filter.selects row = true)
    (h : Ahead query s row (.asking page)) :
    Ahead query (s.fetch query.filter (pagination query page)) row
      (s.fetch query.filter (pagination query page)).stage := by
  obtain ⟨hpage, hskip⟩ := h
  have hpositions := position_unique hunique query.filter
  have hmatching : row ∈ matching query.filter s.ledger.rows :=
    List.mem_filter.mpr ⟨hmem, hselects⟩
  have hnext : (page - 1) * perPage query + perPage query = page * perPage query :=
    skip_add_perPage query hpage
  refine ⟨rfl, page, hpage, rfl, ?_⟩
  rcases Nat.lt_or_ge (rank query s row) (page * perPage query) with hlt | hge
  · rw [← hnext] at hlt
    exact .inl (Paging.mem_page hpositions hmatching hskip hlt)
  · refine .inr ⟨?_, hge⟩
    rw [← hnext] at hge
    exact Paging.length_page_of_le_rank hpositions hmatching hge

/-- A row that the last page has not shown is counted, so that there is a next page. -/
theorem Ahead.answered {filter : HistoryFilter} {resolved : ResolvedPagination}
    {rows : List Transaction} {total : ℕ}
    (hunique : Table.Unique Transaction.id s.ledger.rows) (hmem : row ∈ s.ledger.rows)
    (hselects : query.filter.selects row = true)
    (h : Ahead query s row (.counting filter resolved rows))
    (htotal : Total filter resolved rows s total) :
    (∃ data ∈ (s.read (answer resolved rows total)).pages,
      TransactionResponse.ofTransaction row ∈ data.items) ∨
    Ahead query (s.read (answer resolved rows total)) row
      (s.read (answer resolved rows total)).stage := by
  obtain ⟨rfl, page, hpage, rfl, hrow | ⟨hfull, hbehind⟩⟩ := h
  · exact .inl ⟨_, List.mem_append_right _ (List.mem_singleton_self _),
      List.mem_map_of_mem hrow⟩
  · right
    have hmatching : row ∈ matching query.filter s.ledger.rows :=
      List.mem_filter.mpr ⟨hmem, hselects⟩
    have hcount : rank query s row < countRows query.filter s.ledger.rows :=
      Paging.rank_lt_length (position_unique hunique query.filter) hmatching
    have hlt : page * perPage query < total := by
      rcases htotal with rfl | ⟨hshort, -⟩
      · omega
      · have hperPage : (pagination query page).perPage = perPage query := rfl
        omega
    have hnext : (answer (pagination query page) rows total).hasNext = true := decide_eq_true hlt
    simp only [State.read, hnext, if_true]
    exact ⟨Nat.le_add_left .., hbehind⟩

def inOrder (query : ListTransactionsQuery) (rows : List Transaction) : List Transaction :=
  Paging.ordered Transaction.position (matching query.filter rows)

def State.items (s : State) : List TransactionResponse :=
  s.pages.flatMap PaginatedData.items

def Shown (query : ListTransactionsQuery) (table : List Transaction)
    (items : List TransactionResponse) (page : ℕ) : Prop :=
  1 ≤ page ∧ (page - 1) * perPage query ≤ countRows query.filter table ∧
    items = ((inOrder query table).take ((page - 1) * perPage query)).map
      TransactionResponse.ofTransaction

/-- Where a walk stands that has shown some items of a table that stays as it is. -/
def Reads (query : ListTransactionsQuery) (table : List Transaction)
    (items : List TransactionResponse) : Stage → Prop
  | .asking page => Shown query table items page
  | .counting filter resolved rows => filter = query.filter ∧ ∃ page,
      Shown query table items page ∧ resolved = pagination query page ∧
      rows = findRows query.filter (pagination query page) table
  | .finished => items = (inOrder query table).map TransactionResponse.ofTransaction
  | .refused _ => True

theorem length_inOrder (query : ListTransactionsQuery) (rows : List Transaction) :
    (inOrder query rows).length = countRows query.filter rows :=
  Paging.length_ordered ..

theorem total_eq (hshown : Shown query s.ledger.rows s.items page)
    {rows : List Transaction} {total : ℕ}
    (hrows : rows = findRows query.filter (pagination query page) s.ledger.rows)
    (htotal : Total query.filter (pagination query page) rows s total) :
    total = countRows query.filter s.ledger.rows := by
  rcases htotal with htotal | ⟨hshort, htotal⟩
  · exact htotal
  · have hlength : rows.length = min (perPage query)
        (countRows query.filter s.ledger.rows - (page - 1) * perPage query) := by
      rw [hrows]
      exact Paging.length_page
    have hperPage : (pagination query page).perPage = perPage query := rfl
    have hskip : (pagination query page).skip = (page - 1) * perPage query := rfl
    have hle := hshown.2.1
    rw [hperPage] at hshort
    rw [htotal, hskip]
    omega

theorem items_read {rows : List Transaction} (total : ℕ)
    (hshown : Shown query s.ledger.rows s.items page)
    (hrows : rows = findRows query.filter (pagination query page) s.ledger.rows) :
    (s.read (answer (pagination query page) rows total)).items =
      ((inOrder query s.ledger.rows).take (page * perPage query)).map
        TransactionResponse.ofTransaction := by
  have hitems : (s.read (answer (pagination query page) rows total)).items =
      s.items ++ rows.map TransactionResponse.ofTransaction := by
    simp [State.items, State.read, answer, PaginatedData.new]
  have hnext := skip_add_perPage query hshown.1
  rw [hitems, hshown.2.2, hrows, ← List.map_append, ← hnext]
  exact congrArg _ (Paging.take_append_page ..)

theorem Reads.answered {filter : HistoryFilter} {resolved : ResolvedPagination}
    {rows : List Transaction} {total : ℕ}
    (h : Reads query s.ledger.rows s.items (.counting filter resolved rows))
    (htotal : Total filter resolved rows s total) :
    Reads query s.ledger.rows (s.read (answer resolved rows total)).items
      (s.read (answer resolved rows total)).stage := by
  obtain ⟨rfl, page, hshown, rfl, hrows⟩ := h
  have hcount := total_eq hshown hrows htotal
  have hitems := items_read total hshown hrows
  rcases Nat.lt_or_ge (page * perPage query) total with hlt | hge
  · have hnext : (answer (pagination query page) rows total).hasNext = true := decide_eq_true hlt
    have hstage : (s.read (answer (pagination query page) rows total)).stage =
        .asking (page + 1) := by
      rw [State.read, hnext]
      rfl
    rw [hstage]
    refine ⟨Nat.le_add_left .., ?_, hitems⟩
    rw [Nat.add_sub_cancel]
    exact hlt.le.trans hcount.le
  · have hlast : (answer (pagination query page) rows total).hasNext = false :=
      decide_eq_false (Nat.not_lt.mpr hge)
    have hstage : (s.read (answer (pagination query page) rows total)).stage = .finished := by
      rw [State.read, hlast]
      rfl
    rw [hstage]
    refine hitems.trans (congrArg _ (List.take_of_length_le ?_))
    rw [length_inOrder, ← hcount]
    exact hge

end HistoryWalk

end Transactions

end Paynad
