import Paynad.Library.Transition
import Paynad.Transactions.TransactionsService

/-!
# The ledger under concurrent deliveries

Any number of calls of `record` are in progress at once, delivered by the queue or by
HTTP; a redelivery is another call. Every row remembers the call that appended it, which
the program does not. Whatever the schedule, a transaction id has at most one row, every
call that returns answers with that row, and at most one says that it created it.
-/

namespace Paynad

namespace Transactions

open Shared Transition

inductive Entry where
  | queue
  | http
  deriving DecidableEq, Repr

structure Call where
  entry : Entry
  request : RecordTransactionRequest
  stage : Stage

namespace Ledger

structure State where
  appends : List (ℕ × Transaction)
  calls : ℕ → Option Call

def init : State := ⟨[], fun _ => none⟩

def State.rows (s : State) : List Transaction := s.appends.map Prod.snd

def State.put (s : State) (c : ℕ) (call : Call) : State :=
  { s with calls := fun c' => if c' = c then some call else s.calls c' }

inductive Event where
  /-- A validated request reaches `record`. -/
  | deliver (c : ℕ) (entry : Entry) (request : RecordTransactionRequest)
  /-- The await of a call ends. -/
  | advance (c : ℕ) (generated : Generated) (fault : Fault)
  /-- The process of a call dies; after a COMMIT it has lost the answer as well. -/
  | crash (c : ℕ)

def step (timestamps : Timestamps) (s : State) : Event → Option State
  | .deliver c entry request =>
      match s.calls c with
      | none => some (s.put c ⟨entry, request, .looking⟩)
      | some _ => none
  | .advance c generated fault =>
      match s.calls c with
      | none => none
      | some call =>
          if call.stage.over then
            none
          else
            let ended := resume timestamps call.request s.rows generated fault call.stage
            some { s.put c { call with stage := ended.2 } with
              appends := s.appends ++ ended.1.toList.map fun row => (c, row) }
  | .crash c =>
      match s.calls c with
      | none => none
      | some call => if call.stage.over then none else some (s.put c { call with stage := .crashed })

/-! ## One step -/

section

variable {timestamps : Timestamps} {s t : State} {e : Event} {c c' : ℕ} {call : Call}
  {row : Transaction} {outcome : RecordOutcome}

@[simp] theorem put_appends (s : State) (c : ℕ) (call : Call) :
    (s.put c call).appends = s.appends := rfl

@[simp] theorem put_calls_self (s : State) (c : ℕ) (call : Call) :
    (s.put c call).calls c = some call := if_pos rfl

theorem put_calls_of_ne (s : State) (call : Call) (h : c' ≠ c) :
    (s.put c call).calls c' = s.calls c' := if_neg h

inductive Effect (timestamps : Timestamps) (s t : State) (e : Event) : Prop
  | delivered (c : ℕ) (entry : Entry) (request : RecordTransactionRequest)
      (hevent : e = .deliver c entry request) (hnew : s.calls c = none)
      (hstate : t = s.put c ⟨entry, request, .looking⟩)
  | moved (c : ℕ) (call : Call) (stage : Stage) (hcall : s.calls c = some call)
      (hover : call.stage.over = false)
      (hreturned : ∀ outcome, stage = .returned outcome → outcome.created = false ∧
        findByTransactionId s.rows call.request.transactionId = some outcome.transaction)
      (hstate : t = s.put c { call with stage := stage })
  | appended (c : ℕ) (call : Call) (generated : Generated) (fault : Fault) (row : Transaction)
      (stage : Stage) (hevent : e = .advance c generated fault) (hcall : s.calls c = some call)
      (hover : call.stage.over = false)
      (hrow : Transaction.ofRequest timestamps call.request generated = some row)
      (hnone : findByTransactionId s.rows row.transactionId = none)
      (hstage : stage = .returned ⟨row, true⟩ ∨
        ∃ error, fault = .lost error ∧ stage = catchError error)
      (hstate : t = { s.put c { call with stage := stage } with
        appends := s.appends ++ [(c, row)] })

theorem step_cases (h : step timestamps s e = some t) : Effect timestamps s t e := by
  cases e with
  | deliver c entry request =>
      simp only [step] at h
      split at h
      · next hnew =>
          exact .delivered c entry request rfl hnew (Option.some.inj h).symm
      · cases h
  | advance c generated fault =>
      simp only [step] at h
      split at h
      · cases h
      · next call hcall =>
          split_ifs at h with hover
          have hstate := (Option.some.inj h).symm
          rcases resume_cases timestamps call.request s.rows generated fault call.stage
            (Bool.eq_false_iff.mpr hover) with
            ⟨hnone, hreturned⟩ | ⟨row, hsome, hrow, hfree, hstage⟩
          · refine .moved c call _ hcall (Bool.eq_false_iff.mpr hover) hreturned ?_
            rw [hstate, hnone]
            simp [State.put]
          · refine .appended c call generated fault row _ rfl hcall (Bool.eq_false_iff.mpr hover)
              hrow hfree hstage ?_
            rw [hstate, hsome]
            rfl
  | crash c =>
      simp only [step] at h
      split at h
      · cases h
      · next call hcall =>
          split_ifs at h with hover
          exact .moved c call .crashed hcall (Bool.eq_false_iff.mpr hover) nofun
            (Option.some.inj h).symm

theorem calls_put {call' : Call} (h : (s.put c call).calls c' = some call') :
    c' = c ∧ call' = call ∨ c' ≠ c ∧ s.calls c' = some call' := by
  by_cases hc : c' = c
  · subst hc
    rw [put_calls_self] at h
    exact .inl ⟨rfl, (Option.some.inj h).symm⟩
  · rw [put_calls_of_ne s call hc] at h
    exact .inr ⟨hc, h⟩

theorem request_of_step (h : step timestamps s e = some t) (hcall : s.calls c = some call) :
    ∃ call', t.calls c = some call' ∧ call'.request = call.request ∧ call'.entry = call.entry ∧
      (call.stage.over = true → call' = call) := by
  have hput : ∀ {c' : ℕ} {call₁ : Call} {stage : Stage}, s.calls c' = some call₁ →
      call₁.stage.over = false → ∃ call', (s.put c' { call₁ with stage := stage }).calls c =
        some call' ∧ call'.request = call.request ∧ call'.entry = call.entry ∧
        (call.stage.over = true → call' = call) := by
    intro c' call₁ stage hcall₁ hover
    by_cases hc : c = c'
    · subst hc
      obtain rfl : call = call₁ := Option.some.inj (hcall.symm.trans hcall₁)
      exact ⟨_, put_calls_self _ _ _, rfl, rfl, fun h => absurd h (by rw [hover]; decide)⟩
    · exact ⟨call, (put_calls_of_ne _ _ hc).trans hcall, rfl, rfl, fun _ => rfl⟩
  cases step_cases h with
  | delivered c' entry request hevent hnew hstate =>
      subst hstate
      have hc : c ≠ c' := by
        rintro rfl
        rw [hnew] at hcall
        cases hcall
      exact ⟨call, (put_calls_of_ne _ _ hc).trans hcall, rfl, rfl, fun _ => rfl⟩
  | moved c' call₁ stage hcall₁ hover hreturned hstate =>
      subst hstate
      exact hput hcall₁ hover
  | appended c' call₁ generated fault row stage hevent hcall₁ hover hrow hnone hstage hstate =>
      subst hstate
      exact hput hcall₁ hover

theorem call_of_step (h : step timestamps s e = some t) (hcall : t.calls c = some call) :
    e = .deliver c call.entry call.request ∨
      ∃ call', s.calls c = some call' ∧ call'.request = call.request ∧
        call'.entry = call.entry := by
  have hput : ∀ {c' : ℕ} {call₁ : Call} {stage : Stage}, s.calls c' = some call₁ →
      (s.put c' { call₁ with stage := stage }).calls c = some call →
      ∃ call', s.calls c = some call' ∧ call'.request = call.request ∧
        call'.entry = call.entry := by
    intro c' call₁ stage hcall₁ hcall
    rcases calls_put hcall with ⟨rfl, rfl⟩ | ⟨-, hcall⟩
    · exact ⟨call₁, hcall₁, rfl, rfl⟩
    · exact ⟨call, hcall, rfl, rfl⟩
  cases step_cases h with
  | delivered c' entry request hevent hnew hstate =>
      subst hstate
      rcases calls_put hcall with ⟨rfl, rfl⟩ | ⟨-, hcall⟩
      · exact .inl hevent
      · exact .inr ⟨call, hcall, rfl, rfl⟩
  | moved c' call₁ stage hcall₁ hover hreturned hstate =>
      subst hstate
      exact .inr (hput hcall₁ hcall)
  | appended c' call₁ generated fault row stage hevent hcall₁ hover hrow hnone hstage hstate =>
      subst hstate
      exact .inr (hput hcall₁ hcall)

end

/-! ## What every schedule keeps -/

/-- One row a transaction id, each appended by a call that asked for it, and no answer but
with the row of its id. -/
structure Sound (timestamps : Timestamps) (s : State) : Prop where
  unique : Table.Unique (fun append : ℕ × Transaction => append.2.transactionId) s.appends
  origin : ∀ append ∈ s.appends, ∃ call generated, s.calls append.1 = some call ∧
    Transaction.ofRequest timestamps call.request generated = some append.2
  returned : ∀ c call outcome, s.calls c = some call → call.stage = .returned outcome →
    findByTransactionId s.rows call.request.transactionId = some outcome.transaction
  created : ∀ c call outcome, s.calls c = some call → call.stage = .returned outcome →
    outcome.created = true → (c, outcome.transaction) ∈ s.appends

theorem sound_init (timestamps : Timestamps) : Sound timestamps init where
  unique := List.nodup_nil
  origin _ h := absurd h List.not_mem_nil
  returned _ _ _ h := absurd h (Option.some_ne_none _).symm
  created _ _ _ h := absurd h (Option.some_ne_none _).symm

section

variable {timestamps : Timestamps} {s t : State} {e : Event} {es : List Event} {c : ℕ}
  {call : Call} {row : Transaction} {outcome : RecordOutcome}

theorem Sound.unique_rows (hs : Sound timestamps s) :
    Table.Unique (·.transactionId) s.rows := by
  have h := hs.unique
  rwa [Table.Unique, State.rows, List.map_map]

theorem findByTransactionId_append (hnone : findByTransactionId s.rows row.transactionId = none) :
    findByTransactionId (s.rows ++ [row]) row.transactionId = some row :=
  Table.find_insert_self hnone

theorem sound_step (hs : Sound timestamps s) (h : step timestamps s e = some t) :
    Sound timestamps t := by
  have horigin : ∀ append ∈ s.appends, ∃ call generated, t.calls append.1 = some call ∧
      Transaction.ofRequest timestamps call.request generated = some append.2 := by
    intro append hmem
    obtain ⟨call, generated, hcall, hrow⟩ := hs.origin append hmem
    obtain ⟨call', hcall', hrequest, -⟩ := request_of_step h hcall
    exact ⟨call', generated, hcall', by rw [hrequest]; exact hrow⟩
  cases step_cases h with
  | delivered c entry request hevent hnew hstate =>
      subst hstate
      refine ⟨hs.unique, horigin, ?_, ?_⟩
      · intro c' call' outcome hcall' hstage
        rcases calls_put hcall' with ⟨-, rfl⟩ | ⟨-, hcall'⟩
        · cases hstage
        · exact hs.returned c' call' outcome hcall' hstage
      · intro c' call' outcome hcall' hstage
        rcases calls_put hcall' with ⟨-, rfl⟩ | ⟨-, hcall'⟩
        · cases hstage
        · exact hs.created c' call' outcome hcall' hstage
  | moved c call stage hcall hover hreturned hstate =>
      subst hstate
      refine ⟨hs.unique, horigin, ?_, ?_⟩
      · intro c' call' outcome hcall' hstage
        rcases calls_put hcall' with ⟨-, rfl⟩ | ⟨-, hcall'⟩
        · exact (hreturned outcome hstage).2
        · exact hs.returned c' call' outcome hcall' hstage
      · intro c' call' outcome hcall' hstage hcreated
        rcases calls_put hcall' with ⟨-, rfl⟩ | ⟨-, hcall'⟩
        · rw [(hreturned outcome hstage).1] at hcreated
          cases hcreated
        · exact hs.created c' call' outcome hcall' hstage hcreated
  | appended c call generated fault row stage hevent hcall hover hrow hnone hstage hstate =>
      subst hstate
      have hid : row.transactionId = call.request.transactionId := transactionId_ofRequest hrow
      have hreturned : ∀ outcome, stage = .returned outcome → outcome = ⟨row, true⟩ := by
        intro outcome hreturns
        rcases hstage with rfl | ⟨error, -, rfl⟩
        · exact (Stage.returned.inj hreturns).symm
        · exact absurd hreturns catchError_ne_returned
      refine ⟨?_, ?_, ?_, ?_⟩
      · refine hs.unique.insert (Table.find_eq_none_iff.mpr fun append hmem => ?_)
        exact Table.find_eq_none_iff.mp hnone append.2 (List.mem_map_of_mem hmem)
      · intro append hmem
        rcases List.mem_append.mp hmem with hmem | hmem
        · exact horigin append hmem
        · obtain rfl := List.mem_singleton.mp hmem
          exact ⟨_, generated, put_calls_self _ _ _, hrow⟩
      · intro c' call' outcome hcall' hstage'
        simp only [State.rows, List.map_append, List.map_cons, List.map_nil]
        rcases calls_put hcall' with ⟨-, rfl⟩ | ⟨-, hcall'⟩
        · obtain rfl := hreturned outcome hstage'
          exact hid ▸ findByTransactionId_append hnone
        · exact Table.find_insert_of_find (hs.returned c' call' outcome hcall' hstage')
      · intro c' call' outcome hcall' hstage' hcreated
        rcases calls_put hcall' with ⟨rfl, rfl⟩ | ⟨-, hcall'⟩
        · obtain rfl := hreturned outcome hstage'
          exact List.mem_append_right _ (List.mem_singleton_self _)
        · exact List.mem_append_left _ (hs.created c' call' outcome hcall' hstage' hcreated)

theorem sound_of_reachable (h : Reachable (step timestamps) init s) : Sound timestamps s :=
  h.invariant (sound_init timestamps) fun _ _ _ hs hstep => sound_step hs hstep

/-- An id has one append. -/
theorem Sound.append_unique (hs : Sound timestamps s) {append append' : ℕ × Transaction}
    (h : append ∈ s.appends) (h' : append' ∈ s.appends)
    (hid : append.2.transactionId = append'.2.transactionId) : append = append' :=
  List.inj_on_of_nodup_map hs.unique h h' hid

end

end Ledger

end Transactions

end Paynad
