import Paynad.Payments.Infrastructure.TransactionContext

/-!
# What an aggregate is based on

`History` follows a run of the repository: the rows committed for each payment, in
order, how many of them the last committed state of an object reflects, and where
its revision comes from. No step reads it. An object whose revision was set by a
transaction that rolled back is `orphaned`: its revision is that of no committed
row, until another worker commits that version.
-/

namespace Paynad

namespace Payments

open Shared Transition TypeOrmPaymentRepository

namespace TransactionContext

/-- The row of a payment that the open transaction of a worker has written. -/
def State.written (s : State) (worker : ℕ) (reference : String) : Option PaymentOrmEntity :=
  (s.transactions worker).bind fun writes => rowOf writes reference

/-- Where the revision of an object comes from. -/
inductive Standing where
  | committed
  /-- From a write of the open transaction of a worker. -/
  | tentative (worker : ℕ)
  /-- From a write that was rolled back. -/
  | orphaned
  deriving DecidableEq

structure History where
  /-- The rows committed for a payment, in the order of their commits. -/
  log : String → List PaymentOrmEntity
  /-- How many of them the last committed state of an object reflects. -/
  reflects : ℕ → ℕ
  standing : ℕ → Standing
  /-- The objects that the open transaction of a worker has saved. -/
  saved : ℕ → List ℕ

structure Observed where
  state : State
  history : History

namespace Observed

def init : Observed :=
  ⟨TransactionContext.init, ⟨fun _ => [], fun _ => 0, fun _ => .committed, fun _ => []⟩⟩

def latest (s : Observed) (worker id : ℕ) (object : Object) : Bool :=
  s.history.standing id = .tentative worker &&
    object.aggregate.revision =
      (s.state.written worker object.reference).map fun row => row.version

def after (s : Observed) : Event → History
  | .create _ id _ =>
      { s.history with
        reflects := Function.update s.history.reflects id 0
        standing := Function.update s.history.standing id .committed }
  | .hydrate worker id reference =>
      { s.history with
        reflects := Function.update s.history.reflects id (s.history.log reference).length
        standing := Function.update s.history.standing id
          (if (s.state.written worker reference).isSome then .tentative worker
            else .committed) }
  | .mutate _ _ => s.history
  | .start _ => s.history
  | .save worker id now =>
      match s.state.save worker id now with
      | some (.ok _) =>
          { s.history with
            standing := Function.update s.history.standing id (.tentative worker)
            saved := Function.update s.history.saved worker (id :: s.history.saved worker) }
      | _ => s.history
  | .commit worker =>
      let log := fun reference =>
        s.history.log reference ++ (s.state.written worker reference).toList
      { log := log
        reflects := fun id =>
          match s.state.objects id with
          | some object =>
              if s.latest worker id object then (log object.reference).length
              else s.history.reflects id
          | none => s.history.reflects id
        standing := fun id =>
          if s.history.standing id = .tentative worker then .committed
          else s.history.standing id
        saved := Function.update s.history.saved worker [] }
  | .rollback worker =>
      { s.history with
        standing := fun id =>
          if s.history.standing id = .tentative worker then .orphaned
          else s.history.standing id
        saved := Function.update s.history.saved worker [] }

def step (s : Observed) (e : Event) : Option Observed :=
  (TransactionContext.step s.state e).map fun state => ⟨state, s.after e⟩

end Observed

/-!
# Reads and saves
-/

section

variable {s : State} {worker id : ℕ} {now : Date}

/-- A worker sees its own writes over the committed rows. -/
theorem rowOf_view (s : State) (worker : ℕ) (reference : String) :
    rowOf (s.view worker) reference =
      (s.written worker reference).or (rowOf s.payments reference) := by
  unfold State.view State.written
  cases s.transactions worker with
  | none => rfl
  | some writes => exact Table.find_merge ..

/-- What a save that is accepted has found and writes. -/
structure Accepted (s : State) (worker id : ℕ) (object : Object) (row : PaymentOrmEntity)
    (t : Tracked) : Prop where
  present : s.objects id = some object
  owner : object.worker = worker
  available : ∀ k ∈ object.aggregate.rowKeys, s.locks.available worker k = true
  payment : t.payment = object.aggregate.payment
  revision : t.revision = some row.version
  reference : row.reference = object.reference
  found : (object.aggregate.revision = none ∧ rowOf (s.view worker) object.reference = none) ∨
    ∃ row₀, object.aggregate.revision = some row₀.version ∧
      rowOf (s.view worker) object.reference = some row₀ ∧ row.version = row₀.version + 1

theorem accepted_of_save {row : PaymentOrmEntity} {t : Tracked}
    (h : s.save worker id now = some (.ok (row, t))) :
    ∃ object, Accepted s worker id object row t := by
  unfold State.save at h
  split at h
  · rename_i writes object htransaction hobject
    split at h
    · rename_i howner
      split at h
      · cases h
      · rename_i rows t' hsave
        split at h
        · rename_i havailable
          obtain ⟨row', hrow', heq⟩ := Option.map_eq_some_iff.mp h
          obtain ⟨rfl, rfl⟩ := Prod.mk.inj (Except.ok.inj heq)
          refine ⟨object, hobject, howner, by simpa using havailable, ?_, ?_,
            reference_of_rowOf hrow', ?_⟩
          · rcases save_cases hsave with ⟨-, -, -, rfl⟩ | ⟨_, -, -, -, rfl⟩ <;> rfl
          · rcases save_cases hsave with ⟨-, hfree, rfl, rfl⟩ | ⟨row₀, -, hrow₀, rfl, rfl⟩
            · have hnone : rowOf (s.view worker) object.reference = none :=
                Table.find_eq_none_iff.mpr fun row hrow => (hfree row hrow).1
              cases hrow'.symm.trans (rowOf_insert_self hnone)
              rfl
            · cases hrow'.symm.trans (rowOf_update_self hrow₀)
              rfl
          · rcases save_cases hsave with ⟨hrevision, hfree, -, -⟩ | ⟨row₀, hrevision, hrow₀, rfl, -⟩
            · exact .inl ⟨hrevision, Table.find_eq_none_iff.mpr fun row hrow => (hfree row hrow).1⟩
            · cases hrow'.symm.trans (rowOf_update_self hrow₀)
              exact .inr ⟨row₀, hrevision, hrow₀, rfl⟩
        · cases h
    · cases h
  · cases h

/-- A save that is not accepted raises `ConcurrentPaymentError`. -/
theorem error_of_save {e : DomainError} (h : s.save worker id now = some (.error e)) :
    ∃ object, s.objects id = some object ∧ e = .concurrentPayment object.reference := by
  unfold State.save at h
  split at h
  · rename_i writes object htransaction hobject
    split at h
    · split at h
      · rename_i error hsave
        cases h
        exact ⟨object, hobject, (save_error hsave).1⟩
      · split at h
        · obtain ⟨row, -, heq⟩ := Option.map_eq_some_iff.mp h
          cases heq
        · cases h
    · cases h
  · cases h

end

end TransactionContext

end Payments

end Paynad
