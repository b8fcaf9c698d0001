import Mathlib.Data.Nat.Notation
import Mathlib.Logic.Function.Basic

/-!
# Advisory locks

A session that holds the lock of a key can take it again, and has to give it back as often;
the other sessions are refused meanwhile. The end of a session frees all it holds.
-/

def AdvisoryLocks (κ σ : Type*) := κ → Option (σ × ℕ)

namespace AdvisoryLocks

variable {κ σ : Type*} {locks : AdvisoryLocks κ σ} {session session' : σ} {k k' : κ} {n : ℕ}

def empty : AdvisoryLocks κ σ := fun _ => none

section

variable [DecidableEq κ]

def set (locks : AdvisoryLocks κ σ) (k : κ) (entry : Option (σ × ℕ)) : AdvisoryLocks κ σ :=
  Function.update locks k entry

@[simp] theorem set_self {entry : Option (σ × ℕ)} : locks.set k entry k = entry :=
  Function.update_self ..

theorem set_of_ne {entry : Option (σ × ℕ)} (h : k' ≠ k) : locks.set k entry k' = locks k' :=
  Function.update_of_ne h ..

end

section

variable [DecidableEq κ] [DecidableEq σ]

def tryLock (locks : AdvisoryLocks κ σ) (session : σ) (k : κ) : Bool × AdvisoryLocks κ σ :=
  match locks k with
  | none => (true, locks.set k (some (session, 1)))
  | some (holder, n) =>
      if holder = session then (true, locks.set k (some (session, n + 1))) else (false, locks)

/-- A session gives a lock back once; without the lock it changes nothing. -/
def unlock (locks : AdvisoryLocks κ σ) (session : σ) (k : κ) : AdvisoryLocks κ σ :=
  match locks k with
  | none => locks
  | some (holder, n) =>
      if holder = session then
        locks.set k (if n ≤ 1 then none else some (session, n - 1))
      else
        locks

/-- A lock is taken when it is free, or once more by its holder. -/
theorem tryLock_cases (locks : AdvisoryLocks κ σ) (session : σ) (k : κ) :
    locks k = none ∧ locks.tryLock session k = (true, locks.set k (some (session, 1))) ∨
    (∃ n, locks k = some (session, n)) ∨
    (∃ holder n, holder ≠ session ∧ locks k = some (holder, n)) ∧
      locks.tryLock session k = (false, locks) := by
  cases hk : locks k with
  | none => exact .inl ⟨rfl, by simp [tryLock, hk]⟩
  | some entry =>
      obtain ⟨holder, n⟩ := entry
      by_cases hholder : holder = session
      · exact .inr (.inl ⟨n, by rw [hholder]⟩)
      · exact .inr (.inr ⟨⟨holder, n, hholder, rfl⟩, by simp [tryLock, hk, hholder]⟩)

theorem unlock_once (h : locks k = some (session, 1)) :
    locks.unlock session k = locks.set k none := by
  simp [unlock, h]

end

def close (locks : AdvisoryLocks κ σ) (ended : σ → Bool) : AdvisoryLocks κ σ := fun k =>
  (locks k).filter fun entry => !ended entry.1

theorem close_eq_some {ended : σ → Bool} :
    locks.close ended k = some (session, n) ↔
      locks k = some (session, n) ∧ ended session = false := by
  simp [close, Option.filter_eq_some_iff]

end AdvisoryLocks
