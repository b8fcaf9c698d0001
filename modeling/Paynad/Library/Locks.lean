import Mathlib.Logic.Function.Basic

/-!
# Locks of sessions

A lock table says which session holds the lock of a key. A session takes a lock
that is free or already its own, and gives all of its locks back at once.
-/

def Locks (κ σ : Type*) := κ → Option σ

namespace Locks

variable {κ σ : Type*} {locks : Locks κ σ} {session session' : σ} {k k' : κ}

def empty : Locks κ σ := fun _ => none

section

variable [DecidableEq κ]

def acquire (locks : Locks κ σ) (session : σ) (k : κ) : Locks κ σ :=
  Function.update locks k (some session)

@[simp] theorem acquire_self : locks.acquire session k k = some session :=
  Function.update_self ..

theorem acquire_of_ne (h : k' ≠ k) : locks.acquire session k k' = locks k' :=
  Function.update_of_ne h ..

end

section

variable [DecidableEq σ]

def available (locks : Locks κ σ) (session : σ) (k : κ) : Bool :=
  locks k = none || locks k = some session

def release (locks : Locks κ σ) (session : σ) : Locks κ σ := fun k =>
  if locks k = some session then none else locks k

theorem available_of_free (h : locks k = none) : locks.available session k = true := by
  simp [available, h]

theorem eq_of_available (havailable : locks.available session k = true)
    (h : locks k = some session') : session' = session := by
  simpa [available, h] using havailable

theorem release_of_held (h : locks k = some session') (hne : session' ≠ session) :
    locks.release session k = some session' := by
  rw [release, h, if_neg (fun heq => hne (Option.some.inj heq))]

theorem held_of_release (h : locks.release session k = some session') :
    session' ≠ session ∧ locks k = some session' := by
  by_cases heq : locks k = some session
  · rw [release, if_pos heq] at h
    cases h
  · rw [release, if_neg heq] at h
    exact ⟨fun hsession => heq (by rw [h, hsession]), h⟩

end

section

variable [DecidableEq κ] [DecidableEq σ]

theorem acquire_of_held (havailable : locks.available session k = true)
    (h : locks k' = some session') : locks.acquire session k k' = some session' := by
  by_cases hk : k' = k
  · subst hk
    rw [acquire_self, eq_of_available havailable h]
  · rw [acquire_of_ne hk, h]

theorem available_acquire (h : locks.available session k = true) (k' : κ) :
    (locks.acquire session k').available session k = true := by
  by_cases hk : k = k'
  · subst hk
    simp [available]
  · simpa [available, acquire_of_ne hk] using h

def acquireAll (locks : Locks κ σ) (session : σ) (ks : List κ) : Locks κ σ :=
  ks.foldl (fun locks k => locks.acquire session k) locks

theorem acquireAll_of_held {ks : List κ} (havailable : ∀ k ∈ ks, locks.available session k = true)
    (h : locks k' = some session') : locks.acquireAll session ks k' = some session' := by
  induction ks generalizing locks with
  | nil => exact h
  | cons k ks ih =>
      refine ih (fun k'' hk'' => available_acquire ?_ k) (acquire_of_held ?_ h)
      · exact havailable k'' (List.mem_cons_of_mem _ hk'')
      · exact havailable k (List.mem_cons_self ..)

theorem acquireAll_of_mem {ks : List κ} (havailable : ∀ k ∈ ks, locks.available session k = true)
    (h : k ∈ ks) : locks.acquireAll session ks k = some session := by
  induction ks generalizing locks with
  | nil => cases h
  | cons k' ks ih =>
      have hrest : ∀ k'' ∈ ks, (locks.acquire session k').available session k'' = true :=
        fun k'' hk'' => available_acquire (havailable k'' (List.mem_cons_of_mem _ hk'')) k'
      have hfirst : (locks.acquire session k').acquireAll session ks k = some session := by
        rcases List.mem_cons.mp h with rfl | h
        · exact acquireAll_of_held hrest acquire_self
        · exact ih hrest h
      exact hfirst

omit [DecidableEq σ] in
theorem held_of_acquireAll {ks : List κ} (h : locks.acquireAll session ks k = some session') :
    locks k = some session' ∨ (session' = session ∧ k ∈ ks) := by
  induction ks generalizing locks with
  | nil => exact .inl h
  | cons k' ks ih =>
      have hrest : (locks.acquire session k').acquireAll session ks k = some session' := h
      rcases ih hrest with hheld | ⟨rfl, hmem⟩
      · by_cases hk : k = k'
        · subst hk
          rw [acquire_self] at hheld
          exact .inr ⟨(Option.some.inj hheld).symm, List.mem_cons_self ..⟩
        · rw [acquire_of_ne hk] at hheld
          exact .inl hheld
      · exact .inr ⟨rfl, List.mem_cons_of_mem _ hmem⟩

end

end Locks
