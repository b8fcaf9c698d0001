import Mathlib.Algebra.Order.Group.Nat

/-!
# Loops that retry

A loop that makes attempts one after the other, goes on after an outcome worth a retry
and stops at the first other one, or when its retries are used up. `deciding` is the
attempt it stops at.
-/

namespace Retry

variable {ο : Type*} (retried : ο → Bool) (outcomes : ℕ → ο)

/-- The attempt that decides a loop that is at `attempt` and has `retries` left. -/
def deciding : ℕ → ℕ → ℕ
  | 0, attempt => attempt
  | retries + 1, attempt =>
      if retried (outcomes attempt) then deciding retries (attempt + 1) else attempt

variable {retried outcomes} {retries attempt : ℕ}

theorem deciding_of_retried (h : retried (outcomes attempt) = true) :
    deciding retried outcomes (retries + 1) attempt =
      deciding retried outcomes retries (attempt + 1) :=
  if_pos h

theorem deciding_of_not_retried (h : retried (outcomes attempt) = false) :
    deciding retried outcomes retries attempt = attempt := by
  cases retries with
  | zero => rfl
  | succ retries => rw [deciding, if_neg (by rw [h]; exact Bool.false_ne_true)]

theorem le_deciding : attempt ≤ deciding retried outcomes retries attempt := by
  induction retries generalizing attempt with
  | zero => exact le_rfl
  | succ retries ih =>
      unfold deciding
      split_ifs
      · exact Nat.le_of_succ_le ih
      · exact le_rfl

theorem deciding_le : deciding retried outcomes retries attempt ≤ attempt + retries := by
  induction retries generalizing attempt with
  | zero => exact le_rfl
  | succ retries ih =>
      unfold deciding
      split_ifs
      · have h : deciding retried outcomes retries (attempt + 1) ≤ attempt + 1 + retries := ih
        omega
      · omega

theorem retried_of_lt_deciding {n : ℕ} (hle : attempt ≤ n)
    (hlt : n < deciding retried outcomes retries attempt) : retried (outcomes n) = true := by
  induction retries generalizing attempt with
  | zero => exact absurd hlt (Nat.not_lt.mpr hle)
  | succ retries ih =>
      cases h : retried (outcomes attempt) with
      | false =>
          rw [deciding_of_not_retried h] at hlt
          exact absurd hlt (Nat.not_lt.mpr hle)
      | true =>
          rw [deciding_of_retried h] at hlt
          rcases Nat.eq_or_lt_of_le hle with rfl | hlt'
          · exact h
          · exact ih hlt' hlt

/-- A loop stops before its last attempt only at an outcome not worth a retry. -/
theorem not_retried_deciding
    (h : deciding retried outcomes retries attempt < attempt + retries) :
    retried (outcomes (deciding retried outcomes retries attempt)) = false := by
  induction retries generalizing attempt with
  | zero => exact absurd h (Nat.not_lt.mpr le_rfl)
  | succ retries ih =>
      cases hretried : retried (outcomes attempt) with
      | false => rw [deciding_of_not_retried hretried, hretried]
      | true =>
          rw [deciding_of_retried hretried] at h ⊢
          exact ih (by omega)

/-- An outcome not worth a retry decides as soon as the attempts before it were retried. -/
theorem deciding_eq {n : ℕ} (hle : attempt ≤ n) (hlast : n ≤ attempt + retries)
    (hbefore : ∀ m, attempt ≤ m → m < n → retried (outcomes m) = true)
    (hn : retried (outcomes n) = false ∨ n = attempt + retries) :
    deciding retried outcomes retries attempt = n := by
  rcases Nat.lt_trichotomy (deciding retried outcomes retries attempt) n with h | h | h
  · have hretried := hbefore _ le_deciding h
    have hstopped : retried (outcomes (deciding retried outcomes retries attempt)) = false :=
      not_retried_deciding (by omega)
    rw [hstopped] at hretried
    cases hretried
  · exact h
  · rcases hn with hn | rfl
    · rw [retried_of_lt_deciding hle h] at hn
      cases hn
    · exact absurd deciding_le (Nat.not_le.mpr h)

end Retry
