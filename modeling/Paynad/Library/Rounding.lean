import Mathlib.Algebra.Group.Nat.Defs
import Mathlib.Data.Int.Basic

/-!
# Integers in a binary floating-point format

A format with `p` significant bits keeps the `p` leading bits of an integer: the
others are rounded away, to the nearest and on a tie to the even neighbour. An
integer of at most `p` bits is kept as it is.
-/

namespace Rounding

variable {p : ℕ}

/-- `m / 2 ^ k`, rounded to the nearest integer, ties to even. -/
def divPow (m k : ℕ) : ℕ :=
  let quotient := m / 2 ^ k
  let remainder := m % 2 ^ k
  if 2 * remainder < 2 ^ k then
    quotient
  else if 2 * remainder = 2 ^ k then
    quotient + quotient % 2
  else
    quotient + 1

def excess (p m : ℕ) : ℕ := m.log2 + 1 - p

/-- The integer that the format has in the place of `x`. -/
def round (p : ℕ) (x : ℤ) : ℤ :=
  x.sign * (divPow x.natAbs (excess p x.natAbs) * 2 ^ excess p x.natAbs : ℕ)

theorem divPow_zero (m : ℕ) : divPow m 0 = m := by
  simp [divPow, Nat.mod_one]

theorem excess_eq_zero {m : ℕ} (hm : m ≠ 0) (h : m < 2 ^ p) : excess p m = 0 := by
  have hlog : m.log2 < p := (Nat.log2_lt hm).mpr h
  rw [excess]
  omega

theorem round_of_natAbs_lt {x : ℤ} (h : x.natAbs < 2 ^ p) : round p x = x := by
  rcases eq_or_ne x 0 with rfl | hx
  · exact Int.zero_mul _
  · rw [round, excess_eq_zero (Int.natAbs_ne_zero.mpr hx) h, divPow_zero, Nat.pow_zero,
      Nat.mul_one]
    exact Int.sign_mul_natAbs x

end Rounding
