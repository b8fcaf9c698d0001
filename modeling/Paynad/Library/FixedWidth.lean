import Mathlib.Algebra.Group.Nat.Defs
import Mathlib.Data.List.Basic

/-!
# Numerals of a fixed width

A numeral of a fixed width is written in front of a text, its lowest digit first: each
further digit goes before the ones already there, and what does not fit in the width is
dropped. Where the digits increase with their values, numerals that fit are ordered as
their values are, whatever follows them.
-/

namespace FixedWidth

variable {α : Type*} {base width n m : ℕ} {digit : ℕ → α} {rest rest' : List α}

/-- The lowest `width` digits of `n`, in front of `rest`. -/
def numeral (base : ℕ) (digit : ℕ → α) : ℕ → ℕ → List α → List α
  | 0, _, rest => rest
  | width + 1, n, rest => numeral base digit width (n / base) (digit (n % base) :: rest)

@[simp] theorem numeral_zero : numeral base digit 0 n rest = rest := rfl

theorem numeral_succ :
    numeral base digit (width + 1) n rest =
      numeral base digit width (n / base) (digit (n % base) :: rest) := rfl

theorem numeral_append (rest : List α) :
    numeral base digit width n rest = numeral base digit width n [] ++ rest := by
  induction width generalizing n rest with
  | zero => rfl
  | succ width ih =>
      rw [numeral_succ, numeral_succ, ih, ih [digit (n % base)], List.append_assoc]
      rfl

theorem length_numeral : (numeral base digit width n rest).length = width + rest.length := by
  induction width generalizing n rest with
  | zero => rw [numeral_zero, Nat.zero_add]
  | succ width ih =>
      rw [numeral_succ, ih, List.length_cons]
      omega

theorem mem_numeral (hbase : 0 < base) {a : α} (h : a ∈ numeral base digit width n rest) :
    (∃ k < base, a = digit k) ∨ a ∈ rest := by
  induction width generalizing n rest with
  | zero => exact .inr h
  | succ width ih =>
      rcases ih h with hdigit | hmem
      · exact .inl hdigit
      · rcases List.mem_cons.mp hmem with rfl | hmem
        · exact .inl ⟨n % base, Nat.mod_lt n hbase, rfl⟩
        · exact .inr hmem

/-- Numerals that fit in the width are ordered as their values, whatever follows them. -/
theorem numeral_lt [LT α] (hdigit : ∀ i j, i < j → j < base → digit i < digit j)
    (h : n < m) (hm : m < base ^ width) :
    numeral base digit width n rest < numeral base digit width m rest' := by
  induction width generalizing n m rest rest' with
  | zero =>
      rw [Nat.pow_zero] at hm
      omega
  | succ width ih =>
      rw [numeral_succ, numeral_succ]
      have hbase : 0 < base := by
        by_contra hzero
        obtain rfl : base = 0 := by omega
        simp at hm
      rcases Nat.lt_or_eq_of_le (Nat.div_le_div_right (c := base) (Nat.le_of_lt h)) with hdiv | hdiv
      · refine ih hdiv (Nat.div_lt_of_lt_mul ?_)
        rwa [← Nat.pow_succ']
      · -- The higher digits are the same, so the lowest one decides.
        have hmod : n % base < m % base := by
          have hn := Nat.div_add_mod n base
          have hm := Nat.div_add_mod m base
          rw [hdiv] at hn
          omega
        rw [hdiv, numeral_append, numeral_append (digit (m % base) :: rest')]
        refine List.append_left_lt (List.cons_lt_cons_iff.mpr (.inl ?_))
        exact hdigit _ _ hmod (Nat.mod_lt m hbase)

end FixedWidth
