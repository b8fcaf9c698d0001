import Paynad.Payments.Domain.Reference
import Paynad.Shared.ReferenceUtil

/-!
# Generated references of the domain

`Reference.generate` writes a text and wraps it by the private constructor, without the
check of `Reference.of`. The draws of `random` are given by their index.
-/

namespace Paynad

namespace Payments

open Shared

namespace Reference

/-- `Math.floor(random() * 32) % 32`. -/
def randomIndex (draw : ℚ) : ℤ := (draw * 32).floor.tmod 32

def time (now : ℕ) : List Char := timeLoop alphabet timeLength now []

def body (random : ℕ → ℚ) : List Char :=
  randomLoop alphabet ((List.range randomLength).map fun index => randomIndex (random index))

def generate (family : ReferencePrefixName) (now : ℕ) (random : ℕ → ℚ) : String :=
  family.text ++ "_" ++ String.ofList (time now ++ body random)

theorem randomIndex_of_nonneg {draw : ℚ} (h : 0 ≤ draw) :
    randomIndex draw = ((draw * 32).floor.toNat % 32 : ℕ) := by
  have hfloor : 0 ≤ (draw * 32).floor := by
    refine Rat.le_floor_iff.mpr ?_
    exact Rat.mul_nonneg h (by decide)
  rw [randomIndex, Int.tmod_eq_emod_of_nonneg hfloor]
  omega

/-- A text in the form of a reference is one of its own family only. -/
theorem test_append {family family' : ReferencePrefixName} {body : List Char} :
    test family' (family.text ++ "_" ++ String.ofList body) = true ↔
      family' = family ∧ body.length = timeLength + randomLength ∧ ∀ c ∈ body, c ∈ alphabet := by
  have hfour : (family.text ++ "_").toList.length = 4 := by
    cases family <;> rfl
  have hfamily : (family.text ++ "_").toList = (family'.text ++ "_").toList ↔
      family' = family := by
    cases family <;> cases family' <;> decide
  simp only [test, String.toList_append (s := family.text ++ "_"), String.toList_ofList]
  rw [List.take_left' hfour, List.drop_left' hfour]
  simp only [Bool.and_eq_true, beq_iff_eq, hfamily, List.all_eq_true, List.contains_iff_mem,
    and_assoc]

end Reference

end Payments

end Paynad
