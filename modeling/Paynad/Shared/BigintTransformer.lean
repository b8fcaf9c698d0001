import Paynad.Library.Rounding
import Paynad.Shared.Contract

/-!
# Reading a `bigint` column

The driver hands a `bigint` column over as its decimal text, and `Number` takes the double
nearest to it. A text stands here for its integer. An amount comes back as it is.
-/

namespace Paynad

namespace Shared

namespace BigintTransformer

/-- `bigintTransformer.to`. -/
def toColumn (value : ℤ) : ℤ := value

/-- `bigintTransformer.from`; a column that is null reads as zero. -/
def fromColumn : Option ℤ → ℤ
  | none => 0
  | some value => Rounding.round 53 value

theorem fromColumn_amount {amount : ℤ} (h : isValidAmount (.num amount) = true) :
    fromColumn (some (toColumn amount)) = amount := by
  obtain ⟨hmin, hmax, -⟩ := isValidAmount_int.mp h
  refine Rounding.round_of_natAbs_lt ?_
  rw [toColumn]
  omega

end BigintTransformer

end Shared

end Paynad
