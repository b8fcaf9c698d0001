import Mathlib.Data.Rat.Defs
import Mathlib.Data.Rat.Lemmas

/-!
# Value objects of the payments domain

A `Reference` and a `Money` can only be obtained from the checks of the source:
each structure carries the fact its factory establishes, so a stored value needs
no second validation. The factories are the fallible `Reference.of` and
`Money.of`, and reading a value back through its factory is lossless.
-/

namespace Paynad

namespace Payments

inductive ReferencePrefixName where
  | usr
  | wlt
  | pay
  | trx
  deriving DecidableEq, Repr

def ReferencePrefixName.text : ReferencePrefixName → String
  | .usr => "usr"
  | .wlt => "wlt"
  | .pay => "pay"
  | .trx => "trx"

def alphabet : List Char := "0123456789abcdefghjkmnpqrstvwxyz".toList

def timeLength : ℕ := 10

def randomLength : ℕ := 16

/-- The errors of the two factories, `MalformedReferenceError` and
`InvalidMoneyError`; neither extends `DomainError`. -/
inductive MalformedValueError where
  | reference (family : ReferencePrefixName) (value : String)
  | notInteger (amount : ℚ)
  | belowMinimum (amount : ℤ)
  | offStep (amount : ℤ)
  deriving DecidableEq

def MalformedValueError.message : MalformedValueError → String
  | .reference family value =>
      "\"" ++ value ++ "\" is not a valid " ++ family.text ++ "_ reference"
  | .notInteger _ => "amount must be an integer"
  | .belowMinimum amount => "amount must be at least 5, got " ++ toString amount
  | .offStep amount => "amount must be a multiple of 5, got " ++ toString amount

namespace Reference

/-- The test of the regular expression `^prefix_[alphabet]{26}$`. -/
def test (family : ReferencePrefixName) (value : String) : Bool :=
  let chars := value.toList
  chars.take 4 == (family.text ++ "_").toList &&
    (chars.drop 4).length == timeLength + randomLength &&
    (chars.drop 4).all (alphabet.contains ·)

end Reference

structure Reference (family : ReferencePrefixName) where
  value : String
  wellFormed : Reference.test family value = true
  deriving DecidableEq

namespace Reference

variable {family : ReferencePrefixName}

@[ext] theorem ext {a b : Reference family} (h : a.value = b.value) : a = b := by
  cases a
  cases b
  simpa using h

def of (family : ReferencePrefixName) (value : String) :
    Except MalformedValueError (Reference family) :=
  if h : test family value = true then
    .ok ⟨value, h⟩
  else
    .error (.reference family value)

@[simp] theorem of_value (r : Reference family) : of family r.value = .ok r := by
  rw [of, dif_pos r.wellFormed]

theorem value_of_ok {value : String} {r : Reference family}
    (h : of family value = .ok r) : r.value = value := by
  unfold of at h
  split at h
  · cases h
    rfl
  · cases h

/-- Every reference is thirty characters long. -/
theorem length_toList (r : Reference family) : r.value.toList.length = 30 := by
  have h := r.wellFormed
  simp only [test, Bool.and_eq_true, beq_iff_eq] at h
  obtain ⟨⟨hhead, hlength⟩, -⟩ := h
  have hfour : (r.value.toList.take 4).length = 4 := by
    rw [hhead]
    cases family <;> decide
  simp only [List.length_take, List.length_drop, timeLength, randomLength]
    at hfour hlength
  omega

theorem value_ne_empty (r : Reference family) : r.value ≠ "" := by
  intro h
  have hlength := r.length_toList
  rw [h] at hlength
  exact absurd hlength (by decide)

end Reference

inductive Currency where
  | XOF
  deriving DecidableEq, Repr

def Currency.code : Currency → String
  | .XOF => "XOF"

structure Money where
  amount : ℤ
  currency : Currency
  minimum_le : 5 ≤ amount
  step_dvd : amount % 5 = 0
  deriving DecidableEq

namespace Money

@[ext] theorem ext {a b : Money} (hamount : a.amount = b.amount)
    (hcurrency : a.currency = b.currency) : a = b := by
  cases a
  cases b
  simp_all

theorem minimum_le_fiveHundred : (5 : ℤ) ≤ 500 := by decide

theorem step_dvd_fiveHundred : (500 : ℤ) % 5 = 0 := by decide

/-- `Money.of`, on any finite number. -/
def of (amount : ℚ) (currency : Currency) : Except MalformedValueError Money :=
  if amount.den ≠ 1 then
    .error (.notInteger amount)
  else if hmin : amount.num < 5 then
    .error (.belowMinimum amount.num)
  else if hstep : amount.num % 5 ≠ 0 then
    .error (.offStep amount.num)
  else
    .ok ⟨amount.num, currency, by omega, by omega⟩

@[simp] theorem of_amount (m : Money) :
    of (m.amount : ℚ) m.currency = .ok m := by
  have hmin := m.minimum_le
  have hstep := m.step_dvd
  unfold of
  rw [if_neg (by simp), dif_neg (by simpa using hmin), dif_neg (by simpa using hstep)]
  simp

end Money

end Payments

end Paynad
