import Mathlib.Data.Rat.Defs

/-!
# JSON values, texts and the clock

Payloads cross the services as JSON, so the values a validator or a mapper reads
are modelled as they are at run time and not as their declared types promise.
The entries of an object are listed as they were added; `Json.objectEntries` is
the order in which JavaScript enumerates them. A number is a finite one, hence a
rational: a literal out of the range of a double, which is read as `Infinity`, is
left out.
-/

namespace Paynad

namespace Shared

inductive Json where
  | null
  | bool (value : Bool)
  | num (value : ℚ)
  | str (value : String)
  | arr (items : List Json)
  | obj (entries : List (String × Json))

abbrev JsonObject := List (String × Json)

namespace Json

/-- `value ?? fallback` on a property that may be absent. -/
def orElse (value : Option Json) (fallback : Json) : Json :=
  match value with
  | none => fallback
  | some null => fallback
  | some value => value

@[simp] theorem orElse_none (fallback : Json) : orElse none fallback = fallback := rfl

@[simp] theorem orElse_null (fallback : Json) :
    orElse (some null) fallback = fallback := rfl

def str? : Json → Option String
  | str value => some value
  | _ => none

def num? : Json → Option ℚ
  | num value => some value
  | _ => none

end Json

def codeUnits (char : Char) : List ℕ :=
  if char.toNat < 0x10000 then
    [char.toNat]
  else
    [0xD800 + (char.toNat - 0x10000) / 0x400, 0xDC00 + (char.toNat - 0x10000) % 0x400]

/-- The characters of `text.slice(0, limit)`, as UTF-8 carries them on: the half that is
left of a surrogate pair becomes U+FFFD. -/
def sliceChars : ℕ → List Char → List Char
  | _, [] => []
  | limit, char :: rest =>
      if (codeUnits char).length ≤ limit then
        char :: sliceChars (limit - (codeUnits char).length) rest
      else if limit = 0 then
        []
      else
        [Char.ofNat 0xFFFD]

/-- `text.slice(0, limit)`. -/
def slice (text : String) (limit : ℕ) : String := String.ofList (sliceChars limit text.toList)

theorem sliceChars_of_length_le {limit : ℕ} {chars : List Char}
    (h : (chars.flatMap codeUnits).length ≤ limit) : sliceChars limit chars = chars := by
  induction chars generalizing limit with
  | nil => rfl
  | cons char rest ih =>
      rw [List.flatMap_cons, List.length_append] at h
      rw [sliceChars, if_pos (by omega), ih (by omega)]

theorem slice_of_length_le {text : String} {limit : ℕ}
    (h : (text.toList.flatMap codeUnits).length ≤ limit) : slice text limit = text := by
  rw [slice, sliceChars_of_length_le h, String.ofList_toList]

-- The second character takes two code units, and is cut in two.
example : sliceChars 2 ['a', Char.ofNat 0x1F600, 'b'] = ['a', Char.ofNat 0xFFFD] := by decide

abbrev Date := ℕ

/-- The days before a month of a year that starts in March, as the calendar
algorithms count them. -/
def daysBeforeMonth (month : ℕ) : ℕ := (153 * month + 2) / 5

/-- The civil date of a day counted from the epoch: year, month and day. -/
def civilFromDays (days : ℕ) : ℕ × ℕ × ℕ :=
  let z := days + 719468
  let era := z / 146097
  let doe := z % 146097
  let yoe := (doe - doe / 1460 + doe / 36524 - doe / 146096) / 365
  let doy := doe - (365 * yoe + yoe / 4 - yoe / 100)
  let mp := (5 * doy + 2) / 153
  let day := doy - daysBeforeMonth mp + 1
  let month := if mp < 10 then mp + 3 else mp - 9
  let year := yoe + era * 400 + if month ≤ 2 then 1 else 0
  (year, month, day)

def padded (width n : ℕ) : String :=
  let digits := (Nat.repr n).toList
  String.ofList (List.replicate (width - digits.length) '0' ++ digits)

/-- `Date.prototype.toISOString`: a year past 9999 takes six digits and a sign. -/
def toISOString (date : Date) : String :=
  let (year, month, day) := civilFromDays (date / 86400000)
  let time := date % 86400000
  let yearText := if year ≤ 9999 then padded 4 year else "+" ++ padded 6 year
  yearText ++ "-" ++ padded 2 month ++ "-" ++ padded 2 day ++ "T" ++
    padded 2 (time / 3600000) ++ ":" ++ padded 2 (time / 60000 % 60) ++ ":" ++
    padded 2 (time / 1000 % 60) ++ "." ++ padded 3 (time % 1000) ++ "Z"

example : toISOString 1788689700000 = "2026-09-06T10:15:00.000Z" := by decide

end Shared

end Paynad
