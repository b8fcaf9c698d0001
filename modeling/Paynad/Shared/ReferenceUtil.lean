import Paynad.Library.FixedWidth
import Paynad.Shared.Validation

/-!
# Generated references

A generated reference is its family, an underscore, the time in ten characters of base 32
and sixteen random characters. The loops are those of both generators, the one of the
shared package and the one of the payments domain: each has an alphabet, a width and a
source of randomness of its own.
-/

namespace Paynad

namespace Shared

def charAt (text : List Char) : ℤ → List Char
  | .ofNat index => ((text[index]?).map fun c => [c]).getD "undefined".toList
  | .negSucc _ => "undefined".toList

def timeLoop (alphabet : List Char) : ℕ → ℕ → List Char → List Char
  | 0, _, time => time
  | index + 1, rest, time =>
      timeLoop alphabet index (rest / 32) (charAt alphabet (rest % 32 : ℕ) ++ time)

def randomLoop (alphabet : List Char) (indices : List ℤ) : List Char :=
  indices.foldl (fun body index => body ++ charAt alphabet index) []

namespace ReferenceUtil

def alphabet : List Char := "0123456789abcdefghjkmnpqrstvwxyz".toList

def timeLength : ℕ := 10

def randomLength : ℕ := referenceBodyLength - timeLength

def encodeTime (now : ℕ) : List Char := timeLoop alphabet timeLength now []

def encodeRandom (bytes : Vector UInt8 randomLength) : List Char :=
  randomLoop alphabet (bytes.toList.map fun byte : UInt8 => ((byte.toNat % 32 : ℕ) : ℤ))

end ReferenceUtil

open ReferenceUtil in
def generateReference (family : ReferencePrefix) (now : ℕ)
    (bytes : Vector UInt8 randomLength) : String :=
  family.text ++ "_" ++ String.ofList (encodeTime now ++ encodeRandom bytes)

/-! ## What the loops write -/

section

variable {alphabet : List Char} {n : ℕ}

def symbol (alphabet : List Char) (digit : ℕ) : Char := alphabet.getD digit '0'

theorem getElem?_symbol (h : n < alphabet.length) : alphabet[n]? = some (symbol alphabet n) := by
  rw [symbol, List.getD_eq_getElem?_getD, List.getElem?_eq_getElem h]
  rfl

theorem charAt_of_lt (h : n < alphabet.length) : charAt alphabet n = [symbol alphabet n] := by
  have hcharAt : charAt alphabet n =
      ((alphabet[n]?).map fun c => [c]).getD "undefined".toList := rfl
  rw [hcharAt, getElem?_symbol h]
  rfl

theorem symbol_mem (h : n < alphabet.length) : symbol alphabet n ∈ alphabet :=
  List.mem_of_getElem? (getElem?_symbol h)

theorem timeLoop_eq (hlength : alphabet.length = 32) {width rest : ℕ} {time : List Char} :
    timeLoop alphabet width rest time =
      FixedWidth.numeral 32 (symbol alphabet) width rest time := by
  induction width generalizing rest time with
  | zero => rfl
  | succ width ih =>
      have hdigit : rest % 32 < alphabet.length := by
        rw [hlength]
        exact Nat.mod_lt rest (by decide)
      rw [timeLoop, charAt_of_lt hdigit, ih]
      rfl

/-- The loop over the random characters writes one character of the alphabet for each index
that the alphabet has. -/
theorem randomLoop_eq {digits : List ℕ} (h : ∀ digit ∈ digits, digit < alphabet.length) :
    randomLoop alphabet (digits.map Nat.cast) = digits.map (symbol alphabet) := by
  have hsymbol : ∀ digit ∈ digits, charAt alphabet digit = [symbol alphabet digit] :=
    fun digit hdigit => charAt_of_lt (h digit hdigit)
  rw [randomLoop, ← List.flatMap_eq_foldl, List.flatMap_map, List.flatMap_congr hsymbol,
    ← List.map_eq_flatMap]

end

end Shared

end Paynad
