import Paynad.Shared.Contract

/-!
# Validation of request bodies

The decorators of the shared package as rules on one property of a body, and the two
ways a body is validated: by the handler of a queue, which ignores unknown
properties, and by the pipe of the controllers, which refuses them. The texts of
the failures are left out; the properties at fault are not.
-/

namespace Paynad

namespace Shared

/-- `\p{L}` and `\p{N}`, as the Unicode tables of the runtime have them. -/
structure Unicode where
  letter : Char → Bool
  number : Char → Bool
  letter_of_isAlpha : ∀ c : Char, c.isAlpha = true → letter c = true

def Unicode.ascii : Unicode where
  letter := Char.isAlpha
  number := Char.isDigit
  letter_of_isAlpha _ h := h

/-! ## Patterns -/

inductive ReferencePrefix where
  | USER
  | WALLET
  | PAYMENT
  | TRANSACTION
  deriving DecidableEq, Repr

def ReferencePrefix.text : ReferencePrefix → String
  | .USER => "usr"
  | .WALLET => "wlt"
  | .PAYMENT => "pay"
  | .TRANSACTION => "trx"

def referenceBodyLength : ℕ := 26

def isReferenceBodyChar (c : Char) : Bool :=
  ('0' ≤ c && c ≤ '9') || ('a' ≤ c && c ≤ 'h') || c == 'j' || c == 'k' || c == 'm' ||
    c == 'n' || ('p' ≤ c && c ≤ 't') || ('v' ≤ c && c ≤ 'z')

def referencePattern (family : ReferencePrefix) (value : String) : Bool :=
  let chars := value.toList
  chars.take 4 == (family.text ++ "_").toList &&
    (chars.drop 4).length == referenceBodyLength && (chars.drop 4).all isReferenceBodyChar

def transactionIdMinLength : ℕ := 8

def transactionIdMaxLength : ℕ := 64

def isTransactionIdChar (c : Char) : Bool :=
  c.isAlphanum || c == ':' || c == '_' || c == '-'

def transactionIdRegex (value : String) : Bool :=
  decide (transactionIdMinLength ≤ value.toList.length) &&
    decide (value.toList.length ≤ transactionIdMaxLength) &&
    value.toList.all isTransactionIdChar

def descriptionMaxLength : ℕ := 255

def descriptionPunctuation : List Char := " .,:;!?'\"()-+@".toList

def safeDescriptionRegex (unicode : Unicode) (value : String) : Bool :=
  value.toList.all fun c =>
    unicode.letter c || unicode.number c || descriptionPunctuation.contains c

/-! ## Decorators -/

/-- A property of a body with the conjunction of its decorators; `none` is undefined. -/
structure Rule where
  property : String
  accepts : Option Json → Bool

def isString : Option Json → Bool
  | some (.str _) => true
  | _ => false

def matchesRegex (regex : String → Bool) : Option Json → Bool
  | some (.str value) => regex value
  | _ => false

def isNotEmpty : Option Json → Bool
  | none => false
  | some .null => false
  | some (.str value) => value != ""
  | some _ => true

/-- `Length`; a string is as long as it has code points. -/
def hasLength (least most : ℕ) : Option Json → Bool
  | some (.str value) =>
      decide (least ≤ value.toList.length) && decide (value.toList.length ≤ most)
  | _ => false

def isEnum (values : List String) : Option Json → Bool
  | some (.str value) => values.contains value
  | _ => false

def isObject : Option Json → Bool
  | some (.obj _) => true
  | _ => false

/-- `IsOptional` with `ValidateIf`: an absence or an explicit null skips the rest. -/
def isOptional (accepts : Option Json → Bool) : Option Json → Bool
  | none => true
  | some .null => true
  | value => accepts value

namespace Rule

def isTransactionId (property : String) : Rule :=
  ⟨property, fun value => isString value && matchesRegex transactionIdRegex value⟩

def isReference (family : ReferencePrefix) (property : String) : Rule :=
  ⟨property, fun value => isString value && matchesRegex (referencePattern family) value⟩

def isAmount (property : String) : Rule :=
  ⟨property, fun value => value.any isValidAmount⟩

def isCurrency (property : String) : Rule :=
  ⟨property, fun value => isString value && hasLength 3 3 value && isEnum ["XOF"] value⟩

def isSafeDescription (unicode : Unicode) (property : String) : Rule :=
  ⟨property, fun value => isString value && isNotEmpty value &&
    hasLength 0 descriptionMaxLength value &&
    matchesRegex (safeDescriptionRegex unicode) value⟩

@[simp] theorem property_isTransactionId (property : String) :
    (isTransactionId property).property = property := rfl

@[simp] theorem property_isReference (family : ReferencePrefix) (property : String) :
    (isReference family property).property = property := rfl

@[simp] theorem property_isAmount (property : String) :
    (isAmount property).property = property := rfl

@[simp] theorem property_isCurrency (property : String) :
    (isCurrency property).property = property := rfl

@[simp] theorem property_isSafeDescription (unicode : Unicode) (property : String) :
    (isSafeDescription unicode property).property = property := rfl

end Rule

/-! ## Bodies -/

/-- The properties at fault in an object, as `validate` reports them. -/
def invalidProperties (rules : List Rule) (entries : JsonObject) : List String :=
  (rules.filter fun rule => !rule.accepts (entries.lookup rule.property)).map (·.property)

/-- `createValidationPipe`: every class has required properties, so a body that is not an
object is refused. -/
def pipeAccepts (rules : List Rule) : Json → Bool
  | .obj entries =>
      (invalidProperties rules entries).isEmpty &&
        entries.all fun entry => rules.any fun rule => rule.property == entry.1
  | _ => false

def referencePipe (family : ReferencePrefix) (value : String) : Option String :=
  if referencePattern family value then some value else none

theorem invalidProperties_eq_nil_iff {rules : List Rule} {entries : JsonObject} :
    invalidProperties rules entries = [] ↔
      ∀ rule ∈ rules, rule.accepts (entries.lookup rule.property) = true := by
  simp [invalidProperties, List.filter_eq_nil_iff]

theorem invalidProperties_of_pipeAccepts {rules : List Rule} {entries : JsonObject}
    (h : pipeAccepts rules (.obj entries) = true) : invalidProperties rules entries = [] := by
  rw [pipeAccepts, Bool.and_eq_true, List.isEmpty_iff] at h
  exact h.1

def Json.int? : Json → Option ℤ
  | .num value => if value.den = 1 then some value.num else none
  | _ => none

@[simp] theorem Json.int?_num (value : ℤ) : (Json.num value).int? = some value := by
  simp [Json.int?]

/-! ## What the decorators let through -/

section

variable {value : Option Json}

theorem matchesRegex_iff {regex : String → Bool} :
    (isString value && matchesRegex regex value) = true ↔
      ∃ text, value = some (.str text) ∧ regex text = true := by
  rcases value with _ | (_ | _ | _ | text | _ | _) <;> simp [isString, matchesRegex]

theorem isTransactionId_accepts {property : String} :
    (Rule.isTransactionId property).accepts value = true ↔
      ∃ text, value = some (.str text) ∧ transactionIdRegex text = true :=
  matchesRegex_iff

theorem isReference_accepts {family : ReferencePrefix} {property : String} :
    (Rule.isReference family property).accepts value = true ↔
      ∃ text, value = some (.str text) ∧ referencePattern family text = true :=
  matchesRegex_iff

theorem isAmount_accepts {property : String} :
    (Rule.isAmount property).accepts value = true ↔
      ∃ amount : ℤ, value = some (.num amount) ∧ isValidAmount (.num amount) = true := by
  constructor
  · intro h
    rw [Rule.isAmount] at h
    obtain ⟨amount, rfl, hamount⟩ : ∃ amount, value = some (.num amount) ∧
        isValidAmount (.num amount) = true := by
      rcases value with _ | (_ | _ | amount | _ | _ | _)
      case some.num => exact ⟨amount, rfl, h⟩
      all_goals exact absurd h (by simp [isValidAmount])
    have hden : amount.den = 1 := by
      simp only [isValidAmount, Bool.and_eq_true, beq_iff_eq] at hamount
      exact hamount.1.1.1
    have hcast : ((amount.num : ℤ) : ℚ) = amount := Rat.coe_int_num_of_den_eq_one hden
    exact ⟨amount.num, by rw [hcast], by rw [hcast]; exact hamount⟩
  · rintro ⟨amount, rfl, hamount⟩
    exact hamount

theorem isCurrency_accepts {property : String} :
    (Rule.isCurrency property).accepts value = true ↔ value = some (.str "XOF") := by
  rcases value with _ | (_ | _ | _ | text | _ | _) <;>
    simp [Rule.isCurrency, isString, hasLength, isEnum]
  rintro rfl
  decide

theorem isSafeDescription_accepts {unicode : Unicode} {property : String} :
    (Rule.isSafeDescription unicode property).accepts value = true ↔
      ∃ text, value = some (.str text) ∧ text ≠ "" ∧
        text.toList.length ≤ descriptionMaxLength ∧
        safeDescriptionRegex unicode text = true := by
  rcases value with _ | (_ | _ | _ | text | _ | _) <;>
    simp [Rule.isSafeDescription, isString, isNotEmpty, hasLength, matchesRegex, and_assoc]

theorem isEnum_accepts {values : List String} :
    isEnum values value = true ↔ ∃ text ∈ values, value = some (.str text) := by
  rcases value with _ | (_ | _ | _ | text | _ | _) <;> simp [isEnum]

theorem isOptional_accepts {accepts : Option Json → Bool} :
    isOptional accepts value = true ↔
      value = none ∨ value = some .null ∨ accepts value = true := by
  rcases value with _ | (_ | _ | _ | _ | _ | _) <;> simp [isOptional]

end

end Shared

end Paynad
