import Paynad.Shared.Validation
import Paynad.Payments.Application.Initiation

/-!
# The request that initiates a payment

The body of `POST /payments`, as the pipe lets it through and as `PaymentMapper`
hands it to the command. The references of the edge and those of the domain are
checked by two expressions that were written apart; they accept the same texts.
-/

namespace Paynad

namespace Payments

open Shared

/-- The family of a domain reference, as the shared package names it. -/
def ReferencePrefixName.shared : ReferencePrefixName → ReferencePrefix
  | .usr => .USER
  | .wlt => .WALLET
  | .pay => .PAYMENT
  | .trx => .TRANSACTION

theorem ReferencePrefixName.text_shared (family : ReferencePrefixName) :
    family.shared.text = family.text := by
  cases family <;> rfl

theorem toNat_lt_of_isReferenceBodyChar {c : Char} (h : isReferenceBodyChar c = true) :
    c.toNat < 128 := by
  simp only [isReferenceBodyChar, Bool.or_eq_true, Bool.and_eq_true, decide_eq_true_eq,
    beq_iff_eq, Char.le_def, UInt32.le_iff_toNat_le] at h
  rcases h with ((((((⟨-, h⟩ | ⟨-, h⟩) | rfl) | rfl) | rfl) | rfl) | ⟨-, h⟩) | ⟨-, h⟩
  · exact lt_of_le_of_lt h (by decide)
  · exact lt_of_le_of_lt h (by decide)
  · decide
  · decide
  · decide
  · decide
  · exact lt_of_le_of_lt h (by decide)
  · exact lt_of_le_of_lt h (by decide)

theorem toNat_lt_of_mem_alphabet : ∀ c ∈ alphabet, c.toNat < 128 := by
  have h : (alphabet.all fun c => decide (c.toNat < 128)) = true := by decide
  intro c hc
  exact of_decide_eq_true (List.all_eq_true.mp h c hc)

theorem isReferenceBodyChar_eq (c : Char) : isReferenceBodyChar c = alphabet.contains c := by
  have hascii : ∀ n < 128,
      isReferenceBodyChar (Char.ofNat n) = alphabet.contains (Char.ofNat n) := by
    decide +kernel
  by_cases hc : c.toNat < 128
  · have h := hascii c.toNat hc
    rwa [Char.ofNat_toNat] at h
  · have hclass : isReferenceBodyChar c = false :=
      Bool.eq_false_iff.mpr fun h => hc (toNat_lt_of_isReferenceBodyChar h)
    have hmem : c ∉ alphabet := fun h => hc (toNat_lt_of_mem_alphabet c h)
    rw [hclass]
    simpa using hmem

theorem referencePattern_eq (family : ReferencePrefixName) (value : String) :
    referencePattern family.shared value = Reference.test family value := by
  simp only [referencePattern, Reference.test, ReferencePrefixName.text_shared]
  rw [show isReferenceBodyChar = (alphabet.contains ·) from funext isReferenceBodyChar_eq]
  rfl

def Currency.ofCode : String → Option Currency
  | "XOF" => some .XOF
  | _ => none

def Lang.ofText : String → Option Lang
  | "fr" => some .fr
  | "en" => some .en
  | _ => none

structure InitiatePaymentRequest where
  transactionId : String
  sourceWalletReference : String
  destinationWalletReference : String
  amount : ℤ
  currency : Currency
  description : String
  lang : Lang
  metadata : Option JsonObject

namespace InitiatePaymentRequest

def rules (unicode : Unicode) : List Rule :=
  [.isTransactionId "transaction_id",
    .isReference .WALLET "source_wallet_reference",
    .isReference .WALLET "destination_wallet_reference",
    .isAmount "amount",
    .isCurrency "currency",
    .isSafeDescription unicode "description",
    ⟨"lang", isEnum ["fr", "en"]⟩,
    ⟨"metadata", isOptional isObject⟩]

def read (entries : JsonObject) : Option InitiatePaymentRequest := do
  let transactionId ← (entries.lookup "transaction_id").bind Json.str?
  let sourceWalletReference ← (entries.lookup "source_wallet_reference").bind Json.str?
  let destinationWalletReference ←
    (entries.lookup "destination_wallet_reference").bind Json.str?
  let amount ← (entries.lookup "amount").bind Json.int?
  let currency ← ((entries.lookup "currency").bind Json.str?).bind Currency.ofCode
  let description ← (entries.lookup "description").bind Json.str?
  let lang ← ((entries.lookup "lang").bind Json.str?).bind Lang.ofText
  let metadata := match entries.lookup "metadata" with
    | some (.obj metadata) => some metadata
    | _ => none
  return {
    transactionId, sourceWalletReference, destinationWalletReference, amount, currency,
    description, lang, metadata }

def parse (unicode : Unicode) (body : Json) : Option InitiatePaymentRequest :=
  match body with
  | .obj entries => if pipeAccepts (rules unicode) body then read entries else none
  | _ => none

/-- What the pipe has checked. -/
structure Valid (unicode : Unicode) (request : InitiatePaymentRequest) : Prop where
  transactionId : transactionIdRegex request.transactionId = true
  source : referencePattern .WALLET request.sourceWalletReference = true
  destination : referencePattern .WALLET request.destinationWalletReference = true
  amount : isValidAmount (.num request.amount) = true
  description_ne : request.description ≠ ""
  description_length : request.description.toList.length ≤ descriptionMaxLength
  description_safe : safeDescriptionRegex unicode request.description = true

/-- A body that the pipe lets through is read, property by property. -/
theorem read_of_valid {unicode : Unicode} {entries : JsonObject}
    (h : invalidProperties (rules unicode) entries = []) :
    ∃ request, read entries = some request ∧ request.Valid unicode := by
  rw [invalidProperties_eq_nil_iff] at h
  simp only [rules, List.forall_mem_cons, List.not_mem_nil, false_implies, implies_true,
    and_true, Rule.property_isTransactionId, Rule.property_isReference,
    Rule.property_isAmount, Rule.property_isCurrency, Rule.property_isSafeDescription] at h
  obtain ⟨htransactionId, hsource, hdestination, hamount, hcurrency, hdescription, hlang, -⟩ := h
  obtain ⟨transactionId, htransactionId, hid⟩ := isTransactionId_accepts.mp htransactionId
  obtain ⟨source, hsource, hsourcePattern⟩ := isReference_accepts.mp hsource
  obtain ⟨destination, hdestination, hdestinationPattern⟩ := isReference_accepts.mp hdestination
  obtain ⟨amount, hamount, hvalid⟩ := isAmount_accepts.mp hamount
  obtain ⟨description, hdescription, hne, hlength, hsafe⟩ :=
    isSafeDescription_accepts.mp hdescription
  obtain ⟨lang, hlangMem, hlang⟩ := isEnum_accepts.mp hlang
  obtain ⟨lang', hlang'⟩ : ∃ lang', Lang.ofText lang = some lang' := by
    simp only [List.mem_cons, List.not_mem_nil, or_false] at hlangMem
    rcases hlangMem with rfl | rfl
    · exact ⟨.fr, rfl⟩
    · exact ⟨.en, rfl⟩
  refine ⟨⟨transactionId, source, destination, amount, .XOF, description, lang',
    match entries.lookup "metadata" with
    | some (.obj metadata) => some metadata
    | _ => none⟩, ?_, ⟨hid, hsourcePattern, hdestinationPattern, hvalid, hne, hlength, hsafe⟩⟩
  simp [read, htransactionId, hsource, hdestination, hamount, isCurrency_accepts.mp hcurrency,
    hdescription, hlang, hlang', Json.str?, Currency.ofCode]

theorem valid_of_parse {unicode : Unicode} {body : Json} {request : InitiatePaymentRequest}
    (h : parse unicode body = some request) : request.Valid unicode := by
  unfold parse at h
  split at h
  · next entries =>
      split_ifs at h with haccepted
      obtain ⟨request', hread, hvalid⟩ :=
        read_of_valid (invalidProperties_of_pipeAccepts haccepted)
      obtain rfl : request' = request := Option.some.inj (hread.symm.trans h)
      exact hvalid
  · cases h

/-- `PaymentMapper.toCommand`. -/
def toCommand (request : InitiatePaymentRequest) : InitiatePaymentCommand where
  transactionId := request.transactionId
  sourceWallet := request.sourceWalletReference
  destinationWallet := request.destinationWalletReference
  amount := request.amount
  currency := request.currency
  description := request.description
  lang := request.lang
  metadata := request.metadata

/-- The value objects that the handler makes of a request. -/
structure Yields (request : InitiatePaymentRequest) (input : InitiatePaymentInput) : Prop where
  money : Money.of request.amount request.currency = .ok input.money
  source : Reference.of .wlt request.sourceWalletReference = .ok input.source
  destination : Reference.of .wlt request.destinationWalletReference = .ok input.destination
  transactionId : input.transactionId = request.transactionId
  description : input.description = request.description
  metadata : input.metadata = request.metadata

theorem reference_of_pattern (family : ReferencePrefixName) {value : String}
    (h : referencePattern family.shared value = true) :
    ∃ reference : Reference family, Reference.of family value = .ok reference := by
  rw [referencePattern_eq] at h
  exact ⟨⟨value, h⟩, dif_pos h⟩

theorem money_of_isValidAmount {amount : ℤ} (currency : Currency)
    (h : isValidAmount (.num amount) = true) :
    ∃ money, Money.of amount currency = .ok money ∧ money.amount = amount := by
  obtain ⟨hmin, -, hstep⟩ := isValidAmount_int.mp h
  exact ⟨⟨amount, currency, hmin, hstep⟩, Money.of_amount ⟨amount, currency, hmin, hstep⟩, rfl⟩

theorem Valid.yields {unicode : Unicode} {request : InitiatePaymentRequest}
    (h : request.Valid unicode) : ∃ input, request.Yields input := by
  obtain ⟨money, hmoney, -⟩ := money_of_isValidAmount request.currency h.amount
  obtain ⟨source, hsource⟩ := reference_of_pattern .wlt h.source
  obtain ⟨destination, hdestination⟩ := reference_of_pattern .wlt h.destination
  exact ⟨⟨request.transactionId, money, source, destination, request.description,
    request.metadata⟩, hmoney, hsource, hdestination, rfl, rfl, rfl⟩

theorem Yields.payment {request : InitiatePaymentRequest} {input : InitiatePaymentInput}
    (h : request.Yields input) (reference : Reference .pay) (now : Date) :
    request.toCommand.payment reference now =
      (Payment.initiate input reference now).mapError .domain := by
  obtain ⟨hmoney, hsource, hdestination, htransactionId, hdescription, hmetadata⟩ := h
  obtain ⟨transactionId, money, source, destination, description, metadata⟩ := input
  subst htransactionId hdescription hmetadata
  simp only [InitiatePaymentCommand.payment, toCommand, hmoney, hsource, hdestination]

/-- Two different wallets are all that `Payment.initiate` asks for. -/
theorem Yields.initiate {request : InitiatePaymentRequest} {input : InitiatePaymentInput}
    (h : request.Yields input)
    (hwallets : request.sourceWalletReference ≠ request.destinationWalletReference)
    (reference : Reference .pay) (now : Date) :
    ∃ payment, Payment.initiate input reference now = .ok payment := by
  have hne : input.source ≠ input.destination := by
    intro heq
    refine hwallets ?_
    rw [← Reference.value_of_ok h.source, ← Reference.value_of_ok h.destination, heq]
  unfold Payment.initiate
  rw [if_neg hne]
  exact ⟨_, rfl⟩

end InitiatePaymentRequest

end Payments

end Paynad
