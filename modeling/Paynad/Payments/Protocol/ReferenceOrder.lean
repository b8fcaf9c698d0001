import Paynad.Payments.Domain.ReferenceGeneration
import Paynad.Payments.Presentation.InitiatePaymentRequest

/-!
# References sort by time

The payments domain and the shared package each write their references and each check
them. The alphabet is in the order of the character codes and the time is a numeral of a
fixed width, so references sort as their times do, whichever side and whatever randomness
wrote them. What either side writes, both accept, for its family and for no other.
-/

namespace Paynad

namespace Payments

open Shared

inductive Generator where
  | domain (random : ℕ → ℚ)
  | shared (bytes : Vector UInt8 ReferenceUtil.randomLength)

namespace Generator

def generate (family : ReferencePrefixName) (now : ℕ) : Generator → String
  | .domain random => Reference.generate family now random
  | .shared bytes => generateReference family.shared now bytes

def Documented : Generator → Prop
  | .domain random => ∀ index, 0 ≤ random index ∧ random index < 1
  | .shared _ => True

def body : Generator → List Char
  | .domain random => Reference.body random
  | .shared bytes => ReferenceUtil.encodeRandom bytes

variable {family : ReferencePrefixName} {now : ℕ} {generator : Generator}

theorem generate_eq :
    generator.generate family now = family.text ++ "_" ++
      String.ofList (FixedWidth.numeral 32 (symbol alphabet) timeLength now generator.body) := by
  have hlength : alphabet.length = 32 := by decide
  have htime : timeLoop alphabet timeLength now [] ++ generator.body =
      FixedWidth.numeral 32 (symbol alphabet) timeLength now generator.body := by
    rw [timeLoop_eq hlength, ← FixedWidth.numeral_append]
  rw [← htime]
  cases generator with
  | domain random => rfl
  | shared bytes =>
      rw [← ReferencePrefixName.text_shared]
      rfl

theorem symbol_lt : ∀ i j, i < j → j < 32 → symbol alphabet i < symbol alphabet j := by
  have h : ∀ j < 32, ∀ i < j, symbol alphabet i < symbol alphabet j := by decide
  exact fun i j hij hj => h j hj i hij

theorem generate_lt {generator' : Generator} {later : ℕ} (h : now < later)
    (hlater : later < 32 ^ timeLength) :
    generator.generate family now < generator'.generate family later := by
  rw [generate_eq, generate_eq, String.lt_iff]
  simp only [String.toList_append, String.toList_ofList]
  exact List.append_left_lt (FixedWidth.numeral_lt symbol_lt h hlater)

/-- The random characters of both generators are sixteen of the alphabet. -/
theorem body_eq (hrandom : generator.Documented) :
    ∃ digits : List ℕ, digits.length = randomLength ∧ (∀ digit ∈ digits, digit < 32) ∧
      generator.body = digits.map (symbol alphabet) := by
  cases generator with
  | domain random =>
      let digits := (List.range randomLength).map fun index =>
        (random index * 32).floor.toNat % 32
      have hdigits : ∀ digit ∈ digits, digit < 32 := by
        intro digit hdigit
        obtain ⟨index, -, rfl⟩ := List.mem_map.mp hdigit
        exact Nat.mod_lt _ (by decide)
      refine ⟨digits, by simp [digits], hdigits, ?_⟩
      rw [← randomLoop_eq hdigits, List.map_map]
      refine congrArg (randomLoop alphabet) (List.map_congr_left fun index _ => ?_)
      exact Reference.randomIndex_of_nonneg (hrandom index).1
  | shared bytes =>
      let digits := bytes.toList.map fun byte : UInt8 => byte.toNat % 32
      have hdigits : ∀ digit ∈ digits, digit < 32 := by
        intro digit hdigit
        obtain ⟨byte, -, rfl⟩ := List.mem_map.mp hdigit
        exact Nat.mod_lt _ (by decide)
      refine ⟨digits, by simp [digits]; rfl, hdigits, ?_⟩
      rw [← randomLoop_eq hdigits, List.map_map]
      rfl

/-- A generated value has the form of a reference of its family, and of no other. -/
theorem test_generate (hrandom : generator.Documented) {family' : ReferencePrefixName} :
    Reference.test family' (generator.generate family now) = true ↔ family' = family := by
  obtain ⟨digits, hlength, hdigits, hbody⟩ := body_eq hrandom
  rw [generate_eq, Reference.test_append]
  refine and_iff_left ⟨?_, fun c hc => ?_⟩
  · rw [FixedWidth.length_numeral, hbody, List.length_map, hlength]
  · rcases FixedWidth.mem_numeral (by decide) hc with ⟨digit, hdigit, rfl⟩ | hc
    · exact symbol_mem hdigit
    · rw [hbody] at hc
      obtain ⟨digit, hdigit, rfl⟩ := List.mem_map.mp hc
      exact symbol_mem (hdigits digit hdigit)

end Generator

theorem ReferencePrefixName.exists_shared (family : ReferencePrefix) :
    ∃ name : ReferencePrefixName, name.shared = family := by
  cases family
  · exact ⟨.usr, rfl⟩
  · exact ⟨.wlt, rfl⟩
  · exact ⟨.pay, rfl⟩
  · exact ⟨.trx, rfl⟩

theorem ReferencePrefixName.shared_inj {family family' : ReferencePrefixName} :
    family'.shared = family.shared ↔ family' = family := by
  cases family <;> cases family' <;> decide

theorem Reference.isOk_of (family : ReferencePrefixName) (value : String) :
    (Reference.of family value).isOk = Reference.test family value := by
  unfold Reference.of
  split_ifs with h
  · exact h.symm
  · exact (Bool.eq_false_iff.mpr h).symm

/-- Of two generated references of one family the earlier one comes first, whichever
generator and randomness produced each; what is generated passes the two checks of its family
and those of no other; and the two checks accept the same texts. -/
theorem references_sort_and_pass :
    (∀ (family : ReferencePrefixName) (generator generator' : Generator) (now later : ℕ),
      now < later → later < 32 ^ 10 →
        generator.generate family now < generator'.generate family later) ∧
    (∀ (family : ReferencePrefixName) (generator : Generator) (now : ℕ),
      generator.Documented →
        (∀ family', (Reference.of family' (generator.generate family now)).isOk = true ↔
          family' = family) ∧
        ∀ family', referencePattern family' (generator.generate family now) = true ↔
          family' = family.shared) ∧
    ∀ (family : ReferencePrefixName) (value : String),
      (Reference.of family value).isOk = referencePattern family.shared value := by
  refine ⟨fun family generator generator' now later h hlater => ?_,
    fun family generator now hrandom => ⟨fun family' => ?_, fun family' => ?_⟩,
    fun family value => ?_⟩
  · exact Generator.generate_lt h hlater
  · rw [Reference.isOk_of]
    exact Generator.test_generate hrandom
  · obtain ⟨name, rfl⟩ := ReferencePrefixName.exists_shared family'
    rw [referencePattern_eq, Generator.test_generate hrandom, ReferencePrefixName.shared_inj]
  · rw [Reference.isOk_of, referencePattern_eq]

def halves : Generator := .domain fun _ => 1 / 2

def highBytes : Generator := .shared (Vector.replicate _ 255)

theorem references_sort_and_pass_halves :
    halves.generate .pay 1700000000000 < highBytes.generate .pay 1700000001000 ∧
      highBytes.generate .pay 1700000000000 < halves.generate .pay 1700000001000 ∧
      (Reference.of .pay (halves.generate .pay 1700000000000)).isOk = true ∧
      referencePattern .PAYMENT (highBytes.generate .pay 1700000000000) = true := by
  obtain ⟨hsort, hpass, -⟩ := references_sort_and_pass
  have hhalf : (0 : ℚ) ≤ 1 / 2 ∧ (1 / 2 : ℚ) < 1 := by decide +kernel
  have hhalves : halves.Documented := fun _ => hhalf
  refine ⟨hsort .pay halves highBytes _ _ (by decide) (by decide),
    hsort .pay highBytes halves _ _ (by decide) (by decide), ?_, ?_⟩
  · exact ((hpass .pay halves 1700000000000 hhalves).1 .pay).mpr rfl
  · exact ((hpass .pay highBytes 1700000000000 trivial).2 .PAYMENT).mpr rfl

example : halves.generate .pay 1700000000000 = "pay_01hf7yat00gggggggggggggggg" := by
  decide +kernel

end Payments

end Paynad
