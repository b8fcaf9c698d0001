import Paynad.Payments.Application.KeyOrder
import Paynad.Payments.Protocol.IdempotentInitiation

/-!
# The fingerprint of a request

`IdempotencyService.hash` is the digest of the canonical text of the command. When the
digest has no collision, a key that was recorded for one payload is never answered to
another one, however deep the two differ.
-/

namespace Paynad

namespace Payments

open Shared Transition Initiation

def Lang.text : Lang → String
  | .fr => "fr"
  | .en => "en"

def InitiatePaymentCommand.entries (command : InitiatePaymentCommand) : JsonObject :=
  [("transactionId", .str command.transactionId),
    ("sourceWallet", .str command.sourceWallet),
    ("destinationWallet", .str command.destinationWallet),
    ("amount", .num command.amount),
    ("currency", .str command.currency.code),
    ("description", .str command.description),
    ("lang", .str command.lang.text),
    ("metadata", match command.metadata with
      | none => .null
      | some metadata => .obj metadata)]

def InitiatePaymentCommand.json (command : InitiatePaymentCommand) : Json := .obj command.entries

namespace IdempotencyService

def hash (sha256 : String → String) (language : Language) (command : InitiatePaymentCommand) :
    String :=
  sha256 (canonicalise language command.json)

end IdempotencyService

variable {language : Language}

/-- The canonical text tells apart all values that differ by more than the order of keys;
so, with a digest without collisions, a request that reuses the key of another payload is
never answered, and is refused by the steps it has left. -/
theorem fingerprint_injective (hlanguage : language.Documented) :
    (∀ value value' : Json, value.WellFormed → value'.WellFormed →
      canonicalise language value = canonicalise language value' →
      value.meaning = value'.meaning) ∧
    ∀ sha256 : String → String, Function.Injective sha256 →
      ∀ s, Reachable (step (IdempotencyService.hash sha256 language)) init s →
      ∀ c x creation creator, s.executions c = some x → creation ∈ s.creations →
      s.executions creation.execution = some creator → creation.key = x.key →
      x.command.json.WellFormed → creator.command.json.WellFormed →
      x.command.json.meaning ≠ creator.command.json.meaning →
      (∀ result, x.stage ≠ .answered result) ∧
      (x.stage = .claiming ∨ x.stage = .finding → ∀ reference now, ∃ n t,
        run (step (IdempotencyService.hash sha256 language)) s
          (List.replicate n (.resume c reference now)) = some t ∧
        t.executions c = some { x with stage := .failed (.idempotencyConflict x.key) } ∧
        t.keys = s.keys ∧ t.payments = s.payments) := by
  refine ⟨fun value value' => meaning_eq_of_canonicalise_eq hlanguage, ?_⟩
  intro sha256 hsha256 s hreach c x creation creator hx hcreation hcreator hkey hwell hwell' hne
  have hsound := sound_of_reachable hreach
  obtain ⟨creator', record, hcreator', -, -, hfind, hhash, -⟩ := hsound.created creation hcreation
  obtain rfl : creator = creator' := Option.some.inj (hcreator.symm.trans hcreator')
  rw [hkey] at hfind
  have hconflict : record.requestHash ≠ IdempotencyService.hash sha256 language x.command := by
    rw [hhash]
    intro hsame
    exact hne (meaning_eq_of_canonicalise_eq hlanguage hwell' hwell (hsha256 hsame)).symm
  exact ⟨not_answered_of_conflict hsound hx hfind hconflict, fun hstage reference now =>
    conflict_refused reference now hx hfind hconflict hstage⟩

/-- The request of `sampleCommand` with one line of an invoice in its metadata. -/
def invoiceCommand (line : ℚ) : InitiatePaymentCommand :=
  { sampleCommand with
    metadata := some [("invoice", .obj [("lines", .arr [.num 1, .num line])])] }

theorem wellFormed_invoiceCommand (line : ℚ) : (invoiceCommand line).json.WellFormed := by
  simp [InitiatePaymentCommand.json, InitiatePaymentCommand.entries, invoiceCommand,
    Json.WellFormed]

theorem invoiceCommand_ne {line line' : ℚ} (hne : line ≠ line') :
    (invoiceCommand line).json.meaning ≠ (invoiceCommand line').json.meaning := by
  intro hsame
  simp only [InitiatePaymentCommand.json, Json.meaning_obj, Json.Value.obj.injEq] at hsame
  have hmetadata := congrFun hsame "metadata"
  simp only [InitiatePaymentCommand.entries, invoiceCommand, List.lookup_cons, String.reduceBEq,
    Option.map_some, Option.some.injEq, Json.meaning_obj, Json.Value.obj.injEq] at hmetadata
  have hinvoice := congrFun hmetadata "invoice"
  simp only [List.lookup_cons, beq_self_eq_true, Option.map_some, Option.some.injEq,
    Json.meaning_obj, Json.Value.obj.injEq] at hinvoice
  have hlines := congrFun hinvoice "lines"
  simp [Json.meaning, hne] at hlines

/-- The first request creates its payment; the second one, which differs in one item of its
metadata, is about to claim the key. -/
def alteredRun : List Event :=
  .execute 0 (invoiceCommand 2) :: List.replicate 5 (.resume 0 samplePaymentReference 0) ++
    [.execute 1 (invoiceCommand 3)]

theorem fingerprint_injective_alteredRun :
    ∃ s n t, run (step (IdempotencyService.hash id plainLanguage)) init alteredRun = some s ∧
      run (step (IdempotencyService.hash id plainLanguage)) s
        (List.replicate n (.resume 1 samplePaymentReference 0)) = some t ∧
      t.executions 1 =
        some ⟨invoiceCommand 3, .failed (.idempotencyConflict "tx-00000001")⟩ := by
  have h : (run (step (IdempotencyService.hash id plainLanguage)) init alteredRun).map
      (fun s => ((s.executions 0).map Execution.command, s.executions 1, s.creations)) =
      some (some (invoiceCommand 2), some ⟨invoiceCommand 3, .claiming⟩,
        [⟨0, "tx-00000001", "pay_00000000000000000000000001"⟩]) := by
    rfl
  obtain ⟨s, hrun, hsays⟩ := Option.map_eq_some_iff.mp h
  simp only [Prod.mk.injEq, Option.map_eq_some_iff] at hsays
  obtain ⟨⟨creator, hcreator, hcommand⟩, hx, hcreations⟩ := hsays
  have hdiffer : (invoiceCommand 3).json.meaning ≠ creator.command.json.meaning := by
    rw [hcommand]
    exact invoiceCommand_ne (by decide)
  obtain ⟨-, hrefused⟩ := (fingerprint_injective plainLanguage_documented).2 id
    Function.injective_id s ⟨alteredRun, hrun⟩ 1 ⟨invoiceCommand 3, .claiming⟩
    ⟨0, "tx-00000001", "pay_00000000000000000000000001"⟩ creator hx (by rw [hcreations]; simp)
    hcreator rfl (wellFormed_invoiceCommand 3)
    (by rw [hcommand]; exact wellFormed_invoiceCommand 2) hdiffer
  obtain ⟨n, t, hn, ht, -⟩ := hrefused (.inl rfl) samplePaymentReference 0
  exact ⟨s, n, t, hrun, hn, ht⟩

end Payments

end Paynad
