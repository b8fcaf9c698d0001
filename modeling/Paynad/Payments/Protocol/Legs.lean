import Paynad.Payments.Protocol.Effects
import Paynad.Payments.Protocol.Platform

/-!
# The legs of a payment

A payment can move money on three legs, each under its own key. For each leg
this file says which call moves it, what the row must have become before that
call is sent (`Ready`), which commands may still send it (`mayPost`), and when
the references recorded in the columns are those of movements that exist
(`Backed`).
-/

namespace Paynad

namespace Payments

open Shared

namespace PaymentColumns

def legKey (c : PaymentColumns) (leg : Leg) : String × String :=
  (c.legWallet leg, movementKey c.reference leg)

def legReference (c : PaymentColumns) : Leg → Option String
  | .debit => c.debitTransactionReference
  | .credit => c.creditTransactionReference
  | .refund => c.refundTransactionReference

def Ready (c : PaymentColumns) : Leg → Prop
  | .debit => c.status ≠ .pending
  | .credit => c.debitTransactionReference ≠ none
  | .refund => c.status = .compensationPending ∨ c.status = .compensated

@[simp] theorem legWallet_columns (p : Payment) (leg : Leg) :
    p.columns.legWallet leg = (p.legWallet leg).value := by
  cases leg <;> rfl

theorem legKey_columns (p : Payment) (leg : Leg) :
    p.columns.legKey leg = ((p.legWallet leg).value, movementKey p.reference.value leg) :=
  congrArg (·, movementKey p.reference.value leg) (legWallet_columns p leg)

theorem legKey_congr {c c' : PaymentColumns} (h : c.identity = c'.identity) (leg : Leg) :
    c.legKey leg = c'.legKey leg := by
  have hreference := congrArg PaymentColumns.reference h
  have hsource := congrArg PaymentColumns.sourceWalletReference h
  have hdestination := congrArg PaymentColumns.destinationWalletReference h
  simp only [identity] at hreference hsource hdestination
  cases leg <;> simp [legKey, legWallet, hreference, hsource, hdestination]

theorem reference_congr {c c' : PaymentColumns} (h : c.identity = c'.identity) :
    c.reference = c'.reference := by
  have hreference := congrArg PaymentColumns.reference h
  exact hreference

/-- A leg that is ready stays ready. -/
theorem Ready.advances {c c' : PaymentColumns} {leg : Leg} (h : c.Ready leg)
    (hadvances : c.Advances c') : c'.Ready leg := by
  obtain ⟨hstatus, hdebit⟩ := hadvances
  cases leg with
  | debit =>
      simp only [Ready] at h ⊢
      rcases hstatus with heq | hallowed
      · rwa [heq]
      · intro hpending
        rw [hpending] at hallowed
        cases hs : c.status <;> simp [hs, allowedTransitions] at hallowed
  | credit =>
      simp only [Ready] at h ⊢
      rwa [hdebit.resolve_left h]
  | refund =>
      simp only [Ready] at h ⊢
      rcases hstatus with heq | hallowed
      · rwa [heq]
      · rcases h with hs | hs <;> simp [hs, allowedTransitions] at hallowed
        exact .inr hallowed

def Backed (c : PaymentColumns) (records : List Movement) : Prop :=
  ∀ leg value, c.legReference leg = some value →
    ∃ m ∈ records, m.identifier = c.legKey leg ∧ m.reference.value = value

namespace Backed

variable {c c' : PaymentColumns} {records records' : List Movement}

theorem mono (h : c.Backed records) (hrecords : ∀ m ∈ records, m ∈ records') :
    c.Backed records' := by
  intro leg value hvalue
  obtain ⟨m, hm, hkey⟩ := h leg value hvalue
  exact ⟨m, hrecords m hm, hkey⟩

theorem congr (h : c.Backed records) (hidentity : c'.identity = c.identity)
    (hreferences : ∀ leg, c'.legReference leg = c.legReference leg) : c'.Backed records := by
  intro leg value hvalue
  obtain ⟨m, hm, hkey, hreference⟩ := h leg value (hreferences leg ▸ hvalue)
  exact ⟨m, hm, hkey.trans (legKey_congr hidentity leg).symm, hreference⟩

theorem book (h : c.Backed records) {booked : Leg} {m : Movement}
    (hidentity : c'.identity = c.identity) (hm : m ∈ records)
    (hkey : m.identifier = c.legKey booked)
    (hbooked : c'.legReference booked = some m.reference.value)
    (hothers : ∀ leg, leg ≠ booked → c'.legReference leg = c.legReference leg) :
    c'.Backed records := by
  intro leg value hvalue
  by_cases hleg : leg = booked
  · subst hleg
    rw [hbooked] at hvalue
    exact ⟨m, hm, hkey.trans (legKey_congr hidentity leg).symm, Option.some.inj hvalue⟩
  · obtain ⟨m', hm', hkey', hreference⟩ := h leg value (hothers leg hleg ▸ hvalue)
    exact ⟨m', hm', hkey'.trans (legKey_congr hidentity leg).symm, hreference⟩

end Backed

theorem backed_of_pending {c : PaymentColumns} (hpending : c.status = .pending)
    (hcoherent : c.Coherent) (records : List Movement) : c.Backed records := by
  simp only [Coherent, hpending] at hcoherent
  obtain ⟨hdebit, hcredit, hrefund, -⟩ := hcoherent
  intro leg value hvalue
  cases leg <;> simp [legReference, hdebit, hcredit, hrefund] at hvalue

end PaymentColumns

namespace Payment

def legCall (p : Payment) : Leg → MovementCall
  | .debit => DebitSourceWallet.call p
  | .credit => CreditDestinationWallet.call p
  | .refund => CompensatePayment.call p

theorem identifier_legCall (p : Payment) (leg : Leg) :
    (p.legCall leg).identifier = p.columns.legKey leg := by
  cases leg <;> rfl

/-- The key of a leg tells the payment and the leg. -/
theorem legKey_inj {p q : Payment} {leg leg' : Leg}
    (h : p.columns.legKey leg = q.columns.legKey leg') :
    p.reference = q.reference ∧ leg = leg' := by
  refine movementKey_inj ?_
  cases leg <;> cases leg' <;> exact congrArg Prod.snd h

end Payment

namespace Command

def leg : Command → Option Leg
  | .debit (.debit _) => some .debit
  | .credit (.credit _) => some .credit
  | .compensate (.findDebit _) => some .debit
  | .compensate (.findCredit _) => some .credit
  | .compensate (.refund _) => some .refund
  | _ => none

def mayPost : Leg → Command → Prop
  | .debit, .debit (.debit _) => True
  | .credit, .credit (.find _) => True
  | .credit, .credit (.credit _) => True
  | .refund, .compensate (.refund _) => True
  | _, _ => False

def owns : Command → Prop
  | .debit (.debit _) => True
  | .debit (.saveDebited _ _) => True
  | .credit _ => True
  | _ => False

def crediting : Command → Prop
  | .credit _ => True
  | _ => False

def decides : Command → Prop
  | .credit (.savePending _ _) => True
  | .compensate (.savePending _) => True
  | _ => False

def refunds : Command → Prop
  | .compensate (.refund _) => True
  | .compensate (.saveCompensated _ _ _) => True
  | _ => False

def past : Leg → Command → Prop
  | .debit => owns
  | .credit => crediting
  | .refund => refunds

def opens : Leg → Command → Prop
  | .debit, .debit (.saveProcessing _) => True
  | .credit, .debit (.saveDebited _ _) => True
  | .refund, .compensate (.savePending _) => True
  | _, _ => False

theorem not_ready_of_opens {command : Command} {leg : Leg} (hopens : command.opens leg)
    {c : PaymentColumns} (hbase : command.Base c) : ¬ c.Ready leg := by
  rcases command with stage | stage | stage <;> cases stage <;> cases leg <;>
    try exact (hopens : False).elim
  case debit.saveProcessing.debit => exact fun hready => hready hbase.1
  case debit.saveDebited.credit => exact fun hready => hready hbase.2
  case compensate.savePending.refund =>
      rintro (hready | hready) <;> rw [hbase.1] at hready <;> cases hready

theorem ready_of_opens {command : Command} {leg : Leg} (hopens : command.opens leg)
    (hshape : command.Shape) {t : Tracked} (haggregate : command.aggregate = some t) :
    t.payment.columns.Ready leg := by
  rcases command with stage | stage | stage <;> cases stage <;> cases leg <;>
    try exact (hopens : False).elim
  case debit.saveProcessing.debit =>
      cases haggregate
      intro hpending
      cases hshape.1.status.symm.trans hpending
  case debit.saveDebited.credit =>
      cases haggregate
      simp [PaymentColumns.Ready, hshape.2]
  case compensate.savePending.refund =>
      cases haggregate
      exact .inl hshape.status

theorem past_of_mayPost {command : Command} {leg : Leg} (h : command.mayPost leg) :
    command.past leg := by
  rcases command with stage | stage | stage <;> cases stage <;> cases leg <;> trivial

theorem owns_of_crediting {command : Command} (h : command.crediting) : command.owns := by
  rcases command with stage | stage | stage <;> cases stage <;> trivial

theorem owns_of_mayPost {command : Command} {leg : Leg} (h : command.mayPost leg)
    (hleg : leg ≠ .refund) : command.owns := by
  cases leg with
  | debit => exact past_of_mayPost h
  | credit => exact owns_of_crediting (past_of_mayPost h)
  | refund => exact absurd rfl hleg

theorem not_mayPost_of_opens {command : Command} {leg leg' : Leg} (h : command.opens leg) :
    ¬ command.mayPost leg' := by
  rcases command with stage | stage | stage <;> cases stage <;> cases leg <;> cases leg' <;>
    first | exact h.elim | exact id

theorem not_mayPost_of_decides {command : Command} {leg : Leg} (h : command.decides) :
    ¬ command.mayPost leg := by
  rcases command with stage | stage | stage <;> cases stage <;> cases leg <;>
    first | exact h.elim | exact id

theorem call_of_await {command : Command} {call : MovementCall}
    (h : command.await = .movement call) :
    ∃ leg t, command.leg = some leg ∧ command.aggregate = some t ∧
      call = t.payment.legCall leg ∧ command.mayPost leg ∧
      ∀ leg', command.mayPost leg' → leg' = leg := by
  rcases command with stage | stage | stage <;> cases stage <;> cases h
  · exact ⟨.debit, _, rfl, rfl, rfl, trivial, fun leg' h' => by cases leg' <;> simp_all [mayPost]⟩
  · exact ⟨.credit, _, rfl, rfl, rfl, trivial, fun leg' h' => by cases leg' <;> simp_all [mayPost]⟩
  · exact ⟨.refund, _, rfl, rfl, rfl, trivial, fun leg' h' => by cases leg' <;> simp_all [mayPost]⟩

theorem key_of_await {command : Command} {wallet : Reference .wlt} {key : String}
    (h : command.await = .findMovement wallet key) :
    ∃ leg t, command.leg = some leg ∧ command.aggregate = some t ∧
      (wallet.value, key) = t.payment.columns.legKey leg := by
  rcases command with stage | stage | stage <;> cases stage <;> cases h
  · exact ⟨.debit, _, rfl, rfl, rfl⟩
  · exact ⟨.credit, _, rfl, rfl, rfl⟩

/-- A decision to refund is about a payment whose debit is recorded. -/
theorem debit_of_decides {command : Command} {t : Tracked} (hdecides : command.decides)
    (haggregate : command.aggregate = some t) (hshape : command.Shape) {c : PaymentColumns}
    (hbase : command.Base c) : c.debitTransactionReference ≠ none := by
  have hstanding : ∀ {t : Tracked}, t.payment.Standing .compensationPending →
      c.debitTransactionReference = t.payment.columns.debitTransactionReference →
      c.debitTransactionReference ≠ none := by
    intro t ht hdebit
    have hcoherent := ht.coherent
    have hcolumns : t.payment.columns.status = .compensationPending := ht.status
    simp only [PaymentColumns.Coherent, hcolumns] at hcoherent
    exact hdebit ▸ hcoherent.1
  rcases command with stage | stage | stage <;> cases stage <;>
    first | exact (hdecides : False).elim | exact hstanding hshape hbase.2

/-- A save that leaves the refund owed or done takes the decision or follows it. -/
theorem decides_of_transaction {command : Command} {work : Work}
    (hawait : command.await = .transaction work) (hshape : command.Shape)
    {c : PaymentColumns} (hbase : command.Base c)
    (hready : work.aggregate.payment.columns.Ready .refund) :
    command.decides ∨ c.status = .compensationPending := by
  have never : ∀ {p : Payment} {status : PaymentStatus}, p.status = status →
      status ≠ .compensationPending → status ≠ .compensated → ¬ p.columns.Ready .refund := by
    rintro p status rfl hpending hcompensated (h | h)
    · exact hpending h
    · exact hcompensated h
  rcases command with stage | stage | stage <;> cases stage <;> cases hawait
  case debit.saveProcessing => exact (never hshape.1.status nofun nofun hready).elim
  case debit.saveDebited => exact (never hshape.1.status nofun nofun hready).elim
  case debit.saveDeclined => exact (never hbase.2.2.1 nofun nofun hready).elim
  case credit.savePending => exact .inl trivial
  case credit.saveApproved => exact (never hshape.1.1 nofun nofun hready).elim
  case compensate.saveDebited => exact (never hshape.1.status nofun nofun hready).elim
  case compensate.saveDeclined => exact (never hshape.1 nofun nofun hready).elim
  case compensate.saveApproved => exact (never hshape.1.1 nofun nofun hready).elim
  case compensate.savePending => exact .inl trivial
  case compensate.saveCompensated => exact .inr hbase.1

namespace Moves

variable {reference : String} {now : Date} {command command' : Command} {input : Input}

theorem mayPost (h : Moves reference now command input command') {leg : Leg}
    (hpost : command'.mayPost leg) (hleg : leg ≠ .refund) :
    command.mayPost leg ∨ command.opens leg ∧ ∃ t, input = .committed t := by
  cases h <;> cases leg <;> first
    | exact .inl trivial
    | exact .inl hpost
    | exact (hpost : False).elim
    | exact .inr ⟨trivial, _, rfl⟩
    | exact absurd rfl hleg

/-- A leg is behind a command once the save that opens it is committed; a refund
also where the decision is read. -/
theorem past (h : Moves reference now command input command') {leg : Leg}
    (hpast : command'.past leg) :
    command.past leg ∨ (command.opens leg ∧ ∃ t, input = .committed t) ∨
    leg = .refund ∧ ∃ t, input = .loaded (some t) ∧
      t.payment.status = .compensationPending ∧ command'.aggregate = some t := by
  cases h <;> cases leg <;> first
    | exact .inl trivial
    | exact .inl hpast
    | exact (hpast : False).elim
    | exact .inr (.inl ⟨trivial, _, rfl⟩)
    | exact .inr (.inr ⟨rfl, _, rfl, ‹_›, rfl⟩)

/-- A refund is decided after a refused credit or after a recovered debit. -/
theorem decides (h : Moves reference now command input command')
    (hdecides : command'.decides) :
    command = command' ∨ (∃ t refusal, command = .credit (.credit t) ∧ input = .refused refusal) ∨
    ∃ t₀ m t, command = .compensate (.saveDebited t₀ m) ∧ input = .committed t := by
  cases h <;> first
    | exact .inl rfl
    | exact (hdecides : False).elim
    | exact .inr (.inl ⟨_, _, rfl, rfl⟩)
    | exact .inr (.inr ⟨_, _, _, rfl, rfl⟩)

theorem not_mayPost_of_answer (h : Moves reference now command input command')
    {answer : Answer} (hanswer : answer.input = input)
    (hexpected : command.await.expects input = true) {leg : Leg} (hleg : leg ≠ .refund) :
    ¬ command'.mayPost leg := by
  intro hpost
  cases h with
  | stays hunexpected => exact absurd (hexpected.symm.trans hunexpected) (by decide)
  | _ =>
      cases leg <;> first
        | exact (hpost : False).elim
        | exact hleg rfl
        | (cases answer <;> cases hanswer)

/-- The references an aggregate carries come from its row and from the answers. -/
theorem backed {records : List Movement} (h : Moves reference now command input command')
    (hheld : ∀ t, command.aggregate = some t → t.payment.columns.Backed records)
    (hinput : ∀ t, (input = .loaded (some t) ∨ input = .committed t ∨
      ∃ e, input = .failed t (.domain e)) → t.payment.columns.Backed records)
    (hanswer : ∀ movement, (input = .moved movement ∨ input = .found (some movement)) →
      ∀ leg t, command.leg = some leg → command.aggregate = some t →
        ∃ m ∈ records, m.identifier = t.payment.columns.legKey leg ∧ m.result = movement)
    {t' : Tracked} (ht' : command'.aggregate = some t') :
    t'.payment.columns.Backed records := by
  -- A mutator that books no reference keeps them all.
  have keeps : ∀ {p q : Payment}, p.columns.Backed records →
      (∃ status updatedAt failureReason completedAt events, q = { p with
        status := status, updatedAt := updatedAt, failureReason := failureReason,
        completedAt := completedAt, events := events }) → q.columns.Backed records := by
    rintro p q hp ⟨_, _, _, _, _, rfl⟩
    exact hp.congr rfl fun leg => by cases leg <;> rfl
  cases h with
  | stays => exact hheld t' ht'
  | claim hstatus hok =>
      cases ht'
      exact keeps (hinput _ (.inl rfl))
        ⟨_, _, _, _, _, congrArg Mutated.payment (Payment.transitionTo_ok hok).2⟩
  | post => cases ht'; exact hinput _ (.inr (.inl rfl))
  | debited hok =>
      cases ht'
      obtain ⟨m, hm, hkey, rfl⟩ := hanswer _ (.inl rfl) _ _ rfl rfl
      rw [(Payment.markDebited_ok hok).2]
      refine (hheld _ rfl).book rfl hm hkey rfl fun leg hleg => ?_
      cases leg <;> first | rfl | exact absurd rfl hleg
  | refused hok =>
      cases ht'
      exact keeps (hheld _ rfl)
        ⟨_, _, _, _, _, congrArg Mutated.payment (Payment.decline_ok hok).2⟩
  | overtaken hok =>
      cases ht'
      exact keeps (hinput _ (.inr (.inr ⟨_, rfl⟩)))
        ⟨_, _, _, _, _, congrArg Mutated.payment (Payment.decline_ok hok).2⟩
  | handOver => cases ht'
  | credit => cases ht'; exact hinput _ (.inl rfl)
  | credited hok =>
      cases ht'
      obtain ⟨m, hm, hkey, rfl⟩ := hanswer _ (.inl rfl) _ _ rfl rfl
      obtain ⟨-, debitReference, -, heq⟩ := Payment.approve_ok hok
      rw [heq]
      refine (hheld _ rfl).book rfl hm hkey rfl fun leg hleg => ?_
      cases leg <;> first | rfl | exact absurd rfl hleg
  | creditRefused hok =>
      cases ht'
      exact keeps (hheld _ rfl)
        ⟨_, _, _, _, _, congrArg Mutated.payment (Payment.markCompensationPending_ok hok).2⟩
  | resolve => cases ht'
  | lookUpDebit => cases ht'; exact hinput _ (.inl rfl)
  | lookUpCredit => cases ht'; exact hinput _ (.inl rfl)
  | owed => cases ht'; exact hinput _ (.inl rfl)
  | debitFound hok =>
      cases ht'
      obtain ⟨m, hm, hkey, rfl⟩ := hanswer _ (.inr rfl) _ _ rfl rfl
      rw [(Payment.markDebited_ok hok).2]
      refine (hheld _ rfl).book rfl hm hkey rfl fun leg hleg => ?_
      cases leg <;> first | rfl | exact absurd rfl hleg
  | debitAbsent hok =>
      cases ht'
      exact keeps (hheld _ rfl)
        ⟨_, _, _, _, _, congrArg Mutated.payment (Payment.decline_ok hok).2⟩
  | recovered hok =>
      cases ht'
      exact keeps (hinput _ (.inr (.inl rfl)))
        ⟨_, _, _, _, _, congrArg Mutated.payment (Payment.markCompensationPending_ok hok).2⟩
  | creditFound hok =>
      cases ht'
      obtain ⟨m, hm, hkey, rfl⟩ := hanswer _ (.inr rfl) _ _ rfl rfl
      obtain ⟨-, debitReference, -, heq⟩ := Payment.approve_ok hok
      rw [heq]
      refine (hheld _ rfl).book rfl hm hkey rfl fun leg hleg => ?_
      cases leg <;> first | rfl | exact absurd rfl hleg
  | decided => cases ht'; exact hinput _ (.inr (.inl rfl))
  | refunded hok =>
      cases ht'
      obtain ⟨m, hm, hkey, rfl⟩ := hanswer _ (.inl rfl) _ _ rfl rfl
      rw [(Payment.compensate_ok hok).2]
      refine (hheld _ rfl).book rfl hm hkey rfl fun leg hleg => ?_
      cases leg <;> first | rfl | exact absurd rfl hleg

end Moves

end Command

end Payments

end Paynad
