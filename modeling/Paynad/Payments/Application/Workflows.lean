import Paynad.Payments.Application.Handlers

/-!
# The saga, the reconciler and the process of a worker

The saga and the reconciler execute commands one after the other, so a workflow
is suspended where its current command is. `Command` is that command at its
await; a `Process` is what one worker is doing, from the commit of an initiation
or from the pick of a stuck payment to the end of its workflow.
-/

namespace Paynad

namespace Payments

open Shared

inductive Command where
  | debit (stage : DebitSourceWallet.Stage)
  | credit (stage : CreditDestinationWallet.Stage)
  | compensate (stage : CompensatePayment.Stage)

def Command.await : Command → Await
  | .debit stage => stage.await
  | .credit stage => stage.await
  | .compensate stage => stage.await

namespace PaymentSaga

def start (reference : String) : Command := .debit (.find reference)

def resume (reference : String) (command : Command) (input : Input) (now : Date) :
    Progress Command Unit :=
  match command with
  | .debit stage =>
      match DebitSourceWallet.resume stage input now with
      | .awaiting stage => .awaiting (.debit stage)
      | .returned _ => .awaiting (.credit (.find reference))
      | .threw (.domain _) => .returned ()
      | .threw (.other message) => .threw (.other message)
  | .credit stage =>
      match CreditDestinationWallet.resume stage input now with
      | .awaiting stage => .awaiting (.credit stage)
      | .returned _ => .returned ()
      -- Whatever the error, the outcome of the credit is resolved before any refund.
      | .threw _ => .awaiting (.compensate (.find reference))
  | .compensate stage =>
      match CompensatePayment.resume stage input now with
      | .awaiting stage => .awaiting (.compensate stage)
      | .returned _ => .returned ()
      | .threw error => .threw error

end PaymentSaga

namespace ReconciliationJob

/-- The awaits of `ReconciliationJob.recover` for one payment. -/
inductive Stage where
  | find
  | saga (command : Command)
  | compensate (stage : CompensatePayment.Stage)
  | refind
  | record (failure : Option String)

def Stage.await (reference : String) : Stage → Await
  | .find => .findByReference reference
  | .saga command => command.await
  | .compensate stage => stage.await
  | .refind => .findByReference reference
  | .record failure => .recordRecoveryAttempt reference failure

/-- After the workflow of the `try` block: re-read the payment, or note the error. -/
def afterAttempt {σ α : Type} (wrap : σ → Stage) : Progress σ α → Progress Stage Unit
  | .awaiting stage => .awaiting (wrap stage)
  | .returned _ => .awaiting .refind
  | .threw error => .awaiting (.record (some error.message))

def resume (reference : String) (stage : Stage) (input : Input) (now : Date) :
    Progress Stage Unit :=
  match stage, input with
  | .find, .loaded none => .returned ()
  | .find, .loaded (some t) =>
      if t.payment.status ∈ terminalStatuses then
        .returned ()
      else if t.payment.status = .pending then
        .awaiting (.saga (PaymentSaga.start reference))
      else
        .awaiting (.compensate (.find reference))
  | .find, .queryFailed message => .threw (.other message)
  | .saga command, input => afterAttempt .saga (PaymentSaga.resume reference command input now)
  | .compensate stage, input =>
      afterAttempt .compensate (CompensatePayment.resume stage input now)
  | .refind, .loaded none => .awaiting (.record none)
  | .refind, .loaded (some t) =>
      if t.payment.status ∈ terminalStatuses then
        .awaiting (.record none)
      else
        .awaiting (.record (some ("unresolved: " ++ t.payment.status.value)))
  | .refind, .queryFailed message => .awaiting (.record (some message))
  | .record _, .recorded => .returned ()
  | .record _, .queryFailed message => .threw (.other message)
  | stage, _ => .awaiting stage

end ReconciliationJob

inductive Process where
  | idle
  /-- The payment is committed as Pending and the saga is about to be started. -/
  | initiated (reference : String)
  | saga (reference : String) (command : Command)
  | recovery (reference : String) (stage : ReconciliationJob.Stage)

namespace Process

def reference : Process → Option String
  | .idle => none
  | .initiated reference => some reference
  | .saga reference _ => some reference
  | .recovery reference _ => some reference

theorem idle_of_reference {process : Process} (h : process.reference = none) :
    process = .idle := by
  cases process <;> first | rfl | cases h

def command : Process → Option Command
  | .saga _ command => some command
  | .recovery _ (.saga command) => some command
  | .recovery _ (.compensate stage) => some (.compensate stage)
  | _ => none

def await : Process → Option Await
  | .idle => none
  | .initiated _ => none
  | .saga _ command => some command.await
  | .recovery reference stage => some (stage.await reference)

def ofProgress {σ α : Type} (wrap : σ → Process) : Progress σ α → Process
  | .awaiting stage => wrap stage
  | .returned _ => .idle
  | .threw _ => .idle

def resume (process : Process) (input : Input) (now : Date) : Process :=
  match process with
  | .idle => .idle
  | .initiated reference => .initiated reference
  | .saga reference command =>
      ofProgress (.saga reference) (PaymentSaga.resume reference command input now)
  | .recovery reference stage =>
      ofProgress (.recovery reference) (ReconciliationJob.resume reference stage input now)

end Process

/-!
# What one answer does to the current command

Whatever the workflow around it, an answer moves the current command to its own
next await, starts the credit after a debit that returned, starts a compensation,
or leaves no command.
-/

inductive Command.Next (reference : String) (input : Input) (now : Date) :
    Command → Command → Prop
  | debit {stage stage' : DebitSourceWallet.Stage}
      (h : DebitSourceWallet.resume stage input now = .awaiting stage') :
      Next reference input now (.debit stage) (.debit stage')
  | debited {stage : DebitSourceWallet.Stage} {value : String}
      (h : DebitSourceWallet.resume stage input now = .returned value) :
      Next reference input now (.debit stage) (.credit (.find reference))
  | credit {stage stage' : CreditDestinationWallet.Stage}
      (h : CreditDestinationWallet.resume stage input now = .awaiting stage') :
      Next reference input now (.credit stage) (.credit stage')
  | creditFailed {stage : CreditDestinationWallet.Stage} {error : Thrown}
      (h : CreditDestinationWallet.resume stage input now = .threw error) :
      Next reference input now (.credit stage) (.compensate (.find reference))
  | compensate {stage stage' : CompensatePayment.Stage}
      (h : CompensatePayment.resume stage input now = .awaiting stage') :
      Next reference input now (.compensate stage) (.compensate stage')

theorem PaymentSaga.next_of_resume {reference : String} {command command' : Command}
    {input : Input} {now : Date}
    (h : resume reference command input now = .awaiting command') :
    Command.Next reference input now command command' := by
  cases command with
  | debit stage =>
      simp only [resume] at h
      split at h <;> cases h
      · exact .debit ‹_›
      · exact .debited ‹_›
  | credit stage =>
      simp only [resume] at h
      split at h <;> cases h
      · exact .credit ‹_›
      · exact .creditFailed ‹_›
  | compensate stage =>
      simp only [resume] at h
      split at h <;> cases h
      exact .compensate ‹_›

theorem Process.next_of_resume {process : Process} {input : Input} {now : Date}
    {command' : Command} (h : (process.resume input now).command = some command') :
    (∃ reference command, process.reference = some reference ∧
      process.command = some command ∧ Command.Next reference input now command command') ∨
    ∃ reference, process.reference = some reference ∧
      (command' = .debit (.find reference) ∨ command' = .compensate (.find reference)) := by
  cases process with
  | idle => simp [resume, command] at h
  | initiated reference => simp [resume, command] at h
  | saga reference c =>
      left
      refine ⟨reference, c, rfl, rfl, PaymentSaga.next_of_resume ?_⟩
      cases hr : PaymentSaga.resume reference c input now <;>
        simp [resume, hr, ofProgress, command] at h
      rw [h]
  | recovery reference stage =>
      cases stage with
      | saga c =>
          left
          refine ⟨reference, c, rfl, rfl, PaymentSaga.next_of_resume ?_⟩
          cases hr : PaymentSaga.resume reference c input now <;>
            simp [resume, ReconciliationJob.resume, ReconciliationJob.afterAttempt, hr,
              ofProgress, command] at h
          rw [h]
      | compensate stage =>
          left
          refine ⟨reference, .compensate stage, rfl, rfl, ?_⟩
          cases hr : CompensatePayment.resume stage input now <;>
            simp [resume, ReconciliationJob.resume, ReconciliationJob.afterAttempt, hr,
              ofProgress, command] at h
          subst h
          exact .compensate hr
      | find =>
          right
          refine ⟨reference, rfl, ?_⟩
          rcases input with (_ | t) | _ | _ | _ | _ | _ | _ | _ | _ | _ <;>
            simp [resume, ReconciliationJob.resume, ofProgress, command] at h
          by_cases hterminal : t.payment.status ∈ terminalStatuses
          · simp [hterminal] at h
          · by_cases hpending : t.payment.status = .pending
            · rw [if_neg hterminal, if_pos hpending] at h
              exact .inl (Option.some.inj h).symm
            · rw [if_neg hterminal, if_neg hpending] at h
              exact .inr (Option.some.inj h).symm
      | refind =>
          rcases input with (_ | t) | _ | _ | _ | _ | _ | _ | _ | _ | _ <;>
            simp [resume, ReconciliationJob.resume, ofProgress, command] at h
          by_cases hterminal : t.payment.status ∈ terminalStatuses <;> simp [hterminal] at h
      | record failure =>
          cases input <;> simp [resume, ReconciliationJob.resume, ofProgress, command] at h

theorem Process.reference_resume {process : Process} {input : Input} {now : Date}
    {reference : String} (h : (process.resume input now).reference = some reference) :
    process.reference = some reference := by
  cases process with
  | idle => exact h
  | initiated r => exact h
  | saga r c =>
      cases hr : PaymentSaga.resume r c input now <;>
        simp [resume, hr, ofProgress, Process.reference] at h ⊢
      exact h
  | recovery r stage =>
      cases hr : ReconciliationJob.resume r stage input now <;>
        simp [resume, hr, ofProgress, Process.reference] at h ⊢
      exact h

end Payments

end Paynad
