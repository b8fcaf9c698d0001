import Paynad.Library.Inevitable
import Paynad.Payments.Protocol.Recovery

/-!
# Every workflow ends

Whatever fails and however the workers interleave, a workflow makes a bounded number
of steps: no handler returns to an await it has left, and the client posts a movement
at most `maxAttempts` times. `remaining` counts the steps that a process still has
before it, so every step of its worker uses some of it up; and until its workflow is
over, a worker always has a step that it can take.
-/

namespace Paynad

namespace Payments

open Shared Transition

/-!
# What is left of a handler

The steps of a call that moves money count `posts`, any other call counts one.
-/

section

variable (posts : ℕ)

def CompensatePayment.Stage.remaining : CompensatePayment.Stage → ℕ
  | .saveCompensated .. => 1
  | .saveApproved .. => 1
  | .saveDeclined .. => 1
  | .findCredit .. => 2
  | .refund .. => posts + 1
  | .savePending .. => posts + 2
  | .saveDebited .. => posts + 3
  | .findDebit .. => posts + 4
  | .find .. => posts + 5

def CreditDestinationWallet.Stage.remaining : CreditDestinationWallet.Stage → ℕ
  | .savePending .. => posts + 6
  | .saveApproved .. => posts + 6
  | .credit .. => 2 * posts + 6
  | .find .. => 2 * posts + 7

def DebitSourceWallet.Stage.remaining : DebitSourceWallet.Stage → ℕ
  | .saveDeclined .. => 1
  | .saveDebited .. => 2 * posts + 8
  | .debit .. => 3 * posts + 8
  | .saveProcessing .. => 3 * posts + 9
  | .find .. => 3 * posts + 10

def Command.remaining : Command → ℕ
  | .debit stage => stage.remaining posts
  | .credit stage => stage.remaining posts
  | .compensate stage => stage.remaining posts

def ReconciliationJob.Stage.remaining : ReconciliationJob.Stage → ℕ
  | .record .. => 1
  | .refind => 2
  | .saga command => command.remaining posts + 2
  | .compensate stage => stage.remaining posts + 2
  | .find => 3 * posts + 13

def Process.remaining : Process → ℕ
  | .idle => 0
  | .initiated _ => 3 * posts + 11
  | .saga _ command => command.remaining posts
  | .recovery _ stage => stage.remaining posts

def Await.cost : Await → ℕ
  | .movement _ => posts
  | _ => 1

end

/-- What is left after an answer, when so much follows a return and so much an error. -/
def Progress.left {σ α : Type} (weight : σ → ℕ) (returned threw : ℕ) : Progress σ α → ℕ
  | .awaiting stage => weight stage
  | .returned _ => returned
  | .threw _ => threw

theorem Progress.left_ofMutated {σ α : Type} {weight : σ → ℕ} {returned threw n : ℕ}
    {m : Mutated} {k : Payment → Progress σ α} (hthrew : threw ≤ n)
    (hk : (k m.payment).left weight returned threw ≤ n) :
    (Progress.ofMutated m k).left weight returned threw ≤ n := by
  unfold Progress.ofMutated
  split
  · exact hk
  · exact hthrew

theorem CompensatePayment.remaining_afterDebit (posts : ℕ) (t : Tracked)
    (debitWasRecorded : Bool) (now : Date) :
    (afterDebit t debitWasRecorded now).left (Stage.remaining posts) 0 0 ≤ posts + 2 := by
  unfold afterDebit
  split_ifs
  · simp [Progress.left, Stage.remaining]
  · exact Progress.left_ofMutated (Nat.zero_le _) le_rfl
  · simp [Progress.left, Stage.remaining]

theorem CompensatePayment.remaining_resume (posts : ℕ) {stage : CompensatePayment.Stage}
    {input : Input} (now : Date) (h : stage.await.expects input = true) :
    (resume stage input now).left (Stage.remaining posts) 0 0 + stage.await.cost posts ≤
      stage.remaining posts := by
  cases stage with
  | find reference =>
      refine Nat.succ_le_succ (m := posts + 4) ?_
      cases input with
      | loaded t =>
          cases t with
          | none => exact Nat.zero_le _
          | some t =>
              simp only [resume]
              split_ifs
              · exact Nat.zero_le _
              · exact Nat.zero_le _
              · exact le_rfl
              · exact (remaining_afterDebit ..).trans (by omega)
      | queryFailed message => exact Nat.zero_le _
      | _ => cases h
  | findDebit t =>
      refine Nat.succ_le_succ (m := posts + 3) ?_
      cases input with
      | found movement =>
          cases movement with
          | none =>
              simp only [resume]
              refine Progress.left_ofMutated (Nat.zero_le _) ?_
              exact Nat.le_add_left 1 (posts + 2)
          | some m =>
              simp only [resume]
              split_ifs
              · exact Progress.left_ofMutated (Nat.zero_le _) le_rfl
              · exact (remaining_afterDebit ..).trans (by omega)
      | lookupUnavailable => exact Nat.zero_le _
      | _ => cases h
  | saveDebited t m =>
      refine Nat.succ_le_succ (m := posts + 2) ?_
      cases input with
      | committed t => exact remaining_afterDebit ..
      | failed t error => exact Nat.zero_le _
      | _ => cases h
  | saveDeclined t =>
      cases input with
      | committed t => exact le_rfl
      | failed t error => exact le_rfl
      | _ => cases h
  | findCredit t =>
      refine Nat.succ_le_succ (m := 1) ?_
      cases input with
      | found movement =>
          cases movement with
          | none => exact Nat.zero_le _
          | some m =>
              simp only [resume]
              refine Progress.left_ofMutated (Nat.zero_le _) ?_
              exact le_rfl
      | lookupUnavailable => exact Nat.zero_le _
      | _ => cases h
  | saveApproved t m at' =>
      cases input with
      | committed t => exact le_rfl
      | failed t error => exact le_rfl
      | _ => cases h
  | savePending t =>
      refine Nat.succ_le_succ (m := posts + 1) ?_
      cases input with
      | committed t => exact le_rfl
      | failed t error => exact Nat.zero_le _
      | _ => cases h
  | refund t =>
      rw [Nat.add_comm]
      refine Nat.add_le_add_left (m := 1) ?_ posts
      cases input with
      | moved m =>
          simp only [resume]
          refine Progress.left_ofMutated (Nat.zero_le _) ?_
          exact le_rfl
      | refused refusal => exact Nat.zero_le _
      | unavailable => exact Nat.zero_le _
      | _ => cases h
  | saveCompensated t m at' =>
      cases input with
      | committed t => exact le_rfl
      | failed t error => exact le_rfl
      | _ => cases h

theorem CreditDestinationWallet.remaining_resume (posts : ℕ)
    {stage : CreditDestinationWallet.Stage} {input : Input} (now : Date)
    (h : stage.await.expects input = true) :
    (resume stage input now).left (Stage.remaining posts) 0 (posts + 5) + stage.await.cost posts ≤
      stage.remaining posts := by
  cases stage with
  | find reference =>
      refine Nat.succ_le_succ (m := 2 * posts + 6) ?_
      have hend : posts + 5 ≤ 2 * posts + 6 := by omega
      cases input with
      | loaded t =>
          cases t with
          | none => exact hend
          | some t =>
              simp only [resume]
              split_ifs
              · split
                · exact Nat.zero_le _
                · exact hend
              · exact hend
              · exact le_rfl
      | queryFailed message => exact hend
      | _ => cases h
  | credit t =>
      have hcost : Await.cost posts (Stage.credit t).await = posts := rfl
      suffices hleft : (resume (.credit t) input now).left (Stage.remaining posts) 0 (posts + 5)
          ≤ posts + 6 by
        rw [hcost, Stage.remaining]
        omega
      have hend : posts + 5 ≤ posts + 6 := by omega
      cases input with
      | moved m =>
          simp only [resume]
          refine Progress.left_ofMutated hend ?_
          exact le_rfl
      | refused refusal =>
          simp only [resume]
          refine Progress.left_ofMutated hend ?_
          exact le_rfl
      | unavailable => exact hend
      | _ => cases h
  | savePending t error =>
      cases input with
      | committed t => exact le_rfl
      | failed t error => exact le_rfl
      | _ => cases h
  | saveApproved t m at' =>
      cases input with
      | committed t => exact Nat.le_add_left 1 (posts + 5)
      | failed t error => exact le_rfl
      | _ => cases h

theorem DebitSourceWallet.remaining_catchError (posts : ℕ) (t : Tracked) (error : Thrown)
    (now : Date) :
    (catchError t error now).left (Stage.remaining posts) (2 * posts + 7) 0 ≤ 2 * posts + 7 := by
  unfold catchError
  split
  · exact Nat.zero_le _
  · exact Nat.zero_le _
  · refine Progress.left_ofMutated (Nat.zero_le _) ?_
    exact Nat.le_add_left 1 (2 * posts + 6)

theorem DebitSourceWallet.remaining_resume (posts : ℕ) {stage : DebitSourceWallet.Stage}
    {input : Input} (now : Date) (h : stage.await.expects input = true) :
    (resume stage input now).left (Stage.remaining posts) (2 * posts + 7) 0 +
      stage.await.cost posts ≤ stage.remaining posts := by
  cases stage with
  | find reference =>
      refine Nat.succ_le_succ (m := 3 * posts + 9) ?_
      cases input with
      | loaded t =>
          cases t with
          | none => exact Nat.zero_le _
          | some t =>
              simp only [resume]
              split_ifs
              · exact Nat.zero_le _
              · refine Progress.left_ofMutated (Nat.zero_le _) ?_
                exact le_rfl
      | queryFailed message => exact Nat.zero_le _
      | _ => cases h
  | saveProcessing t =>
      refine Nat.succ_le_succ (m := 3 * posts + 8) ?_
      cases input with
      | committed t => exact le_rfl
      | failed t error => exact Nat.zero_le _
      | _ => cases h
  | debit t =>
      have hcost : Await.cost posts (Stage.debit t).await = posts := rfl
      suffices hleft : (resume (.debit t) input now).left (Stage.remaining posts) (2 * posts + 7) 0
          ≤ 2 * posts + 8 by
        rw [hcost, Stage.remaining]
        omega
      cases input with
      | moved m =>
          simp only [resume]
          split
          · exact le_rfl
          · exact (remaining_catchError ..).trans (Nat.le_succ _)
      | refused refusal => exact (remaining_catchError ..).trans (Nat.le_succ _)
      | unavailable =>
          simp only [resume]
          exact (remaining_catchError ..).trans (Nat.le_succ _)
      | _ => cases h
  | saveDebited t m =>
      refine Nat.succ_le_succ (m := 2 * posts + 7) ?_
      cases input with
      | committed t => exact le_rfl
      | failed t error => exact remaining_catchError ..
      | _ => cases h
  | saveDeclined t error =>
      cases input with
      | committed t => exact le_rfl
      | failed t error => exact le_rfl
      | _ => cases h

/-!
# What is left of a process
-/

theorem PaymentSaga.remaining_resume (posts : ℕ) (reference : String) {command : Command}
    {input : Input} (now : Date) (h : command.await.expects input = true) :
    (resume reference command input now).left (Command.remaining posts) 0 0 +
      command.await.cost posts ≤ command.remaining posts := by
  cases command with
  | debit stage =>
      refine le_trans (Nat.add_le_add_right ?_ _) (DebitSourceWallet.remaining_resume posts now h)
      cases hresume : DebitSourceWallet.resume stage input now with
      | awaiting stage' => simp only [resume, hresume]; exact le_rfl
      | returned value => simp only [resume, hresume]; exact le_rfl
      | threw error => cases error <;> simp only [resume, hresume] <;> exact le_rfl
  | credit stage =>
      refine le_trans (Nat.add_le_add_right ?_ _)
        (CreditDestinationWallet.remaining_resume posts now h)
      cases hresume : CreditDestinationWallet.resume stage input now with
      | awaiting stage' => simp only [resume, hresume]; exact le_rfl
      | returned value => simp only [resume, hresume]; exact le_rfl
      | threw error => simp only [resume, hresume]; exact le_rfl
  | compensate stage =>
      refine le_trans (Nat.add_le_add_right ?_ _) (CompensatePayment.remaining_resume posts now h)
      cases hresume : CompensatePayment.resume stage input now with
      | awaiting stage' => simp only [resume, hresume]; exact le_rfl
      | returned value => simp only [resume, hresume]; exact le_rfl
      | threw error => simp only [resume, hresume]; exact le_rfl

theorem ReconciliationJob.left_afterAttempt {σ α : Type} (posts : ℕ) (weight : σ → ℕ)
    (wrap : σ → Stage) (hwrap : ∀ stage, (wrap stage).remaining posts = weight stage + 2)
    (progress : Progress σ α) :
    (afterAttempt wrap progress).left (Stage.remaining posts) 0 0 ≤
      progress.left weight 0 0 + 2 := by
  cases progress with
  | awaiting stage => exact (hwrap stage).le
  | returned value => exact le_rfl
  | threw error => exact Nat.le_succ 1

theorem ReconciliationJob.remaining_resume (posts : ℕ) (reference : String) {stage : Stage}
    {input : Input} (now : Date) (h : (stage.await reference).expects input = true) :
    (resume reference stage input now).left (Stage.remaining posts) 0 0 +
      (stage.await reference).cost posts ≤ stage.remaining posts := by
  cases stage with
  | find =>
      refine Nat.succ_le_succ (m := 3 * posts + 12) ?_
      cases input with
      | loaded t =>
          cases t with
          | none => exact Nat.zero_le _
          | some t =>
              simp only [resume]
              split_ifs
              · exact Nat.zero_le _
              · exact le_rfl
              · show posts + 5 + 2 ≤ 3 * posts + 12
                omega
      | queryFailed message => exact Nat.zero_le _
      | _ => cases h
  | saga command =>
      have hleft := PaymentSaga.remaining_resume posts reference now h
      have hafter := left_afterAttempt posts (Command.remaining posts) .saga (fun _ => rfl)
        (PaymentSaga.resume reference command input now)
      simp only [resume, Stage.await, Stage.remaining]
      omega
  | compensate stage =>
      have hleft := CompensatePayment.remaining_resume posts now h
      have hafter := left_afterAttempt posts (CompensatePayment.Stage.remaining posts)
        .compensate (fun _ => rfl) (CompensatePayment.resume stage input now)
      simp only [resume, Stage.await, Stage.remaining]
      omega
  | refind =>
      refine Nat.succ_le_succ (m := 1) ?_
      cases input with
      | loaded t =>
          cases t with
          | none => exact le_rfl
          | some t =>
              simp only [resume]
              split_ifs <;> exact le_rfl
      | queryFailed message => exact le_rfl
      | _ => cases h
  | record failure =>
      cases input with
      | recorded => exact le_rfl
      | queryFailed message => exact le_rfl
      | _ => cases h

/-- Every answer that a worker can get uses its call up. -/
theorem Process.remaining_resume (posts : ℕ) {process : Process} {await : Await} {input : Input}
    (now : Date) (hawait : process.await = some await) (h : await.expects input = true) :
    (process.resume input now).remaining posts + await.cost posts ≤ process.remaining posts := by
  cases process with
  | idle => cases hawait
  | initiated reference => cases hawait
  | saga reference command =>
      cases hawait
      refine le_trans (Nat.add_le_add_right ?_ _) (PaymentSaga.remaining_resume posts
        reference now h)
      cases hresume : PaymentSaga.resume reference command input now <;>
        simp only [resume, hresume] <;> exact le_rfl
  | recovery reference stage =>
      cases hawait
      refine le_trans (Nat.add_le_add_right ?_ _) (ReconciliationJob.remaining_resume
        posts reference now h)
      cases hresume : ReconciliationJob.resume reference stage input now <;>
        simp only [resume, hresume] <;> exact le_rfl

theorem Process.cost_le_remaining (posts : ℕ) {process : Process} {await : Await}
    (hawait : process.await = some await) : await.cost posts ≤ process.remaining posts := by
  obtain ⟨input, hexpected⟩ : ∃ input, await.expects input = true := by
    cases await with
    | findByReference reference => exact ⟨.loaded none, rfl⟩
    | transaction work => exact ⟨.committed work.aggregate, rfl⟩
    | movement call => exact ⟨.unavailable, rfl⟩
    | findMovement wallet key => exact ⟨.found none, rfl⟩
    | recordRecoveryAttempt reference failure => exact ⟨.recorded, rfl⟩
  have hleft := Process.remaining_resume posts 0 hawait hexpected
  omega

namespace Platform

def Client.remaining (maxAttempts : ℕ) : Client → ℕ
  | .ready attempt _ => 2 * (maxAttempts - attempt) + 2
  | .waiting _ attempt _ => 2 * (maxAttempts - attempt) + 1

/-- The steps of a worker for one call that moves money. -/
def postsOf (maxAttempts : ℕ) : ℕ := 2 * (maxAttempts - 1) + 2

def State.remaining (maxAttempts worker : ℕ) (s : State) : ℕ :=
  (s.process worker).remaining (postsOf maxAttempts) + (s.clients worker).remaining maxAttempts

def Event.begins (worker : ℕ) : Event → Bool
  | .internal (.initiate worker' _ _ _ _) => worker' = worker
  | .internal (.recover worker' _) => worker' = worker
  | _ => false

def Event.own (worker : ℕ) : Event → Bool
  | .internal (.start worker') => worker' = worker
  | .internal (.query worker' _ _) => worker' = worker
  | .send worker' => worker' = worker
  | .receive worker' _ => worker' = worker
  | .fail worker' _ _ => worker' = worker
  | .circuitOpen worker' _ => worker' = worker
  | .lookUp worker' _ _ => worker' = worker
  | _ => false

section

variable {maxAttempts worker : ℕ} {s s' : State} {e : Event}

/-- A worker that waits for an answer gets one that its await expects. -/
theorem expects_of_query {database database' : Database} {await : Await} {moment : Moment}
    {fault : Fault} {input : Input}
    (h : await.query database moment fault = some (database', input)) :
    await.expects input = true := by
  cases await with
  | findByReference reference =>
      simp only [Await.query] at h
      split at h <;> cases h <;> rfl
  | transaction work =>
      simp only [Await.query, Option.some.injEq] at h
      cases hrun : work.run moment fault database <;> rw [hrun] at h <;> cases h <;> rfl
  | recordRecoveryAttempt reference failure =>
      simp only [Await.query] at h
      split at h <;> cases h <;> rfl
  | movement call => cases h
  | findMovement wallet key => cases h

theorem Client.remaining_idle (maxAttempts : ℕ) :
    Client.idle.remaining maxAttempts = postsOf maxAttempts := rfl

theorem Client.remaining_pos (maxAttempts : ℕ) (client : Client) :
    0 < client.remaining maxAttempts := by
  cases client <;> simp [Client.remaining]

theorem remaining_client (maxAttempts : ℕ) (hs : Invariant s) {await : Await}
    (hawait : (s.process worker).await = some await) :
    postsOf maxAttempts < (s.clients worker).remaining maxAttempts +
      await.cost (postsOf maxAttempts) := by
  cases await with
  | movement call =>
      have hpos := Client.remaining_pos maxAttempts (s.clients worker)
      simp only [Await.cost]
      omega
  | _ =>
      have hidle : s.clients worker = .idle := hs.client_idle fun call hmovement => by
        cases hawait.symm.trans hmovement
      rw [hidle, Client.remaining_idle]
      exact Nat.lt_succ_self _

/-- A worker whose call has ended has fewer steps left. -/
theorem remaining_of_finish (hs : Invariant s) {await : Await} {answer : Answer} {now : Date}
    (hawait : (s.process worker).await = some await)
    (hexpected : await.expects answer.input = true)
    (h : finish s worker answer now = some s') :
    s'.remaining maxAttempts worker < s.remaining maxAttempts worker := by
  obtain ⟨payments, hstep, rfl⟩ := Option.map_eq_some_iff.mp h
  have hprocess : payments.workers worker = (s.process worker).resume answer.input now := by
    simp only [Workers.step] at hstep
    split at hstep
    · rw [← Option.some.inj hstep]
      simp
    · rw [← Option.some.inj hstep]
      simp
    · cases hstep
  have hleft := Process.remaining_resume (postsOf maxAttempts) now hawait hexpected
  have hclient := remaining_client maxAttempts hs hawait
  simp only [State.remaining, State.process, hprocess, clientsAfter, Function.update_self,
    Client.remaining_idle] at hleft hclient ⊢
  omega

theorem Internal.remaining_own {event : Workers.Event}
    (h : Internal s s' event)
    (hevent : event = .start worker ∨ ∃ moment fault, event = .query worker moment fault) :
    s'.remaining maxAttempts worker < s.remaining maxAttempts worker := by
  have hstep := h.step
  have hclients : s'.clients worker = s.clients worker := by
    rw [h.clients]
    rcases hevent with rfl | ⟨moment, fault, rfl⟩ <;> rfl
  rw [State.remaining, State.remaining, hclients]
  refine Nat.add_lt_add_right ?_ _
  rcases hevent with rfl | ⟨moment, fault, rfl⟩
  · simp only [Workers.step] at hstep
    split at hstep
    · rename_i reference hprocess
      have hlt : ∀ process : Process, process = .idle ∨
          process = .saga reference (PaymentSaga.start reference) →
          process.remaining (postsOf maxAttempts) <
            (s.process worker).remaining (postsOf maxAttempts) := by
        rintro _ (rfl | rfl) <;> rw [State.process, hprocess]
        · exact Nat.succ_pos _
        · exact Nat.lt_succ_self _
      refine hlt _ ?_
      rw [State.process, ← Option.some.inj hstep, Workers.State.execute]
      split
      · exact .inl (by simp)
      · exact .inr (by simp)
    · cases hstep
  · simp only [Workers.step] at hstep
    split at hstep
    · rename_i database input hquery
      obtain ⟨await, hawait, hquery⟩ := Option.bind_eq_some_iff.mp hquery
      have hleft : ((s.process worker).resume input moment.now).remaining (postsOf maxAttempts) +
          await.cost (postsOf maxAttempts) ≤ (s.process worker).remaining (postsOf maxAttempts) :=
        Process.remaining_resume _ _ hawait (expects_of_query hquery)
      have hcost : 0 < await.cost (postsOf maxAttempts) := by
        cases await <;> exact Nat.succ_pos _
      have hprocess : s'.process worker = (s.process worker).resume input moment.now := by
        rw [State.process, ← Option.some.inj hstep]
        simp
      rw [hprocess]
      omega
    · cases hstep

theorem postsOf_le_remaining (maxAttempts worker : ℕ) (hs : Invariant s) :
    postsOf maxAttempts ≤ s.remaining maxAttempts worker := by
  cases hawait : (s.process worker).await with
  | none =>
      have hidle : s.clients worker = .idle := hs.client_idle fun call hmovement => by
        cases hawait.symm.trans hmovement
      rw [State.remaining, hidle, Client.remaining_idle]
      exact Nat.le_add_left ..
  | some await =>
      have hclient := remaining_client maxAttempts hs hawait
      have hcost := Process.cost_le_remaining (postsOf maxAttempts) hawait
      rw [State.remaining]
      omega

theorem Internal.remaining_crash (hs : Invariant s) (h : Internal s s' (.crash worker)) :
    s'.remaining maxAttempts worker ≤ s.remaining maxAttempts worker := by
  have hprocess : s'.process worker = .idle := by
    rw [State.process, ← Option.some.inj h.step]
    simp
  have hposts := postsOf_le_remaining maxAttempts worker hs
  have hzero : Process.idle.remaining (postsOf maxAttempts) = 0 := rfl
  rw [State.remaining, hprocess, hzero, h.clients]
  simp only [clientsAfter, Function.update_self, Client.remaining_idle]
  omega

def Spends (maxAttempts worker : ℕ) (s s' : State) (e : Event) : Prop :=
  s'.remaining maxAttempts worker + (e.own worker).toNat ≤ s.remaining maxAttempts worker

theorem spends_of_other (hstep : step maxAttempts s e = some s')
    (hworker : e.worker? ≠ some worker) : Spends maxAttempts worker s s' e := by
  obtain ⟨hprocess, hclient⟩ := frame_of_step hstep hworker
  have hown : e.own worker = false := by
    rw [← Bool.not_eq_true]
    intro hown
    refine hworker ?_
    cases e with
    | internal event =>
        cases event <;> first | cases hown | exact congrArg some (of_decide_eq_true hown)
    | serve id verdict => cases hown
    | _ => exact congrArg some (of_decide_eq_true hown)
  rw [Spends, hown, State.remaining, State.remaining, State.process, State.process, hprocess,
    hclient]
  exact le_rfl

theorem spends_of_finish (hs : Invariant s) {await : Await} {answer : Answer} {now : Date}
    (hawait : (s.process worker).await = some await)
    (hexpected : await.expects answer.input = true)
    (h : finish s worker answer now = some s') : Spends maxAttempts worker s s' e :=
  (Nat.add_le_add_left (Bool.toNat_le _) _).trans (remaining_of_finish hs hawait hexpected h)

theorem await_of_waiting (hs : Invariant s) {id attempt : ℕ} {uncertain : Bool}
    (hclient : s.clients worker = .waiting id attempt uncertain) :
    ∃ call, (s.process worker).await = some (.movement call) := by
  refine hs.busy worker ?_
  rw [hclient]
  rintro ⟨⟩

theorem spends_internal (hs : Invariant s) {event : Workers.Event}
    (hstep : step maxAttempts s (.internal event) = some s')
    (hbegins : (Event.internal event).begins event.worker = false) :
    Spends maxAttempts event.worker s s' (.internal event) := by
  obtain ⟨hlocal, hinternal⟩ := internal_of_step hstep
  cases event with
  | initiate worker => simp [Event.begins, Workers.Event.worker] at hbegins
  | recover worker => simp [Event.begins, Workers.Event.worker] at hbegins
  | start worker =>
      simp only [Spends, Event.own, Workers.Event.worker, decide_true, Bool.toNat_true]
      exact hinternal.remaining_own (.inl rfl)
  | query worker moment fault =>
      simp only [Spends, Event.own, Workers.Event.worker, decide_true, Bool.toNat_true]
      exact hinternal.remaining_own (.inr ⟨moment, fault, rfl⟩)
  | answer worker answer now => exact absurd rfl (hlocal _ _ _)
  | crash worker => exact hinternal.remaining_crash hs
  | loseLock worker =>
      have hprocess : s'.process worker = s.process worker := by
        rw [State.process, ← Option.some.inj hinternal.step]
        rfl
      simp only [Spends, State.remaining, Workers.Event.worker, hprocess, hinternal.clients,
        clientsAfter, Event.own]
      exact le_rfl

theorem spends_fail (hs : Invariant s) {retryable : Bool} {now : Date}
    (hstep : step maxAttempts s (.fail worker retryable now) = some s') :
    Spends maxAttempts worker s s' (.fail worker retryable now) := by
  simp only [Platform.step] at hstep
  split at hstep
  · rename_i id attempt uncertain hclient
    obtain ⟨call, hawait⟩ := await_of_waiting hs hclient
    split at hstep
    · rename_i hretried
      cases hstep
      simp only [Spends, State.remaining, State.process, Event.own, hclient, Client.remaining,
        Function.update_self, decide_true, Bool.toNat_true]
      omega
    · exact spends_of_finish hs hawait rfl hstep
  · cases hstep

theorem spends_receive (hs : Invariant s) {now : Date}
    (hstep : step maxAttempts s (.receive worker now) = some s') :
    Spends maxAttempts worker s s' (.receive worker now) := by
  simp only [Platform.step] at hstep
  split at hstep
  · rename_i id attempt uncertain hclient
    obtain ⟨call, hawait⟩ := await_of_waiting hs hclient
    split at hstep
    · exact spends_of_finish hs hawait rfl hstep
    · refine spends_of_finish hs hawait ?_ hstep
      cases uncertain <;> rfl
    · cases hstep
  · cases hstep

/-- A worker uses up one of its steps with each step it takes, and no other step gives
it more, unless it begins a workflow. -/
theorem remaining_step (hs : Invariant s) (hstep : step maxAttempts s e = some s')
    (hbegins : e.begins worker = false) : Spends maxAttempts worker s s' e := by
  by_cases hworker : e.worker? = some worker
  · cases e with
    | internal event =>
        obtain rfl : event.worker = worker := Option.some.inj hworker
        exact spends_internal hs hstep hbegins
    | send other =>
        obtain rfl : other = worker := Option.some.inj hworker
        simp only [Platform.step] at hstep
        split at hstep <;> cases hstep
        rename_i hclient
        simp only [Spends, State.remaining, Event.own, hclient, Client.remaining,
          Function.update_self, decide_true, Bool.toNat_true]
        exact le_rfl
    | serve id verdict => cases hworker
    | receive other now =>
        obtain rfl : other = worker := Option.some.inj hworker
        exact spends_receive hs hstep
    | fail other retryable now =>
        obtain rfl : other = worker := Option.some.inj hworker
        exact spends_fail hs hstep
    | circuitOpen other now =>
        obtain rfl : other = worker := Option.some.inj hworker
        simp only [Platform.step] at hstep
        split at hstep
        · rename_i call hawait hclient
          exact spends_of_finish hs hawait rfl hstep
        · cases hstep
    | lookUp other available now =>
        obtain rfl : other = worker := Option.some.inj hworker
        simp only [Platform.step] at hstep
        split at hstep
        · rename_i wallet key hawait
          refine spends_of_finish hs hawait ?_ hstep
          cases available <;> rfl
        · cases hstep
  · exact spends_of_other hstep hworker

theorem remaining_of_begins (hs : Invariant s) (hidle : s.process worker = .idle)
    (hstep : step maxAttempts s e = some s') :
    s'.remaining maxAttempts worker ≤ 4 * postsOf maxAttempts + 13 := by
  have hclient : s.clients worker = .idle := hs.client_idle fun call hmovement => by
    rw [show s.payments.workers worker = _ from hidle] at hmovement
    cases hmovement
  cases hbegins : e.begins worker with
  | false =>
      have hle : s'.remaining maxAttempts worker + (e.own worker).toNat ≤
          s.remaining maxAttempts worker := remaining_step hs hstep hbegins
      have hbefore : s.remaining maxAttempts worker = 0 + postsOf maxAttempts := by
        rw [State.remaining, hidle, hclient]
        rfl
      omega
  | true =>
      have hprocess : ∀ process : Process, process = .idle ∨
          (∃ reference, process = .initiated reference) ∨
          (∃ reference, process = .recovery reference .find) →
          process.remaining (postsOf maxAttempts) ≤ 3 * postsOf maxAttempts + 13 := by
        rintro _ (rfl | ⟨reference, rfl⟩ | ⟨reference, rfl⟩)
        · exact Nat.zero_le _
        · exact Nat.le_add_right _ 2
        · exact le_rfl
      suffices hbegun : s'.clients worker = s.clients worker ∧
          (s'.process worker = .idle ∨ (∃ reference, s'.process worker = .initiated reference) ∨
            ∃ reference, s'.process worker = .recovery reference .find) by
        have hle := hprocess _ hbegun.2
        rw [State.remaining, hbegun.1, hclient, Client.remaining_idle]
        omega
      cases e with
      | internal event =>
          cases event with
          | initiate worker' input reference moment fault =>
              obtain rfl : worker' = worker := by simpa [Event.begins] using hbegins
              obtain ⟨payments, hworkers, rfl⟩ := Option.map_eq_some_iff.mp hstep
              refine ⟨rfl, ?_⟩
              simp only [Workers.step, show s.payments.workers worker' = _ from hidle] at hworkers
              split at hworkers
              · rw [State.process, ← Option.some.inj hworkers]
                exact .inl hidle
              · split at hworkers <;> rw [State.process, ← Option.some.inj hworkers]
                · exact .inr (.inl ⟨reference.value, by simp⟩)
                · exact .inl hidle
                · exact .inl hidle
          | recover worker' reference =>
              obtain rfl : worker' = worker := by simpa [Event.begins] using hbegins
              obtain ⟨payments, hworkers, rfl⟩ := Option.map_eq_some_iff.mp hstep
              refine ⟨rfl, ?_⟩
              simp only [Workers.step, show s.payments.workers worker' = _ from hidle] at hworkers
              rw [State.process, ← Option.some.inj hworkers, Workers.State.execute]
              split
              · exact .inl (by simp)
              · exact .inr (.inr ⟨reference.value, by simp⟩)
          | _ => cases hbegins
      | _ => cases hbegins

/-- A worker in a workflow can always take a step. -/
theorem enabled_of_busy (maxAttempts : ℕ) (hworker : s.process worker ≠ .idle) :
    ∃ e : Event, e.own worker = true ∧ (step maxAttempts s e).isSome = true := by
  cases hawait : (s.process worker).await with
  | none =>
      refine ⟨.internal (.start worker), decide_eq_true rfl, ?_⟩
      cases hprocess : s.payments.workers worker with
      | idle => exact absurd hprocess hworker
      | initiated reference => simp [Platform.step, Workers.step, hprocess]
      | saga reference command =>
          rw [State.process, hprocess] at hawait
          cases hawait
      | recovery reference stage =>
          rw [State.process, hprocess] at hawait
          cases hawait
  | some await =>
      have hquery : ∀ moment, (∃ result, await.query s.payments.database moment .none =
          some result) → ∃ e : Event, e.own worker = true ∧
            (step maxAttempts s e).isSome = true := by
        rintro moment ⟨⟨database, input⟩, hquery⟩
        refine ⟨.internal (.query worker moment .none), decide_eq_true rfl, ?_⟩
        simp [Platform.step, Workers.step, show (s.payments.workers worker).await = _ from hawait,
          hquery]
      have hfinish : ((∃ call, await = .movement call) ∨ ∃ wallet key,
          await = .findMovement wallet key) → ∀ answer now,
          (finish s worker answer now).isSome = true := by
        rintro (⟨call, rfl⟩ | ⟨wallet, key, rfl⟩) answer now <;>
          simp [finish, Workers.step, show (s.payments.workers worker).await = _ from hawait]
      cases await with
      | findByReference reference =>
          refine hquery ⟨0, ""⟩ ?_
          simp only [Await.query, Fault.breaks]
          cases TypeOrmPaymentRepository.findByReference s.payments.database.payments reference <;>
            exact ⟨_, rfl⟩
      | transaction work => exact hquery ⟨0, ""⟩ ⟨_, rfl⟩
      | recordRecoveryAttempt reference failure => exact hquery ⟨0, ""⟩ ⟨_, rfl⟩
      | movement call =>
          cases hclient : s.clients worker with
          | ready attempt uncertain =>
              refine ⟨.send worker, decide_eq_true rfl, ?_⟩
              simp [Platform.step, show (s.payments.workers worker).await = _ from hawait, hclient]
          | waiting id attempt uncertain =>
              refine ⟨.fail worker false 0, decide_eq_true rfl, ?_⟩
              simpa [Platform.step, hclient] using hfinish (.inl ⟨call, rfl⟩) .unavailable 0
      | findMovement wallet key =>
          refine ⟨.lookUp worker false 0, decide_eq_true rfl, ?_⟩
          simpa [Platform.step, show (s.payments.workers worker).await = _ from hawait] using
            hfinish (.inr ⟨wallet, key, rfl⟩) .lookupUnavailable 0

end

/-- Whatever fails and whatever the others do, a worker takes a bounded number of steps
in a workflow, and it can take one until the workflow is over. -/
theorem bounded_work {maxAttempts worker : ℕ} {s s' : State} {e : Event} {es : List Event}
    (hreach : Reachable (step maxAttempts) init s) (hidle : s.process worker = .idle)
    (hrun : run (step maxAttempts) s (e :: es) = some s')
    (hbegins : ∀ e ∈ es, e.begins worker = false) :
    es.countP (Event.own worker) ≤ 3 * postsOf maxAttempts + 13 ∧
      (s'.process worker = .idle ∨
        ∃ e : Event, e.own worker = true ∧ (step maxAttempts s' e).isSome = true) := by
  have hs := invariant_of_reachable hreach
  obtain ⟨s₁, hfirst, hrest⟩ := Option.bind_eq_some_iff.mp hrun
  have hs₁ := hs.step hfirst
  have hs' : Invariant s' := run_invariant (fun _ _ _ hs hstep => hs.step hstep) hrest hs₁
  have hcount : es.countP (Event.own worker) + s'.remaining maxAttempts worker ≤
      s₁.remaining maxAttempts worker := countP_add_rank_le
    (A := fun e => e.begins worker = false) (fun _ _ _ hs hstep => hs.step hstep)
    (fun _ _ _ hs hA hstep => remaining_step hs hstep hA) hrest hbegins hs₁
  have hfresh := remaining_of_begins hs hidle hfirst
  have hleft := postsOf_le_remaining maxAttempts worker hs'
  refine ⟨by omega, ?_⟩
  by_cases hprocess : s'.process worker = .idle
  · exact .inl hprocess
  · exact .inr (enabled_of_busy maxAttempts hprocess)

/-- The saga of the sample payment has taken five steps when its debit is accepted. -/
theorem bounded_work_debitedRun :
    ∃ s', run (step 3) init debitedRun = some s' ∧
      debitedRun.tail.countP (Event.own 0) = 5 ∧
      debitedRun.tail.countP (Event.own 0) ≤ 3 * postsOf 3 + 13 := by
  obtain ⟨s', hs'⟩ : ∃ s', run (step 3) init debitedRun = some s' := ⟨_, rfl⟩
  exact ⟨s', hs', rfl, (bounded_work (.refl _ _) rfl hs' (by decide)).1⟩

end Platform

end Payments

end Paynad
