import Paynad.Accounts.Protocol.ExactlyOnce

/-!
# Replays that race

A call that is refused on its way is answered with the refusal, even when a rival
under its key has committed the very same movement in the meantime: only the branch
of the unique constraint looks the key up again. A call that passes its checks is
answered with the recorded movement.
-/

namespace Paynad

namespace Accounts

open Shared Transition

/-- What a call is not refused for at the step it takes next: its wallet exists, the
wallet it has read is operable, the conditional UPDATE accepts the committed row. -/
def Passes (s : State) (call : Call) : Stage → Prop
  | .reading => ∃ wallet, s.findByReference call.reference = some wallet
  | .checking wallet => assertOperable wallet call.request = .ok ()
  | .moving wallet => ∃ row, s.row wallet.id = some row ∧
      row.accepts call.delta call.request.currency = true
  | _ => True

def Unrefused (c : ℕ) (s : State) : Event → Prop
  | .resume c' _ => c' = c → ∀ call, s.calls c = some call → Passes s call call.stage
  | _ => True

/-- Where a call stands that was not refused: it is answered by the entry of its key. -/
def OnTrack (s : State) (call : Call) : Stage → Prop
  | .rereading _ | .declining _ => False
  | .settling outcome | .done outcome => ∃ id entry, Known s call id ∧
      s.findByIdempotencyKey id call.request.transactionId = some entry ∧
      outcome = replay entry call.request call.type
  | _ => True

def Refused : Stage → Prop
  | .rereading _ | .declining _ | .aborted => True
  | .settling outcome | .done outcome => ∃ error, outcome = .error error
  | _ => False

variable {s t u : State} {c : ℕ} {call : Call} {stage : Stage} {e : Event} {es : List Event}

theorem OnTrack.mono (hgrows : Grows s t) (h : OnTrack s call stage) : OnTrack t call stage := by
  cases stage with
  | settling outcome =>
      obtain ⟨id, entry, hknown, hentry, heq⟩ := h
      exact ⟨id, entry, hknown.mono hgrows, hgrows.entries _ _ _ hentry, heq⟩
  | done outcome =>
      obtain ⟨id, entry, hknown, hentry, heq⟩ := h
      exact ⟨id, entry, hknown.mono hgrows, hgrows.entries _ _ _ hentry, heq⟩
  | rereading wallet => exact h
  | declining error => exact h
  | _ => trivial

theorem onTrack_of_ok {response : BalanceOperationResponse}
    (h : Truthful s call (.ok response)) : OnTrack s call (.settling (.ok response)) := by
  obtain ⟨entry, ⟨id, hknown, hentry, hsame⟩, rfl⟩ := h response rfl
  exact ⟨id, entry, hknown, hentry, (replay_of_same hsame).symm⟩

theorem unrefused_iff {trx : String} (hcall : s.calls c = some call) :
    Unrefused c s (.resume c trx) ↔ Passes s call call.stage := by
  refine ⟨fun h => h rfl call hcall, fun h _ call' hcall' => ?_⟩
  obtain rfl : call = call' := Option.some.inj (hcall.symm.trans hcall')
  exact h

/-- The next await of a call that is on track: still on track, or refused. -/
theorem resume_onTrack {trx : String} (hsound : Sound s) (hcall : s.calls c = some call)
    (h : OnTrack s call call.stage) (hresume : resume s c call trx = some t) :
    ∃ stage, t.calls c = some { call with stage := stage } ∧
      ((Passes s call call.stage ∧ OnTrack t call stage) ∨
        (¬ Passes s call call.stage ∧ Refused stage)) := by
  have hstanding := hsound.calls c call hcall
  unfold resume at hresume
  cases hstage : call.stage with
  | reading =>
      simp only [hstage] at hresume
      cases hwallet : s.findByReference call.reference with
      | none =>
          simp only [hwallet, Option.some.injEq] at hresume
          subst hresume
          refine ⟨_, goTo_calls_self, .inr ⟨?_, _, rfl⟩⟩
          rintro ⟨wallet, hwallet'⟩
          exact nomatch hwallet.symm.trans hwallet'
      | some wallet =>
          simp only [hwallet, Option.some.injEq] at hresume
          subst hresume
          exact ⟨_, goTo_calls_self, .inl ⟨⟨wallet, hwallet⟩, trivial⟩⟩
  | looking wallet =>
      simp only [hstage] at hresume hstanding
      split at hresume
      · next replayed hreplayed =>
          obtain rfl := Option.some.inj hresume
          exact ⟨_, goTo_calls_self, .inl ⟨trivial, _, replayed, hstanding.1, hreplayed, rfl⟩⟩
      · obtain rfl := Option.some.inj hresume
        exact ⟨_, goTo_calls_self, .inl ⟨trivial, trivial⟩⟩
  | checking wallet =>
      simp only [hstage] at hresume
      cases hoperable : assertOperable wallet call.request with
      | error error =>
          simp only [hoperable, Option.some.injEq] at hresume
          subst hresume
          refine ⟨_, goTo_calls_self, .inr ⟨fun hpasses => ?_, error, rfl⟩⟩
          exact nomatch hoperable.symm.trans hpasses
      | ok operable =>
          simp only [hoperable, Option.some.injEq] at hresume
          subst hresume
          exact ⟨_, goTo_calls_self, .inl ⟨hoperable, trivial⟩⟩
  | moving wallet =>
      simp only [hstage, update] at hresume
      cases hrow : s.row wallet.id with
      | none =>
          simp only [hrow, Option.some.injEq] at hresume
          subst hresume
          refine ⟨_, goTo_calls_self, .inr ⟨?_, trivial⟩⟩
          rintro ⟨row, hrow', -⟩
          exact nomatch hrow.symm.trans hrow'
      | some row =>
          simp only [hrow] at hresume
          split_ifs at hresume with haccepts havailable
          · obtain rfl := Option.some.inj hresume
            exact ⟨_, goTo_calls_self, .inl ⟨⟨row, hrow, haccepts⟩, trivial⟩⟩
          · obtain rfl := Option.some.inj hresume
            refine ⟨_, goTo_calls_self, .inr ⟨?_, trivial⟩⟩
            rintro ⟨row', hrow', haccepts'⟩
            obtain rfl : row = row' := Option.some.inj (hrow.symm.trans hrow')
            exact haccepts haccepts'
  | rereading wallet => exact (by rw [hstage] at h; exact h : False).elim
  | declining error => exact (by rw [hstage] at h; exact h : False).elim
  | appending version =>
      simp only [hstage] at hresume
      split at hresume
      · obtain rfl := Option.some.inj hresume
        exact ⟨_, goTo_calls_self, .inl ⟨trivial, trivial⟩⟩
      · obtain rfl := Option.some.inj hresume
        exact ⟨_, goTo_calls_self, .inl ⟨trivial, trivial⟩⟩
  | committing version entry =>
      simp only [hstage, Option.some.injEq] at hresume
      subst hresume
      rw [hstage] at hstanding
      have hmoves := Moves.commit hsound (hsound.types c call hcall) hstanding
      exact ⟨_, goTo_calls_self, .inl ⟨trivial, onTrack_of_ok hmoves.standing⟩⟩
  | violating walletId =>
      simp only [hstage, Option.some.injEq] at hresume
      subst hresume
      exact ⟨_, goTo_calls_self, .inl ⟨trivial, trivial⟩⟩
  | relooking walletId =>
      simp only [hstage] at hresume hstanding
      split at hresume
      · next original horiginal =>
          obtain rfl := Option.some.inj hresume
          exact ⟨_, goTo_calls_self, .inl ⟨trivial, _, original, hstanding.1, horiginal, rfl⟩⟩
      · obtain rfl := Option.some.inj hresume
        exact ⟨_, goTo_calls_self, .inl ⟨trivial, trivial⟩⟩
  | settling outcome =>
      simp only [hstage, Option.some.injEq] at hresume
      subst hresume
      rw [hstage] at h
      exact ⟨_, goTo_calls_self, .inl ⟨trivial, h⟩⟩
  | done outcome => simp [hstage] at hresume
  | aborted => simp [hstage] at hresume

theorem resume_refused {trx : String} (h : Refused call.stage)
    (hresume : resume s c call trx = some t) :
    ∃ stage, t.calls c = some { call with stage := stage } ∧ Refused stage := by
  unfold resume at hresume
  cases hstage : call.stage with
  | rereading wallet =>
      simp only [hstage, Option.some.injEq] at hresume
      subst hresume
      exact ⟨_, goTo_calls_self, trivial⟩
  | declining error =>
      simp only [hstage, Option.some.injEq] at hresume
      subst hresume
      exact ⟨_, goTo_calls_self, error, rfl⟩
  | settling outcome =>
      simp only [hstage, Option.some.injEq] at hresume
      subst hresume
      rw [hstage] at h
      exact ⟨_, goTo_calls_self, h⟩
  | done outcome => simp [hstage] at hresume
  | aborted => simp [hstage] at hresume
  | _ =>
      rw [hstage] at h
      exact h.elim

def Clear (c : ℕ) (s : State) : Prop :=
  Sound s ∧ ∀ call, s.calls c = some call → OnTrack s call call.stage

def Turned (c : ℕ) (s : State) : Prop :=
  Sound s ∧ ∃ call, s.calls c = some call ∧ Refused call.stage

theorem calls_of_other (hsound : Sound s) (hstep : step s e = some t)
    (hne : e.caller ≠ some c) : t.calls c = s.calls c :=
  ((step_sound hsound hstep).2.others c hne).2

theorem clear_step (h : Clear c s) (hstep : step s e = some t) :
    (Unrefused c s e ∧ Clear c t) ∨ (¬ Unrefused c s e ∧ Turned c t) := by
  obtain ⟨hsound, hclear⟩ := h
  obtain ⟨hsound', hframe⟩ := step_sound hsound hstep
  by_cases hcaller : e.caller = some c
  · cases callStep_of_caller hstep hcaller with
    | credit reference request hnone =>
        refine .inl ⟨trivial, hsound', fun call hcall => ?_⟩
        obtain rfl := eq_of_goTo_calls hcall
        trivial
    | debit reference request hnone =>
        refine .inl ⟨trivial, hsound', fun call hcall => ?_⟩
        obtain rfl := eq_of_goTo_calls hcall
        trivial
    | resume call trx t hcall hresume =>
        obtain ⟨stage, hcall', hnext⟩ :=
          resume_onTrack hsound hcall (hclear call hcall) hresume
        rw [unrefused_iff hcall]
        refine hnext.imp (fun ⟨hpasses, htrack⟩ => ⟨hpasses, hsound', ?_⟩)
          (fun ⟨hpasses, hrefused⟩ => ⟨hpasses, hsound', _, hcall', hrefused⟩)
        intro call'' hcall''
        obtain rfl := Option.some.inj (hcall'.symm.trans hcall'')
        cases stage <;> exact htrack
    | abort call hcall hover =>
        refine .inl ⟨trivial, hsound', fun call' hcall' => ?_⟩
        obtain rfl := eq_of_goTo_calls hcall'
        trivial
  · refine .inl ⟨?_, hsound', fun call hcall => ?_⟩
    · cases e with
      | resume c' trx => exact fun heq => absurd (congrArg some heq) hcaller
      | _ => trivial
    · rw [calls_of_other hsound hstep hcaller] at hcall
      exact (hclear call hcall).mono hframe.grows

theorem turned_step (h : Turned c s) (hstep : step s e = some t) : Turned c t := by
  obtain ⟨hsound, call, hcall, hrefused⟩ := h
  have hsound' := (step_sound hsound hstep).1
  by_cases hcaller : e.caller = some c
  · cases callStep_of_caller hstep hcaller with
    | credit reference request hnone => exact nomatch hnone.symm.trans hcall
    | debit reference request hnone => exact nomatch hnone.symm.trans hcall
    | resume call' trx t hcall' hresume =>
        obtain rfl : call = call' := Option.some.inj (hcall.symm.trans hcall')
        obtain ⟨stage, hstage, hrefused'⟩ := resume_refused hrefused hresume
        exact ⟨hsound', _, hstage, hrefused'⟩
    | abort call' hcall' hover => exact ⟨hsound', _, goTo_calls_self, trivial⟩
  · refine ⟨hsound', call, ?_, hrefused⟩
    rw [calls_of_other hsound hstep hcaller, hcall]

/-- When a call is about to be answered and a movement of its operation is committed under
its key, it is answered with that movement exactly when no step of the run refused it. -/
theorem replay_answered_iff {outcome : Outcome} {entry : LedgerEntry}
    (hrun : run step init es = some s) (hcall : s.calls c = some call)
    (hstage : call.stage = .settling outcome) (hrecorded : Recorded s call entry) :
    outcome = .ok (.approved entry) ↔ RunsUnder step (Unrefused c) init es s := by
  have hsides := run_dichotomy (A := fun _ => True) (C := Unrefused c) (G := Clear c)
    (B := Turned c) (fun _ _ _ h _ hstep => clear_step h hstep)
    (fun _ _ _ h _ hstep => turned_step h hstep) hrun (fun _ _ => trivial)
    ⟨sound_init, fun _ h => nomatch h⟩
  rcases hsides with ⟨hunder, hsound, hclear⟩ | ⟨hnot, -, call', hcall', hrefused⟩
  · refine iff_of_true ?_ hunder
    have htrack := hclear call hcall
    rw [hstage] at htrack
    obtain ⟨id, entry', hknown, hentry, rfl⟩ := htrack
    obtain rfl := hrecorded.eq_of_find hsound hknown hentry
    obtain ⟨-, -, -, hsame⟩ := hrecorded
    exact replay_of_same hsame
  · refine iff_of_false ?_ hnot
    obtain rfl : call = call' := Option.some.inj (hcall.symm.trans hcall')
    rw [hstage] at hrefused
    obtain ⟨error, rfl⟩ := hrefused
    exact nofun

/-- Two calls with one key on a wallet that holds 150: both are past their lookup when the
first one moves. -/
def raceRun : List Event :=
  openRun ++ [.credit 0 "wlt_1" sampleRequest, .credit 1 "wlt_1" sampleRequest] ++
    List.replicate 3 (.resume 0 "") ++ List.replicate 3 (.resume 1 "") ++
    List.replicate 4 (.resume 0 "trx_1") ++ List.replicate 4 (.resume 1 "trx_2")

def creditedEntry : LedgerEntry :=
  { sampleEntry with type := .CREDIT, balanceBefore := 150, balanceAfter := 250 }

theorem replay_answered_iff_raceRun :
    ∃ s, run step init raceRun = some s ∧
      RunsUnder step (Unrefused 1) init raceRun s := by
  have h : (run step init raceRun).map (fun s => (s.calls 1, (s.row "w1",
      s.findByIdempotencyKey "w1" "pay_0001"))) =
      some (some ⟨"wlt_1", sampleRequest, .CREDIT, .settling (.ok (.approved creditedEntry))⟩,
        (some ⟨"w1", "wlt_1", "XOF", 250, 0, .ACTIVE⟩, some creditedEntry)) := by
    decide +kernel
  obtain ⟨s, hrun, hs⟩ := Option.map_eq_some_iff.mp h
  obtain ⟨hcall, hs⟩ := Prod.mk.inj hs
  obtain ⟨hrow, hentry⟩ := Prod.mk.inj hs
  exact ⟨s, hrun, (replay_answered_iff hrun hcall rfl
    ⟨"w1", ⟨_, hrow, rfl⟩, hentry, by decide⟩).mp rfl⟩

/-- Two debits of 100 with one key on a wallet that holds 150: the second one is past its
lookup when the first one commits. -/
def spentRun : List Event :=
  openRun ++ [.debit 0 "wlt_1" sampleRequest, .debit 1 "wlt_1" sampleRequest] ++
    List.replicate 3 (.resume 1 "") ++ List.replicate 7 (.resume 0 "trx_1") ++
    List.replicate 3 (.resume 1 "trx_2")

/-- The second debit of `spentRun` is refused for an insufficient balance. -/
theorem spentRun_replay_refused :
    ∃ s call entry payload, run step init spentRun = some s ∧ s.calls 1 = some call ∧
      call.stage = .settling (.error (.insufficientBalance payload)) ∧
      Recorded s call entry := by
  have h : (run step init spentRun).map (fun s => (s.calls 1, (s.row "w1",
      s.findByIdempotencyKey "w1" "pay_0001"))) =
      some (some ⟨"wlt_1", sampleRequest, .DEBIT, .settling (.error (.insufficientBalance
          (.declined sampleRequest 50 .INSUFFICIENT_BALANCE)))⟩,
        (some ⟨"w1", "wlt_1", "XOF", 50, 0, .ACTIVE⟩, some sampleEntry)) := by
    decide +kernel
  obtain ⟨s, hrun, hs⟩ := Option.map_eq_some_iff.mp h
  obtain ⟨hcall, hs⟩ := Prod.mk.inj hs
  obtain ⟨hrow, hentry⟩ := Prod.mk.inj hs
  exact ⟨s, _, sampleEntry, _, hrun, hcall, rfl, "w1", ⟨_, hrow, rfl⟩, hentry, by decide⟩

end Accounts

end Paynad
