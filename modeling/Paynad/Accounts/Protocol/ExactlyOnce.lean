import Paynad.Accounts.Protocol.CachedSum

/-!
# A key moves money once

The tables change only when a call commits the entry it has inserted
(`tables_of_step`), and it inserts one only under a key that has none. What a call
asked for never changes, so an entry found under its key decides its answer: a call
that starts after the entry is committed never gets past its first lookup.
-/

namespace Paynad

namespace Accounts

open Shared Transition

variable {s t u : State} {c : ℕ} {call : Call} {stage : Stage} {id : String} {e : Event}
  {entry : LedgerEntry} {outcome : Outcome} {es es' : List Event}

/-! ## What changes the tables -/

/-- A step of a call changes the tables only by committing an entry under its key, which
had none: the entry of its own operation on its own wallet. -/
theorem tables_of_step (hsound : Sound s) (hstep : step s e = some t)
    (hcaller : e.caller = some c) :
    (t.wallets = s.wallets ∧ t.entries = s.entries) ∨
      ∃ call id entry, s.calls c = some call ∧ Known s call id ∧
        s.findByIdempotencyKey id call.request.transactionId = none ∧
        t.findByIdempotencyKey id call.request.transactionId = some entry ∧
        sameOperation entry call.request call.type = true ∧
        ∀ id', id' ≠ id → t.row id' = s.row id' := by
  cases callStep_of_caller hstep hcaller with
  | credit reference request hnone => exact .inl ⟨rfl, rfl⟩
  | debit reference request hnone => exact .inl ⟨rfl, rfl⟩
  | resume call trx t hcall hresume =>
      rcases resume_writes hcall hresume with ⟨version, entry, hstage, rfl⟩ | ⟨stage, u, rfl, hu⟩
      · have hstanding := hsound.calls c call hcall
        rw [hstage] at hstanding
        obtain ⟨hwritten, ⟨trx', rfl⟩, hnone⟩ := hstanding
        refine .inr ⟨call, version.id, call.entry version trx', hcall, hwritten.known, hnone,
          ?_, ?_, ?_⟩
        · have hself : (s.commit version (call.entry version trx')).findByIdempotencyKey
              version.id call.request.transactionId = some (call.entry version trx') :=
            findByIdempotencyKey_commit_self version hnone
          exact hself
        · simp [sameOperation, Call.entry]
        · exact fun id' hne =>
            row_commit_of_ne (call.entry version trx') hne
      · exact .inl ⟨hu.wallets, hu.entries⟩
  | abort call hcall hover => exact .inl ⟨rfl, rfl⟩

/-! ## What never changes -/

theorem calls_of_step (hsound : Sound s) (hstep : step s e = some t)
    (hcall : s.calls c = some call) : ∃ stage, t.calls c = some { call with stage := stage } := by
  by_cases hcaller : e.caller = some c
  · cases callStep_of_caller hstep hcaller with
    | credit reference request hnone => exact nomatch hnone.symm.trans hcall
    | debit reference request hnone => exact nomatch hnone.symm.trans hcall
    | resume call' trx t hcall' hresume =>
        obtain rfl : call = call' := Option.some.inj (hcall.symm.trans hcall')
        obtain ⟨stage, u, rfl, -⟩ := resume_moves hsound hcall hresume
        exact ⟨stage, goTo_calls_self⟩
    | abort call' hcall' hover =>
        obtain rfl : call = call' := Option.some.inj (hcall.symm.trans hcall')
        exact ⟨.aborted, goTo_calls_self⟩
  · refine ⟨call.stage, ?_⟩
    rw [((step_sound hsound hstep).2.others c hcaller).2, hcall]

/-- What a run keeps: it is sound, tables grow, and calls ask for what they asked for. -/
structure Continues (s t : State) : Prop where
  sound : Sound t
  grows : Grows s t
  calls : ∀ c call, s.calls c = some call → ∃ stage, t.calls c = some { call with stage := stage }

theorem Continues.refl (hsound : Sound s) : Continues s s :=
  ⟨hsound, .refl s, fun _ call hcall => ⟨call.stage, hcall⟩⟩

theorem Continues.step (h : Continues s t) (hstep : step t e = some u) : Continues s u where
  sound := (step_sound h.sound hstep).1
  grows := h.grows.trans (step_sound h.sound hstep).2.grows
  calls c call hcall := by
    obtain ⟨stage, hcall'⟩ := h.calls c call hcall
    obtain ⟨stage', hcall''⟩ := calls_of_step h.sound hstep hcall'
    exact ⟨stage', hcall''⟩

theorem continues_of_run (hsound : Sound s) (h : run step s es = some t) : Continues s t :=
  run_invariant (fun _ _ _ => Continues.step) h (.refl hsound)

theorem Known.unique {id' : String} (hsound : Sound s) (h : Known s call id)
    (h' : Known s call id') : id = id' := by
  obtain ⟨row, hrow, hreference⟩ := h
  obtain ⟨row', hrow', hreference'⟩ := h'
  have hfind := hsound.books.references.find_of_mem (Table.mem_of_find hrow)
  have hfind' := hsound.books.references.find_of_mem (Table.mem_of_find hrow')
  rw [hreference] at hfind
  rw [hreference'] at hfind'
  obtain rfl : row = row' := Option.some.inj (hfind.symm.trans hfind')
  exact (Table.key_of_find hrow).symm.trans (Table.key_of_find hrow')

theorem Recorded.eq_of_find {entry' : LedgerEntry} (hsound : Sound s)
    (h : Recorded s call entry) (hknown : Known s call id)
    (hentry : s.findByIdempotencyKey id call.request.transactionId = some entry') :
    entry = entry' := by
  obtain ⟨id', hknown', hentry', -⟩ := h
  obtain rfl := hknown.unique hsound hknown'
  exact Option.some.inj (hentry'.symm.trans hentry)

/-! ## A call that starts after the entry is committed -/

/-- Where a call can stand when the entry under its key is older than the call. -/
def Answering (id : String) (entry : LedgerEntry) : Stage → Prop
  | .reading | .aborted => True
  | .looking wallet => wallet.id = id
  | .settling outcome | .done outcome => outcome = .ok (.approved entry)
  | _ => False

def Stage.remaining : Stage → ℕ
  | .reading => 3
  | .looking _ => 2
  | .settling _ => 1
  | _ => 0

theorem Stage.remaining_of_over {stage : Stage} (h : stage.over = true) :
    stage.remaining = 0 := by
  cases stage with
  | done outcome => rfl
  | aborted => rfl
  | _ => cases h

/-- A call that the ledger already answers takes its next step, whatever else happens. -/
theorem answering_resume (c : ℕ) (call : Call) (trx : String) (hsound : Sound s)
    (hknown : Known s call id)
    (hentry : s.findByIdempotencyKey id call.request.transactionId = some entry)
    (hsame : sameOperation entry call.request call.type = true)
    (h : Answering id entry call.stage) (hover : call.stage.over = false) :
    ∃ stage, resume s c call trx = some (s.goTo c call stage) ∧ Answering id entry stage ∧
      stage ≠ .aborted ∧ stage.remaining + 1 = call.stage.remaining := by
  unfold resume
  cases hstage : call.stage with
  | reading =>
      cases hwallet : s.findByReference call.reference with
      | none =>
          obtain ⟨row, hrow, hreference⟩ := hknown
          exact absurd hreference
            (Table.find_eq_none_iff.mp hwallet row (Table.mem_of_find hrow))
      | some wallet =>
          have hid : wallet.id = id :=
            (known_of_findByReference hsound hwallet).1.unique hsound hknown
          exact ⟨.looking wallet, rfl, hid, nofun, rfl⟩
  | looking wallet =>
      rw [hstage] at h
      obtain rfl : wallet.id = id := h
      refine ⟨.settling (.ok (.approved entry)), ?_, rfl, nofun, rfl⟩
      simp only [hentry, replay_of_same hsame]
  | settling outcome =>
      rw [hstage] at h
      exact ⟨.done outcome, rfl, h, nofun, rfl⟩
  | done outcome => simp [hstage, Stage.over] at hover
  | aborted => simp [hstage, Stage.over] at hover
  | _ =>
      rw [hstage] at h
      exact h.elim

theorem over_of_resume {trx : String} (h : resume s c call trx = some t) :
    call.stage.over = false := by
  cases hstage : call.stage with
  | done outcome => simp [resume, hstage] at h
  | aborted => simp [resume, hstage] at h
  | _ => rfl

/-- The call `c` stands where the older entry of its key answers it. -/
def Later (s₀ : State) (c : ℕ) (s : State) : Prop :=
  Continues s₀ s ∧ ∀ call id entry, s.calls c = some call → Known s₀ call id →
    s₀.findByIdempotencyKey id call.request.transactionId = some entry →
    sameOperation entry call.request call.type = true → Answering id entry call.stage

theorem later_step {s₀ : State} (h : Later s₀ c s) (hstep : step s e = some t) :
    Later s₀ c t := by
  obtain ⟨hcontinues, hanswering⟩ := h
  refine ⟨hcontinues.step hstep, fun call id entry hcall hknown hentry hsame => ?_⟩
  have hsound := hcontinues.sound
  by_cases hcaller : e.caller = some c
  · cases callStep_of_caller hstep hcaller with
    | credit reference request hnone =>
        obtain rfl := eq_of_goTo_calls hcall
        trivial
    | debit reference request hnone =>
        obtain rfl := eq_of_goTo_calls hcall
        trivial
    | resume call₀ trx t hcall₀ hresume =>
        obtain ⟨stage, hcall₁⟩ := calls_of_step hsound hstep hcall₀
        obtain rfl : { call₀ with stage := stage } = call :=
          Option.some.inj (hcall₁.symm.trans hcall)
        have hanswering₀ : Answering id entry call₀.stage :=
          hanswering call₀ id entry hcall₀ hknown hentry hsame
        obtain ⟨stage', hresume', hstage', -⟩ := answering_resume c call₀
          trx hsound (hknown.mono hcontinues.grows) (hcontinues.grows.entries _ _ _ hentry)
          hsame hanswering₀ (over_of_resume hresume)
        obtain rfl := Option.some.inj (hresume'.symm.trans hresume)
        obtain rfl : stage' = stage := congrArg Call.stage (eq_of_goTo_calls hcall)
        exact hstage'
    | abort call₀ hcall₀ hover =>
        obtain rfl := eq_of_goTo_calls hcall
        trivial
  · rw [((step_sound hsound hstep).2.others c hcaller).2] at hcall
    exact hanswering call id entry hcall hknown hentry hsame

/-- At most three steps of its own bring the answer. -/
theorem answering_finish {n : ℕ} (hsound : Sound s) (hcall : s.calls c = some call)
    (hknown : Known s call id)
    (hentry : s.findByIdempotencyKey id call.request.transactionId = some entry)
    (hsame : sameOperation entry call.request call.type = true)
    (h : Answering id entry call.stage) (hrunning : call.stage ≠ .aborted)
    (hn : call.stage.remaining = n) :
    ∃ t, run step s (List.replicate n (.resume c "")) = some t ∧
      t.calls c = some { call with stage := .done (.ok (.approved entry)) } := by
  induction n generalizing s call with
  | zero =>
      refine ⟨s, rfl, ?_⟩
      cases hstage : call.stage with
      | done outcome =>
          rw [hstage] at h
          rw [hcall, ← show outcome = .ok (.approved entry) from h, ← hstage]
      | aborted => exact absurd hstage hrunning
      | reading => simp [hstage, Stage.remaining] at hn
      | looking wallet => simp [hstage, Stage.remaining] at hn
      | settling outcome => simp [hstage, Stage.remaining] at hn
      | _ =>
          rw [hstage] at h
          exact h.elim
  | succ n ih =>
      have hover : call.stage.over = false := by
        refine Bool.eq_false_iff.mpr fun hover => ?_
        cases (Stage.remaining_of_over hover).symm.trans hn
      obtain ⟨stage, hresume, hanswering, hstage, hremaining⟩ :=
        answering_resume c call "" hsound hknown hentry hsame h hover
      have hstep : step s (.resume c "") = some (s.goTo c call stage) := by
        simp only [step, hcall, Option.bind_some, hresume]
      have hrest : ({ call with stage := stage } : Call).stage.remaining = n :=
        Nat.succ.inj (hremaining.trans hn)
      obtain ⟨t, hrun, ht⟩ := ih (step_sound hsound hstep).1 goTo_calls_self hknown hentry
        hsame hanswering hstage hrest
      refine ⟨t, ?_, ht⟩
      rw [List.replicate_succ, run_cons, hstep]
      exact hrun

/-! ## Exactly once -/

/-- A step of a call under `key` changes the balance of a wallet. -/
def ChangesBalance (s : State) (e : Event) (t : State) (id key : String) : Prop :=
  ∃ c call, e.caller = some c ∧ s.calls c = some call ∧ call.request.transactionId = key ∧
    (t.row id).map Wallet.balance ≠ (s.row id).map Wallet.balance

theorem find_of_changesBalance {key : String} (hsound : Sound s) (hstep : step s e = some t)
    (h : ChangesBalance s e t id key) :
    s.findByIdempotencyKey id key = none ∧
      ∃ entry, t.findByIdempotencyKey id key = some entry := by
  obtain ⟨c, call, hcaller, hcall, rfl, hne⟩ := h
  rcases tables_of_step hsound hstep hcaller with ⟨hwallets, -⟩ |
    ⟨call', id', entry, hcall', -, hnone, hentry, -, hothers⟩
  · exact absurd (by rw [State.row, hwallets, State.row]) hne
  · obtain rfl : call = call' := Option.some.inj (hcall.symm.trans hcall')
    have hid : id = id' := by
      by_contra hid
      exact hne (by rw [hothers id hid])
    subst hid
    exact ⟨hnone, entry, hentry⟩

/-- A call asks in the end for what it asked for when it moved money. -/
theorem tables_of_conflict {s₁ s₂ : State} (hsound : Sound s₁) (hstep : step s₁ e = some s₂)
    (hrun : run step s₂ es = some s) (hcaller : e.caller = some c)
    (hcall : s.calls c = some call) (hknown : Known s call id)
    (hentry : s.findByIdempotencyKey id call.request.transactionId = some entry)
    (hconflict : sameOperation entry call.request call.type = false) :
    s₂.wallets = s₁.wallets ∧ s₂.entries = s₁.entries := by
  rcases tables_of_step hsound hstep hcaller with hsame |
    ⟨call₁, id₁, entry₁, hcall₁, hknown₁, -, hentry₁, hsame, -⟩
  · exact hsame
  · have hcontinues : Continues s₂ s := continues_of_run (step_sound hsound hstep).1 hrun
    obtain ⟨stage₂, hcall₂⟩ := calls_of_step hsound hstep hcall₁
    obtain ⟨stage, hcall'⟩ := hcontinues.calls c _ hcall₂
    obtain rfl : { call₁ with stage := stage } = call :=
      Option.some.inj (hcall'.symm.trans hcall)
    have hgrows : Grows s₁ s := (step_sound hsound hstep).2.grows.trans hcontinues.grows
    obtain rfl : id₁ = id := (Known.mono hgrows hknown₁).unique hcontinues.sound hknown
    have hentry₁' := hcontinues.grows.entries _ _ _ hentry₁
    obtain rfl : entry₁ = entry := Option.some.inj (hentry₁'.symm.trans hentry)
    exact absurd (hsame.symm.trans hconflict) (by decide)

/-- In every run of credits and debits: a key of a wallet has at most one entry, every
success carries the entry of its key, a key changes a balance at most once, a call that
differs from the recorded entry does not succeed and changes no table, and a call that
starts once the entry of its operation is committed is answered with it, which its own
next steps bring about. -/
theorem exactly_once (hrun : run step init es = some s) :
    Table.Unique LedgerEntry.key s.entries ∧
    (∀ c call response, s.calls c = some call → call.stage = .done (.ok response) →
      ∃ entry, Recorded s call entry ∧ response = .approved entry) ∧
    (∀ es₁ e₁ es₂ e₂ s₁ s₂ s₃ s₄ id key, run step init es₁ = some s₁ →
      step s₁ e₁ = some s₂ → run step s₂ es₂ = some s₃ → step s₃ e₂ = some s₄ →
      ChangesBalance s₁ e₁ s₂ id key → ¬ ChangesBalance s₃ e₂ s₄ id key) ∧
    (∀ c call id entry, s.calls c = some call → Known s call id →
      s.findByIdempotencyKey id call.request.transactionId = some entry →
      sameOperation entry call.request call.type = false →
      (∀ response, call.stage ≠ .done (.ok response)) ∧
      ∀ es₁ e es₂ s₁ s₂, run step init es₁ = some s₁ → step s₁ e = some s₂ →
        run step s₂ es₂ = some s → e.caller = some c →
        s₂.wallets = s₁.wallets ∧ s₂.entries = s₁.entries) ∧
    (∀ es' t c call entry, s.calls c = none → run step s es' = some t →
      t.calls c = some call → Recorded s call entry →
      (∀ outcome, call.stage = .done outcome → outcome = .ok (.approved entry)) ∧
      (call.stage ≠ .aborted → ∃ n t', run step t (List.replicate n (.resume c "")) = some t' ∧
        t'.calls c = some { call with stage := .done (.ok (.approved entry)) })) := by
  have hsound : Sound s := sound_of_reachable ⟨es, hrun⟩
  refine ⟨hsound.books.keys, ?_, ?_, ?_, ?_⟩
  · intro c call response hcall hstage
    have hstanding := hsound.calls c call hcall
    rw [hstage] at hstanding
    exact hstanding response rfl
  · intro es₁ e₁ es₂ e₂ s₁ s₂ s₃ s₄ id key hrun₁ hstep₁ hrun₂ hstep₂ hfirst hsecond
    have hsound₁ : Sound s₁ := sound_of_reachable ⟨es₁, hrun₁⟩
    have hcontinues : Continues s₂ s₃ := continues_of_run (step_sound hsound₁ hstep₁).1 hrun₂
    obtain ⟨-, entry, hentry⟩ := find_of_changesBalance hsound₁ hstep₁ hfirst
    obtain ⟨hnone, -⟩ := find_of_changesBalance hcontinues.sound hstep₂ hsecond
    exact nomatch (hcontinues.grows.entries _ _ _ hentry).symm.trans hnone
  · intro c call id entry hcall hknown hentry hconflict
    refine ⟨fun response hstage => ?_, ?_⟩
    · have hstanding := hsound.calls c call hcall
      rw [hstage] at hstanding
      obtain ⟨entry', hrecorded, -⟩ := hstanding response rfl
      obtain rfl := hrecorded.eq_of_find hsound hknown hentry
      obtain ⟨-, -, -, hsame⟩ := hrecorded
      exact absurd (hsame.symm.trans hconflict) (by decide)
    · intro es₁ e es₂ s₁ s₂ hrun₁ hstep hrun₂ hcaller
      exact tables_of_conflict (sound_of_reachable ⟨es₁, hrun₁⟩) hstep hrun₂ hcaller hcall
        hknown hentry hconflict
  · intro es' t c call entry hnone hrun' hcall ⟨id, hknown, hentry, hsame⟩
    have hstart : Later s c s :=
      ⟨.refl hsound, fun call _ _ hcall' => nomatch hnone.symm.trans hcall'⟩
    obtain ⟨hcontinues, hanswering⟩ := run_invariant (fun _ _ _ => later_step) hrun' hstart
    have h : Answering id entry call.stage := hanswering call id entry hcall hknown hentry hsame
    refine ⟨fun outcome hstage => ?_, fun hrunning => ?_⟩
    · rw [hstage] at h
      exact h
    · exact ⟨_, answering_finish hcontinues.sound hcall (hknown.mono hcontinues.grows)
        (hcontinues.grows.entries _ _ _ hentry) hsame h hrunning rfl⟩

/-- After `debitRun` the wallet is frozen and the same debit is asked for again. -/
def frozenRun : List Event := [.setStatus "w1" .FROZEN, .debit 1 "wlt_1" sampleRequest]

def sampleEntry : LedgerEntry where
  reference := "trx_1"
  walletId := "w1"
  transactionId := "pay_0001"
  type := .DEBIT
  amount := 100
  currency := "XOF"
  balanceBefore := 150
  balanceAfter := 50
  description := "Paiement"
  paymentReference := none

theorem exactly_once_frozenRun :
    ∃ s, run step init debitRun = some s ∧ ∃ n t',
      run step s (frozenRun ++ List.replicate n (.resume 1 "")) = some t' ∧
      t'.calls 1 = some ⟨"wlt_1", sampleRequest, .DEBIT, .done (.ok (.approved sampleEntry))⟩ := by
  have h : (run step init debitRun).map (fun s => ((s.calls 1, s.row "w1"),
      (s.findByIdempotencyKey "w1" "pay_0001",
        (run step s frozenRun).map (·.calls 1)))) =
      some ((none, some ⟨"w1", "wlt_1", "XOF", 50, 0, .ACTIVE⟩),
        (some sampleEntry, some (some ⟨"wlt_1", sampleRequest, .DEBIT, .reading⟩))) := by
    decide +kernel
  obtain ⟨s, hrun, hs⟩ := Option.map_eq_some_iff.mp h
  obtain ⟨hfirst, hsecond⟩ := Prod.mk.inj hs
  obtain ⟨hnone, hrow⟩ := Prod.mk.inj hfirst
  obtain ⟨hentry, hlater⟩ := Prod.mk.inj hsecond
  obtain ⟨t, hrun', hcall⟩ := Option.map_eq_some_iff.mp hlater
  have hrecorded : Recorded s ⟨"wlt_1", sampleRequest, .DEBIT, .reading⟩ sampleEntry :=
    ⟨"w1", ⟨_, hrow, rfl⟩, hentry, by decide⟩
  obtain ⟨-, -, -, -, hlater⟩ := exactly_once hrun
  obtain ⟨n, t', hfinish, ht'⟩ :=
    (hlater _ t 1 _ sampleEntry hnone hrun' hcall hrecorded).2 nofun
  refine ⟨s, hrun, n, t', ?_, ht'⟩
  rw [run_append, hrun']
  exact hfinish

end Accounts

end Paynad
