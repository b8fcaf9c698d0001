import Paynad.Payments.Protocol.Execution

/-!
# The recovery of a lost debit

Whatever interrupts the attempts on a lost debit, one more attempt that is not
interrupted compensates the payment, provided no interruption fell between the
commit of the recovered debit and that of the decision to refund it. After such
an interruption no attempt ever compensates it.
-/

namespace Paynad

namespace Payments

open Shared Transition TypeOrmPaymentRepository

namespace Platform

section

variable {maxAttempts worker : ℕ} {p : Reference .pay} {s s' : State}

theorem solo_nextEvent (around : Surroundings) : Solo worker p (nextEvent around worker s) := by
  unfold nextEvent
  split
  · rfl
  · split
    · trivial
    · rfl
  · rfl
  · rfl

/-- What every step of a worker preserves, an uninterrupted attempt preserves. -/
theorem invariant_of_carryOn {I : State → Prop}
    (hI : ∀ s e s', I s → Solo worker p e → step maxAttempts s e = some s' → I s')
    {around : ℕ → Surroundings} {n : ℕ} (hs : I s)
    (h : carryOn maxAttempts around worker n s = some s') : I s' := by
  induction n generalizing s with
  | zero => exact Option.some.inj h ▸ hs
  | succ n ih =>
      obtain ⟨s₁, hstep, hrest⟩ := Option.bind_eq_some_iff.mp h
      exact ih (hI s _ s₁ hs (solo_nextEvent _) hstep) hrest

/-- Without failures an attempt gets through all the stages it still has to. -/
theorem carryOn_of_stage (maxAttempts : ℕ) (around : ℕ → Surroundings) {n : ℕ}
    {row : PaymentOrmEntity} (hs : Invariant s) (hrow : s.row p.value = some row)
    (h : Stage worker p s row n) :
    ∃ s' row', carryOn maxAttempts around worker n s = some s' ∧ Invariant s' ∧
      s'.row p.value = some row' ∧ Stage worker p s' row' 0 := by
  induction n generalizing s row with
  | zero => exact ⟨s, row, rfl, hs, hrow, h⟩
  | succ n ih =>
      obtain ⟨s₁, row₁, hstep, hrow₁, hstage⟩ := h.next maxAttempts (around n) hs hrow
      obtain ⟨s', row', hrest, hend⟩ := ih (hs.step hstep) hrow₁ hstage
      exact ⟨s', row', Option.bind_eq_some_iff.mpr ⟨s₁, hstep, hrest⟩, hend⟩

theorem step_recover (maxAttempts : ℕ) (hidle : s.process worker = .idle)
    (hholds : Workers.Holds s.payments worker p.value) :
    ∃ s', step maxAttempts s (.internal (.recover worker p)) = some s' ∧
      s'.payments.database = s.payments.database ∧ s'.wire = s.wire ∧
      s'.process worker = .recovery p.value .find := by
  have hfree : s.payments.locks p.value = none :=
    hholds.resolve_right fun hheld => hheld.2 hidle
  refine ⟨⟨s.payments.execute worker p.value (.recovery p.value .find), s.clients, s.wire⟩,
    ?_, ?_, rfl, ?_⟩
  · simp only [step, Workers.step, show s.payments.workers worker = _ from hidle]
    rfl
  · simp [Workers.State.execute, hfree]
  · simp [State.process, Workers.State.execute, hfree]

/-- From a phase between two attempts one uninterrupted attempt compensates. -/
theorem Phase.recovers (hs : Invariant s) (h : Phase worker p s)
    (hholds : Workers.Holds s.payments worker p.value) (hidle : s.process worker = .idle) :
    Recovers maxAttempts worker p s := by
  intro around
  obtain ⟨s₁, hrecover, hdatabase, hwire, hprocess⟩ :=
    step_recover maxAttempts hidle hholds
  have hs₁ : Invariant s₁ := hs.step hrecover
  have hpicked : ∃ row n, s₁.row p.value = some row ∧ Stage worker p s₁ row n := by
    rw [State.row, hdatabase]
    cases h with
    | confirming row hrow hstatus hdebit hmoved =>
        exact ⟨row, 11, hrow, .pickLost hstatus hdebit (hwire ▸ hmoved) hprocess⟩
    | deciding row hrow hstatus hdebit hunsent t hrevision hbusy =>
        cases hidle.symm.trans hbusy
    | refunding row hrow hready =>
        rcases hready with hstatus | hstatus
        · exact ⟨row, 8, hrow, .pickOwed hstatus hprocess⟩
        · exact ⟨row, 1, hrow, .pickDone hstatus hprocess⟩
  obtain ⟨row, n, hrow, hstage⟩ := hpicked
  obtain ⟨s', row', hcarry, hs', hrow', hdone⟩ :=
    carryOn_of_stage maxAttempts around hs₁ hrow hstage
  obtain ⟨hstatus, hend⟩ : row'.status = .compensated ∧ s'.process worker = .idle := by
    cases hdone with
    | done hstatus hend => exact ⟨hstatus, hend⟩
  refine ⟨n, s', row', Option.bind_eq_some_iff.mpr ⟨s₁, hrecover, hcarry⟩, hend, hrow', hstatus,
    ?_⟩
  have hrefund := hs'.settled hrow'
  simp only [Settled, hstatus] at hrefund
  have hpositive := List.length_pos_iff.mpr hrefund.2.2
  have hatMost := hs'.movements_length row'.toPaymentColumns .refund
  omega

/-- What holds between the steps of a worker: of the platform, and of the lock. -/
def Sane (worker : ℕ) (p : Reference .pay) (s : State) : Prop :=
  Invariant s ∧ Workers.Holds s.payments worker p.value

theorem stuck_kept {e : Event} (h : Sane worker p s ∧ Stuck worker p s) (hsolo : Solo worker p e)
    (hstep : step maxAttempts s e = some s') : Sane worker p s' ∧ Stuck worker p s' := by
  obtain ⟨⟨hs, hholds⟩, hstuck⟩ := h
  obtain ⟨heffect, hholds'⟩ := solo_cases hsolo hholds hstep
  exact ⟨⟨hs.step hstep, hholds'⟩, stuck_step hs heffect hstuck⟩

/-- An attempt goes from one phase to another, unless it is interrupted between the
two commits: from there on the payment is stuck. -/
theorem phase_kept {e : Event} (h : Sane worker p s ∧ Phase worker p s) (hsolo : Solo worker p e)
    (hstep : step maxAttempts s e = some s') :
    (Unsplit worker s e ∧ Sane worker p s' ∧ Phase worker p s') ∨
      (¬ Unsplit worker s e ∧ Sane worker p s' ∧ Stuck worker p s') := by
  obtain ⟨⟨hs, hholds⟩, hphase⟩ := h
  obtain ⟨heffect, hholds'⟩ := solo_cases hsolo hholds hstep
  have hsane : Sane worker p s' := ⟨hs.step hstep, hholds'⟩
  have hends : (Unsplit worker s e ∧ Phase worker p s') ∨
      (¬ Unsplit worker s e ∧ Stuck worker p s') := by
    cases hphase with
    | confirming row hrow hstatus hdebit hmoved hprocess =>
        exact confirming_step hs heffect hrow hstatus hdebit hmoved hprocess
    | deciding row hrow hstatus hdebit hunsent t hrevision hprocess =>
        exact deciding_step hs heffect hrow hstatus hdebit hunsent hrevision hprocess
    | refunding row hrow hready hprocess =>
        exact .inl (refunding_step hs hstep heffect hrow hready hprocess)
  exact hends.imp (fun ⟨hunsplit, hphase'⟩ => ⟨hunsplit, hsane, hphase'⟩)
    fun ⟨hsplit, hstuck⟩ => ⟨hsplit, hsane, hstuck⟩

/-- A stuck payment is not compensated by one more attempt. -/
theorem Stuck.not_recovers (h : Stuck worker p s) (hsane : Sane worker p s)
    (around : Surroundings) : ¬ Recovers maxAttempts worker p s := by
  intro hrecovers
  obtain ⟨n, s', row, hattempt, -, hrow, hstatus, -⟩ := hrecovers fun _ => around
  obtain ⟨s₁, hrecover, hcarry⟩ := Option.bind_eq_some_iff.mp hattempt
  have hsolo : Solo worker p (.internal (.recover worker p)) := ⟨rfl, rfl⟩
  obtain ⟨-, ⟨row', hrow', hprocessing, -⟩, -⟩ :=
    invariant_of_carryOn (I := fun s => Sane worker p s ∧ Stuck worker p s)
      (fun _ _ _ => stuck_kept) (stuck_kept ⟨hsane, h⟩ hsolo hrecover) hcarry
  rw [hrow] at hrow'
  cases hrow'
  cases hstatus.symm.trans hprocessing

end

/-- A payment whose debit moved without being recorded, or whose refund is owed. -/
def Unsettled (s : State) (row : PaymentOrmEntity) : Prop :=
  (row.status = .processing ∧ row.debitTransactionReference = none ∧
    s.movements row.toPaymentColumns .debit ≠ []) ∨ row.status = .compensationPending

theorem Unsettled.phase {worker : ℕ} {p : Reference .pay} {s : State} {row : PaymentOrmEntity}
    (h : Unsettled s row) (hrow : s.row p.value = some row)
    (hidle : s.process worker = .idle) : Phase worker p s := by
  rcases h with ⟨hstatus, hdebit, hmoved⟩ | hstatus
  · refine .confirming row hrow hstatus hdebit ?_ (hidle ▸ .resting .idle)
    rwa [Ne, movements_eq_nil_iff, not_not] at hmoved
  · exact .refunding row hrow (.inl hstatus) (hidle ▸ .resting .idle)

theorem attempts_end {maxAttempts worker : ℕ} {p : Reference .pay} {s s' : State}
    {es : List Event} {row : PaymentOrmEntity} (h : Reachable (step maxAttempts) init s)
    (hidle : s.process worker = .idle) (hfree : s.payments.locks p.value = none)
    (hrow : s.row p.value = some row) (hunsettled : Unsettled s row)
    (hrun : run (step maxAttempts) s es = some s') (hsolo : ∀ e ∈ es, Solo worker p e) :
    (RunsUnder (step maxAttempts) (Unsplit worker) s es s' ∧ Sane worker p s' ∧
      Phase worker p s') ∨
    (¬ RunsUnder (step maxAttempts) (Unsplit worker) s es s' ∧ Sane worker p s' ∧
      Stuck worker p s') :=
  run_dichotomy (A := Solo worker p) (C := Unsplit worker)
    (G := fun s => Sane worker p s ∧ Phase worker p s)
    (B := fun s => Sane worker p s ∧ Stuck worker p s)
    (fun _ _ _ => phase_kept) (fun _ _ _ => stuck_kept) hrun hsolo
    ⟨⟨invariant_of_reachable h, .inl hfree⟩, hunsettled.phase hrow hidle⟩

def sampleSurroundings : Surroundings :=
  ⟨Workers.sampleMoment, Workers.sampleMovement.transactionReference, 500⟩

/-- After any attempts of a worker on a lost debit, cut off anywhere, one more attempt
without interruption compensates the payment if and only if none was cut off between
the commit of the recovered debit and that of the decision to refund it. -/
theorem recovers_iff {maxAttempts worker : ℕ} {p : Reference .pay} {s s' : State}
    {es : List Event} {row : PaymentOrmEntity} (h : Reachable (step maxAttempts) init s)
    (hidle : s.process worker = .idle) (hfree : s.payments.locks p.value = none)
    (hrow : s.row p.value = some row) (hunsettled : Unsettled s row)
    (hrun : run (step maxAttempts) s es = some s') (hsolo : ∀ e ∈ es, Solo worker p e)
    (hend : s'.process worker = .idle) :
    Recovers maxAttempts worker p s' ↔ RunsUnder (step maxAttempts) (Unsplit worker) s es s' := by
  rcases attempts_end h hidle hfree hrow hunsettled hrun hsolo with
    ⟨hunder, hsane, hphase⟩ | ⟨hsplit, hsane, hstuck⟩
  · exact ⟨fun _ => hunder, fun _ => hphase.recovers hsane.1 hsane.2 hend⟩
  · exact ⟨fun hrecovers => absurd hrecovers (hstuck.not_recovers hsane sampleSurroundings),
      fun hunder => absurd hunder hsplit⟩

/-- The debit of the sample payment moves, and its worker crashes before the answer. -/
def lostDebitRun : List Event :=
  [.internal (.initiate 0 Workers.sampleInput Workers.sampleReference Workers.sampleMoment .none),
    .internal (.start 0), sampleQuery, sampleQuery, .send 0,
    .serve 0 (.apply Workers.sampleMovement.transactionReference 0), .internal (.crash 0)]

/-- An attempt that is cut off before it looks the debit up. -/
def earlyCrash : List Event :=
  [.internal (.recover 0 Workers.sampleReference), sampleQuery, sampleQuery, .internal (.crash 0)]

/-- An attempt that is cut off once the recovered debit is committed. -/
def splitCrash : List Event :=
  [.internal (.recover 0 Workers.sampleReference), sampleQuery, sampleQuery,
    .lookUp 0 true Workers.sampleMoment.now, sampleQuery, .internal (.crash 0)]

theorem lostDebitRun_unsettled :
    ∃ s row, run (step 3) init lostDebitRun = some s ∧ s.process 0 = .idle ∧
      s.payments.locks Workers.sampleReference.value = none ∧
      s.row Workers.sampleReference.value = some row ∧ Unsettled s row := by
  have h : (run (step 3) init lostDebitRun).map (fun s =>
      (((s.process 0).reference, s.payments.locks Workers.sampleReference.value),
        (s.row Workers.sampleReference.value).map fun row =>
          (row.status, row.debitTransactionReference,
            (s.movements row.toPaymentColumns .debit).length))) =
      some ((none, none), some (.processing, none, 1)) := by
    decide +kernel
  obtain ⟨s, hrun, hs⟩ := Option.map_eq_some_iff.mp h
  obtain ⟨hidle, hs⟩ := Prod.mk.inj hs
  obtain ⟨hprocess, hlock⟩ := Prod.mk.inj hidle
  obtain ⟨row, hrow, hcolumns⟩ := Option.map_eq_some_iff.mp hs
  obtain ⟨hstatus, hcolumns⟩ := Prod.mk.inj hcolumns
  obtain ⟨hdebit, hlength⟩ := Prod.mk.inj hcolumns
  exact ⟨s, row, hrun, Process.idle_of_reference hprocess, hlock, hrow,
    .inl ⟨hstatus, hdebit, List.ne_nil_of_length_eq_add_one hlength⟩⟩

theorem lostDebitRun_append (es : List Event) (status : PaymentStatus) (debit : Option String)
    (h : (run (step 3) init (lostDebitRun ++ es)).map (fun s =>
      ((s.process 0).reference, (s.row Workers.sampleReference.value).map fun row =>
        (row.status, row.debitTransactionReference))) = some (none, some (status, debit)))
    {s : State} (hs : run (step 3) init lostDebitRun = some s) :
    ∃ s' row, run (step 3) s es = some s' ∧ s'.process 0 = .idle ∧
      s'.row Workers.sampleReference.value = some row ∧ row.status = status ∧
      row.debitTransactionReference = debit := by
  obtain ⟨s', hrun, hs'⟩ := Option.map_eq_some_iff.mp h
  rw [run_append, hs] at hrun
  obtain ⟨hprocess, hs'⟩ := Prod.mk.inj hs'
  obtain ⟨row, hrow, hcolumns⟩ := Option.map_eq_some_iff.mp hs'
  obtain ⟨hstatus, hdebit⟩ := Prod.mk.inj hcolumns
  exact ⟨s', row, hrun, Process.idle_of_reference hprocess, hrow, hstatus, hdebit⟩

theorem recovers_iff_earlyCrash :
    ∃ s s', run (step 3) init lostDebitRun = some s ∧ run (step 3) s earlyCrash = some s' ∧
      Recovers 3 0 Workers.sampleReference s' := by
  obtain ⟨s, row, hlost, hidle, hfree, hrow, hunsettled⟩ := lostDebitRun_unsettled
  obtain ⟨s', row', hrun, hend, hrow', -, hdebit⟩ :=
    lostDebitRun_append earlyCrash .processing none (by decide +kernel) hlost
  have hsolo : ∀ e ∈ earlyCrash, Solo 0 Workers.sampleReference e := by
    simp [earlyCrash, sampleQuery, Solo]
  refine ⟨s, s', hlost, hrun,
    (recovers_iff ⟨_, hlost⟩ hidle hfree hrow hunsettled hrun hsolo hend).mpr ?_⟩
  rcases attempts_end ⟨_, hlost⟩ hidle hfree hrow hunsettled hrun hsolo with
    ⟨hunder, -⟩ | ⟨-, -, ⟨row'', hrow'', -, hrecorded, -⟩, -⟩
  · exact hunder
  · rw [hrow'] at hrow''
    cases hrow''
    exact absurd hdebit hrecorded

/-- A crash after which no attempt brings the sample payment to Compensated. -/
theorem splitCrash_not_recovers :
    ∃ s row s', run (step 3) init lostDebitRun = some s ∧ s.process 0 = .idle ∧
      s.row Workers.sampleReference.value = some row ∧ Unsettled s row ∧
      run (step 3) s splitCrash = some s' ∧
      (∀ e ∈ splitCrash, Solo 0 Workers.sampleReference e) ∧ s'.process 0 = .idle ∧
      ¬ Recovers 3 0 Workers.sampleReference s' := by
  obtain ⟨s, row, hlost, hidle, hfree, hrow, hunsettled⟩ := lostDebitRun_unsettled
  obtain ⟨s', row', hrun, hend, hrow', hstatus, hdebit⟩ :=
    lostDebitRun_append splitCrash .processing
      (some Workers.sampleMovement.transactionReference.value) (by decide +kernel) hlost
  have hsolo : ∀ e ∈ splitCrash, Solo 0 Workers.sampleReference e := by
    simp [splitCrash, sampleQuery, Solo]
  refine ⟨s, row, s', hlost, hidle, hrow, hunsettled, hrun, hsolo, hend, ?_⟩
  rcases attempts_end ⟨_, hlost⟩ hidle hfree hrow hunsettled hrun hsolo with
    ⟨-, -, hphase⟩ | ⟨-, hsane, hstuck⟩
  · exfalso
    cases hphase with
    | confirming row'' hrow'' _ hnone =>
        rw [hrow'] at hrow''
        cases hrow''
        cases hdebit.symm.trans hnone
    | deciding _ _ _ _ _ _ _ hbusy => cases hend.symm.trans hbusy
    | refunding row'' hrow'' hready =>
        rw [hrow'] at hrow''
        cases hrow''
        rcases hready with hready | hready <;> cases hstatus.symm.trans hready
  · exact hstuck.not_recovers hsane sampleSurroundings

end Platform

end Payments

end Paynad
