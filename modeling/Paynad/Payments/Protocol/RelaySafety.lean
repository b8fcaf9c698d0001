import Paynad.Payments.Protocol.RelayRows

/-!
# The relay neither loses nor repeats

A transaction of a worker is the part of a run from its SELECT on; it is read off the
run that leads to the COMMIT (`transaction_of_run`). With `step_row`, which says what
that COMMIT does to the row, this is the safety of the relay.
-/

namespace Paynad

namespace Payments

namespace OutboxRelay

open Shared Transition

def Event.inside (w : ℕ) : Event → Bool
  | .nothing w' | .commit w' | .stop w' => w' ≠ w
  | _ => true

def Transaction (w id : ℕ) (es es₁ es₂ : List Event) : Prop :=
  ∃ now, es = es₁ ++ .select w id now :: es₂ ∧ ∀ e ∈ es₂, e.inside w = true

/-- What a stage tells of the transaction, which began with the `first` emissions. -/
def Tells (w first : ℕ) (es : List Event) : Stage → Prop
  | .idle | .selecting _ | .selected .. => True
  | .emitting _ _ _ emission | .publishing _ _ _ emission
  | .committing _ _ _ (some emission) => first ≤ emission
  | .deferring .. | .committing _ _ _ none => ∃ error, Event.reject w error ∈ es

variable {s t u : State} {w w' id first : ℕ} {stage : Stage} {row row' message : OutboxRow}
  {e : Event} {es es₁ es₂ : List Event}

theorem Tells.concat (h : Tells w first es stage) : Tells w first (es ++ [e]) stage := by
  cases stage with
  | idle | selecting index | selected index id message => trivial
  | emitting index id message emission | publishing index id message emission => exact h
  | deferring index id message error =>
      obtain ⟨error, herror⟩ := h
      exact ⟨error, List.mem_append_left _ herror⟩
  | committing index id version emission =>
      cases emission with
      | some emission => exact h
      | none =>
          obtain ⟨error, herror⟩ := h
          exact ⟨error, List.mem_append_left _ herror⟩

/-- The ways the worker `w` can move on an event, after `first` emissions. -/
inductive Moves (w first : ℕ) : Event → Stage → Stage → Prop
  | leave {e : Event} {stage stage' : Stage} (hrow : stage'.row = none) :
      Moves w first e stage stage'
  | lock {index id : ℕ} {now : Date} {message : OutboxRow} :
      Moves w first (.select w id now) (.selecting index) (.selected index id message)
  | emit {index id : ℕ} {message : OutboxRow} :
      Moves w first (.emit w) (.selected index id message) (.emitting index id message first)
  | complete {index id emission : ℕ} {message : OutboxRow} :
      Moves w first (.complete w) (.emitting index id message emission)
        (.publishing index id message emission)
  | reject {index id emission : ℕ} {message : OutboxRow} {error : String} :
      Moves w first (.reject w error) (.emitting index id message emission)
        (.deferring index id message error)
  | publish {index id emission : ℕ} {message version : OutboxRow} {now : Date} :
      Moves w first (.update w now) (.publishing index id message emission)
        (.committing index id version (some emission))
  | defer {index id : ℕ} {message version : OutboxRow} {error : String} {now : Date} :
      Moves w first (.update w now) (.deferring index id message error)
        (.committing index id version none)

theorem workers_of_step (h : step s e = some t) :
    (t.workers = s.workers ∧ ∀ w, e.inside w = true) ∨
    ∃ w stage, t.workers = Function.update s.workers w stage ∧
      (∀ w', w' ≠ w → e.inside w' = true) ∧
      Moves w s.emissions.length e (s.workers w) stage := by
  have hothers : ∀ {w w' : ℕ}, w' ≠ w → decide (w ≠ w') = true := fun hne =>
    decide_eq_true (Ne.symm hne)
  cases step_cases h with
  | enqueue messages now => exact .inl ⟨rfl, fun w => rfl⟩
  | drain w hstage => exact .inr ⟨w, _, rfl, fun _ _ => rfl, .leave rfl⟩
  | select hstage => exact .inr ⟨_, _, rfl, fun _ _ => rfl, hstage ▸ .lock⟩
  | nothing hstage => exact .inr ⟨_, _, rfl, fun _ => hothers, .leave rfl⟩
  | emit hstage => exact .inr ⟨_, _, rfl, fun _ _ => rfl, hstage ▸ .emit⟩
  | accept n => exact .inl ⟨rfl, fun w => rfl⟩
  | complete hstage => exact .inr ⟨_, _, rfl, fun _ _ => rfl, hstage ▸ .complete⟩
  | reject error hstage => exact .inr ⟨_, _, rfl, fun _ _ => rfl, hstage ▸ .reject⟩
  | publish now hstage => exact .inr ⟨_, _, rfl, fun _ _ => rfl, hstage ▸ .publish⟩
  | defer now hstage => exact .inr ⟨_, _, rfl, fun _ _ => rfl, hstage ▸ .defer⟩
  | @commit w id index version emission hstage =>
      refine .inr ⟨w, _, rfl, fun _ => hothers, .leave ?_⟩
      unfold next
      split_ifs <;> rfl
  | stop w => exact .inr ⟨w, _, rfl, fun _ => hothers, .leave rfl⟩
  | reset | spared => exact .inl ⟨rfl, fun w => rfl⟩

/-- A worker that has moved to a row has just locked it, or was at it already. -/
theorem Moves.transaction {stage' : Stage} (h : Moves w first e stage stage')
    (hrow : stage'.row = some id) :
    (∃ now, e = .select w id now ∧ ∃ index message, stage' = .selected index id message) ∨
    (e.inside w = true ∧ stage.row = some id ∧ ∀ first' ≤ first, ∀ es,
      Tells w first' es stage → Tells w first' (es ++ [e]) stage') := by
  cases h with
  | leave hnone => exact nomatch hnone.symm.trans hrow
  | lock =>
      cases hrow
      exact .inl ⟨_, rfl, _, _, rfl⟩
  | emit => exact .inr ⟨rfl, hrow, fun first' hfirst es _ => hfirst⟩
  | complete => exact .inr ⟨rfl, hrow, fun first' _ es htells => htells⟩
  | reject =>
      exact .inr ⟨rfl, hrow, fun first' _ es _ =>
        ⟨_, List.mem_append_right _ (List.mem_singleton.mpr rfl)⟩⟩
  | publish => exact .inr ⟨rfl, hrow, fun first' _ es htells => htells⟩
  | defer =>
      refine .inr ⟨rfl, hrow, fun first' _ es htells => ?_⟩
      obtain ⟨error, herror⟩ := htells
      exact ⟨error, List.mem_append_left _ herror⟩

/-- A worker at a row is in a transaction that began by locking it. -/
theorem transaction_of_run (h : run step init es = some s) (hrow : (s.workers w).row = some id) :
    ∃ es₁ es₂ s₁, Transaction w id es es₁ es₂ ∧ run step init es₁ = some s₁ ∧
      Tells w s₁.emissions.length es₂ (s.workers w) := by
  revert hrow
  refine run_induction (P := fun es s => (s.workers w).row = some id →
    ∃ es₁ es₂ s₁, Transaction w id es es₁ es₂ ∧ run step init es₁ = some s₁ ∧
      Tells w s₁.emissions.length es₂ (s.workers w)) (fun hnone => by cases hnone) ?_ h
  intro es s e t hrun ih hstep hrow
  have hcases : (∃ now, e = .select w id now ∧
      ∃ index message, t.workers w = .selected index id message) ∨
      (e.inside w = true ∧ (s.workers w).row = some id ∧ ∀ first ≤ s.emissions.length, ∀ es,
        Tells w first es (s.workers w) → Tells w first (es ++ [e]) (t.workers w)) := by
    rcases workers_of_step hstep with ⟨hworkers, hinside⟩ | ⟨w', stage, hworkers, hinside, hmoves⟩
    · rw [hworkers] at hrow ⊢
      exact .inr ⟨hinside w, hrow, fun _ _ _ htells => htells.concat⟩
    · by_cases hw : w = w'
      · subst hw
        rw [hworkers, Function.update_self] at hrow ⊢
        exact hmoves.transaction hrow
      · rw [hworkers, Function.update_of_ne hw] at hrow ⊢
        exact .inr ⟨hinside w hw, hrow, fun _ _ _ htells => htells.concat⟩
  rcases hcases with ⟨now, rfl, index, message, hstage⟩ | ⟨hinside, hrow', htells⟩
  · refine ⟨es, [], s, ⟨now, rfl, fun e he => nomatch he⟩, hrun, ?_⟩
    rw [hstage]
    trivial
  · obtain ⟨es₁, es₂, s₁, ⟨now, rfl, hes₂⟩, hrun₁, htells'⟩ := ih hrow'
    refine ⟨es₁, es₂ ++ [e], s₁, ⟨now, by simp, fun e' he' => ?_⟩, hrun₁, ?_⟩
    · rcases List.mem_append.mp he' with he' | he'
      · exact hes₂ e' he'
      · rw [List.mem_singleton.mp he']
        exact hinside
    · rw [run_append, hrun₁, Option.bind_some] at hrun
      exact htells _ (emissions_grow hrun).length_le _ htells'

/-- A worker at a row has the lock of it, and the committed version is the one it has read. -/
theorem owns_of_row (hsound : Sound s) (hrow : (s.workers w).row = some id) :
    ∃ message, Owns s w id message := by
  have hworking := hsound.workers w
  cases hstage : s.workers w with
  | idle | selecting index =>
      rw [hstage] at hrow
      cases hrow
  | selected index id' message =>
      rw [hstage] at hrow hworking
      cases hrow
      exact ⟨message, hworking⟩
  | emitting index id' message emission =>
      rw [hstage] at hrow hworking
      cases hrow
      exact ⟨message, hworking.1⟩
  | publishing index id' message emission =>
      rw [hstage] at hrow hworking
      cases hrow
      exact ⟨message, hworking.1⟩
  | deferring index id' message error =>
      rw [hstage] at hrow hworking
      cases hrow
      exact ⟨message, hworking⟩
  | committing index id' version emission =>
      rw [hstage] at hrow hworking
      cases hrow
      obtain ⟨message, howns, -⟩ := working_committing hworking
      exact ⟨message, howns⟩

/-- A row is published on the strength of an emission of its transaction. -/
theorem transaction_of_published (h : run step init es = some s) (hstep : step s e = some t)
    (hrow : s.rows[id]? = some row) (hrow' : t.rows[id]? = some row')
    (hunpublished : row.publishedAt = none) (hpublished : row'.publishedAt ≠ none) :
    ∃ w n es₁ es₂ s₁, e = .commit w ∧ Transaction w id es es₁ es₂ ∧
      run step init es₁ = some s₁ ∧ s₁.emissions.length ≤ n ∧ Emitted s w id row n ∧
      n ∈ s.accepted := by
  obtain ⟨row₁, hrow₁, hrowStep⟩ := step_row (sound_of_reachable ⟨es, h⟩) hstep hrow
  obtain rfl : row₁ = row' := Option.some.inj (hrow₁.symm.trans hrow')
  cases hrowStep with
  | kept hdefers => exact absurd hunpublished hpublished
  | @published w index n version now hevent hstage _ hemitted haccepted =>
      obtain ⟨es₁, es₂, s₁, htransaction, hrun, htells⟩ :=
        transaction_of_run h (show (s.workers w).row = some id by rw [hstage]; rfl)
      rw [hstage] at htells
      exact ⟨w, n, es₁, es₂, s₁, hevent, htransaction, hrun, htells, hemitted, haccepted⟩
  | deferred error now _ hattempts hdefers => exact absurd hunpublished hpublished
  | reset now hevent hexhausted => exact absurd hunpublished hpublished

/-- The transaction that defers a row is one whose emission has failed. -/
theorem transaction_of_defers (h : run step init es = some s) (hdefers : Defers s e id) :
    ∃ w es₁ es₂ error, e = .commit w ∧ Transaction w id es es₁ es₂ ∧
      Event.reject w error ∈ es₂ := by
  obtain ⟨w, index, version, hevent, hstage⟩ := hdefers
  obtain ⟨es₁, es₂, s₁, htransaction, -, htells⟩ :=
    transaction_of_run h (show (s.workers w).row = some id by rw [hstage]; rfl)
  rw [hstage] at htells
  obtain ⟨error, herror⟩ := htells
  exact ⟨w, es₁, es₂, error, hevent, htransaction, herror⟩

theorem run_content (hsound : Sound s) (h : run step s es = some t)
    (hrow : s.rows[id]? = some row) :
    ∃ row', t.rows[id]? = some row' ∧ row'.message = row.message := by
  have hinvariant : Sound t ∧ ∃ row', t.rows[id]? = some row' ∧ row'.message = row.message := by
    refine run_invariant (I := fun u => Sound u ∧
      ∃ row', u.rows[id]? = some row' ∧ row'.message = row.message) ?_ h ⟨hsound, row, hrow, rfl⟩
    intro u e u' ⟨hu, row₁, hrow₁, hmessage⟩ hstep
    obtain ⟨row₂, hrow₂, hrowStep⟩ := step_row hu hstep hrow₁
    exact ⟨step_sound hu hstep, row₂, hrow₂, hrowStep.content.trans hmessage⟩
  exact hinvariant.2

theorem RowStep.attempts (h : RowStep s e id row row') (hunpublished : row'.publishedAt = none) :
    (Defers s e id ∧ row'.attempts = row.attempts + 1) ∨
    (¬ Defers s e id ∧ row'.attempts = row.attempts) ∨
    (∃ now, e = .retry id now ∧ row.exhausted = true ∧ row' = row.reset now) := by
  cases h with
  | kept hdefers => exact .inr (.inl ⟨hdefers, rfl⟩)
  | published now hevent hstage _ hemitted haccepted => cases hunpublished
  | deferred error now _ hattempts hdefers => exact .inl ⟨hdefers, rfl⟩
  | reset now hevent hexhausted => exact .inr (.inr ⟨now, hevent, hexhausted, rfl⟩)

/-- `retryOutbox` changes an exhausted row or none. -/
theorem RowStep.retry {id' : ℕ} {now : Date} (h : RowStep s (.retry id' now) id row row') :
    row' = row ∨ (id' = id ∧ row.exhausted = true ∧ row'.publishedAt = none) := by
  cases h with
  | kept hdefers => exact .inl rfl
  | published now hevent hstage _ hemitted haccepted => cases hevent
  | deferred error now _ hattempts hdefers =>
      obtain ⟨w, index, version, hevent, -⟩ := hdefers
      cases hevent
  | reset now' hevent hexhausted =>
      cases hevent
      rw [OutboxRow.exhausted, Bool.and_eq_true, Option.isNone_iff_eq_none] at hexhausted
      exact .inr ⟨rfl, by simp [OutboxRow.exhausted, hexhausted], hexhausted.1⟩

/-- A row that is due and that nobody works on is there for the next SELECT. -/
theorem select_enabled (hsound : Sound s) (hrow : s.rows[id]? = some row) {now : Date}
    (hselectable : row.selectable now = true) (hfree : ∀ w, (s.workers w).row ≠ some id)
    {index : ℕ} (hstage : s.workers w = .selecting index) :
    (step s (.select w id now)).isSome = true := by
  have hlock : s.locks id = none := by
    cases hlock : s.locks id with
    | none => rfl
    | some w' => exact absurd (hsound.held id w' hlock) (hfree w')
  simp [step, hstage, hrow, hselectable, Locks.available_of_free hlock]

/-- An exhausted row is there again after `retryOutbox`. -/
theorem retry_selectable (hsound : Sound s) (hrow : s.rows[id]? = some row)
    (hexhausted : row.exhausted = true) (now : Date) :
    ∃ t, step s (.retry id now) = some t ∧ t.rows[id]? = some (row.reset now) ∧
      (row.reset now).selectable now = true := by
  rw [OutboxRow.exhausted, Bool.and_eq_true, Option.isNone_iff_eq_none, decide_eq_true_eq]
    at hexhausted
  have hlock : s.locks id = none := by
    cases hlock : s.locks id with
    | none => rfl
    | some w =>
        obtain ⟨message, -, hmessage, -, hattempts⟩ := owns_of_row hsound (hsound.held id w hlock)
        obtain rfl : message = row := Option.some.inj (hmessage.symm.trans hrow)
        exact absurd hexhausted.2 (Nat.not_le.mpr hattempts)
  refine ⟨{ s with rows := s.rows.set id (row.reset now) }, ?_, ?_, ?_⟩
  · simp [step, hrow, OutboxRow.exhausted, hexhausted, hlock]
  · exact List.getElem?_set_self (List.getElem?_eq_some_iff.mp hrow).1
  · simp [OutboxRow.selectable, OutboxRow.reset, hexhausted.1, outboxMaxAttempts]

/-- After every run: a row is published in a transaction whose own emission of it the broker
has accepted; a published row stays as it is and is not emitted again; no two workers are at
one row; no row goes or changes its content; the attempts of an unpublished row go up by one
with a committed failed emission, stay within their bound and are reset by `retryOutbox`
only, which changes exhausted rows only; and an unpublished row is selectable once due, or
exhausted and selectable after `retryOutbox`. -/
theorem relay_safety (h : run step init es = some s) :
    (∀ e t id row row', step s e = some t → s.rows[id]? = some row → t.rows[id]? = some row' →
      row.publishedAt = none → row'.publishedAt ≠ none →
      ∃ w n es₁ es₂ s₁, e = .commit w ∧ Transaction w id es es₁ es₂ ∧
        run step init es₁ = some s₁ ∧ s₁.emissions.length ≤ n ∧ Emitted s w id row n ∧
        n ∈ s.accepted) ∧
    (∀ fs t (id : ℕ) (row : OutboxRow), run step s fs = some t → s.rows[id]? = some row →
      row.publishedAt ≠ none →
      t.rows[id]? = some row ∧ ∀ (n : ℕ) (emission : Emission), s.emissions.length ≤ n →
        t.emissions[n]? = some emission → emission.id ≠ id) ∧
    (∀ w w' id, (s.workers w).row = some id → (s.workers w').row = some id → w = w') ∧
    (∀ fs t (id : ℕ) (row : OutboxRow), run step s fs = some t → s.rows[id]? = some row →
      ∃ row', t.rows[id]? = some row' ∧ row'.message = row.message) ∧
    (∀ e t (id : ℕ) (row row' : OutboxRow), step s e = some t → s.rows[id]? = some row →
      t.rows[id]? = some row' → row'.publishedAt = none →
      (Defers s e id ∧ row'.attempts = row.attempts + 1) ∨
      (¬ Defers s e id ∧ row'.attempts = row.attempts) ∨
      (∃ now, e = .retry id now ∧ row.exhausted = true ∧ row' = row.reset now)) ∧
    (∀ e id, Defers s e id → ∃ w es₁ es₂ error, e = .commit w ∧
      Transaction w id es es₁ es₂ ∧ Event.reject w error ∈ es₂) ∧
    (∀ (id : ℕ) (row : OutboxRow), s.rows[id]? = some row → row.publishedAt = none →
      row.attempts ≤ outboxMaxAttempts) ∧
    (∀ id' now t (id : ℕ) (row : OutboxRow), step s (.retry id' now) = some t →
      s.rows[id]? = some row → ∃ row', t.rows[id]? = some row' ∧
        (row' = row ∨ (id' = id ∧ row.exhausted = true ∧ row'.publishedAt = none))) ∧
    (∀ (id : ℕ) (row : OutboxRow), s.rows[id]? = some row → row.publishedAt = none →
      (row.attempts < outboxMaxAttempts ∧ ∀ now, row.nextAttemptAt ≤ now →
        row.selectable now = true ∧
        ((∀ w, (s.workers w).row ≠ some id) → ∀ w index, s.workers w = .selecting index →
          (step s (.select w id now)).isSome = true)) ∨
      (row.exhausted = true ∧ ∀ now, ∃ t, step s (.retry id now) = some t ∧
        t.rows[id]? = some (row.reset now) ∧ (row.reset now).selectable now = true)) := by
  have hsound := sound_of_reachable ⟨es, h⟩
  refine ⟨?_, ?_, ?_, ?_, ?_, ?_, hsound.attempts, ?_, ?_⟩
  · intro e t id row row' hstep hrow hrow' hunpublished hpublished
    exact transaction_of_published h hstep hrow hrow' hunpublished hpublished
  · intro fs t id row hrun hrow hpublished
    exact run_published hsound hrun hrow hpublished
  · intro w w' id hw hw'
    obtain ⟨-, hlock, -⟩ := owns_of_row hsound hw
    obtain ⟨-, hlock', -⟩ := owns_of_row hsound hw'
    exact Option.some.inj (hlock.symm.trans hlock')
  · intro fs t id row hrun hrow
    exact run_content hsound hrun hrow
  · intro e t id row row' hstep hrow hrow' hunpublished
    obtain ⟨row₁, hrow₁, hrowStep⟩ := step_row hsound hstep hrow
    obtain rfl : row₁ = row' := Option.some.inj (hrow₁.symm.trans hrow')
    exact hrowStep.attempts hunpublished
  · exact fun e id hdefers => transaction_of_defers h hdefers
  · intro id' now t id row hstep hrow
    obtain ⟨row', hrow', hrowStep⟩ := step_row hsound hstep hrow
    exact ⟨row', hrow', hrowStep.retry⟩
  · intro id row hrow hunpublished
    rcases Nat.lt_or_ge row.attempts outboxMaxAttempts with hattempts | hattempts
    · refine .inl ⟨hattempts, fun now hdue => ?_⟩
      have hselectable : row.selectable now = true := by
        simp [OutboxRow.selectable, hunpublished, hattempts, hdue]
      exact ⟨hselectable, fun hfree w index hstage =>
        select_enabled hsound hrow hselectable hfree hstage⟩
    · have hexhausted : row.exhausted = true := by
        simp [OutboxRow.exhausted, hunpublished, hattempts]
      exact .inr ⟨hexhausted, fun now => retry_selectable hsound hrow hexhausted now⟩

/-- Worker 0 gives up on its emission, which the broker accepts all the same; worker 1 finds
the row due again, and publishes it. -/
def timeoutRun : List Event :=
  [.enqueue [⟨"pay_00000000000000000000000001", transactionRecorded, []⟩] 0,
    .drain 0, .select 0 0 0, .drain 1, .nothing 1, .emit 0, .reject 0 "TimeoutError", .accept 0,
    .update 0 5000, .commit 0, .drain 1, .select 1 0 7000, .emit 1, .accept 1, .complete 1,
    .update 1 7001, .commit 1]

theorem relay_safety_timeoutRun :
    ∃ s, run step init timeoutRun = some s ∧
      s.rows.map (fun row => (row.publishedAt, row.attempts)) = [(some 7001, 2)] ∧
      s.emissions.length = 2 ∧
      ∀ fs t (row : OutboxRow), run step s fs = some t → s.rows[0]? = some row →
        row.publishedAt ≠ none → t.rows[0]? = some row := by
  have h : (run step init timeoutRun).map (fun s =>
      (s.rows.map (fun row => (row.publishedAt, row.attempts)), s.emissions.length)) =
      some ([(some 7001, 2)], 2) := by
    decide +kernel
  obtain ⟨s, hrun, hs⟩ := Option.map_eq_some_iff.mp h
  obtain ⟨hrows, hemissions⟩ := Prod.mk.inj hs
  obtain ⟨-, hpublished, -⟩ := relay_safety hrun
  exact ⟨s, hrun, hrows, hemissions,
    fun fs t row hfs hrow hne => (hpublished fs t 0 row hfs hrow hne).1⟩

end OutboxRelay

end Payments

end Paynad
