import Paynad.Library.Possible
import Paynad.Payments.Protocol.RelayRows

/-!
# The relay gets every row to the broker

A row that is marked as published is in the queue: the broker has accepted an emission of
it. A row that is not can still be published, whatever state its workers were left in.
-/

namespace Paynad

namespace Payments

namespace OutboxRelay

open Shared Transition

def Queued (s : State) (message : OutboxMessage) : Prop :=
  ∃ n ∈ s.accepted, ∃ emission : Emission, s.emissions[n]? = some emission ∧
    emission.eventType = message.eventType ∧ emission.payload = message.payload

def Acknowledged (s : State) : Prop :=
  ∀ (id : ℕ) (row : OutboxRow), s.rows[id]? = some row → row.publishedAt ≠ none →
    Queued s row.message

def Event.relays : Event → Bool
  | .enqueue _ _ => false
  | _ => true

variable {s t : State} {e : Event} {w id : ℕ} {row : OutboxRow} {message : OutboxMessage}

theorem accepted_of_step (h : step s e = some t) : s.accepted ⊆ t.accepted := by
  cases step_cases h with
  | accept n => exact List.subset_cons_self _ _
  | _ => exact List.Subset.refl _

theorem Queued.step (hqueued : Queued s message) (h : step s e = some t) :
    Queued t message := by
  obtain ⟨n, hn, emission, hemission, hcarries⟩ := hqueued
  refine ⟨n, accepted_of_step h hn, emission, ?_, hcarries⟩
  rcases emissions_of_step h with hemissions | ⟨_, _, _, _, -, -, hemissions⟩
  · rw [hemissions]
    exact hemission
  · rw [hemissions, List.getElem?_append_left (List.getElem?_eq_some_iff.mp hemission).1]
    exact hemission

/-- A row that a step has added is not published. -/
theorem unpublished_of_new (h : step s e = some t) (hnew : s.rows[id]? = none)
    (hrow : t.rows[id]? = some row) : row.publishedAt = none := by
  have hmem : t.rows = s.rows ∨ (∃ id' version, t.rows = s.rows.set id' version) →
      row.publishedAt = none := by
    rw [List.getElem?_eq_none_iff] at hnew
    obtain ⟨hlt, -⟩ := List.getElem?_eq_some_iff.mp hrow
    rintro (hrows | ⟨id', version, hrows⟩)
    · rw [hrows] at hlt
      omega
    · rw [hrows, List.length_set] at hlt
      omega
  rcases rows_of_step h with ⟨hrows, -⟩ | ⟨messages, now, -, hrows⟩ |
    ⟨-, -, id', version, -, -, -, hrows⟩ | ⟨id', now, row', -, -, -, hrows⟩
  · exact hmem (.inl hrows)
  · rw [hrows, List.getElem?_append_right (List.getElem?_eq_none_iff.mp hnew)] at hrow
    obtain ⟨message, -, rfl⟩ := List.mem_map.mp (List.mem_of_getElem? hrow)
    rfl
  · exact hmem (.inr ⟨id', version, hrows⟩)
  · exact hmem (.inr ⟨id', _, hrows⟩)

theorem Acknowledged.step (hacknowledged : Acknowledged s) (hsound : Sound s)
    (h : step s e = some t) : Acknowledged t := by
  intro id row' hrow' hpublished
  cases hrow : s.rows[id]? with
  | none => exact absurd (unpublished_of_new h hrow hrow') hpublished
  | some row =>
      obtain ⟨row'', hrow'', hstep⟩ := step_row hsound h hrow
      obtain rfl : row'' = row' := Option.some.inj (hrow''.symm.trans hrow')
      cases hstep with
      | kept hdefers => exact (hacknowledged id _ hrow hpublished).step h
      | published now hevent hstage hunpublished hemitted haccepted =>
          have hqueued : Queued s row.message := ⟨_, haccepted, _, hemitted, rfl, rfl⟩
          exact hqueued.step h
      | deferred error now hunpublished hattempts hdefers => exact absurd hunpublished hpublished
      | reset now hevent hexhausted =>
          rw [OutboxRow.exhausted, Bool.and_eq_true, Option.isNone_iff_eq_none] at hexhausted
          exact absurd hexhausted.1 hpublished

theorem acknowledged_init : Acknowledged init := fun _ _ hrow _ => by
  rw [init, List.getElem?_nil] at hrow
  cases hrow

/-! ## A row can be published -/

theorem step_stop (hstage : s.workers w ≠ .idle) :
    step s (.stop w) = some ((s.unlock w).goTo w .idle) := by
  simp only [step]

/-- A row can be left to an idle worker. -/
theorem possible_free (hsound : Sound s) (id : ℕ) :
    Possible step (fun e => e.relays = true)
      (fun t => Sound t ∧ t.rows = s.rows ∧ t.locks id = none ∧ ∃ w, t.workers w = .idle) s := by
  have hstop : ∀ w, s.workers w ≠ .idle → (s.locks id = none ∨ s.locks id = some w) →
      Possible step (fun e => e.relays = true)
        (fun t => Sound t ∧ t.rows = s.rows ∧ t.locks id = none ∧ ∃ w, t.workers w = .idle) s := by
    intro w hstage hlock
    refine .later (.stop w) rfl (step_stop hstage) (.now ⟨hsound.idle w, rfl, ?_, w, goTo_self⟩)
    rcases hlock with hlock | hlock <;> simp [State.unlock, State.goTo, Locks.release, hlock]
  cases hlock : s.locks id with
  | some w =>
      refine hstop w (fun hidle => ?_) (.inr hlock)
      have hrow := hsound.held id w hlock
      rw [hidle] at hrow
      cases hrow
  | none =>
      by_cases hidle : s.workers 0 = .idle
      · exact .now ⟨hsound, rfl, hlock, 0, hidle⟩
      · exact hstop 0 hidle (.inl hlock)

/-- An idle worker can publish a row that is due and that nobody holds. -/
theorem possible_publication (hidle : s.workers w = .idle) (hlock : s.locks id = none)
    (hrow : s.rows[id]? = some row) {now : Date} (hselectable : row.selectable now = true) :
    Possible step (fun e => e.relays = true)
      (fun t => ∃ row, t.rows[id]? = some row ∧ row.publishedAt ≠ none) s := by
  let s₁ : State := s.goTo w (.selecting 0)
  let s₂ : State := { s₁ with locks := s₁.locks.acquire w id }.goTo w (.selected 0 id row)
  let s₃ : State := (s₂.emit ⟨w, id, row.message.eventType, row.message.payload⟩).goTo w
    (.emitting 0 id row s₂.emissions.length)
  let s₄ : State := { s₃ with accepted := s₂.emissions.length :: s₃.accepted }
  let s₅ : State := s₄.goTo w (.publishing 0 id row s₂.emissions.length)
  let s₆ : State := s₅.goTo w (.committing 0 id (row.published row now)
    (some s₂.emissions.length))
  let s₇ : State := ({ s₆ with rows := s₆.rows.set id (row.published row now) }.unlock w).goTo w
    (next 0)
  have hdrain : step s (.drain w) = some s₁ := by simp only [step, hidle]; rfl
  have hselect : step s₁ (.select w id now) = some s₂ := by
    simp [step, s₁, s₂, State.goTo, hrow, hselectable, Locks.available_of_free hlock]
  have hemit : step s₂ (.emit w) = some s₃ := by simp [step, s₂, s₃, State.goTo]
  have haccept : step s₃ (.accept s₂.emissions.length) = some s₄ := by
    simp [step, s₃, s₄, State.goTo, State.emit]
  have hcomplete : step s₄ (.complete w) = some s₅ := by simp [step, s₃, s₄, s₅, State.goTo]
  have hupdate : step s₅ (.update w now) = some s₆ := by
    have hrow' : s₅.rows[id]? = some row := hrow
    simp only [step, s₆, show s₅.workers w = _ from goTo_self, hrow', Option.map_some]
  have hcommit : step s₆ (.commit w) = some s₇ := by
    simp only [step, s₇, show s₆.workers w = _ from goTo_self]
  refine .later _ rfl hdrain <| .later _ rfl hselect <| .later _ rfl hemit <|
    .later _ rfl haccept <| .later _ rfl hcomplete <| .later _ rfl hupdate <|
    .later _ rfl hcommit <| .now ⟨row.published row now, ?_, Option.some_ne_none now⟩
  exact List.getElem?_set_self (List.getElem?_eq_some_iff.mp hrow).1

/-- Every row is published or can still be. -/
theorem possible_published (hsound : Sound s) (hrow : s.rows[id]? = some row) :
    Possible step (fun e => e.relays = true)
      (fun t => ∃ row, t.rows[id]? = some row ∧ row.publishedAt ≠ none) s := by
  by_cases hpublished : row.publishedAt = none
  · refine (possible_free hsound id).trans fun t ⟨ht, hrows, hlock, w, hidle⟩ => ?_
    have hrow' : t.rows[id]? = some row := hrows ▸ hrow
    rcases Nat.lt_or_ge row.attempts outboxMaxAttempts with hattempts | hattempts
    · have hdue : row.selectable row.nextAttemptAt = true := by
        simp [OutboxRow.selectable, hpublished, hattempts]
      exact possible_publication hidle hlock hrow' hdue
    · -- An exhausted row first needs the operator.
      have hretry : step t (.retry id 0) =
          some { t with rows := t.rows.set id (row.reset 0) } := by
        simp [step, hrow', OutboxRow.exhausted, hpublished, hattempts, hlock]
      have hdue : (row.reset 0).selectable 0 = true := by
        simp [OutboxRow.selectable, OutboxRow.reset, hpublished, outboxMaxAttempts]
      exact .later _ rfl hretry (possible_publication hidle hlock
        (List.getElem?_set_self (List.getElem?_eq_some_iff.mp hrow').1) hdue)
  · exact .now ⟨row, hrow, hpublished⟩

/-- Whatever state the relay is in, every row can still be brought to the broker. -/
theorem possible_queued (hsound : Sound s) (hacknowledged : Acknowledged s)
    (hrow : s.rows[id]? = some row) :
    Possible step (fun e => e.relays = true) (fun t => Queued t row.message) s := by
  have hkeep : ∀ s e t, (Sound s ∧ Acknowledged s ∧
      ∃ row', s.rows[id]? = some row' ∧ row'.message = row.message) → e.relays = true →
      step s e = some t → Sound t ∧ Acknowledged t ∧
        ∃ row', t.rows[id]? = some row' ∧ row'.message = row.message := by
    rintro s e t ⟨hsound, hacknowledged, row', hrow', hmessage⟩ - hstep
    obtain ⟨row'', hrow'', hrowStep⟩ := step_row hsound hstep hrow'
    exact ⟨step_sound hsound hstep, hacknowledged.step hsound hstep, row'', hrow'',
      hrowStep.content.trans hmessage⟩
  refine ((possible_published hsound hrow).keep hkeep
    ⟨hsound, hacknowledged, row, hrow, rfl⟩).mono ?_
  rintro t ⟨⟨row', hrow', hpublished⟩, -, ht, row'', hrow'', hmessage⟩
  obtain rfl : row' = row'' := Option.some.inj (hrow'.symm.trans hrow'')
  exact hmessage ▸ ht id row' hrow' hpublished

end OutboxRelay

end Payments

end Paynad
