import Paynad.Library.Transition
import Paynad.Payments.Infrastructure.OutboxRelay

/-!
# The rows of the outbox under the relay

A worker keeps the lock of its row from the SELECT to the end of its transaction,
so the version it has read is the committed one when it commits (`Working`). What a
step does to a row follows in one lemma, `step_row`.
-/

namespace Paynad

namespace Payments

namespace OutboxRelay

open Shared Transition

def Owns (s : State) (w id : ℕ) (message : OutboxRow) : Prop :=
  s.locks id = some w ∧ s.rows[id]? = some message ∧ message.publishedAt = none ∧
    message.attempts < outboxMaxAttempts

def Emitted (s : State) (w id : ℕ) (message : OutboxRow) (emission : ℕ) : Prop :=
  s.emissions[emission]? =
    some ⟨w, id, message.message.eventType, message.message.payload⟩

/-- What a worker knows at each of its awaits. -/
def Working (s : State) (w : ℕ) : Stage → Prop
  | .idle | .selecting _ => True
  | .selected _ id message => Owns s w id message
  | .emitting _ id message emission => Owns s w id message ∧ Emitted s w id message emission
  | .publishing _ id message emission =>
      Owns s w id message ∧ Emitted s w id message emission ∧ emission ∈ s.accepted
  | .deferring _ id message _ => Owns s w id message
  | .committing _ id version (some emission) => ∃ message now, Owns s w id message ∧
      Emitted s w id message emission ∧ emission ∈ s.accepted ∧
      version = message.published message now
  | .committing _ id version none => ∃ message error now, Owns s w id message ∧
      version = message.deferred message error now

structure Sound (s : State) : Prop where
  attempts : ∀ (id : ℕ) (row : OutboxRow), s.rows[id]? = some row →
    row.publishedAt = none → row.attempts ≤ outboxMaxAttempts
  workers : ∀ w, Working s w (s.workers w)
  held : ∀ id w, s.locks id = some w → (s.workers w).row = some id

variable {s t u : State} {w w' id : ℕ} {stage : Stage} {row row' message : OutboxRow}
  {e : Event} {es : List Event}

structure Keeps (w : ℕ) (s t : State) : Prop where
  rows : ∀ (id : ℕ) (row : OutboxRow), s.locks id = some w → s.rows[id]? = some row →
    t.rows[id]? = some row
  locks : ∀ id, s.locks id = some w → t.locks id = some w
  emissions : ∀ (n : ℕ) (emission : Emission), s.emissions[n]? = some emission →
    t.emissions[n]? = some emission
  accepted : s.accepted ⊆ t.accepted

theorem Keeps.refl (w : ℕ) (s : State) : Keeps w s s :=
  ⟨fun _ _ _ h => h, fun _ h => h, fun _ _ h => h, List.Subset.refl _⟩

theorem Owns.mono (hkeeps : Keeps w s t) (h : Owns s w id message) : Owns t w id message :=
  ⟨hkeeps.locks id h.1, hkeeps.rows id message h.1 h.2.1, h.2.2⟩

theorem Working.mono (hkeeps : Keeps w s t) (h : Working s w stage) : Working t w stage := by
  cases stage with
  | idle => trivial
  | selecting index => trivial
  | selected index id message => exact Owns.mono hkeeps h
  | emitting index id message emission =>
      exact ⟨h.1.mono hkeeps, hkeeps.emissions _ _ h.2⟩
  | publishing index id message emission =>
      obtain ⟨howns, hemitted, haccepted⟩ := h
      exact ⟨howns.mono hkeeps, hkeeps.emissions _ _ hemitted, hkeeps.accepted haccepted⟩
  | deferring index id message error => exact Owns.mono hkeeps h
  | committing index id version emission =>
      cases emission with
      | some emission =>
          obtain ⟨message, now, howns, hemitted, haccepted, hversion⟩ := h
          exact ⟨message, now, howns.mono hkeeps, hkeeps.emissions _ _ hemitted,
            hkeeps.accepted haccepted, hversion⟩
      | none =>
          obtain ⟨message, error, now, howns, hversion⟩ := h
          exact ⟨message, error, now, howns.mono hkeeps, hversion⟩

theorem goTo_self : (s.goTo w stage).workers w = stage := Function.update_self ..

theorem goTo_of_ne (hne : w' ≠ w) : (s.goTo w stage).workers w' = s.workers w' :=
  Function.update_of_ne hne ..

theorem working_goTo {stage' : Stage} :
    Working (s.goTo w' stage') w stage ↔ Working s w stage := by
  cases stage with
  | committing index id version emission => cases emission <;> rfl
  | _ => rfl

theorem sound_goTo (hsound : Sound s) (hkeeps : ∀ w', w' ≠ w → Keeps w' s u)
    (hworkers : u.workers = s.workers)
    (hattempts : ∀ (id : ℕ) (row : OutboxRow), u.rows[id]? = some row →
      row.publishedAt = none → row.attempts ≤ outboxMaxAttempts)
    (hheld : ∀ id w', u.locks id = some w' →
      w' = w ∧ stage.row = some id ∨ w' ≠ w ∧ s.locks id = some w')
    (h : Working u w stage) : Sound (u.goTo w stage) where
  attempts := hattempts
  workers w' := by
    rw [working_goTo]
    by_cases hw : w' = w
    · subst hw
      rw [goTo_self]
      exact h
    · rw [goTo_of_ne hw, hworkers]
      exact (hsound.workers w').mono (hkeeps w' hw)
  held id w' hlock := by
    rcases hheld id w' hlock with ⟨rfl, hrow⟩ | ⟨hne, hlock⟩
    · rw [goTo_self]
      exact hrow
    · rw [goTo_of_ne hne, hworkers]
      exact hsound.held id w' hlock

theorem held_stay (hsound : Sound s) (hrow : (s.workers w).row = stage.row) (id w' : ℕ)
    (hlock : s.locks id = some w') :
    w' = w ∧ stage.row = some id ∨ w' ≠ w ∧ s.locks id = some w' := by
  by_cases hw : w' = w
  · subst hw
    exact .inl ⟨rfl, hrow ▸ hsound.held id w' hlock⟩
  · exact .inr ⟨hw, hlock⟩

theorem sound_stay (hsound : Sound s) (hrow : (s.workers w).row = stage.row)
    (h : Working s w stage) : Sound (s.goTo w stage) :=
  sound_goTo hsound (fun w' _ => .refl w' s) rfl hsound.attempts (held_stay hsound hrow) h

theorem held_unlock (id w' : ℕ) (hlock : (s.unlock w).locks id = some w') :
    w' = w ∧ stage.row = some id ∨ w' ≠ w ∧ s.locks id = some w' :=
  .inr (Locks.held_of_release hlock)

theorem keeps_unlock (hne : w' ≠ w) : Keeps w' s (s.unlock w) :=
  ⟨fun _ _ _ h => h, fun _ h => Locks.release_of_held h hne, fun _ _ h => h,
    List.Subset.refl _⟩

theorem keeps_commit {version : OutboxRow} (hne : w' ≠ w) (hlock : s.locks id = some w) :
    Keeps w' s ({ s with rows := s.rows.set id version }.unlock w) := by
  refine ⟨fun id' row hlock' hrow => ?_, fun _ h => Locks.release_of_held h hne,
    fun _ _ h => h, List.Subset.refl _⟩
  have hid : id ≠ id' := by
    rintro rfl
    exact hne (Option.some.inj (hlock'.symm.trans hlock))
  exact (List.getElem?_set_ne hid).trans hrow

theorem working_committing {index : ℕ} {version : OutboxRow} {emission : Option ℕ}
    (h : Working s w (.committing index id version emission)) :
    ∃ message, Owns s w id message ∧
      ((∃ n now, emission = some n ∧ Emitted s w id message n ∧ n ∈ s.accepted ∧
          version = message.published message now) ∨
        ∃ error now, emission = none ∧ version = message.deferred message error now) := by
  cases emission with
  | some n =>
      obtain ⟨message, now, howns, hemitted, haccepted, hversion⟩ := h
      exact ⟨message, howns, .inl ⟨n, now, rfl, hemitted, haccepted, hversion⟩⟩
  | none =>
      obtain ⟨message, error, now, howns, hversion⟩ := h
      exact ⟨message, howns, .inr ⟨error, now, rfl, hversion⟩⟩

theorem getElem?_set_cases {rows : List OutboxRow} {version : OutboxRow} {id' : ℕ}
    (h : (rows.set id version)[id']? = some row) :
    (id = id' ∧ row = version) ∨ rows[id']? = some row := by
  by_cases hid : id = id'
  · subst hid
    rw [List.getElem?_set_self'] at h
    obtain ⟨row₀, -, rfl⟩ := Option.map_eq_some_iff.mp h
    exact .inl ⟨rfl, rfl⟩
  · rw [List.getElem?_set_ne hid] at h
    exact .inr h

theorem getElem?_concat_cases {emissions : List Emission} {n : ℕ} {emission emission' : Emission}
    (h : (emissions ++ [emission'])[n]? = some emission) :
    emissions[n]? = some emission ∨ emission = emission' := by
  rcases Nat.lt_or_ge n emissions.length with hn | hn
  · rw [List.getElem?_append_left hn] at h
    exact .inl h
  · rw [List.getElem?_append_right hn] at h
    exact .inr (List.mem_singleton.mp (List.mem_of_getElem? h))

/-! ## The steps -/

/-- What a step is: of a worker at the stage it is at, of the broker, or of an operator. -/
inductive Effect (s : State) : Event → State → Prop
  | enqueue (messages : List OutboxMessage) (now : Date) :
      Effect s (.enqueue messages now) (s.enqueue messages now)
  | drain (w : ℕ) (hstage : s.workers w = .idle) :
      Effect s (.drain w) (s.goTo w (.selecting 0))
  | select {w id index : ℕ} {now : Date} {row : OutboxRow}
      (hstage : s.workers w = .selecting index) (hrow : s.rows[id]? = some row)
      (hselectable : row.selectable now = true) (havailable : s.locks.available w id = true) :
      Effect s (.select w id now)
        ({ s with locks := s.locks.acquire w id }.goTo w (.selected index id row))
  | nothing {w index : ℕ} (hstage : s.workers w = .selecting index) :
      Effect s (.nothing w) ((s.unlock w).goTo w .idle)
  | emit {w id index : ℕ} {message : OutboxRow}
      (hstage : s.workers w = .selected index id message) :
      Effect s (.emit w)
        ((s.emit ⟨w, id, message.message.eventType, message.message.payload⟩).goTo w
          (.emitting index id message s.emissions.length))
  | accept (n : ℕ) : Effect s (.accept n) { s with accepted := n :: s.accepted }
  | complete {w id index emission : ℕ} {message : OutboxRow}
      (hstage : s.workers w = .emitting index id message emission)
      (haccepted : emission ∈ s.accepted) :
      Effect s (.complete w) (s.goTo w (.publishing index id message emission))
  | reject {w id index emission : ℕ} {message : OutboxRow} (error : String)
      (hstage : s.workers w = .emitting index id message emission) :
      Effect s (.reject w error) (s.goTo w (.deferring index id message error))
  | publish {w id index emission : ℕ} {message row : OutboxRow} (now : Date)
      (hstage : s.workers w = .publishing index id message emission)
      (hrow : s.rows[id]? = some row) :
      Effect s (.update w now)
        (s.goTo w (.committing index id (row.published message now) (some emission)))
  | defer {w id index : ℕ} {message row : OutboxRow} {error : String} (now : Date)
      (hstage : s.workers w = .deferring index id message error)
      (hrow : s.rows[id]? = some row) :
      Effect s (.update w now)
        (s.goTo w (.committing index id (row.deferred message error now) none))
  | commit {w id index : ℕ} {version : OutboxRow} {emission : Option ℕ}
      (hstage : s.workers w = .committing index id version emission) :
      Effect s (.commit w)
        (({ s with rows := s.rows.set id version }.unlock w).goTo w (next index))
  | stop (w : ℕ) : Effect s (.stop w) ((s.unlock w).goTo w .idle)
  | reset {id : ℕ} {row : OutboxRow} (now : Date) (hrow : s.rows[id]? = some row)
      (hexhausted : row.exhausted = true) (hunlocked : s.locks id = none) :
      Effect s (.retry id now) { s with rows := s.rows.set id (row.reset now) }
  /-- There is no row to reset. -/
  | spared (id : ℕ) (now : Date) : Effect s (.retry id now) s

theorem step_cases (h : step s e = some t) : Effect s e t := by
  cases e with
  | enqueue messages now =>
      obtain rfl := Option.some.inj h
      exact .enqueue messages now
  | drain w =>
      simp only [step] at h
      split at h
      · next hstage =>
          obtain rfl := Option.some.inj h
          exact .drain w hstage
      · cases h
  | select w id now =>
      simp only [step] at h
      split at h
      · next index row hstage hrow =>
          split_ifs at h with hselect
          obtain rfl := Option.some.inj h
          obtain ⟨hselectable, havailable⟩ := Bool.and_eq_true_iff.mp hselect
          exact .select hstage hrow hselectable havailable
      · cases h
  | nothing w =>
      simp only [step] at h
      split at h
      · next index hstage =>
          obtain rfl := Option.some.inj h
          exact .nothing hstage
      · cases h
  | emit w =>
      simp only [step] at h
      split at h
      · next index id message hstage =>
          obtain rfl := Option.some.inj h
          exact .emit hstage
      · cases h
  | accept n =>
      simp only [step] at h
      split_ifs at h
      obtain rfl := Option.some.inj h
      exact .accept n
  | complete w =>
      simp only [step] at h
      split at h
      · next index id message emission hstage =>
          split_ifs at h with haccepted
          obtain rfl := Option.some.inj h
          exact .complete hstage haccepted
      · cases h
  | reject w error =>
      simp only [step] at h
      split at h
      · next index id message emission hstage =>
          obtain rfl := Option.some.inj h
          exact .reject error hstage
      · cases h
  | update w now =>
      simp only [step] at h
      split at h
      · next index id message emission hstage =>
          obtain ⟨row, hrow, rfl⟩ := Option.map_eq_some_iff.mp h
          exact .publish now hstage hrow
      · next index id message error hstage =>
          obtain ⟨row, hrow, rfl⟩ := Option.map_eq_some_iff.mp h
          exact .defer now hstage hrow
      · cases h
  | commit w =>
      simp only [step] at h
      split at h
      · next index id version emission hstage =>
          obtain rfl := Option.some.inj h
          exact .commit hstage
      · cases h
  | stop w =>
      simp only [step] at h
      split at h
      · cases h
      · obtain rfl := Option.some.inj h
        exact .stop w
  | retry id now =>
      simp only [step] at h
      split at h
      · obtain rfl := Option.some.inj h
        exact .spared id now
      · next row hrow =>
          split_ifs at h with hexhausted hlock
          · obtain rfl := Option.some.inj h
            exact .reset now hrow hexhausted hlock
          · obtain rfl := Option.some.inj h
            exact .spared id now

/-! ## What the steps keep -/

theorem Sound.enqueue (hsound : Sound s) (messages : List OutboxMessage) (now : Date) :
    Sound (s.enqueue messages now) := by
  have hkeeps : ∀ w, Keeps w s (s.enqueue messages now) := fun w =>
    ⟨fun id row _ hrow => by
        rw [State.enqueue, List.getElem?_append_left (List.getElem?_eq_some_iff.mp hrow).1]
        exact hrow,
      fun _ hlock => hlock, fun _ _ hemission => hemission, List.Subset.refl _⟩
  refine ⟨fun id row hrow hunpublished => ?_,
    fun w => (hsound.workers w).mono (hkeeps w), hsound.held⟩
  rcases List.mem_append.mp (List.mem_of_getElem? hrow) with hmem | hmem
  · obtain ⟨id', hrow'⟩ := List.getElem?_of_mem hmem
    exact hsound.attempts id' row hrow' hunpublished
  · obtain ⟨message, -, rfl⟩ := List.mem_map.mp hmem
    exact Nat.zero_le _

theorem Sound.select {index : ℕ} {now : Date} (hsound : Sound s)
    (hstage : s.workers w = .selecting index) (hrow : s.rows[id]? = some row)
    (hselectable : row.selectable now = true) (havailable : s.locks.available w id = true) :
    Sound ({ s with locks := s.locks.acquire w id }.goTo w (.selected index id row)) := by
  simp only [OutboxRow.selectable, Bool.and_eq_true, Option.isNone_iff_eq_none,
    decide_eq_true_eq] at hselectable
  obtain ⟨⟨hunpublished, hattempts⟩, -⟩ := hselectable
  refine sound_goTo hsound (fun w' _ => ?_) rfl hsound.attempts (fun id' w' hlock => ?_)
    ⟨Locks.acquire_self, hrow, hunpublished, hattempts⟩
  · exact ⟨fun _ _ _ hrow => hrow,
      fun _ hlock => Locks.acquire_of_held havailable hlock,
      fun _ _ hemission => hemission, List.Subset.refl _⟩
  · have hcases : s.locks id' = some w' ∨ w' = w ∧ id' ∈ [id] :=
      Locks.held_of_acquireAll hlock
    rcases hcases with hheld | ⟨rfl, hid⟩
    · refine .inr ⟨?_, hheld⟩
      rintro rfl
      have hrow := hsound.held id' w' hheld
      rw [hstage] at hrow
      cases hrow
    · obtain rfl := List.mem_singleton.mp hid
      exact .inl ⟨rfl, rfl⟩

theorem Sound.emit {index : ℕ} (hsound : Sound s)
    (hstage : s.workers w = .selected index id message) :
    Sound ((s.emit ⟨w, id, message.message.eventType, message.message.payload⟩).goTo w
      (.emitting index id message s.emissions.length)) := by
  have howns := hsound.workers w
  rw [hstage] at howns
  refine sound_goTo hsound (fun w' _ => ?_) rfl hsound.attempts
    (fun id' w' hlock => held_stay hsound (by rw [hstage]; rfl) id' w' hlock) ⟨howns, ?_⟩
  · refine ⟨fun _ _ _ hrow => hrow, fun _ hlock => hlock, fun n emission hemission => ?_,
      List.Subset.refl _⟩
    rw [State.emit, List.getElem?_append_left (List.getElem?_eq_some_iff.mp hemission).1]
    exact hemission
  · simp [Emitted, State.emit]

theorem Sound.commit {index : ℕ} {version : OutboxRow} {emission : Option ℕ} (hsound : Sound s)
    (hstage : s.workers w = .committing index id version emission) :
    Sound (({ s with rows := s.rows.set id version }.unlock w).goTo w (next index)) := by
  have hworking := hsound.workers w
  rw [hstage] at hworking
  obtain ⟨message, ⟨hlock, hrow, hunpublished, hattempts⟩, hversion⟩ :=
    working_committing hworking
  refine sound_goTo hsound (fun w' hne => keeps_commit hne hlock) rfl ?_ held_unlock ?_
  · intro id' row hrow' hunpublished'
    rcases getElem?_set_cases hrow' with ⟨-, rfl⟩ | hrow'
    · rcases hversion with ⟨n, now, -, -, -, rfl⟩ | ⟨error, now, -, rfl⟩
      · cases hunpublished'
      · exact hattempts
    · exact hsound.attempts id' row hrow' hunpublished'
  · unfold next
    split_ifs <;> trivial

theorem Sound.reset (hsound : Sound s) (hunlocked : s.locks id = none) (now : Date) :
    Sound { s with rows := s.rows.set id (row.reset now) } := by
  have hkeeps : ∀ w, Keeps w s { s with rows := s.rows.set id (row.reset now) } := by
    refine fun w => ⟨fun id' row' hlock hrow' => ?_, fun _ hlock => hlock,
      fun _ _ hemission => hemission, List.Subset.refl _⟩
    have hid : id ≠ id' := by
      rintro rfl
      exact nomatch hunlocked.symm.trans hlock
    exact (List.getElem?_set_ne hid).trans hrow'
  refine ⟨fun id' row' hrow' hunpublished => ?_,
    fun w => (hsound.workers w).mono (hkeeps w), hsound.held⟩
  rcases getElem?_set_cases hrow' with ⟨-, rfl⟩ | hrow'
  · exact Nat.zero_le _
  · exact hsound.attempts id' row' hrow' hunpublished

theorem Sound.idle (hsound : Sound s) (w : ℕ) : Sound ((s.unlock w).goTo w .idle) :=
  sound_goTo hsound (fun _ => keeps_unlock) rfl hsound.attempts held_unlock trivial

theorem Owns.row_eq (h : Owns s w id message) (hrow : s.rows[id]? = some row) : message = row :=
  Option.some.inj (h.2.1.symm.trans hrow)

/-- Every step keeps everything sound. -/
theorem step_sound (hsound : Sound s) (h : step s e = some t) : Sound t := by
  cases step_cases h with
  | enqueue messages now => exact hsound.enqueue messages now
  | drain w hstage => exact sound_stay hsound (by rw [hstage]; rfl) trivial
  | select hstage hrow hselectable havailable =>
      exact hsound.select hstage hrow hselectable havailable
  | nothing hstage => exact hsound.idle _
  | emit hstage => exact hsound.emit hstage
  | accept n =>
      have hkeeps : ∀ w, Keeps w s { s with accepted := n :: s.accepted } := fun w =>
        ⟨fun _ _ _ hrow => hrow, fun _ hlock => hlock, fun _ _ hemission => hemission,
          List.subset_cons_self _ _⟩
      exact ⟨hsound.attempts, fun w => (hsound.workers w).mono (hkeeps w), hsound.held⟩
  | @complete w id index emission message hstage haccepted =>
      have hworking := hsound.workers w
      rw [hstage] at hworking
      exact sound_stay hsound (by rw [hstage]; rfl) ⟨hworking.1, hworking.2, haccepted⟩
  | @reject w id index emission message error hstage =>
      have hworking := hsound.workers w
      rw [hstage] at hworking
      have howns : Working s w (.deferring index id message error) := hworking.1
      exact sound_stay hsound (by rw [hstage]; rfl) howns
  | @publish w id index emission message row now hstage hrow =>
      have hworking := hsound.workers w
      rw [hstage] at hworking
      obtain ⟨howns, hemitted, haccepted⟩ := hworking
      obtain rfl := howns.row_eq hrow
      exact sound_stay hsound (by rw [hstage]; rfl)
        ⟨message, now, howns, hemitted, haccepted, rfl⟩
  | @defer w id index message row error now hstage hrow =>
      have howns : Owns s w id message := by
        have hworking := hsound.workers w
        rw [hstage] at hworking
        exact hworking
      obtain rfl := howns.row_eq hrow
      exact sound_stay hsound (by rw [hstage]; rfl) ⟨message, error, now, howns, rfl⟩
  | commit hstage => exact hsound.commit hstage
  | stop w => exact hsound.idle w
  | reset now hrow hexhausted hunlocked => exact hsound.reset hunlocked now
  | spared id now => exact hsound

theorem sound_init : Sound init where
  attempts _ _ h := by simp [init] at h
  workers _ := trivial
  held _ _ h := by cases h

theorem sound_of_reachable (h : Reachable step init s) : Sound s :=
  h.invariant sound_init fun _ _ _ hsound hstep => step_sound hsound hstep

/-! ## What a step does to the rows -/

theorem rows_of_step (h : step s e = some t) :
    (t.rows = s.rows ∧ ∀ w, e ≠ .commit w) ∨
    (∃ messages now, e = .enqueue messages now ∧
      t.rows = s.rows ++ messages.map fun message => .enqueued message now) ∨
    (∃ w index id version emission, e = .commit w ∧
      s.workers w = .committing index id version emission ∧
      t.rows = s.rows.set id version) ∨
    (∃ id now row, e = .retry id now ∧ s.rows[id]? = some row ∧ row.exhausted = true ∧
      t.rows = s.rows.set id (row.reset now)) := by
  cases step_cases h with
  | enqueue messages now => exact .inr (.inl ⟨messages, now, rfl, rfl⟩)
  | @commit w id index version emission hstage =>
      exact .inr (.inr (.inl ⟨w, index, id, version, emission, rfl, hstage, rfl⟩))
  | @reset id row now hrow hexhausted hunlocked =>
      exact .inr (.inr (.inr ⟨id, now, row, rfl, hrow, hexhausted, rfl⟩))
  | drain | select | nothing | emit | accept | complete | reject | publish | defer | stop
  | spared => exact .inl ⟨rfl, fun w => nofun⟩

def Defers (s : State) (e : Event) (id : ℕ) : Prop :=
  ∃ w index version, e = .commit w ∧ s.workers w = .committing index id version none

inductive RowStep (s : State) (e : Event) (id : ℕ) (row : OutboxRow) : OutboxRow → Prop
  | kept (hdefers : ¬ Defers s e id) : RowStep s e id row row
  | published {w index n : ℕ} {version : OutboxRow} (now : Date) (hevent : e = .commit w)
      (hstage : s.workers w = .committing index id version (some n))
      (hunpublished : row.publishedAt = none) (hemitted : Emitted s w id row n)
      (haccepted : n ∈ s.accepted) : RowStep s e id row (row.published row now)
  | deferred (error : String) (now : Date) (hunpublished : row.publishedAt = none)
      (hattempts : row.attempts < outboxMaxAttempts) (hdefers : Defers s e id) :
      RowStep s e id row (row.deferred row error now)
  | reset (now : Date) (hevent : e = .retry id now) (hexhausted : row.exhausted = true) :
      RowStep s e id row (row.reset now)

theorem row_of_set {rows : List OutboxRow} (version : OutboxRow) (id' : ℕ)
    (hrow : rows[id]? = some row) :
    (id' = id ∧ (rows.set id' version)[id]? = some version) ∨
      (id' ≠ id ∧ (rows.set id' version)[id]? = some row) := by
  by_cases hid : id' = id
  · subst hid
    refine .inl ⟨rfl, ?_⟩
    rw [List.getElem?_set_self (List.getElem?_eq_some_iff.mp hrow).1]
  · exact .inr ⟨hid, (List.getElem?_set_ne hid).trans hrow⟩

/-- No step deletes a row, and every step leaves it in one of four ways. -/
theorem step_row (hsound : Sound s) (h : step s e = some t) (hrow : s.rows[id]? = some row) :
    ∃ row', t.rows[id]? = some row' ∧ RowStep s e id row row' := by
  rcases rows_of_step h with ⟨hrows, hcommit⟩ | ⟨messages, now, rfl, hrows⟩ |
    ⟨w, index, id', version, emission, rfl, hstage, hrows⟩ |
    ⟨id', now, row', rfl, hrow', hexhausted, hrows⟩
  · refine ⟨row, hrows ▸ hrow, .kept ?_⟩
    rintro ⟨w, -, -, rfl, -⟩
    exact hcommit w rfl
  · refine ⟨row, ?_, .kept ?_⟩
    · rw [hrows, List.getElem?_append_left (List.getElem?_eq_some_iff.mp hrow).1]
      exact hrow
    · rintro ⟨w, -, -, hevent, -⟩
      cases hevent
  · rw [hrows]
    rcases row_of_set version id' hrow with ⟨rfl, hset⟩ | ⟨hid, hset⟩
    · refine ⟨version, hset, ?_⟩
      have hworking := hsound.workers w
      rw [hstage] at hworking
      obtain ⟨message, ⟨-, hmessage, hunpublished, hattempts⟩, hversion⟩ :=
        working_committing hworking
      obtain rfl : message = row := Option.some.inj (hmessage.symm.trans hrow)
      rcases hversion with ⟨n, now, rfl, hemitted, haccepted, rfl⟩ | ⟨error, now, rfl, rfl⟩
      · exact .published now rfl hstage hunpublished hemitted haccepted
      · exact .deferred error now hunpublished hattempts ⟨w, index, _, rfl, hstage⟩
    · refine ⟨row, hset, .kept ?_⟩
      rintro ⟨w', index', version', hevent, hstage'⟩
      cases hevent
      rw [hstage] at hstage'
      cases hstage'
      exact hid rfl
  · rw [hrows]
    rcases row_of_set (row'.reset now) id' hrow with
      ⟨rfl, hset⟩ | ⟨hid, hset⟩
    · obtain rfl : row' = row := Option.some.inj (hrow'.symm.trans hrow)
      exact ⟨_, hset, .reset now rfl hexhausted⟩
    · refine ⟨row, hset, .kept ?_⟩
      rintro ⟨w, -, -, hevent, -⟩
      cases hevent

theorem RowStep.content (h : RowStep s e id row row') : row'.message = row.message := by
  cases h <;> rfl

theorem messages_of_step (hsound : Sound s) (h : step s e = some t)
    (hevent : ∀ messages now, e ≠ .enqueue messages now) :
    t.rows.map (·.message) = s.rows.map (·.message) := by
  have hlength : t.rows.length = s.rows.length := by
    rcases rows_of_step h with ⟨hrows, -⟩ | ⟨messages, now, rfl, -⟩ |
      ⟨w, index, id, version, emission, -, -, hrows⟩ | ⟨id, now, row, -, -, -, hrows⟩
    · rw [hrows]
    · exact absurd rfl (hevent messages now)
    · rw [hrows, List.length_set]
    · rw [hrows, List.length_set]
  refine List.ext_getElem? fun id => ?_
  rw [List.getElem?_map, List.getElem?_map]
  cases hrow : s.rows[id]? with
  | none =>
      have hnone : t.rows[id]? = none := by
        rw [List.getElem?_eq_none_iff] at hrow ⊢
        omega
      rw [hnone]
  | some row =>
      obtain ⟨row', hrow', hstep⟩ := step_row hsound h hrow
      rw [hrow', Option.map_some, Option.map_some, hstep.content]

theorem RowStep.eq_of_published (h : RowStep s e id row row')
    (hpublished : row.publishedAt ≠ none) : row' = row := by
  cases h with
  | kept hdefers => rfl
  | published now hevent hstage hunpublished hemitted haccepted =>
      exact absurd hunpublished hpublished
  | deferred error now hunpublished hattempts hdefers => exact absurd hunpublished hpublished
  | reset now hevent hexhausted =>
      rw [OutboxRow.exhausted, Bool.and_eq_true, Option.isNone_iff_eq_none] at hexhausted
      exact absurd hexhausted.1 hpublished

theorem emissions_of_step (h : step s e = some t) :
    t.emissions = s.emissions ∨ ∃ w index id message, e = .emit w ∧
      s.workers w = .selected index id message ∧
      t.emissions =
        s.emissions ++ [⟨w, id, message.message.eventType, message.message.payload⟩] := by
  cases step_cases h with
  | @emit w id index message hstage => exact .inr ⟨w, index, id, message, rfl, hstage, rfl⟩
  | enqueue | drain | select | nothing | accept | complete | reject | publish | defer | commit
  | stop | reset | spared => exact .inl rfl

theorem emissions_grow (h : run step s es = some t) : s.emissions <+: t.emissions := by
  refine run_invariant (I := fun u => s.emissions <+: u.emissions) (fun u e u' hu hstep => ?_) h
    (List.prefix_refl _)
  rcases emissions_of_step hstep with heq | ⟨w, index, id, message, -, -, heq⟩
  · exact heq ▸ hu
  · exact heq ▸ hu.trans (List.prefix_append ..)

/-- A published row stays as it is and is not emitted again. -/
theorem run_published (hsound : Sound s) (h : run step s es = some t)
    (hrow : s.rows[id]? = some row) (hpublished : row.publishedAt ≠ none) :
    t.rows[id]? = some row ∧ ∀ (n : ℕ) (emission : Emission), s.emissions.length ≤ n →
      t.emissions[n]? = some emission → emission.id ≠ id := by
  have hinvariant : Sound t ∧ t.rows[id]? = some row ∧ s.emissions.length ≤ t.emissions.length ∧
      ∀ (n : ℕ) (emission : Emission), s.emissions.length ≤ n →
        t.emissions[n]? = some emission → emission.id ≠ id := by
    refine run_invariant (I := fun u => Sound u ∧ u.rows[id]? = some row ∧
      s.emissions.length ≤ u.emissions.length ∧
      ∀ (n : ℕ) (emission : Emission), s.emissions.length ≤ n →
        u.emissions[n]? = some emission → emission.id ≠ id) ?_ h
      ⟨hsound, hrow, le_rfl, fun n emission hn hemission => ?_⟩
    · intro u e u' ⟨hu, hrow, hlength, hemissions⟩ hstep
      obtain ⟨row', hrow', hrowStep⟩ := step_row hu hstep hrow
      rw [hrowStep.eq_of_published hpublished] at hrow'
      refine ⟨step_sound hu hstep, hrow', ?_⟩
      rcases emissions_of_step hstep with heq | ⟨w, index, id', message, -, hstage, heq⟩
      · rw [heq]
        exact ⟨hlength, hemissions⟩
      · rw [heq, List.length_append]
        refine ⟨Nat.le_add_right_of_le hlength, fun n emission hn hemission => ?_⟩
        rcases getElem?_concat_cases hemission with hold | rfl
        · exact hemissions n emission hn hold
        · have howns := hu.workers w
          rw [hstage] at howns
          rintro rfl
          obtain rfl : message = row := Option.some.inj (howns.2.1.symm.trans hrow)
          exact hpublished howns.2.2.1
    · rw [List.getElem?_eq_none hn] at hemission
      cases hemission
  exact ⟨hinvariant.2.1, hinvariant.2.2.2⟩

end OutboxRelay

end Payments

end Paynad
