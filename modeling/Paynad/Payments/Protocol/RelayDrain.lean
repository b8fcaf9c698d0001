import Paynad.Library.Inevitable
import Paynad.Payments.Protocol.RelayProgress

/-!
# One worker drains the outbox

A worker whose emissions succeed publishes every row that is due and that no other worker
holds, whatever the SELECT returns and whatever the others have been left in the middle of.
Each tick of the cron job takes a batch, so the backlog bounds the ticks it needs.
-/

namespace Paynad

namespace Payments

namespace OutboxRelay

open Shared Transition

/-- What a worker finds at an await: the time, and the row that the SELECT prefers. -/
structure Reading (since : Date) where
  now : Date
  later : since ≤ now
  preferred : ℕ

def due (s : State) (w : ℕ) (now : Date) (id : ℕ) : Bool :=
  (s.rows[id]?).any (·.selectable now) && s.locks.available w id

def selected (s : State) (w : ℕ) {since : Date} (reading : Reading since) : Option ℕ :=
  if due s w reading.now reading.preferred then
    some reading.preferred
  else
    (List.range s.rows.length).find? (due s w reading.now)

/-- What comes next for a worker as long as the broker and the database answer. -/
def onward (w : ℕ) {since : Date} (reading : Reading since) (s : State) : Event :=
  match s.workers w with
  | .idle => .drain w
  | .selecting _ =>
      match selected s w reading with
      | some id => .select w id reading.now
      | none => .nothing w
  | .selected .. => .emit w
  | .emitting _ _ _ emission => if emission ∈ s.accepted then .complete w else .accept emission
  | .publishing .. | .deferring .. => .update w reading.now
  | .committing .. => .commit w

def ticksAfter (s : State) (w ticks : ℕ) : ℕ :=
  match s.workers w with
  | .idle => ticks + 1
  | _ => ticks

/-- A worker at work, and how often it has started a pass. -/
def passOn (w : ℕ) {since : Date} (reading : Reading since) (x : State × ℕ) :
    Option (State × ℕ) :=
  (step x.1 (onward w reading x.1)).map fun t => (t, ticksAfter x.1 w x.2)

def unpublished (s : State) : ℕ := s.rows.countP (·.publishedAt.isNone)

variable {s t : State} {w id : ℕ} {row : OutboxRow} {since : Date} {reading : Reading since}

/-! ## What the SELECT returns -/

theorem due_iff {now : Date} : due s w now id = true ↔
    ∃ row, s.rows[id]? = some row ∧ row.selectable now = true ∧
      s.locks.available w id = true := by
  rw [due, Bool.and_eq_true]
  cases s.rows[id]? <;> simp

theorem due_of_selected (h : selected s w reading = some id) :
    due s w reading.now id = true := by
  unfold selected at h
  split_ifs at h with hpreferred
  · obtain rfl := Option.some.inj h
    exact hpreferred
  · exact List.find?_some h

/-- The SELECT finds a row as long as there is one. -/
theorem not_due_of_selected (h : selected s w reading = none) (id : ℕ) :
    due s w reading.now id = false := by
  unfold selected at h
  split_ifs at h
  by_contra hdue
  rw [Bool.not_eq_false] at hdue
  obtain ⟨row, hrow, -⟩ := due_iff.mp hdue
  have hlt : id < s.rows.length := (List.getElem?_eq_some_iff.mp hrow).1
  exact List.find?_eq_none.mp h id (List.mem_range.mpr hlt) hdue

theorem selectable_mono {now : Date} (hlater : since ≤ now)
    (h : row.selectable since = true) : row.selectable now = true := by
  simp only [OutboxRow.selectable, Bool.and_eq_true, decide_eq_true_eq] at h ⊢
  exact ⟨h.1, h.2.trans hlater⟩

/-! ## What a worker at work keeps -/

def Stage.Healthy : Stage → Prop
  | .deferring .. | .committing _ _ _ none => False
  | _ => True

/-- Since `s` only the worker has been at work, and no emission of it has failed. -/
structure Kept (s : State) (w : ℕ) (t : State) : Prop where
  sound : Sound t
  acknowledged : Acknowledged t
  healthy : (t.workers w).Healthy
  locks : ∀ id, s.locks id = none → t.locks id = none ∨ t.locks id = some w
  rows : ∀ (id : ℕ) (row : OutboxRow), s.rows[id]? = some row →
    ∃ row', t.rows[id]? = some row' ∧
      (row' = row ∨ row'.publishedAt ≠ none ∧ row'.message = row.message)

theorem Kept.keep {u : State} {e : Event} (hkept : Kept s w t) (h : step t e = some u)
    (hhealthy : (u.workers w).Healthy) (hretry : ∀ id now, e ≠ .retry id now)
    (hdefers : ∀ id, ¬ Defers t e id)
    (hlocks : ∀ id, u.locks id = t.locks id ∨ u.locks id = none ∨ u.locks id = some w) :
    Kept s w u where
  sound := step_sound hkept.sound h
  acknowledged := hkept.acknowledged.step hkept.sound h
  healthy := hhealthy
  locks id hlock := by
    rcases hlocks id with heq | hnone | hsome
    · exact heq ▸ hkept.locks id hlock
    · exact .inl hnone
    · exact .inr hsome
  rows id row hrow := by
    obtain ⟨row', hrow', hkeeps⟩ := hkept.rows id row hrow
    obtain ⟨row'', hrow'', hstep⟩ := step_row hkept.sound h hrow'
    refine ⟨row'', hrow'', ?_⟩
    cases hstep with
    | kept => exact hkeeps
    | published now =>
        have hmessage : row'.message = row.message := by
          rcases hkeeps with rfl | ⟨-, hmessage⟩
          · rfl
          · exact hmessage
        exact .inr ⟨Option.some_ne_none now, hmessage⟩
    | deferred _ _ _ _ hdefer => exact absurd hdefer (hdefers id)
    | reset now hevent => exact absurd hevent (hretry id now)

/-- What is left to do: each row costs eight steps at most. -/
def remaining (s : State) (w : ℕ) : ℕ :=
  match s.workers w with
  | .idle => 8 * unpublished s + 2
  | .selecting _ => 8 * unpublished s + 1
  | .selected .. => 8 * unpublished s
  | .emitting _ _ _ emission =>
      if emission ∈ s.accepted then 8 * unpublished s - 2 else 8 * unpublished s - 1
  | .publishing .. | .deferring .. => 8 * unpublished s - 3
  | .committing .. => 8 * unpublished s - 4

/-- The rows that the ticks so far have paid for: the pass under way has taken `index` of its
batch. -/
def paid : Stage → ℕ → ℕ
  | .idle, ticks => outboxBatchSize * ticks
  | .selecting index, ticks | .selected index _ _, ticks | .emitting index _ _ _, ticks
  | .publishing index _ _ _, ticks | .deferring index _ _ _, ticks
  | .committing index _ _ _, ticks => outboxBatchSize * ticks + index - outboxBatchSize

/-- Every pass but the last has published a whole batch. -/
structure Draining (s : State) (w : ℕ) (x : State × ℕ) : Prop extends Kept s w x.1 where
  budget : paid (x.1.workers w) x.2 + unpublished x.1 ≤ unpublished s

/-- The worker is idle and has left nothing it could have taken. -/
structure Drained (s : State) (w : ℕ) (since : Date) (x : State × ℕ) : Prop where
  kept : Kept s w x.1
  idle : x.1.workers w = .idle
  empty : ∀ id, due x.1 w since id = false
  ticks : x.2 ≤ unpublished s / outboxBatchSize + 1

theorem unpublished_pos (hrow : s.rows[id]? = some row) (hunpublished : row.publishedAt = none) :
    0 < unpublished s :=
  List.countP_pos_iff.mpr ⟨row, List.mem_of_getElem? hrow, by simp [hunpublished]⟩

theorem unpublished_set (hrow : s.rows[id]? = some row) (hunpublished : row.publishedAt = none)
    {version : OutboxRow} (hpublished : version.publishedAt ≠ none) :
    (s.rows.set id version).countP (·.publishedAt.isNone) + 1 = unpublished s := by
  have hpos := unpublished_pos hrow hunpublished
  obtain ⟨hlt, rfl⟩ := List.getElem?_eq_some_iff.mp hrow
  rw [unpublished] at hpos ⊢
  rw [List.countP_set hlt]
  simp only [hunpublished, Option.isNone_none, if_true, Option.isNone_iff_eq_none, hpublished,
    if_false]
  omega

theorem available_of_release {locks : Locks ℕ ℕ} (h : (locks.release w).available w id = true) :
    locks.available w id = true := by
  cases hlock : locks id with
  | none => exact Locks.available_of_free hlock
  | some w' =>
      by_cases hw : w' = w
      · simp [Locks.available, hlock, hw]
      · exact absurd (Locks.eq_of_available h (Locks.release_of_held hlock hw)) hw

variable {u v : State} {e : Event} {stage : Stage} {ticks : ℕ}

theorem Kept.advance (hkept : Kept s w u) (h : step u e = some (v.goTo w stage))
    (hstage : stage.Healthy) (hretry : ∀ id now, e ≠ .retry id now)
    (hcommit : ∀ w', e ≠ .commit w')
    (hlocks : ∀ id, v.locks id = u.locks id ∨ v.locks id = none ∨ v.locks id = some w) :
    Kept s w (v.goTo w stage) := by
  refine hkept.keep h ?_ hretry ?_ hlocks
  · rw [goTo_self]
    exact hstage
  · rintro id ⟨w', _, _, hevent, -⟩
    exact hcommit w' hevent

theorem locks_of_unlock (id : ℕ) :
    (u.unlock w).locks id = u.locks id ∨ (u.unlock w).locks id = none ∨
      (u.unlock w).locks id = some w := by
  by_cases hlock : u.locks id = some w
  · exact .inr (.inl (if_pos hlock))
  · exact .inl (if_neg hlock)

theorem Draining.within (hdraining : Draining s w (u, ticks)) {reading : Reading since}
    (hbusy : u.workers w ≠ .idle) (honward : onward w reading u = e) (hstep : step u e = some t)
    (hkept : Kept s w t)
    (hpaid : paid (t.workers w) ticks + unpublished t ≤
      paid (u.workers w) ticks + unpublished u)
    (hless : remaining t w < remaining u w) :
    ∃ y, passOn w reading (u, ticks) = some y ∧
      (Drained s w since y ∨ Draining s w y ∧ remaining y.1 w < remaining u w) := by
  refine ⟨(t, ticks), ?_, .inr ⟨⟨hkept, hpaid.trans hdraining.budget⟩, hless⟩⟩
  have hticks : ticksAfter u w ticks = ticks := by
    unfold ticksAfter
    split
    · next hidle => exact absurd hidle hbusy
    · rfl
  rw [passOn, honward, hstep, Option.map_some, hticks]

theorem Draining.select (hdraining : Draining s w (u, ticks)) {index : ℕ}
    (hstage : u.workers w = .selecting index) (reading : Reading since) :
    ∃ y, passOn w reading (u, ticks) = some y ∧
      (Drained s w since y ∨ Draining s w y ∧ remaining y.1 w < remaining u w) := by
  cases hselected : selected u w reading with
  | none =>
      have honward : onward w reading u = .nothing w := by
        simp only [onward, hstage, hselected]
      have hstep : step u (.nothing w) = some ((u.unlock w).goTo w .idle) := by
        simp only [step, hstage]
      refine ⟨((u.unlock w).goTo w .idle, ticks), ?_, .inl ⟨?_, goTo_self, fun id => ?_, ?_⟩⟩
      · simp only [passOn, honward, hstep, Option.map_some, ticksAfter, hstage]
      · exact hdraining.toKept.advance hstep trivial (by rintro _ _ ⟨⟩) (by rintro _ ⟨⟩)
          locks_of_unlock
      · by_contra hdue
        rw [Bool.not_eq_false] at hdue
        obtain ⟨row, hrow, hselectable, havailable⟩ := due_iff.mp hdue
        have hfound : due u w reading.now id = true :=
          due_iff.mpr ⟨row, hrow, selectable_mono reading.later hselectable,
            available_of_release havailable⟩
        rw [not_due_of_selected hselected id] at hfound
        cases hfound
      · have hbudget := hdraining.budget
        simp only [hstage, paid, outboxBatchSize] at hbudget ⊢
        omega
  | some id =>
      obtain ⟨row, hrow, hselectable, havailable⟩ := due_iff.mp (due_of_selected hselected)
      have hstep : step u (.select w id reading.now) =
          some ({ u with locks := u.locks.acquire w id }.goTo w (.selected index id row)) := by
        simp only [step, hstage, hrow, hselectable, havailable, Bool.and_self, if_true]
      refine hdraining.within (by rw [hstage]; rintro ⟨⟩)
        (by simp only [onward, hstage, hselected]) hstep ?_ ?_ ?_
      · refine hdraining.toKept.advance hstep trivial (by rintro _ _ ⟨⟩) (by rintro _ ⟨⟩)
          fun id' => ?_
        by_cases hid : id' = id
        · exact .inr (.inr (hid ▸ Locks.acquire_self))
        · exact .inl (Locks.acquire_of_ne hid)
      · rw [goTo_self, hstage]
        exact le_rfl
      · rw [remaining, remaining, goTo_self, hstage]
        exact Nat.lt_succ_self _

/-- The row is emitted, and the broker accepts it before the worker goes on. -/
theorem Draining.emission (hdraining : Draining s w (u, ticks)) {index id emission : ℕ}
    {message : OutboxRow} (hstage : u.workers w = .emitting index id message emission)
    (reading : Reading since) :
    ∃ y, passOn w reading (u, ticks) = some y ∧
      (Drained s w since y ∨ Draining s w y ∧ remaining y.1 w < remaining u w) := by
  have hworking := hdraining.sound.workers w
  rw [hstage] at hworking
  obtain ⟨⟨-, hrow, hunpublished, -⟩, hemitted⟩ := hworking
  have hpos : 0 < unpublished u := unpublished_pos hrow hunpublished
  have hbusy : u.workers w ≠ .idle := by
    rw [hstage]
    rintro ⟨⟩
  by_cases haccepted : emission ∈ u.accepted
  · have hstep : step u (.complete w) =
        some (u.goTo w (.publishing index id message emission)) := by
      simp only [step, hstage, haccepted, if_true]
    refine hdraining.within hbusy (by simp only [onward, hstage, haccepted, if_true]) hstep
      ?_ ?_ ?_
    · exact hdraining.toKept.advance hstep trivial (by rintro _ _ ⟨⟩) (by rintro _ ⟨⟩)
        fun _ => .inl rfl
    · rw [goTo_self, hstage]
      exact le_rfl
    · simp only [remaining, goTo_self, hstage, haccepted, if_true]
      change 8 * unpublished u - 3 < _
      omega
  · have hlt : emission < u.emissions.length := (List.getElem?_eq_some_iff.mp hemitted).1
    have hstep : step u (.accept emission) =
        some { u with accepted := emission :: u.accepted } := by
      simp only [step, hlt, if_true]
    refine hdraining.within hbusy (by simp only [onward, hstage, haccepted, if_false]) hstep
      ?_ le_rfl ?_
    · refine hdraining.toKept.keep hstep hdraining.healthy (by rintro _ _ ⟨⟩) ?_
        fun _ => .inl rfl
      rintro _ ⟨_, _, _, ⟨⟩, -⟩
    · simp only [remaining, hstage, haccepted, if_false, List.mem_cons_self, if_true]
      change 8 * unpublished u - 2 < _
      omega

/-- A publication costs the pass one row of its batch. -/
theorem Draining.commit (hdraining : Draining s w (u, ticks)) {index id n : ℕ}
    {version : OutboxRow} (hstage : u.workers w = .committing index id version (some n))
    (reading : Reading since) :
    ∃ y, passOn w reading (u, ticks) = some y ∧
      (Drained s w since y ∨ Draining s w y ∧ remaining y.1 w < remaining u w) := by
  have hworking := hdraining.sound.workers w
  rw [hstage] at hworking
  obtain ⟨message, now, ⟨-, hrow, hunpublished, -⟩, -, -, rfl⟩ := hworking
  let t : State :=
    ({ u with rows := u.rows.set id (message.published message now) }.unlock w).goTo w
      (OutboxRelay.next index)
  have hless : unpublished t + 1 = unpublished u :=
    unpublished_set hrow hunpublished (Option.some_ne_none now)
  have hstep : step u (.commit w) = some t := by simp only [step, hstage, t]
  have hnext : t.workers w = OutboxRelay.next index := goTo_self
  refine hdraining.within (by rw [hstage]; rintro ⟨⟩) (by simp only [onward, hstage]) hstep
    ?_ ?_ ?_
  · refine hdraining.toKept.keep hstep ?_ (by rintro _ _ ⟨⟩) ?_ locks_of_unlock
    · rw [hnext, OutboxRelay.next]
      split_ifs <;> trivial
    · rintro id' ⟨w', index', version', ⟨⟩, hdefers⟩
      rw [hstage] at hdefers
      cases hdefers
  · rw [hnext, hstage, OutboxRelay.next]
    split_ifs <;> simp only [paid, outboxBatchSize] at * <;> omega
  · simp only [remaining, hnext, hstage, OutboxRelay.next]
    split_ifs <;> dsimp only <;> omega

variable {x : State × ℕ}

theorem Draining.advance (hdraining : Draining s w x) (reading : Reading since) :
    ∃ y, passOn w reading x = some y ∧
      (Drained s w since y ∨ Draining s w y ∧ remaining y.1 w < remaining x.1 w) := by
  obtain ⟨u, ticks⟩ := x
  have hhealthy := hdraining.healthy
  have hworking := hdraining.sound.workers w
  cases hstage : u.workers w with
  | idle =>
      have hstep : step u (.drain w) = some (u.goTo w (.selecting 0)) := by
        simp only [step, hstage]
      refine ⟨(u.goTo w (.selecting 0), ticks + 1), ?_, .inr ⟨⟨?_, ?_⟩, ?_⟩⟩
      · simp only [passOn, onward, hstage, hstep, Option.map_some, ticksAfter]
      · exact hdraining.toKept.advance hstep trivial (by rintro _ _ ⟨⟩) (by rintro _ ⟨⟩)
          fun _ => .inl rfl
      · have hbudget := hdraining.budget
        rw [hstage, paid] at hbudget
        rw [goTo_self, paid, Nat.mul_succ, Nat.add_zero, Nat.add_sub_cancel]
        exact hbudget
      · rw [remaining, remaining, goTo_self, hstage]
        exact Nat.lt_succ_self _
  | selecting index => exact hdraining.select hstage reading
  | selected index id message =>
      rw [hstage] at hworking
      have hpos : 0 < unpublished u := unpublished_pos hworking.2.1 hworking.2.2.1
      let t : State := (u.emit ⟨w, id, message.message.eventType, message.message.payload⟩).goTo w
        (.emitting index id message u.emissions.length)
      have hstep : step u (.emit w) = some t := by simp only [step, hstage, t]
      have hnext : t.workers w = .emitting index id message u.emissions.length := goTo_self
      refine hdraining.within (by rw [hstage]; rintro ⟨⟩) (by simp only [onward, hstage]) hstep
        (hdraining.toKept.advance hstep trivial (by rintro _ _ ⟨⟩) (by rintro _ ⟨⟩)
          fun _ => .inl rfl) (by rw [hnext, hstage]; exact le_rfl) ?_
      have hrows : unpublished t = unpublished u := rfl
      simp only [remaining, hnext, hstage, hrows]
      split_ifs <;> omega
  | emitting index id message emission => exact hdraining.emission hstage reading
  | publishing index id message emission =>
      rw [hstage] at hworking
      obtain ⟨⟨-, hrow, hunpublished, -⟩, -⟩ := hworking
      have hpos : 0 < unpublished u := unpublished_pos hrow hunpublished
      have hstep : step u (.update w reading.now) =
          some (u.goTo w (.committing index id (message.published message reading.now)
            (some emission))) := by
        simp only [step, hstage]
        rw [show u.rows[id]? = some message from hrow, Option.map_some]
      refine hdraining.within (by rw [hstage]; rintro ⟨⟩) (by simp only [onward, hstage]) hstep
        (hdraining.toKept.advance hstep trivial (by rintro _ _ ⟨⟩) (by rintro _ ⟨⟩)
          fun _ => .inl rfl) (by rw [goTo_self, hstage]; exact le_rfl) ?_
      rw [remaining, remaining, goTo_self, hstage]
      change 8 * unpublished u - 4 < 8 * unpublished u - 3
      omega
  | deferring index id message error =>
      rw [hstage] at hhealthy
      exact hhealthy.elim
  | committing index id version emission =>
      cases emission with
      | some n => exact hdraining.commit hstage reading
      | none =>
          rw [hstage] at hhealthy
          exact hhealthy.elim

/-! ## The outbox is drained -/

theorem Kept.stored (hkept : Kept s w t) (hrow : s.rows[id]? = some row) :
    ∃ row', t.rows[id]? = some row' ∧ row'.message = row.message ∧
      (row' = row ∨ row'.publishedAt ≠ none ∧ Queued t row.message) := by
  obtain ⟨row', hrow', rfl | ⟨hpublished, hmessage⟩⟩ := hkept.rows id row hrow
  · exact ⟨row', hrow', rfl, .inl rfl⟩
  · exact ⟨row', hrow', hmessage,
      .inr ⟨hpublished, hmessage ▸ hkept.acknowledged id row' hrow' hpublished⟩⟩

/-- A row that was due and free is not left behind. -/
theorem Drained.published (hdrained : Drained s w since x) (hrow : s.rows[id]? = some row)
    (hselectable : row.selectable since = true) (hlock : s.locks id = none) :
    ∃ row', x.1.rows[id]? = some row' ∧ row'.publishedAt ≠ none := by
  obtain ⟨row', hrow', rfl | ⟨hpublished, -⟩⟩ := hdrained.kept.rows id row hrow
  · have havailable : x.1.locks.available w id = true := by
      rcases hdrained.kept.locks id hlock with hfree | hheld
      · exact Locks.available_of_free hfree
      · simp [Locks.available, hheld]
    have hdue := due_iff.mpr ⟨row', hrow', hselectable, havailable⟩
    rw [hdrained.empty id] at hdue
    cases hdue
  · exact ⟨row', hrow', hpublished⟩

/-- Whatever state the relay is in, an idle worker whose emissions succeed publishes every
row that is due and not held by another worker, in whatever order the SELECT returns them:
within eight steps for each row that is not published yet, and one tick of the cron job for
each batch of them and one more. It changes no other row, and what it publishes is in the
queue. -/
theorem relay_drains (h : Reachable step init s) (hidle : s.workers w = .idle)
    (around : ℕ → Reading since) :
    ∃ n ≤ 8 * unpublished s + 3, ∃ t ticks,
      follow (passOn w) around n (s, 0) = some (t, ticks) ∧ t.workers w = .idle ∧
      ticks ≤ unpublished s / outboxBatchSize + 1 ∧
      (∀ (id : ℕ) (row : OutboxRow), s.rows[id]? = some row →
        ∃ row', t.rows[id]? = some row' ∧ row'.message = row.message ∧
          (row' = row ∨ row'.publishedAt ≠ none ∧ Queued t row.message)) ∧
      ∀ (id : ℕ) (row : OutboxRow), s.rows[id]? = some row → row.selectable since = true →
        s.locks id = none → ∃ row', t.rows[id]? = some row' ∧ row'.publishedAt ≠ none := by
  have hinvariant : Sound s ∧ Acknowledged s :=
    h.invariant (I := fun u => Sound u ∧ Acknowledged u) ⟨sound_init, acknowledged_init⟩
      fun u e v ⟨hsound, hacknowledged⟩ hstep =>
        ⟨step_sound hsound hstep, hacknowledged.step hsound hstep⟩
  have hkept : Kept s w s := by
    refine ⟨hinvariant.1, hinvariant.2, ?_, fun id hlock => .inl hlock,
      fun id row hrow => ⟨row, hrow, .inl rfl⟩⟩
    rw [hidle]
    trivial
  have hdraining : Draining s w (s, 0) := by
    refine ⟨hkept, ?_⟩
    simp only [hidle, paid, Nat.mul_zero, Nat.zero_add]
    exact le_rfl
  have hdrains : ∃ n ≤ remaining s w + 1, ∃ x, follow (passOn w) around n (s, 0) = some x ∧
      Drained s w since x :=
    follow_of_rank (fun x => remaining x.1 w) (fun x hx reading => hx.advance reading) hdraining
      around
  obtain ⟨n, hn, ⟨t, ticks⟩, hfollow, hdrained⟩ := hdrains
  have hbound : remaining s w + 1 = 8 * unpublished s + 3 := by rw [remaining, hidle]
  exact ⟨n, hn.trans hbound.le, t, ticks, hfollow, hdrained.idle, hdrained.ticks,
    fun id row hrow => hdrained.kept.stored hrow,
    fun id row hrow hselectable hlock => hdrained.published hrow hselectable hlock⟩

/-- Worker 1 has been left in the middle of an emission, and two more rows are due. -/
def abandonedRun : List Event :=
  [.enqueue [⟨"pay_00000000000000000000000001", transactionRecorded, []⟩,
      ⟨"pay_00000000000000000000000002", transactionRecorded, []⟩,
      ⟨"pay_00000000000000000000000003", transactionRecorded, []⟩] 0,
    .drain 1, .select 1 0 0, .emit 1]

theorem relay_drains_abandonedRun :
    ∃ s, run step init abandonedRun = some s ∧ unpublished s = 3 ∧
      ∃ n ≤ 27, ∃ t ticks,
        follow (passOn 0) (fun i => (⟨5 + i, Nat.le_add_right 5 i, i⟩ : Reading 5)) n (s, 0) =
          some (t, ticks) ∧ ticks ≤ 1 ∧
        ∃ row, t.rows[2]? = some row ∧ row.publishedAt ≠ none := by
  have h : (run step init abandonedRun).map (fun s => (unpublished s, ticksAfter s 0 0,
      s.rows.map (·.selectable 5), s.locks 2)) = some (3, 1, [true, true, true], none) := by
    decide +kernel
  obtain ⟨s, hrun, hs⟩ := Option.map_eq_some_iff.mp h
  simp only [Prod.mk.injEq] at hs
  obtain ⟨hunpublished, hticks, hrows, hlock⟩ := hs
  have hidle : s.workers 0 = .idle := by
    cases hstage : s.workers 0 with
    | idle => rfl
    | _ => simp [ticksAfter, hstage] at hticks
  obtain ⟨n, hn, t, ticks, hfollow, -, hticks, -, hdue⟩ := relay_drains ⟨_, hrun⟩ hidle
    (fun i => (⟨5 + i, Nat.le_add_right 5 i, i⟩ : Reading 5))
  rw [hunpublished] at hn hticks
  have hselectable : (s.rows[2]?).map (·.selectable 5) = some true := by
    rw [← List.getElem?_map, hrows]
    rfl
  obtain ⟨row, hrow, hrow'⟩ := Option.map_eq_some_iff.mp hselectable
  exact ⟨s, hrun, hunpublished, n, hn, t, ticks, hfollow, hticks, hdue 2 row hrow hrow' hlock⟩

end OutboxRelay

end Payments

end Paynad
