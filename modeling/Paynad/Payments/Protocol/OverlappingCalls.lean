import Paynad.Payments.Protocol.CircuitReference

/-!
# The circuit breaker under overlapping calls

One breaker serves every saga of a process. A call enters `execute` at one moment and its
work ends at a later one, with any steps of other calls in between; a refusal is booked as
a failure by `execute`, and corrected by `recordHealthy` in a step of its own. The log keeps
what an observer sees: when work starts and ends, and when a failure opens the circuit.

`onSuccess` closes the circuit whatever its state, so an answer to a call that was already
in flight ends the cooling period (`cooling_respected`), and a half-open circuit lets every
caller through, so the probe is alone only when nobody else comes (`single_probe_iff`).
-/

namespace Paynad

namespace Payments

namespace Overlapping

open Shared Transition

inductive Stage where
  | idle
  /-- Its work is running; a probe is let through by a circuit that is not closed. -/
  | working (probe : Bool)
  /-- `execute` has thrown a refusal, which `movement` is about to correct. -/
  | refused
  | ended
  deriving DecidableEq, Repr

inductive Outcome where
  | success
  | refusal
  | failure
  deriving DecidableEq, Repr

inductive Action where
  | execute
  /-- The work of the call ends. -/
  | settle (outcome : Outcome)
  | recordHealthy
  deriving DecidableEq, Repr

structure Event where
  call : ℕ
  now : Date
  action : Action
  deriving DecidableEq, Repr

inductive Note where
  | started (call : ℕ) (probe : Bool) (now : Date)
  | ended (call : ℕ)
  /-- A failure has opened the circuit. -/
  | opened (now : Date)
  deriving DecidableEq, Repr

/-- The breaker, the clock, the calls, and the notes with the last one first. -/
structure State where
  breaker : CircuitBreaker
  clock : Date
  stages : ℕ → Stage
  log : List Note

def init : State := ⟨.init, 0, fun _ => .idle, []⟩

/-- `onFailure` opens the circuit, for the first time or anew. -/
def opens (options : CircuitBreakerOptions) (breaker : CircuitBreaker) : Bool :=
  breaker.state = .HalfOpen || options.failureThreshold ≤ breaker.failures + 1

/-- What a step makes of the breaker, of the stage of its call and of the notes. -/
def act (options : CircuitBreakerOptions) (s : State) (e : Event) :
    Option (CircuitBreaker × Stage × List Note) :=
  match e.action, s.stages e.call with
  | .execute, .idle =>
      match s.breaker.enter options e.now with
      | none => some (s.breaker, .ended, [])
      | some entered =>
          some (entered, .working (entered.state = .HalfOpen),
            [.started e.call (entered.state = .HalfOpen) e.now])
  | .settle .success, .working _ =>
      some (s.breaker.onSuccess options, .ended, [.ended e.call])
  | .settle .refusal, .working _ =>
      some (s.breaker.onFailure options e.now, .refused, [.ended e.call])
  | .settle .failure, .working _ =>
      some (s.breaker.onFailure options e.now, .ended,
        if opens options s.breaker then [.opened e.now, .ended e.call] else [.ended e.call])
  | .recordHealthy, .refused => some (s.breaker.recordHealthy options, .ended, [])
  | _, _ => none

def step (options : CircuitBreakerOptions) (s : State) (e : Event) : Option State :=
  if s.clock ≤ e.now then
    (act options s e).map fun done =>
      ⟨done.1, e.now, Function.update s.stages e.call done.2.1, done.2.2 ++ s.log⟩
  else
    none

/-! ## What is asked of a run -/

/-- Once a failure has opened the circuit, no work starts before the cooling period is
over. -/
def Cooled (options : CircuitBreakerOptions) (log : List Note) : Prop :=
  log.Pairwise fun later earlier => ∀ call probe now opened,
    later = .started call probe now → earlier = .opened opened → opened + options.openMs ≤ now

/-- A probe has ended before any other work starts. -/
def ProbesAlone : List Note → Prop
  | [] => True
  | .started _ _ _ :: earlier =>
      (∀ probe now, .started probe true now ∈ earlier → .ended probe ∈ earlier) ∧
        ProbesAlone earlier
  | _ :: earlier => ProbesAlone earlier

def Cooling (options : CircuitBreakerOptions) (log : List Note) (now : Date) : Prop :=
  ∃ opened, .opened opened ∈ log ∧ now < opened + options.openMs

def Event.healthy (e : Event) : Bool :=
  e.action = .settle .success || e.action = .recordHealthy

/-- No healthy outcome is recorded while the circuit cools. -/
def Patient (options : CircuitBreakerOptions) (s : State) (e : Event) : Prop :=
  e.healthy = true → ¬ Cooling options s.log e.now

/-- No call comes while a probe is in flight, unless the circuit is open and cools. -/
def Spaced (options : CircuitBreakerOptions) (s : State) (e : Event) : Prop :=
  e.action = .execute → (∃ probe, s.stages probe = .working true) →
    s.breaker.state = .Open ∧ e.now < s.breaker.openedAt + options.openMs

/-! ## One step -/

variable {options : CircuitBreakerOptions} {s t : State} {e : Event}

inductive Done (options : CircuitBreakerOptions) (s : State) (e : Event) :
    CircuitBreaker → Stage → List Note → Prop
  | rejected (haction : e.action = .execute) (hstage : s.stages e.call = .idle)
      (henter : s.breaker.enter options e.now = none) : Done options s e s.breaker .ended []
  | started (entered : CircuitBreaker) (probe : Bool) (haction : e.action = .execute)
      (hstage : s.stages e.call = .idle) (henter : s.breaker.enter options e.now = some entered)
      (hprobe : probe = decide (entered.state = .HalfOpen)) :
      Done options s e entered (.working probe) [.started e.call probe e.now]
  | succeeded (probe : Bool) (haction : e.action = .settle .success)
      (hstage : s.stages e.call = .working probe) :
      Done options s e (s.breaker.onSuccess options) .ended [.ended e.call]
  | refused (probe : Bool) (haction : e.action = .settle .refusal)
      (hstage : s.stages e.call = .working probe) :
      Done options s e (s.breaker.onFailure options e.now) .refused [.ended e.call]
  | failed (probe : Bool) (haction : e.action = .settle .failure)
      (hstage : s.stages e.call = .working probe) (hopens : opens options s.breaker = false) :
      Done options s e (s.breaker.onFailure options e.now) .ended [.ended e.call]
  | opened (probe : Bool) (haction : e.action = .settle .failure)
      (hstage : s.stages e.call = .working probe) (hopens : opens options s.breaker = true) :
      Done options s e (s.breaker.onFailure options e.now) .ended
        [.opened e.now, .ended e.call]
  | corrected (haction : e.action = .recordHealthy) (hstage : s.stages e.call = .refused) :
      Done options s e (s.breaker.onSuccess options) .ended []

theorem done_of_act {done : CircuitBreaker × Stage × List Note} (h : act options s e = some done) :
    Done options s e done.1 done.2.1 done.2.2 := by
  unfold act at h
  split at h
  · next haction hstage =>
      split at h
      · next henter =>
          cases h
          exact .rejected haction hstage henter
      · next entered henter =>
          cases h
          exact .started entered _ haction hstage henter rfl
  · next probe haction hstage =>
      cases h
      exact .succeeded probe haction hstage
  · next probe haction hstage =>
      cases h
      exact .refused probe haction hstage
  · next probe haction hstage =>
      cases h
      cases hopens : opens options s.breaker with
      | true => exact .opened probe haction hstage hopens
      | false => exact .failed probe haction hstage hopens
  · next haction hstage =>
      cases h
      exact .corrected haction hstage
  · cases h

theorem step_cases (h : step options s e = some t) :
    s.clock ≤ e.now ∧ ∃ breaker stage notes, Done options s e breaker stage notes ∧
      t = ⟨breaker, e.now, Function.update s.stages e.call stage, notes ++ s.log⟩ := by
  unfold step at h
  split_ifs at h with hclock
  obtain ⟨done, hact, rfl⟩ := Option.map_eq_some_iff.mp h
  exact ⟨hclock, _, _, _, done_of_act hact, rfl⟩

theorem step_execute {call : ℕ} {now : Date} {entered : CircuitBreaker} (hclock : s.clock ≤ now)
    (hidle : s.stages call = .idle) (henter : s.breaker.enter options now = some entered) :
    step options s ⟨call, now, .execute⟩ =
      some ⟨entered, now, Function.update s.stages call (.working (entered.state = .HalfOpen)),
        .started call (entered.state = .HalfOpen) now :: s.log⟩ := by
  unfold step act
  simp only [hclock, if_true, hidle, henter]
  rfl

theorem step_settle {call : ℕ} {now : Date} {probe : Bool} (hclock : s.clock ≤ now)
    (hworking : s.stages call = .working probe) (outcome : Outcome) :
    ∃ t, step options s ⟨call, now, .settle outcome⟩ = some t ∧ t.clock = now ∧
      t.stages call = (if outcome = .refusal then .refused else .ended) ∧
      t.breaker = if outcome = .success then s.breaker.onSuccess options
        else s.breaker.onFailure options now := by
  unfold step act
  simp only [hclock, if_true, hworking]
  cases outcome with
  | success => exact ⟨_, rfl, rfl, by simp, rfl⟩
  | refusal => exact ⟨_, rfl, rfl, by simp, rfl⟩
  | failure => exact ⟨_, rfl, rfl, by simp, rfl⟩

theorem step_recordHealthy {call : ℕ} {now : Date} (hclock : s.clock ≤ now)
    (hrefused : s.stages call = .refused) :
    ∃ t, step options s ⟨call, now, .recordHealthy⟩ = some t ∧ t.stages call = .ended ∧
      t.breaker = s.breaker.recordHealthy options := by
  unfold step act
  simp only [hclock, if_true, hrefused]
  exact ⟨_, rfl, by simp, rfl⟩

/-- The calls of a client are runs of these steps: one that is let through takes its own,
with the same effect on the breaker. -/
theorem exists_run_of_turn {client : AccountsHttpClient} {turn : Turn} {call : ℕ}
    {entered : CircuitBreaker} (hclock : s.clock ≤ turn.now) (hlater : turn.now ≤ turn.later)
    (hidle : s.stages call = .idle)
    (henter : s.breaker.enter client.options turn.now = some entered) :
    ∃ es t, run (step client.options) s es = some t ∧ t.stages call = .ended ∧
      t.breaker = (turn.called client s.breaker).breaker := by
  have hexecute := step_execute hclock hidle henter
  have hsettle := @step_settle client.options ⟨entered, turn.now,
      Function.update s.stages call (.working (entered.state = .HalfOpen)),
      .started call (entered.state = .HalfOpen) turn.now :: s.log⟩
    call turn.later (entered.state = .HalfOpen) hlater (by simp)
  have hlearnt : Turn.Learnt client turn entered (turn.verdict client)
      (turn.called client s.breaker).breaker := Turn.learnt henter
  generalize turn.verdict client = verdict at hlearnt
  generalize (turn.called client s.breaker).breaker = after at hlearnt ⊢
  cases hlearnt with
  | failure =>
      obtain ⟨t, ht, -, hstage, hbreaker⟩ := hsettle .failure
      refine ⟨[⟨call, turn.now, .execute⟩, ⟨call, turn.later, .settle .failure⟩], t, ?_, hstage,
        hbreaker⟩
      rw [run_cons_of_step hexecute, run_cons_of_step ht, run_nil]
  | success =>
      obtain ⟨t, ht, -, hstage, hbreaker⟩ := hsettle .success
      refine ⟨[⟨call, turn.now, .execute⟩, ⟨call, turn.later, .settle .success⟩], t, ?_, hstage,
        hbreaker⟩
      rw [run_cons_of_step hexecute, run_cons_of_step ht, run_nil]
  | refusal =>
      obtain ⟨t, ht, htime, hstage, hbreaker⟩ := hsettle .refusal
      obtain ⟨u, hu, hended, hcorrected⟩ : ∃ u,
          step client.options t ⟨call, turn.later, .recordHealthy⟩ = some u ∧
            u.stages call = .ended ∧ u.breaker = t.breaker.recordHealthy client.options :=
        step_recordHealthy htime.le hstage
      refine ⟨[⟨call, turn.now, .execute⟩, ⟨call, turn.later, .settle .refusal⟩,
        ⟨call, turn.later, .recordHealthy⟩], u, ?_, hended, ?_⟩
      · rw [run_cons_of_step hexecute, run_cons_of_step ht, run_cons_of_step hu, run_nil]
      · rw [hcorrected, hbreaker]
        rfl

/-! ## The cooling period -/

theorem onFailure_of_opens {breaker : CircuitBreaker} {now : Date}
    (h : opens options breaker = true) :
    (breaker.onFailure options now).state = .Open ∧
      (breaker.onFailure options now).openedAt = now := by
  have hopens : breaker.state = .HalfOpen ∨ options.failureThreshold ≤ breaker.failures + 1 := by
    simpa [opens] using h
  simp [CircuitBreaker.onFailure, hopens]

/-- A failure leaves an open circuit open, for no shorter time. -/
theorem onFailure_of_open {breaker : CircuitBreaker} {opened now : Date}
    (hopen : breaker.state = .Open) (hopened : opened ≤ breaker.openedAt) (hnow : opened ≤ now) :
    (breaker.onFailure options now).state = .Open ∧
      opened ≤ (breaker.onFailure options now).openedAt := by
  unfold CircuitBreaker.onFailure
  dsimp only
  split_ifs
  · exact ⟨rfl, hnow⟩
  · exact ⟨hopen, hopened⟩

structure Cools (options : CircuitBreakerOptions) (s : State) : Prop where
  cooled : Cooled options s.log
  past : ∀ opened, .opened opened ∈ s.log → opened ≤ s.clock
  isOpen : ∀ opened, .opened opened ∈ s.log → s.clock < opened + options.openMs →
    s.breaker.state = .Open ∧ opened ≤ s.breaker.openedAt

namespace Cools

theorem init (options : CircuitBreakerOptions) : Cools options init where
  cooled := .nil
  past _ h := absurd h List.not_mem_nil
  isOpen _ h := absurd h List.not_mem_nil

/-- Nobody is let through a circuit that cools. -/
theorem not_cooling_of_enter (hs : Cools options s) {now : Date} (hclock : s.clock ≤ now)
    {entered : CircuitBreaker} (henter : s.breaker.enter options now = some entered) :
    ¬ Cooling options s.log now := by
  rintro ⟨opened, hmem, hcooling⟩
  obtain ⟨hopen, hopened⟩ := hs.isOpen opened hmem (hclock.trans_lt hcooling)
  have hnone : s.breaker.enter options now = none :=
    CircuitBreaker.enter_eq_none_iff.mpr
      ⟨hopen, hcooling.trans_le (Nat.add_le_add_right hopened _)⟩
  rw [hnone] at henter
  cases henter

theorem cooled_append (hs : Cools options s) {notes : List Note}
    (h : ∀ note ∈ notes, ∀ call probe now, note ≠ .started call probe now) :
    Cooled options (notes ++ s.log) := by
  induction notes with
  | nil => exact hs.cooled
  | cons note notes ih =>
      refine List.pairwise_cons.mpr ⟨fun earlier _ call probe now opened hnote => ?_,
        ih fun note hmem => h note (List.mem_cons_of_mem _ hmem)⟩
      exact absurd hnote (h note (List.mem_cons_self ..) call probe now)

theorem step (hs : Cools options s) (hpatient : Patient options s e)
    (h : step options s e = some t) : Cools options t := by
  obtain ⟨hclock, breaker, stage, notes, hdone, rfl⟩ := step_cases h
  have hpast (opened : Date) (hmem : .opened opened ∈ s.log) : opened ≤ e.now :=
    (hs.past opened hmem).trans hclock
  have hcools (opened : Date) (hmem : .opened opened ∈ s.log)
      (hcooling : e.now < opened + options.openMs) :
      s.breaker.state = .Open ∧ opened ≤ s.breaker.openedAt :=
    hs.isOpen opened hmem (hclock.trans_lt hcooling)
  -- a healthy outcome is recorded only when nothing cools any more
  have hhealthy (haction : e.healthy = true) (opened : Date) (hmem : .opened opened ∈ s.log)
      (hcooling : e.now < opened + options.openMs) : False :=
    hpatient haction ⟨opened, hmem, hcooling⟩
  cases hdone with
  | rejected haction hstage henter => exact ⟨hs.cooled, hpast, hcools⟩
  | started _ probe haction hstage henter hprobe =>
      have hover := hs.not_cooling_of_enter hclock henter
      refine ⟨List.pairwise_cons.mpr ⟨?_, hs.cooled⟩, fun opened hmem => ?_,
        fun opened hmem hcooling => ?_⟩
      · rintro earlier hmem call probe' now opened hnote rfl
        obtain ⟨-, -, rfl⟩ : e.call = call ∧ probe = probe' ∧ e.now = now := by
          simpa using hnote
        by_contra hcooling
        exact hover ⟨opened, hmem, Nat.lt_of_not_le hcooling⟩
      · exact hpast opened (by simpa using hmem)
      · exact absurd ⟨opened, by simpa using hmem, hcooling⟩ hover
  | succeeded probe haction hstage =>
      refine ⟨hs.cooled_append (by simp), fun opened hmem => ?_, fun opened hmem hcooling => ?_⟩
      · exact hpast opened (by simpa using hmem)
      · exact (hhealthy (by simp [Event.healthy, haction]) opened (by simpa using hmem)
          hcooling).elim
  | refused probe haction hstage =>
      refine ⟨hs.cooled_append (by simp), fun opened hmem => ?_, fun opened hmem hcooling => ?_⟩
      · exact hpast opened (by simpa using hmem)
      · have hmem' : .opened opened ∈ s.log := by simpa using hmem
        obtain ⟨hopen, hopened⟩ := hcools opened hmem' hcooling
        exact onFailure_of_open hopen hopened (hpast opened hmem')
  | failed probe haction hstage hopens =>
      refine ⟨hs.cooled_append (by simp), fun opened hmem => ?_, fun opened hmem hcooling => ?_⟩
      · exact hpast opened (by simpa using hmem)
      · have hmem' : .opened opened ∈ s.log := by simpa using hmem
        obtain ⟨hopen, hopened⟩ := hcools opened hmem' hcooling
        exact onFailure_of_open hopen hopened (hpast opened hmem')
  | opened probe haction hstage hopens =>
      obtain ⟨hopen, hopenedAt⟩ : (s.breaker.onFailure options e.now).state = .Open ∧
          (s.breaker.onFailure options e.now).openedAt = e.now := onFailure_of_opens hopens
      have hle (opened : Date) (hmem : .opened opened ∈
          ([.opened e.now, .ended e.call] ++ s.log : List Note)) : opened ≤ e.now := by
        rcases List.mem_append.mp hmem with hnote | hmem
        · obtain rfl : opened = e.now := by simpa using hnote
          exact le_rfl
        · exact hpast opened hmem
      exact ⟨hs.cooled_append (by simp), hle, fun opened hmem _ =>
        ⟨hopen, (hle opened hmem).trans_eq hopenedAt.symm⟩⟩
  | corrected haction hstage =>
      exact ⟨hs.cooled, hpast, fun opened hmem hcooling =>
        (hhealthy (by simp [Event.healthy, haction]) opened hmem hcooling).elim⟩

/-- A healthy outcome recorded while the circuit cools closes it, and the next call
starts at once. -/
theorem start_of_impatient (hs : Cools options s) (himpatient : ¬ Patient options s e)
    (h : Overlapping.step options s e = some t) {call : ℕ} (hidle : t.stages call = .idle) :
    ∃ u, Overlapping.step options t ⟨call, e.now, .execute⟩ = some u ∧
      ¬ Cooled options u.log := by
  obtain ⟨hhealthy, opened, hmem, hcooling⟩ : e.healthy = true ∧ Cooling options s.log e.now := by
    simpa [Patient] using himpatient
  obtain ⟨hclock, breaker, stage, notes, hdone, rfl⟩ := step_cases h
  have hopen : s.breaker.state = .Open :=
    (hs.isOpen opened hmem (hclock.trans_lt hcooling)).1
  have hclosed : breaker.state = .Closed := by
    cases hdone with
    | succeeded | corrected => simp [CircuitBreaker.onSuccess, hopen]
    | rejected haction | started _ _ haction | refused _ haction | failed _ haction
    | opened _ haction => simp [Event.healthy, haction] at hhealthy
  have henter : breaker.enter options e.now = some breaker := by
    simp [CircuitBreaker.enter, hclosed]
  refine ⟨_, step_execute le_rfl hidle henter, fun hcooled => ?_⟩
  have hle := (List.pairwise_cons.mp hcooled).1 (.opened opened)
    (List.mem_append_right _ hmem) _ _ _ opened rfl rfl
  exact absurd hcooling (Nat.not_lt.mpr hle)

end Cools

/-- As long as no healthy outcome is recorded during a cooling period, no work starts
before the period is over; one that is recorded lets the next call start at once. -/
theorem cooling_respected {options : CircuitBreakerOptions} {es : List Event} {s : State}
    (h : RunsUnder (step options) (Patient options) init es s) :
    Cooled options s.log ∧
      ∀ e t, ¬ Patient options s e → step options s e = some t →
        ∀ call, t.stages call = .idle →
          ∃ u, step options t ⟨call, e.now, .execute⟩ = some u ∧ ¬ Cooled options u.log := by
  have hcools : Cools options s :=
    h.invariant (fun _ _ _ hs hpatient hstep => hs.step hpatient hstep) (.init options)
  exact ⟨hcools.cooled, fun e t himpatient hstep call hidle =>
    hcools.start_of_impatient himpatient hstep hidle⟩

def strictOptions : CircuitBreakerOptions := ⟨1, 10, 1⟩

/-- A failure opens the circuit while call 1 is in flight; call 2 comes too early. Call 1
fails while call 3 probes, which opens the circuit anew: call 4 is rejected, and the probe
succeeds only after the second cooling period. -/
def cooledRun : List Event :=
  [⟨0, 0, .execute⟩, ⟨1, 0, .execute⟩, ⟨0, 1, .settle .failure⟩, ⟨2, 5, .execute⟩,
    ⟨3, 11, .execute⟩, ⟨1, 12, .settle .failure⟩, ⟨4, 13, .execute⟩,
    ⟨3, 22, .settle .success⟩, ⟨5, 23, .execute⟩]

def cooledLog : List Note :=
  [.started 5 false 23, .ended 3, .opened 12, .ended 1, .started 3 true 11, .opened 1,
    .ended 0, .started 1 false 0, .started 0 false 0]

def cooledDown (options : CircuitBreakerOptions) (log : List Note) (now : Date) : Bool :=
  log.all fun
    | .opened opened => opened + options.openMs ≤ now
    | _ => true

theorem not_cooling_of_cooledDown {log : List Note} {now : Date}
    (h : cooledDown options log now = true) : ¬ Cooling options log now := by
  rintro ⟨opened, hmem, hcooling⟩
  have hover := List.all_eq_true.mp h _ hmem
  exact absurd hcooling (Nat.not_lt.mpr (of_decide_eq_true hover))

theorem cooling_respected_cooledRun :
    ∃ s, run (step strictOptions) init cooledRun = some s ∧ s.log = cooledLog ∧
      Cooled strictOptions s.log := by
  have h : ((run (guarded (step strictOptions) fun s e =>
      e.healthy = true → cooledDown strictOptions s.log e.now = true) init cooledRun).map
        State.log) = some cooledLog := by
    decide
  obtain ⟨s, hguarded, hlog⟩ := Option.map_eq_some_iff.mp h
  have hunder : RunsUnder (step strictOptions) (Patient strictOptions) init cooledRun s :=
    runsUnder_of_guarded
      (fun _ _ hover hhealthy => not_cooling_of_cooledDown (hover hhealthy)) hguarded
  exact ⟨s, hunder.run_eq_some, hlog, (cooling_respected hunder).1⟩

/-- Two calls are in flight; the failure of one opens the circuit, the success of the other
closes it again, and a third one starts. -/
def earlyAnswerRun : List Event :=
  [⟨0, 0, .execute⟩, ⟨1, 0, .execute⟩, ⟨0, 1, .settle .failure⟩, ⟨1, 2, .settle .success⟩,
    ⟨2, 3, .execute⟩]

theorem earlyAnswerRun_not_cooled :
    ¬ ∀ options es s, run (step options) init es = some s → Cooled options s.log := by
  intro hall
  have h : ((run (step strictOptions) init earlyAnswerRun).map State.log) =
      some [.started 2 false 3, .ended 1, .opened 1, .ended 0, .started 1 false 0,
        .started 0 false 0] := by decide
  obtain ⟨s, hrun, hlog⟩ := Option.map_eq_some_iff.mp h
  have hcooled := hall strictOptions earlyAnswerRun s hrun
  rw [hlog] at hcooled
  have hle := (List.pairwise_cons.mp hcooled).1 (.opened 1) (by decide) _ _ _ 1 rfl rfl
  exact absurd hle (by decide)

/-! ## The probe -/

/-- What the stages of the calls say of the log. -/
structure Flights (s : State) : Prop where
  working : ∀ call probe, s.stages call = .working probe →
    (∃ now, .started call probe now ∈ s.log) ∧ .ended call ∉ s.log
  started : ∀ call probe now, .started call probe now ∈ s.log →
    s.stages call = .working probe ∨ .ended call ∈ s.log
  idle : ∀ call, s.stages call = .idle → .ended call ∉ s.log

namespace Flights

theorem init : Flights init where
  working _ _ h := by cases h
  started _ _ _ h := absurd h List.not_mem_nil
  idle _ _ := List.not_mem_nil

theorem step (hs : Flights s) (h : step options s e = some t) : Flights t := by
  obtain ⟨-, breaker, stage, notes, hdone, rfl⟩ := step_cases h
  have hworking := hs.working
  have hstarted := hs.started
  have hidle := hs.idle
  cases hdone with
  | rejected _ hstage | corrected _ hstage =>
      constructor <;> intro call <;> by_cases hcall : call = e.call <;> grind
  | started _ probe _ hstage =>
      constructor <;> intro call <;> by_cases hcall : call = e.call <;> grind
  | succeeded probe _ hstage | refused probe _ hstage | failed probe _ hstage
  | opened probe _ hstage =>
      constructor <;> intro call <;> by_cases hcall : call = e.call <;> grind

end Flights

namespace ProbesAlone

theorem of_append {notes log : List Note} (h : ProbesAlone (notes ++ log)) : ProbesAlone log := by
  induction notes with
  | nil => exact h
  | cons note notes ih =>
      cases note with
      | started call probe now => exact ih h.2
      | ended | opened => exact ih h

/-- Two probes of a log that have not ended are one. -/
theorem eq_of_started {log : List Note} (h : ProbesAlone log) {probe probe' : ℕ}
    (hstarted : ∃ now, .started probe true now ∈ log) (hflies : .ended probe ∉ log)
    (hstarted' : ∃ now, .started probe' true now ∈ log) (hflies' : .ended probe' ∉ log) :
    probe = probe' := by
  obtain ⟨now, hmem⟩ := hstarted
  obtain ⟨now', hmem'⟩ := hstarted'
  induction log with
  | nil => exact absurd hmem List.not_mem_nil
  | cons note log ih =>
      have hlog : .ended probe ∉ log := fun hended => hflies (List.mem_cons_of_mem _ hended)
      have hlog' : .ended probe' ∉ log := fun hended => hflies' (List.mem_cons_of_mem _ hended)
      rcases List.mem_cons.mp hmem with rfl | hin
      · rcases List.mem_cons.mp hmem' with heq | hin'
        · exact (Note.started.inj heq).1.symm
        · exact absurd (h.1 probe' now' hin') hlog'
      · rcases List.mem_cons.mp hmem' with rfl | hin'
        · exact absurd (h.1 probe now hin) hlog
        · have hrest : ProbesAlone ([note] ++ log) := h
          exact ih hrest.of_append hlog hlog' hin hin'

/-- A step that meets the condition keeps the probes alone, and one that breaks it does not. -/
theorem step (hs : Flights s) (halone : ProbesAlone s.log) (h : step options s e = some t) :
    Spaced options s e ∧ ProbesAlone t.log ∨ ¬ Spaced options s e ∧ ¬ ProbesAlone t.log := by
  obtain ⟨-, breaker, stage, notes, hdone, rfl⟩ := step_cases h
  have hspaced (haction : e.action ≠ .execute) : Spaced options s e :=
    fun hexecute => absurd hexecute haction
  cases hdone with
  | rejected haction hstage henter =>
      exact .inl ⟨fun _ _ => CircuitBreaker.enter_eq_none_iff.mp henter, halone⟩
  | started _ probe haction hstage henter hprobe =>
      by_cases hflies : ∃ other, s.stages other = .working true
      · refine .inr ⟨fun hspaced => ?_, fun hnext => ?_⟩
        · have hnone := CircuitBreaker.enter_eq_none_iff.mpr (hspaced haction hflies)
          rw [hnone] at henter
          cases henter
        · obtain ⟨other, hother⟩ := hflies
          obtain ⟨⟨now, hmem⟩, hended⟩ := hs.working other true hother
          exact hended (hnext.1 other now hmem)
      · refine .inl ⟨fun _ hprobes => absurd hprobes hflies, fun other now hmem => ?_, halone⟩
        exact (hs.started other true now hmem).resolve_left fun hother =>
          hflies ⟨other, hother⟩
  | succeeded _ haction | refused _ haction | failed _ haction | opened _ haction
  | corrected haction => exact .inl ⟨hspaced (by simp [haction]), halone⟩

theorem not_step (hs : ¬ ProbesAlone s.log) (h : Overlapping.step options s e = some t) :
    ¬ ProbesAlone t.log := by
  obtain ⟨-, breaker, stage, notes, -, rfl⟩ := step_cases h
  exact fun hnext => hs hnext.of_append

end ProbesAlone

/-- Every probe ends before other work starts exactly in the runs in which no call comes
while a probe is in flight, calls that the reopened circuit rejects apart; then no two
probes are in flight together. -/
theorem single_probe_iff {options : CircuitBreakerOptions} {es : List Event} {s : State}
    (hrun : run (step options) init es = some s) :
    (ProbesAlone s.log ↔ RunsUnder (step options) (Spaced options) init es s) ∧
      (ProbesAlone s.log → ∀ probe probe', s.stages probe = .working true →
        s.stages probe' = .working true → probe = probe') := by
  have hflights : Flights s := run_invariant (fun _ _ _ hs hstep => hs.step hstep) hrun .init
  have hcases := run_dichotomy (A := fun _ => True) (C := Spaced options)
    (G := fun s => Flights s ∧ ProbesAlone s.log) (B := fun s => ¬ ProbesAlone s.log)
    (fun s e t hs _ hstep => (ProbesAlone.step hs.1 hs.2 hstep).imp_left
      fun h => ⟨h.1, hs.1.step hstep, h.2⟩)
    (fun s e t hs _ hstep => ProbesAlone.not_step hs hstep) hrun (fun _ _ => trivial)
    ⟨.init, trivial⟩
  refine ⟨?_, fun halone probe probe' hprobe hprobe' => ?_⟩
  · rcases hcases with ⟨hunder, -, halone⟩ | ⟨hunder, halone⟩
    · exact ⟨fun _ => hunder, fun _ => halone⟩
    · exact ⟨fun h => absurd h halone, fun h => absurd h hunder⟩
  · obtain ⟨hstarted, hflies⟩ := hflights.working probe true hprobe
    obtain ⟨hstarted', hflies'⟩ := hflights.working probe' true hprobe'
    exact halone.eq_of_started hstarted hflies hstarted' hflies'

/-- Call 4 of `cooledRun` comes during the probe. -/
theorem single_probe_iff_cooledRun :
    ∃ s, run (step strictOptions) init cooledRun = some s ∧ s.log = cooledLog ∧
      RunsUnder (step strictOptions) (Spaced strictOptions) init cooledRun s := by
  have h : ((run (step strictOptions) init cooledRun).map State.log) = some cooledLog := by
    decide
  obtain ⟨s, hrun, hlog⟩ := Option.map_eq_some_iff.mp h
  refine ⟨s, hrun, hlog, (single_probe_iff hrun).1.mp ?_⟩
  rw [hlog]
  simp [cooledLog, ProbesAlone]

/-- After the cooling period two calls come before the first one has ended. -/
def crowdedRun : List Event :=
  [⟨0, 0, .execute⟩, ⟨0, 1, .settle .failure⟩, ⟨1, 11, .execute⟩, ⟨2, 12, .execute⟩]

theorem crowdedRun_not_probesAlone :
    ¬ ∀ options es s, run (step options) init es = some s → ProbesAlone s.log ∧
      ∀ probe probe', s.stages probe = .working true → s.stages probe' = .working true →
        probe = probe' := by
  intro hall
  have h : ((run (step strictOptions) init crowdedRun).map fun s => (s.stages 1, s.stages 2)) =
      some (.working true, .working true) := by decide
  obtain ⟨s, hrun, hsays⟩ := Option.map_eq_some_iff.mp h
  obtain ⟨hfirst, hsecond⟩ := Prod.mk.inj hsays
  exact absurd ((hall strictOptions crowdedRun s hrun).2 1 2 hfirst hsecond) (by decide)

end Overlapping

end Payments

end Paynad
