import Mathlib.Data.Finset.Card
import Paynad.Payments.Protocol.ReconciliationPass

/-!
# No payment in flight is forgotten

A pass takes the payments that have been due for longest, and an attempt sends its payment
to the back. A payment whose lock is held is skipped and keeps its place, so the reconciler
comes to every payment as long as fewer of them are in its way than a batch holds, and to
none behind a whole batch of them.
-/

namespace Paynad

namespace Payments

open Shared Transition TypeOrmPaymentRepository

namespace Platform

/-- The payments in flight whose next attempt was due at `since`. -/
def waiting (since : Date) (s : State) : Finset String :=
  ((s.payments.database.payments.filter fun row =>
    decide (row.status ∉ terminalStatuses) && decide (row.nextReconciliationAt ≤ since)).map
      fun row => row.reference).toFinset

/-- Those of them that nobody is treating. -/
def free (since : Date) (s : State) : Finset String :=
  (waiting since s).filter fun reference => s.payments.locks reference = none

def held (since : Date) (s : State) : Finset String :=
  (waiting since s).filter fun reference => s.payments.locks reference ≠ none

variable {maxAttempts worker : ℕ} {verdicts : Verdicts} {since : Date} {s t u : State}
  {row : PaymentOrmEntity} {reference : String} {done : List String}

theorem mem_waiting (hs : Invariant s) : reference ∈ waiting since s ↔
    ∃ row, s.row reference = some row ∧ row.status ∉ terminalStatuses ∧
      row.nextReconciliationAt ≤ since := by
  simp only [waiting, List.mem_toFinset, List.mem_map, List.mem_filter, Bool.and_eq_true,
    decide_eq_true_eq]
  constructor
  · rintro ⟨row, ⟨hmem, hstatus, hnext⟩, rfl⟩
    exact ⟨row, hs.payments.database.unique.find_of_mem hmem, hstatus, hnext⟩
  · rintro ⟨row, hrow, hstatus, hnext⟩
    exact ⟨row, ⟨Table.mem_of_find hrow, hstatus, hnext⟩, reference_of_rowOf hrow⟩

theorem card_free_add_card_held (since : Date) (s : State) :
    (free since s).card + (held since s).card = (waiting since s).card :=
  Finset.card_filter_add_card_filter_not _

/-! ## What a pass does to the queue -/

/-- Nothing joins the queue, and what a pass has treated leaves it. -/
theorem Passed.waiting (h : Passed verdicts worker since s done t) (hs : Invariant s)
    (hdone : ∀ reference ∈ done, ∃ row, s.row reference = some row ∧
      row.status ∉ terminalStatuses)
    (hin : reference ∈ Platform.waiting since t) :
    reference ∈ Platform.waiting since s ∧
      (s.payments.locks reference = none → reference ∉ done) := by
  obtain ⟨row', hrow', hstatus', hnext'⟩ := (mem_waiting h.invariant).mp hin
  have hnot : s.payments.locks reference = none → reference ∉ done := by
    intro hlock htreated
    obtain ⟨row, hrow, hstatus⟩ := hdone reference htreated
    obtain ⟨row'', hrow'', -, hlater⟩ := h.postponed htreated hlock hrow hstatus
    obtain rfl : row' = row'' := Option.some.inj (hrow'.symm.trans hrow'')
    exact absurd (hlater.trans hnext') (by simp)
  refine ⟨(mem_waiting hs).mpr ⟨row', ?_, hstatus', hnext'⟩, hnot⟩
  rw [← h.rows reference fun htreated hlock => hnot hlock htreated]
  exact hrow'

theorem Passed.held_subset (h : Passed verdicts worker since s done t) (hs : Invariant s)
    (hdone : ∀ reference ∈ done, ∃ row, s.row reference = some row ∧
      row.status ∉ terminalStatuses) :
    held since t ⊆ held since s := by
  intro reference hin
  obtain ⟨hwaiting, hlock⟩ := Finset.mem_filter.mp hin
  rw [h.lasts.borrows.locks h.idle] at hlock
  exact Finset.mem_filter.mpr ⟨(h.waiting hs hdone hwaiting).1, hlock⟩

/-- A batch of payments that were waiting takes them out of the queue, but for those whose
lock is held. -/
theorem Passed.card_free (h : Passed verdicts worker since s done t) (hs : Invariant s)
    (hdone : ∀ reference ∈ done, ∃ row, s.row reference = some row ∧
      row.status ∉ terminalStatuses)
    (hnodup : done.Nodup) (hwaiting : ∀ reference ∈ done, reference ∈ Platform.waiting since s) :
    (free since t).card + done.length ≤ (free since s).card + (held since s).card := by
  have hdisjoint : Disjoint (free since t) done.toFinset := by
    rw [Finset.disjoint_left]
    intro reference hin htreated
    obtain ⟨hin', hlock⟩ := Finset.mem_filter.mp hin
    rw [h.lasts.borrows.locks h.idle] at hlock
    exact (h.waiting hs hdone hin').2 hlock (List.mem_toFinset.mp htreated)
  have hsubset : free since t ∪ done.toFinset ⊆ Platform.waiting since s := by
    refine Finset.union_subset (fun reference hin => ?_) fun reference hin => ?_
    · exact (h.waiting hs hdone (Finset.mem_filter.mp hin).1).1
    · exact hwaiting reference (List.mem_toFinset.mp hin)
  have hcard := Finset.card_le_card hsubset
  rw [Finset.card_union_of_disjoint hdisjoint, List.toFinset_card_of_nodup hnodup] at hcard
  rw [card_free_add_card_held]
  exact hcard

/-! ## Pass after pass -/

/-- Between two passes since `s`: what was not attempted is as it was, and every pass has
paid for its batch. -/
structure Reaching (worker : ℕ) (since : Date) (s t : State) (k : ℕ) : Prop where
  invariant : Invariant t
  unburdened : Workers.Unburdened t.payments
  idle : t.process worker = .idle
  locks : t.payments.locks = s.payments.locks
  rows : ∀ reference row, s.row reference = some row → ∃ row', t.row reference = some row' ∧
    (row' = row ∨ row.reconciliationAttempts < row'.reconciliationAttempts)
  held : held since t ⊆ held since s
  budget : (ReconciliationJob.batchSize - (Platform.held since s).card) * k +
    (free since t).card ≤ (free since s).card

/-- Every payment that was due and free has been attempted. -/
structure Reached (worker : ℕ) (since : Date) (s : State) (x : Reconciling) : Prop where
  batch : x.batch = []
  idle : x.platform.process worker = .idle
  passes : x.passes ≤ (free since s).card /
    (ReconciliationJob.batchSize - (held since s).card) + 1
  attempted : ∀ row, Due since s row → s.payments.locks row.reference = none →
    ∃ row', x.platform.row row.reference = some row' ∧
      row.reconciliationAttempts < row'.reconciliationAttempts

theorem Reaching.rows_passed {k : ℕ} (h : Reaching worker since s t k) (around : Around since)
    (hpassed : Passed verdicts worker since t ((around.found t).map fun row => row.reference) u)
    (hrow : s.row reference = some row) :
    ∃ row', u.row reference = some row' ∧
      (row' = row ∧ t.row reference = some row ∧
          (reference ∈ (around.found t).map (fun row => row.reference) →
            s.payments.locks reference ≠ none) ∨
        row.reconciliationAttempts < row'.reconciliationAttempts) := by
  obtain ⟨row', hrow', hsince⟩ := h.rows reference row hrow
  by_cases hin : reference ∈ (around.found t).map (fun row => row.reference) ∧
    s.payments.locks reference = none
  · obtain ⟨hfound, hlock⟩ := hin
    obtain ⟨found, hmem, rfl⟩ := List.mem_map.mp hfound
    obtain ⟨hfound', hstatus⟩ := row_of_found h.invariant hmem
    obtain ⟨row'', hrow'', hattempts, -⟩ :=
      hpassed.postponed hfound (h.locks ▸ hlock) hfound' hstatus
    obtain rfl : row' = found := Option.some.inj (hrow'.symm.trans hfound')
    refine ⟨row'', hrow'', .inr ?_⟩
    rcases hsince with rfl | hlt <;> omega
  · rw [not_and] at hin
    refine ⟨row', (hpassed.rows reference fun hfound => h.locks ▸ hin hfound).trans hrow', ?_⟩
    exact hsince.imp_left fun heq => ⟨heq, heq ▸ hrow', hin⟩

/-- A pass reaches every payment that is left, or takes its share of the queue. -/
theorem Reaching.pass {k : ℕ} (h : Reaching worker since s t k) (hs : Invariant s)
    (hheld : (Platform.held since s).card < ReconciliationJob.batchSize) (around : Around since)
    (hpassed : Passed verdicts worker since t ((around.found t).map fun row => row.reference) u) :
    Reached worker since s ⟨u, [], k + 1⟩ ∨
      Reaching worker since s u (k + 1) ∧ (free since u).card < (free since t).card := by
  have hdone : ∀ reference ∈ (around.found t).map (fun row => row.reference),
      ∃ row, t.row reference = some row ∧ row.status ∉ terminalStatuses := by
    intro reference hin
    obtain ⟨row, hrow, rfl⟩ := List.mem_map.mp hin
    exact ⟨row, row_of_found h.invariant hrow⟩
  have hfree : 0 < ReconciliationJob.batchSize - (Platform.held since s).card := by omega
  by_cases hall : ∀ row, Due since s row → s.payments.locks row.reference = none →
      t.row row.reference = some row →
      row.reference ∈ (around.found t).map (fun row => row.reference)
  · refine .inl ⟨rfl, hpassed.idle, ?_, fun row hdue hlock => ?_⟩
    · refine Nat.add_le_add_right ((Nat.le_div_iff_mul_le hfree).mpr ?_) 1
      rw [Nat.mul_comm]
      exact (Nat.le_add_right _ _).trans h.budget
    · have hrow : s.row row.reference = some row :=
        hs.payments.database.unique.find_of_mem hdue.1
      obtain ⟨row', hrow', ⟨-, hrow₁, hnot⟩ | hlt⟩ := h.rows_passed around hpassed hrow
      · exact absurd hlock (hnot (hall row hdue hlock hrow₁))
      · exact ⟨row', hrow', hlt⟩
  · -- A payment that the batch leaves out stands behind a whole batch.
    push Not at hall
    obtain ⟨row, hdue, -, hrow, hnot⟩ := hall
    have hleft : row ∉ around.found t := fun hin =>
      hnot (List.mem_map_of_mem (f := fun row : PaymentOrmEntity => row.reference) hin)
    obtain ⟨hfull, hbefore⟩ :=
      before_of_not_mem (Table.mem_of_find hrow) (hdue.stuck around) hleft
    have hwaiting : ∀ reference ∈ (around.found t).map (fun row => row.reference),
        reference ∈ waiting since t := by
      intro reference hin
      obtain ⟨other, hother, rfl⟩ := List.mem_map.mp hin
      obtain ⟨hother', hstatus⟩ := row_of_found h.invariant hother
      exact (mem_waiting h.invariant).mpr ⟨other, hother', hstatus,
        (hbefore other hother).trans (stuck_iff.mp hdue.2).2.2⟩
    have hcard := hpassed.card_free h.invariant hdone
      (nodup_stuckRows h.invariant.payments.database.unique) hwaiting
    have hheld' := Finset.card_le_card h.held
    have hlength : ((around.found t).map fun row => row.reference).length =
        ReconciliationJob.batchSize := (List.length_map _).trans hfull
    rw [hlength] at hcard
    refine .inr ⟨⟨hpassed.invariant, hpassed.lasts.unburdened, hpassed.idle,
      (hpassed.lasts.borrows.locks hpassed.idle).trans h.locks, fun reference row hrow => ?_,
      (hpassed.held_subset h.invariant hdone).trans h.held, ?_⟩, by omega⟩
    · obtain ⟨row', hrow', hsince⟩ := h.rows_passed around hpassed hrow
      exact ⟨row', hrow', hsince.imp_left And.left⟩
    · have hbudget := h.budget
      rw [Nat.mul_succ]
      omega

/-- Pass after pass the reconciler comes to every payment that was due and free. -/
theorem Reaching.ends (maxAttempts : ℕ) (verdicts : Verdicts) {k : ℕ}
    (h : Reaching worker since s t k) (hs : Invariant s)
    (hheld : (Platform.held since s).card < ReconciliationJob.batchSize) :
    Inevitable (reconcile maxAttempts verdicts worker since) (Reached worker since s)
      ⟨t, [], k⟩ := by
  induction hcard : (free since t).card using Nat.strongRecOn generalizing t k with
  | _ n ih =>
      refine .step fun around => ?_
      obtain ⟨x, hx, hends⟩ :=
        pass_ends maxAttempts verdicts h.invariant h.unburdened h.idle around k
      refine ⟨x, hx, hends.trans ?_⟩
      rintro ⟨u, _, _⟩ ⟨rfl, rfl, hpassed⟩
      rcases h.pass hs hheld around hpassed with hreached | ⟨hreaching, hless⟩
      · exact .now hreached
      · exact ih _ (hcard ▸ hless) hreaching rfl

/-- As long as the payments whose lock is held are fewer than a batch, an undisturbed
reconciler attempts every other payment that is in flight and due, and needs no more passes
than it takes to go through those that are due before it by what a batch has left. -/
theorem reconciliation_reaches (verdicts : Verdicts)
    (hreach : Reachable (step maxAttempts) init s) (hidle : s.process worker = .idle)
    (hheld : (held since s).card < ReconciliationJob.batchSize) (around : ℕ → Around since) :
    ∃ n t passes, follow (reconcile maxAttempts verdicts worker since) around n ⟨s, [], 0⟩ =
        some ⟨t, [], passes⟩ ∧
      t.process worker = .idle ∧
      passes ≤ (free since s).card / (ReconciliationJob.batchSize - (held since s).card) + 1 ∧
      ∀ row, Due since s row → s.payments.locks row.reference = none →
        ∃ row', t.row row.reference = some row' ∧
          row.reconciliationAttempts < row'.reconciliationAttempts := by
  have hs := invariant_of_reachable hreach
  have hreaching : Reaching worker since s s 0 :=
    ⟨hs, Workers.unburdened_of_reachable (reachable_payments hreach), hidle, rfl,
      fun _ row hrow => ⟨row, hrow, .inl rfl⟩, Finset.Subset.refl _, by
        rw [Nat.mul_zero, Nat.zero_add]⟩
  obtain ⟨n, ⟨t, _, passes⟩, hfollow, rfl, hidle', hpasses, hattempted⟩ :=
    (hreaching.ends maxAttempts verdicts hs hheld).follow around
  exact ⟨n, t, passes, hfollow, hidle', hpasses, hattempted⟩

/-- One pass attempts both payments that nobody treats. -/
theorem reconciliation_reaches_interrupted :
    ∃ s unstarted unposted, run (step 3) init interruptedRun = some s ∧
      s.row unstartedReference.value = some unstarted ∧
      s.row unpostedReference.value = some unposted ∧
      ∀ around : ℕ → Around fiveMinutesLater, ∃ n t passes,
        follow (reconcile 3 (fun _ => none) 0 fiveMinutesLater) around n ⟨s, [], 0⟩ =
          some ⟨t, [], passes⟩ ∧ passes ≤ 1 ∧
        ∀ row ∈ [unstarted, unposted], ∃ row', t.row row.reference = some row' ∧
          row.reconciliationAttempts < row'.reconciliationAttempts := by
  obtain ⟨s, treated, unstarted, unposted, hrun, hidle, -, hpayments, -, hunstarted, hunposted⟩ :=
    interruptedRun_rows
  have hs := invariant_of_reachable ⟨interruptedRun, hrun⟩
  have hrow : ∀ {row : PaymentOrmEntity} {reference : Reference .pay} {status : PaymentStatus},
      row ∈ s.payments.database.payments → s.entry row = sampleEntry reference status none →
      s.row reference.value = some row := by
    intro row reference status hmem hentry
    rw [← show row.reference = reference.value from congrArg QueueEntry.reference hentry]
    exact hs.payments.database.unique.find_of_mem hmem
  have hfew : (waiting fiveMinutesLater s).card ≤ 3 := by
    refine (List.toFinset_card_le _).trans ?_
    rw [List.length_map]
    refine (List.length_filter_le ..).trans ?_
    rw [hpayments]
    exact le_rfl
  have hsplit := card_free_add_card_held fiveMinutesLater s
  have hheld : (held fiveMinutesLater s).card < ReconciliationJob.batchSize := by
    rw [ReconciliationJob.batchSize]
    omega
  have hmem : unstarted ∈ s.payments.database.payments := by simp [hpayments]
  have hmem' : unposted ∈ s.payments.database.payments := by simp [hpayments]
  refine ⟨s, unstarted, unposted, hrun, hrow hmem hunstarted, hrow hmem' hunposted,
    fun around => ?_⟩
  obtain ⟨n, t, passes, hfollow, -, hpasses, hattempted⟩ :=
    reconciliation_reaches (fun _ => none) ⟨interruptedRun, hrun⟩ hidle hheld around
  refine ⟨n, t, passes, hfollow, ?_, ?_⟩
  · -- What a batch has left is more than all that wait.
    have hroom : (free fiveMinutesLater s).card /
        (ReconciliationJob.batchSize - (held fiveMinutesLater s).card) = 0 :=
      Nat.div_eq_of_lt (by rw [ReconciliationJob.batchSize]; omega)
    omega
  · rintro row hin
    rcases List.mem_pair.mp hin with rfl | rfl
    · exact hattempted row (due_of_entry hmem hunstarted (by decide))
        (congrArg QueueEntry.holder hunstarted)
    · exact hattempted row (due_of_entry hmem' hunposted (by decide))
        (congrArg QueueEntry.holder hunposted)

/-! ## What stands in the way -/

/-- Between two passes since `s`: the payments that stand in the way, and the one behind
them, are as they were. -/
structure Starving (worker : ℕ) (blocking : List PaymentOrmEntity) (row : PaymentOrmEntity)
    (s t : State) : Prop where
  invariant : Invariant t
  unburdened : Workers.Unburdened t.payments
  idle : t.process worker = .idle
  locks : t.payments.locks = s.payments.locks
  blocking : ∀ other ∈ blocking, t.row other.reference = some other
  behind : t.row row.reference = some row

theorem Starving.pass {blocking : List PaymentOrmEntity} (h : Starving worker blocking row s t)
    (hunique : (blocking.map fun other => other.reference).Nodup)
    (hblocking : ∀ other ∈ blocking, Due since s other ∧
      s.payments.locks other.reference ≠ none ∧
      other.nextReconciliationAt < row.nextReconciliationAt)
    (hmany : ReconciliationJob.batchSize ≤ blocking.length) (around : Around since)
    (hpassed : Passed verdicts worker since t ((around.found t).map fun row => row.reference) u) :
    Starving worker blocking row s u := by
  have hnot : row.reference ∉ (around.found t).map fun row => row.reference := by
    intro hin
    obtain ⟨found, hfound, hreference⟩ := List.mem_map.mp hin
    obtain ⟨hfound', -⟩ := row_of_found h.invariant hfound
    rw [hreference, h.behind] at hfound'
    obtain rfl := Option.some.inj hfound'
    -- Everything that stands before a payment of the batch is in the batch.
    have hsubset : row.reference :: blocking.map (fun other => other.reference) ⊆
        (around.found t).map fun row => row.reference := by
      refine List.cons_subset.mpr ⟨hin, fun reference hreference => ?_⟩
      obtain ⟨other, hother, rfl⟩ := List.mem_map.mp hreference
      obtain ⟨hdue, -, hbefore⟩ := hblocking other hother
      by_contra hleft
      have hleft' : other ∉ around.found t := fun hmem =>
        hleft (List.mem_map_of_mem (f := fun row : PaymentOrmEntity => row.reference) hmem)
      obtain ⟨-, hall⟩ := before_of_not_mem (Table.mem_of_find (h.blocking other hother))
        (hdue.stuck around) hleft'
      exact absurd (hall row hfound) (Nat.not_le.mpr hbefore)
    have hnew : row.reference ∉ blocking.map fun other => other.reference := by
      intro hmem
      obtain ⟨other, hother, heq⟩ := List.mem_map.mp hmem
      have hrow := h.blocking other hother
      rw [heq, h.behind] at hrow
      obtain rfl := Option.some.inj hrow
      exact absurd (hblocking row hother).2.2 (Nat.lt_irrefl _)
    have hlength := (List.subperm_of_subset (List.nodup_cons.mpr ⟨hnew, hunique⟩) hsubset).length_le
    have hlimit : (around.found t).length ≤ ReconciliationJob.batchSize := length_stuckRows
    rw [List.length_cons, List.length_map, List.length_map] at hlength
    omega
  refine ⟨hpassed.invariant, hpassed.lasts.unburdened, hpassed.idle,
    (hpassed.lasts.borrows.locks hpassed.idle).trans h.locks, fun other hother => ?_, ?_⟩
  · rw [hpassed.rows other.reference fun _ => h.locks ▸ (hblocking other hother).2.1]
    exact h.blocking other hother
  · rw [hpassed.rows row.reference fun hin => absurd hin hnot]
    exact h.behind

/-- A payment behind a whole batch of payments whose lock is held is never attempted: after
any number of passes its row is as it was. -/
theorem reconciliation_starves (verdicts : Verdicts)
    (hreach : Reachable (step maxAttempts) init s) (hidle : s.process worker = .idle)
    (hrow : s.row row.reference = some row) {blocking : List PaymentOrmEntity}
    (hunique : (blocking.map fun other => other.reference).Nodup)
    (hblocking : ∀ other ∈ blocking, Due since s other ∧
      s.payments.locks other.reference ≠ none ∧
      other.nextReconciliationAt < row.nextReconciliationAt)
    (hmany : ReconciliationJob.batchSize ≤ blocking.length) (around : ℕ → Around since)
    (passes : ℕ) :
    ∃ n t, follow (reconcile maxAttempts verdicts worker since) around n ⟨s, [], 0⟩ =
        some ⟨t, [], passes⟩ ∧ t.row row.reference = some row := by
  have hs := invariant_of_reachable hreach
  have hends : Inevitable (reconcile maxAttempts verdicts worker since)
      (fun x => x.batch = [] ∧ x.passes = passes ∧ Starving worker blocking row s x.platform)
      ⟨s, [], 0⟩ := by
    induction passes with
    | zero =>
        exact .now ⟨rfl, rfl, hs, Workers.unburdened_of_reachable (reachable_payments hreach),
          hidle, rfl, fun other hother =>
            hs.payments.database.unique.find_of_mem (hblocking other hother).1.1, hrow⟩
    | succ passes ih =>
        refine ih.trans ?_
        rintro ⟨t, _, k⟩ ⟨rfl, rfl, ht⟩
        refine .step fun around => ?_
        obtain ⟨x, hx, hends⟩ :=
          pass_ends maxAttempts verdicts ht.invariant ht.unburdened ht.idle around k
        exact ⟨x, hx, hends.mono fun y ⟨hbatch, hpasses, hpassed⟩ =>
          ⟨hbatch, hpasses, ht.pass hunique hblocking hmany around hpassed⟩⟩
  obtain ⟨n, ⟨t, _, _⟩, hfollow, rfl, rfl, hstarving⟩ := hends.follow around
  exact ⟨n, t, hfollow, hstarving.behind⟩

def crowdReference (i : ℕ) : String :=
  "pay_" ++ String.ofList
    (List.replicate 24 '0' ++ [Nat.digitChar (i / 10), Nat.digitChar (i % 10)])

/-- Twenty sagas are under way when one more payment is initiated, a second later. -/
def crowdedRun : List Event :=
  (List.range 21).flatMap fun i =>
    match Reference.of .pay (crowdReference i) with
    | .ok reference =>
        .internal (.initiate i { Workers.sampleInput with transactionId := crowdReference i }
          reference ⟨Workers.sampleMoment.now + i / 20 * 1000, "correlation-1"⟩ .none) ::
            if i < 20 then [.internal (.start i)] else []
    | .error _ => []

/-- The first twenty payments are held, and have been due for longer than the last one. -/
def crowded (s : State) : Bool :=
  let (blocking, behind) := s.payments.database.payments.splitAt 20
  (s.process 21).reference.isNone && decide (blocking.length = 20) &&
    decide (behind.map (fun row => (row.reference, row.status)) =
      [(crowdReference 20, .pending)]) &&
    blocking.all fun other =>
      stuck ReconciliationJob.unsettledStatuses
          (fiveMinutesLater - ReconciliationJob.stuckAfterMs) fiveMinutesLater other &&
        (s.payments.locks other.reference).isSome &&
        behind.all fun row => decide (other.nextReconciliationAt < row.nextReconciliationAt)

/-- The payment that was initiated last stays Pending, pass after pass. -/
theorem reconciliation_starves_crowdedRun :
    ∃ s row, run (step 3) init crowdedRun = some s ∧ row.status = .pending ∧
      ∀ (around : ℕ → Around fiveMinutesLater) (passes : ℕ), ∃ n t,
        follow (reconcile 3 (fun _ => none) 21 fiveMinutesLater) around n ⟨s, [], 0⟩ =
          some ⟨t, [], passes⟩ ∧ t.row (crowdReference 20) = some row := by
  have h : (run (step 3) init crowdedRun).map crowded = some true := by
    decide +kernel
  obtain ⟨s, hrun, hcrowded⟩ := Option.map_eq_some_iff.mp h
  simp only [crowded, List.splitAt_eq, Bool.and_eq_true, decide_eq_true_eq,
    Option.isNone_iff_eq_none, List.all_eq_true, Option.isSome_iff_ne_none] at hcrowded
  obtain ⟨⟨⟨hprocess, hlength⟩, hbehind⟩, hblocking⟩ := hcrowded
  obtain ⟨row, hsingle, hrow⟩ := List.map_eq_singleton_iff.mp hbehind
  obtain ⟨hreference, hstatus⟩ := Prod.mk.inj hrow
  have hs := invariant_of_reachable ⟨crowdedRun, hrun⟩
  have hidle : s.process 21 = .idle := Process.idle_of_reference hprocess
  have hmem : row ∈ s.payments.database.payments :=
    List.mem_of_mem_drop (hsingle ▸ List.mem_singleton_self row)
  refine ⟨s, row, hrun, hstatus, fun around passes => ?_⟩
  rw [← hreference]
  refine reconciliation_starves (fun _ => none) ⟨crowdedRun, hrun⟩ hidle
    (hs.payments.database.unique.find_of_mem hmem)
    (hs.payments.database.unique.sublist ((List.take_sublist 20 _).map _))
    (fun other hother => ?_) hlength.ge around passes
  obtain ⟨⟨hstuck, hheld⟩, hbefore⟩ := hblocking other hother
  exact ⟨⟨List.mem_of_mem_take hother, hstuck⟩, hheld,
    hbefore row (hsingle ▸ List.mem_singleton_self row)⟩

end Platform

end Payments

end Paynad
