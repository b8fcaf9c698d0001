import Paynad.Payments.Protocol.Staleness

/-!
# A stale aggregate is not saved

As long as no orphaned object is saved where the row stands at the revision it
carries, a save that is accepted is based on the last committed row: the lock of
the row keeps it so until the transaction ends.
-/

namespace Paynad

namespace Payments

open Shared Transition TypeOrmPaymentRepository

namespace TransactionContext

namespace Observed

/-- What the revision of an object says, by where it comes from. -/
inductive Placed (s : Observed) (id : ℕ) (object : Object) : Prop
  | new (hstanding : s.history.standing id = .committed)
      (hrevision : object.aggregate.revision = none) (hreflects : s.history.reflects id = 0)
  | committed (row : PaymentOrmEntity) (version : ℕ)
      (hstanding : s.history.standing id = .committed)
      (hrevision : object.aggregate.revision = some version)
      (hrow : rowOf s.state.payments object.reference = some row)
      (hversion : version ≤ row.version)
      (hreflects : s.history.reflects id ≤ (s.history.log object.reference).length)
      (hlatest : version = row.version →
        s.history.reflects id = (s.history.log object.reference).length)
  | tentative (worker : ℕ) (row : PaymentOrmEntity) (version : ℕ)
      (hstanding : s.history.standing id = .tentative worker) (howner : object.worker = worker)
      (hrevision : object.aggregate.revision = some version)
      (hrow : s.state.written worker object.reference = some row)
      (hversion : version ≤ row.version)
      (hnewer : ∀ row, rowOf s.state.payments object.reference = some row → row.version < version)
      (hreflects : s.history.reflects id = (s.history.log object.reference).length)
  | orphaned (version : ℕ) (hstanding : s.history.standing id = .orphaned)
      (hrevision : object.aggregate.revision = some version)
      (hreflects : s.history.reflects id ≤ (s.history.log object.reference).length)
      (hstale : ∀ row, rowOf s.state.payments object.reference = some row →
        row.version = version →
          s.history.reflects id < (s.history.log object.reference).length)

/-- What relates the repository to its history in every run. -/
structure Invariant (s : Observed) : Prop where
  log : ∀ reference, rowOf s.state.payments reference = (s.history.log reference).getLast?
  held : ∀ worker reference row, s.state.written worker reference = some row →
    s.state.locks (.reference reference) = some worker
  newer : ∀ worker reference row row₀, s.state.written worker reference = some row →
    rowOf s.state.payments reference = some row₀ → row₀.version < row.version
  placed : ∀ id object, s.state.objects id = some object → s.Placed id object
  saved : ∀ worker id, id ∈ s.history.saved worker →
    s.history.standing id = .tentative worker ∧ ∃ object, s.state.objects id = some object

theorem invariant_init : Invariant init := by
  refine ⟨fun _ => rfl, fun _ _ _ h => ?_, fun _ _ _ _ h => ?_, fun _ _ h => ?_, fun _ _ h => ?_⟩
  · cases h
  · cases h
  · cases h
  · cases h

/-- The worker does not save an orphaned object where the row stands at its revision. -/
def Fresh (s : Observed) : Event → Prop
  | .save worker id _ => s.history.standing id = .orphaned →
      ∀ object row, s.state.objects id = some object →
        rowOf (s.state.view worker) object.reference = some row →
        object.aggregate.revision ≠ some row.version
  | _ => True

variable {s s' : Observed} {worker id : ℕ}

/-- An accepted save is based on the last committed row, and writes a newer one. -/
theorem Invariant.based (hs : Invariant s) {object : Object} {row : PaymentOrmEntity}
    {t : Tracked} {now : Date} (hfresh : s.Fresh (.save worker id now))
    (h : Accepted s.state worker id object row t) :
    s.history.reflects id = (s.history.log object.reference).length ∧
      (∀ row₀, s.state.written worker object.reference = some row₀ → row₀.version < row.version) ∧
      ∀ row₀, rowOf s.state.payments object.reference = some row₀ → row₀.version < row.version := by
  have hview := rowOf_view s.state worker object.reference
  rcases h.found with ⟨hnone, habsent⟩ | ⟨row₀, hrevision, hfound, hversion⟩
  · -- An insertion: there is no row, committed or written.
    rw [habsent] at hview
    obtain ⟨hwritten, hcommitted⟩ := Option.or_eq_none_iff.mp hview.symm
    have hempty : s.history.log object.reference = [] := by
      rw [← List.getLast?_eq_none_iff, ← hs.log, hcommitted]
    refine ⟨?_, fun row₀ hrow₀ => ?_, fun row₀ hrow₀ => ?_⟩
    · cases hs.placed id object h.present with
      | new _ _ hreflects => rw [hreflects, hempty]; rfl
      | committed _ _ _ hrevision => cases hnone.symm.trans hrevision
      | tentative _ _ _ _ _ hrevision => cases hnone.symm.trans hrevision
      | orphaned _ _ hrevision => cases hnone.symm.trans hrevision
    · cases hwritten.symm.trans hrow₀
    · cases hcommitted.symm.trans hrow₀
  · rw [hfound] at hview
    refine ⟨?_, fun row₁ hrow₁ => ?_, fun row₁ hrow₁ => ?_⟩
    · cases hs.placed id object h.present with
      | new _ hnone => cases hnone.symm.trans hrevision
      | committed row₁ version _ hrevision' hrow₁ hle _ hlatest =>
          obtain rfl := Option.some.inj (hrevision'.symm.trans hrevision)
          cases hwritten : s.state.written worker object.reference with
          | some row₂ =>
              -- Its own transaction has already moved past what this object carries.
              rw [hwritten] at hview
              obtain rfl : row₀ = row₂ := Option.some.inj hview
              exact absurd (hs.newer _ _ _ _ hwritten hrow₁) (Nat.not_lt_of_le hle)
          | none =>
              rw [hwritten, hrow₁] at hview
              obtain rfl : row₀ = row₁ := Option.some.inj hview
              exact hlatest rfl
      | tentative _ _ _ _ _ _ _ _ _ hreflects => exact hreflects
      | orphaned _ hstanding =>
          exact absurd hrevision (hfresh hstanding object row₀ h.present hfound)
    · rw [hrow₁] at hview
      obtain rfl : row₀ = row₁ := Option.some.inj hview
      omega
    · cases hwritten : s.state.written worker object.reference with
      | some row₂ =>
          rw [hwritten] at hview
          obtain rfl : row₀ = row₂ := Option.some.inj hview
          have := hs.newer _ _ _ _ hwritten hrow₁
          omega
      | none =>
          rw [hwritten, hrow₁] at hview
          obtain rfl : row₀ = row₁ := Option.some.inj hview
          omega

/-!
# Steps
-/

theorem Placed.congr {object object' : Object} (h : s.Placed id object)
    (hreference : object'.reference = object.reference) (howner : object'.worker = object.worker)
    (hrevision : object'.aggregate.revision = object.aggregate.revision)
    (hstanding : s'.history.standing id = s.history.standing id)
    (hreflects : s'.history.reflects id = s.history.reflects id)
    (hrow : rowOf s'.state.payments object.reference = rowOf s.state.payments object.reference)
    (hlog : s'.history.log object.reference = s.history.log object.reference)
    (hwritten : ∀ worker row, s.history.standing id = .tentative worker →
      s.state.written worker object.reference = some row →
      ∃ row', s'.state.written worker object.reference = some row' ∧
        row.version ≤ row'.version) : s'.Placed id object' := by
  rw [← hreference] at hrow hlog
  cases h with
  | new h₁ h₂ h₃ => exact .new (hstanding.trans h₁) (hrevision.trans h₂) (hreflects.trans h₃)
  | committed row version h₁ h₂ h₃ h₄ h₅ h₆ =>
      rw [← hreference] at h₃ h₅ h₆
      refine .committed row version (hstanding.trans h₁) (hrevision.trans h₂) (hrow.trans h₃) h₄
        ?_ ?_ <;> rw [hreflects, hlog]
      · exact h₅
      · exact h₆
  | tentative worker row version h₁ h₂ h₃ h₄ h₅ h₆ h₇ =>
      obtain ⟨row', hrow', hle⟩ := hwritten worker row h₁ h₄
      rw [← hreference] at hrow' h₆ h₇
      refine .tentative worker row' version (hstanding.trans h₁) (howner.trans h₂)
        (hrevision.trans h₃) hrow' (h₅.trans hle) (fun row₀ hrow₀ => h₆ row₀ ?_) ?_
      · exact hrow.symm.trans hrow₀
      · rw [hreflects, hlog]
        exact h₇
  | orphaned version h₁ h₂ h₃ h₄ =>
      rw [← hreference] at h₃ h₄
      refine .orphaned version (hstanding.trans h₁) (hrevision.trans h₂) ?_ fun row₀ hrow₀ hv => ?_
        <;> rw [hreflects, hlog]
      · exact h₃
      · exact h₄ row₀ (hrow.symm.trans hrow₀) hv

theorem Invariant.memory (hs : Invariant s) (hpayments : s'.state.payments = s.state.payments)
    (hwritten : ∀ worker reference,
      s'.state.written worker reference = s.state.written worker reference)
    (hlocks : s'.state.locks = s.state.locks) (hlog : s'.history.log = s.history.log)
    (hsaved : s'.history.saved = s.history.saved)
    (hothers : ∀ other, other ≠ id → s'.state.objects other = s.state.objects other ∧
      s'.history.standing other = s.history.standing other ∧
      s'.history.reflects other = s.history.reflects other)
    (hplaced : ∀ object, s'.state.objects id = some object → s'.Placed id object)
    (hkept : ∀ worker object, s.history.standing id = .tentative worker →
      s.state.objects id = some object → s'.history.standing id = .tentative worker ∧
        ∃ object, s'.state.objects id = some object) : Invariant s' := by
  refine ⟨?_, ?_, ?_, ?_, ?_⟩
  · rw [hpayments, hlog]
    exact hs.log
  · intro worker reference row hrow
    rw [hwritten] at hrow
    rw [hlocks]
    exact hs.held worker reference row hrow
  · intro worker reference row row₀ hrow hrow₀
    rw [hwritten] at hrow
    rw [hpayments] at hrow₀
    exact hs.newer worker reference row row₀ hrow hrow₀
  · intro other object hobject
    by_cases hother : other = id
    · subst hother
      exact hplaced object hobject
    · obtain ⟨hsame, hstanding, hreflects⟩ := hothers other hother
      refine (hs.placed other object (hsame ▸ hobject)).congr rfl rfl rfl hstanding hreflects
        (by rw [hpayments]) (by rw [hlog]) fun w row _ hrow => ⟨row, ?_, le_rfl⟩
      rw [hwritten]
      exact hrow
  · intro worker other hsaved'
    rw [hsaved] at hsaved'
    obtain ⟨hstanding, object, hobject⟩ := hs.saved worker other hsaved'
    by_cases hother : other = id
    · subst hother
      exact hkept worker object hstanding hobject
    · obtain ⟨hsame, hstanding', -⟩ := hothers other hother
      exact ⟨hstanding'.trans hstanding, object, hsame.trans hobject⟩

theorem Invariant.create (hs : Invariant s) {payment : Payment}
    (h : s.step (.create worker id payment) = some s') : Invariant s' := by
  obtain ⟨state, hstate, rfl⟩ := Option.map_eq_some_iff.mp h
  simp only [TransactionContext.step] at hstate
  split at hstate <;> cases hstate
  rename_i hnone
  refine hs.memory rfl (fun _ _ => rfl) rfl rfl rfl
    (fun other (hother : other ≠ id) => ?_) (fun object hobject => ?_) fun w object _ hobject => ?_
  · simp [after, Function.update_of_ne hother]
  · simp only [Function.update_self, Option.some.injEq] at hobject
    subst hobject
    exact .new (by simp [after]) rfl (by simp [after])
  · cases hnone.symm.trans hobject

theorem Invariant.hydrate (hs : Invariant s) {reference : String}
    (h : s.step (.hydrate worker id reference) = some s') : Invariant s' := by
  obtain ⟨state, hstate, rfl⟩ := Option.map_eq_some_iff.mp h
  simp only [TransactionContext.step] at hstate
  split at hstate
  · rename_i row hnone hrow
    split at hstate <;> cases hstate
    · rename_i t hhydrate
      obtain ⟨href, hrevision⟩ := hydrate_ok hhydrate
      obtain rfl : t.payment.reference.value = reference := href.trans (reference_of_rowOf hrow)
      rw [rowOf_view] at hrow
      refine hs.memory rfl (fun _ _ => rfl) rfl rfl rfl
        (fun other (hother : other ≠ id) => ?_) (fun object hobject => ?_)
        fun w object _ hobject => ?_
      · simp [after, Function.update_of_ne hother]
      · simp only [Function.update_self, Option.some.injEq] at hobject
        subst hobject
        cases hwritten : s.state.written worker t.payment.reference.value with
        | some row₁ =>
            rw [hwritten] at hrow
            cases hrow
            exact .tentative worker row row.version (by simp [after, hwritten]) rfl hrevision
              hwritten le_rfl (fun row₀ hrow₀ => hs.newer worker _ row row₀ hwritten hrow₀)
              (by simp [after])
        | none =>
            rw [hwritten] at hrow
            exact .committed row row.version (by simp [after, hwritten]) hrevision hrow le_rfl
              (by simp [after]) fun _ => by simp [after]
      · cases hnone.symm.trans hobject
    · -- The row does not read back: nothing is added to the memory.
      refine hs.memory rfl (fun _ _ => rfl) rfl rfl rfl
        (fun other (hother : other ≠ id) => ?_) (fun object hobject => ?_)
        fun w object _ hobject => ?_
      · simp [after, Function.update_of_ne hother]
      · cases hnone.symm.trans hobject
      · cases hnone.symm.trans hobject
  · cases hstate

theorem Invariant.mutate (hs : Invariant s) {payment : Payment}
    (h : s.step (.mutate id payment) = some s') : Invariant s' := by
  obtain ⟨state, hstate, rfl⟩ := Option.map_eq_some_iff.mp h
  simp only [TransactionContext.step] at hstate
  split at hstate
  · rename_i object hobject
    split at hstate <;> cases hstate
    rename_i hsame
    refine hs.memory rfl (fun _ _ => rfl) rfl rfl rfl
      (fun other (hother : other ≠ id) => ?_) (fun object' hobject' => ?_)
      fun w object' hstanding _ => ⟨hstanding, _, Function.update_self ..⟩
    · exact ⟨Function.update_of_ne hother .., rfl, rfl⟩
    · simp only [Function.update_self, Option.some.injEq] at hobject'
      subst hobject'
      exact (hs.placed id object hobject).congr (congrArg Reference.value hsame.1) rfl rfl rfl rfl
        rfl rfl fun w row _ hrow => ⟨row, hrow, le_rfl⟩
  · cases hstate

theorem Invariant.start (hs : Invariant s) (h : s.step (.start worker) = some s') :
    Invariant s' := by
  obtain ⟨state, hstate, rfl⟩ := Option.map_eq_some_iff.mp h
  simp only [TransactionContext.step] at hstate
  split at hstate <;> cases hstate
  rename_i hnone
  have hwritten : ∀ other reference, State.written
      { s.state with transactions := Function.update s.state.transactions worker (some []) }
      other reference = s.state.written other reference := by
    intro other reference
    unfold State.written
    by_cases hother : other = worker
    · subst hother
      simp only [Function.update_self, hnone]
      rfl
    · simp only [Function.update_of_ne hother]
  exact ⟨hs.log, fun w r row hrow => hs.held w r row (hwritten w r ▸ hrow),
    fun w r row row₀ hrow hrow₀ => hs.newer w r row row₀ (hwritten w r ▸ hrow) hrow₀,
    fun id object hobject => (hs.placed id object hobject).congr rfl rfl rfl rfl rfl rfl rfl
      fun w row _ hrow => ⟨row, (hwritten w _).trans hrow, le_rfl⟩, hs.saved⟩

theorem written_cons {s : State} {writes : List PaymentOrmEntity}
    (htransaction : s.transactions worker = some writes) (row : PaymentOrmEntity)
    (locks : Locks RowKey ℕ) (objects : ℕ → Option Object) (other : ℕ) (reference : String) :
    State.written ⟨s.payments, Function.update s.transactions worker (some (row :: writes)), locks,
        objects⟩ other reference =
      if other = worker ∧ row.reference = reference then some row
      else s.written other reference := by
  unfold State.written
  by_cases hother : other = worker
  · subst hother
    simp only [Function.update_self, htransaction, Option.bind_some, true_and]
    exact Table.find_cons ..
  · simp [hother]

theorem Invariant.save (hs : Invariant s) {now : Date} (hfresh : s.Fresh (.save worker id now))
    (h : s.step (.save worker id now) = some s') : Invariant s' := by
  obtain ⟨state, hstate, rfl⟩ := Option.map_eq_some_iff.mp h
  simp only [TransactionContext.step] at hstate
  split at hstate
  · rename_i row t writes object hsave htransaction hobject
    cases hstate
    obtain ⟨object', haccepted⟩ := accepted_of_save hsave
    obtain rfl : object' = object :=
      Option.some.inj (haccepted.present.symm.trans hobject)
    obtain ⟨hreflects, hnewer, hcommitted⟩ := hs.based hfresh haccepted
    have hwritten := written_cons htransaction row
      (s.state.locks.acquireAll worker object'.aggregate.rowKeys)
      (Function.update s.state.objects id (some { object' with aggregate := t }))
    have hafter : s.after (.save worker id now) = { s.history with
        standing := Function.update s.history.standing id (.tentative worker)
        saved := Function.update s.history.saved worker (id :: s.history.saved worker) } := by
      simp only [after, hsave]
    have hkey : RowKey.reference object'.reference ∈ object'.aggregate.rowKeys := by
      unfold Tracked.rowKeys
      split <;> exact List.mem_cons_self ..
    rw [hafter]
    refine ⟨hs.log, fun w r row₁ hrow₁ => ?_, fun w r row₁ row₀ hrow₁ hrow₀ => ?_,
      fun other object hobject' => ?_, fun w other hsaved => ?_⟩
    · rw [hwritten] at hrow₁
      split at hrow₁
      · rename_i hself
        obtain ⟨rfl, rfl⟩ := hself
        rw [haccepted.reference]
        exact Locks.acquireAll_of_mem haccepted.available hkey
      · exact Locks.acquireAll_of_held haccepted.available (hs.held w r row₁ hrow₁)
    · rw [hwritten] at hrow₁
      split at hrow₁
      · rename_i hself
        obtain ⟨rfl, rfl⟩ := hself
        cases hrow₁
        exact hcommitted row₀ (haccepted.reference ▸ hrow₀)
      · exact hs.newer w r row₁ row₀ hrow₁ hrow₀
    · by_cases hother : other = id
      · subst hother
        simp only [Function.update_self, Option.some.injEq] at hobject'
        subst hobject'
        have hreference : t.payment.reference.value = object'.reference := by
          rw [haccepted.payment]
        refine .tentative worker row row.version (Function.update_self ..) haccepted.owner
          haccepted.revision ?_ le_rfl (fun row₀ hrow₀ => ?_) ?_
        · exact (hwritten ..).trans (if_pos ⟨rfl, haccepted.reference.trans hreference.symm⟩)
        · exact hcommitted row₀ (hreference ▸ hrow₀)
        · exact hreflects.trans (by rw [← hreference])
      · simp only [Function.update_of_ne hother] at hobject'
        refine (hs.placed other object hobject').congr rfl rfl rfl (Function.update_of_ne hother ..)
          rfl rfl rfl fun w row₁ _ hrow₁ => ?_
        by_cases hself : w = worker ∧ row.reference = object.reference
        · refine ⟨row, (hwritten ..).trans (if_pos hself), ?_⟩
          obtain ⟨rfl, hsame⟩ := hself
          rw [← hsame, haccepted.reference] at hrow₁
          exact (hnewer row₁ hrow₁).le
        · exact ⟨row₁, (hwritten ..).trans ((if_neg hself).trans hrow₁), le_rfl⟩
    · by_cases hother : other = id
      · subst hother
        refine ⟨?_, _, Function.update_self ..⟩
        by_cases hw : w = worker
        · subst hw
          exact Function.update_self ..
        · -- Only the owner of an object has it in its transaction.
          simp only [Function.update_of_ne hw] at hsaved
          obtain ⟨hstanding, -⟩ := hs.saved w other hsaved
          cases hs.placed other object' hobject with
          | new h₁ => cases h₁.symm.trans hstanding
          | committed _ _ h₁ => cases h₁.symm.trans hstanding
          | tentative w' _ _ h₁ howner =>
              cases h₁.symm.trans hstanding
              exact absurd (howner.symm.trans haccepted.owner) hw
          | orphaned _ h₁ => cases h₁.symm.trans hstanding
      · have hsaved' : other ∈ s.history.saved w := by
          by_cases hw : w = worker
          · subst hw
            simp only [Function.update_self] at hsaved
            exact (List.mem_cons.mp hsaved).resolve_left hother
          · simpa only [Function.update_of_ne hw] using hsaved
        obtain ⟨hstanding, object, hobject'⟩ := hs.saved w other hsaved'
        exact ⟨(Function.update_of_ne hother ..).trans hstanding, object,
          (Function.update_of_ne hother ..).trans hobject'⟩
  · rename_i error hsave
    cases hstate
    have hafter : s.after (.save worker id now) = s.history := by simp only [after, hsave]
    rw [hafter]
    exact hs
  · cases hstate

theorem written_close (s : State) (worker : ℕ) (payments : List PaymentOrmEntity) (other : ℕ)
    (reference : String) :
    State.written { s.close worker with payments := payments } other reference =
      if other = worker then none else s.written other reference := by
  unfold State.written State.close
  by_cases hother : other = worker
  · subst hother
    simp
  · simp [hother]

theorem Invariant.written_eq_none (hs : Invariant s) {other : ℕ} {reference : String}
    {row : PaymentOrmEntity} (hne : other ≠ worker)
    (hrow : s.state.written other reference = some row) :
    s.state.written worker reference = none := by
  cases hwritten : s.state.written worker reference with
  | none => rfl
  | some row' =>
      have hheld := (hs.held other reference row hrow).symm.trans (hs.held worker _ row' hwritten)
      exact absurd (Option.some.inj hheld) hne

theorem rowOf_commit (s : State) (worker : ℕ) (reference : String) :
    rowOf { s.close worker with payments := s.view worker }.payments reference =
      (s.written worker reference).or (rowOf s.payments reference) := rowOf_view s worker reference

theorem Placed.commit (hs : Invariant s) {object : Object} (h : s.Placed id object)
    (hobject : s.state.objects id = some object) :
    Placed ⟨{ s.state.close worker with payments := s.state.view worker },
      s.after (.commit worker)⟩ id object := by
  have hrow := rowOf_commit s.state worker object.reference
  have hlength : (s.history.log object.reference).length ≤
      ((s.after (.commit worker)).log object.reference).length := by
    simp [after]
  have hstays : ∀ standing, s.history.standing id = standing → standing ≠ .tentative worker →
      (s.after (.commit worker)).standing id = standing ∧
        (s.after (.commit worker)).reflects id = s.history.reflects id := by
    rintro _ rfl hne
    simp [after, hobject, latest, hne]
  cases h with
  | new h₁ h₂ h₃ =>
      obtain ⟨hstanding, hreflects⟩ := hstays _ h₁ nofun
      exact .new hstanding h₂ (hreflects.trans h₃)
  | committed row version h₁ h₂ h₃ h₄ h₅ h₆ =>
      obtain ⟨hstanding, hreflects⟩ := hstays _ h₁ nofun
      cases hwritten : s.state.written worker object.reference with
      | some row₁ =>
          have hnewer := hs.newer worker _ row₁ row hwritten h₃
          rw [hwritten] at hrow
          refine .committed row₁ version hstanding h₂ hrow (by omega) ?_ (fun heq => ?_)
          · rw [hreflects]
            exact h₅.trans hlength
          · omega
      | none =>
          have hlog : (s.after (.commit worker)).log object.reference =
              s.history.log object.reference := by
            simp [after, hwritten]
          rw [hwritten, h₃] at hrow
          refine .committed row version hstanding h₂ hrow h₄ ?_ ?_ <;> rw [hreflects, hlog]
          · exact h₅
          · exact h₆
  | tentative w row version h₁ h₂ h₃ h₄ h₅ h₆ h₇ =>
      by_cases hw : w = worker
      · subst hw
        rw [h₄] at hrow
        have hstanding : (s.after (.commit w)).standing id = .committed := by
          simp [after, h₁]
        have hreflects : (s.after (.commit w)).reflects id =
            if version = row.version then
              ((s.after (.commit w)).log object.reference).length
            else (s.history.log object.reference).length := by
          simp [after, hobject, latest, h₁, h₃, h₄, h₇]
        refine .committed row version hstanding h₃ hrow h₅ ?_ fun heq => ?_
        · rw [hreflects]
          split
          · exact le_rfl
          · exact hlength
        · rw [hreflects, if_pos heq]
      · obtain ⟨hstanding, hreflects⟩ := hstays _ h₁ (by simpa using hw)
        have hwritten := hs.written_eq_none hw h₄
        have hlog : (s.after (.commit worker)).log object.reference =
            s.history.log object.reference := by
          simp [after, hwritten]
        rw [hwritten] at hrow
        refine .tentative w row version hstanding h₂ h₃ ?_ h₅ (fun row₀ hrow₀ => ?_) ?_
        · exact (written_close ..).trans ((if_neg hw).trans h₄)
        · exact h₆ row₀ (hrow.symm.trans hrow₀)
        · rw [hreflects, hlog]
          exact h₇
  | orphaned version h₁ h₂ h₃ h₄ =>
      obtain ⟨hstanding, hreflects⟩ := hstays _ h₁ nofun
      refine .orphaned version hstanding h₂ ?_ fun row₀ hrow₀ hversion => ?_ <;> rw [hreflects]
      · exact h₃.trans hlength
      · have hfound := hrow.symm.trans hrow₀
        cases hwritten : s.state.written worker object.reference with
        | some row₁ =>
            simp only [after, hwritten, Option.toList_some, List.length_append,
              List.length_singleton]
            omega
        | none =>
            rw [hwritten] at hfound
            simpa [after, hwritten] using h₄ row₀ hfound hversion

theorem Invariant.saved_close (hs : Invariant s) {e : Event} {w : ℕ}
    (he : e = .commit worker ∨ e = .rollback worker) (hsaved : id ∈ (s.after e).saved w) :
    (s.after e).standing id = .tentative w ∧ ∃ object, s.state.objects id = some object := by
  by_cases hw : w = worker
  · subst hw
    rcases he with rfl | rfl <;> simp [after] at hsaved
  · obtain ⟨hstanding, hobject⟩ := hs.saved w id <| by
      rcases he with rfl | rfl <;> simpa [after, hw] using hsaved
    refine ⟨?_, hobject⟩
    rcases he with rfl | rfl <;> simp [after, hstanding, hw]

theorem Invariant.commit (hs : Invariant s) (h : s.step (.commit worker) = some s') :
    Invariant s' := by
  obtain ⟨state, hstate, rfl⟩ := Option.map_eq_some_iff.mp h
  simp only [TransactionContext.step] at hstate
  split at hstate <;> cases hstate
  have hwritten := written_close s.state worker (s.state.view worker)
  refine ⟨fun reference => ?_, fun w r row hrow => ?_, fun w r row row₀ hrow hrow₀ => ?_,
    fun id object hobject => (hs.placed id object hobject).commit hs hobject,
    fun w id hsaved => ?_⟩
  · refine (rowOf_commit s.state worker reference).trans ?_
    rw [hs.log reference]
    cases hrow : s.state.written worker reference <;> simp [after, hrow]
  · rw [hwritten] at hrow
    split at hrow
    · cases hrow
    · rename_i hw
      exact Locks.release_of_held (hs.held w r row hrow) hw
  · rw [hwritten] at hrow
    split at hrow
    · cases hrow
    · rename_i hw
      have hfound := (rowOf_commit s.state worker r).symm.trans hrow₀
      rw [hs.written_eq_none hw hrow] at hfound
      exact hs.newer w r row row₀ hrow hfound
  · exact hs.saved_close (.inl rfl) hsaved

theorem Placed.rollback {object : Object} (h : s.Placed id object) :
    Placed ⟨s.state.close worker, s.after (.rollback worker)⟩ id object := by
  have hstays : ∀ standing, s.history.standing id = standing → standing ≠ .tentative worker →
      (s.after (.rollback worker)).standing id = standing := by
    rintro _ rfl hne
    simp [after, hne]
  have hwritten := written_close s.state worker s.state.payments
  cases h with
  | new h₁ h₂ h₃ => exact .new (hstays _ h₁ nofun) h₂ h₃
  | committed row version h₁ h₂ h₃ h₄ h₅ h₆ =>
      exact .committed row version (hstays _ h₁ nofun) h₂ h₃ h₄ h₅ h₆
  | tentative w row version h₁ h₂ h₃ h₄ h₅ h₆ h₇ =>
      by_cases hw : w = worker
      · subst hw
        -- The committed row is older than the revision that stays in memory.
        refine .orphaned version (by simp [after, h₁]) h₃ h₇.le fun row₀ hrow₀ hversion => ?_
        exact absurd hversion (h₆ row₀ hrow₀).ne
      · exact .tentative w row version (hstays _ h₁ (by simpa using hw)) h₂ h₃
          ((hwritten ..).trans ((if_neg hw).trans h₄)) h₅ h₆ h₇
  | orphaned version h₁ h₂ h₃ h₄ => exact .orphaned version (hstays _ h₁ nofun) h₂ h₃ h₄

theorem Invariant.rollback (hs : Invariant s) (h : s.step (.rollback worker) = some s') :
    Invariant s' := by
  obtain ⟨state, hstate, rfl⟩ := Option.map_eq_some_iff.mp h
  simp only [TransactionContext.step] at hstate
  split at hstate <;> cases hstate
  have hwritten := written_close s.state worker s.state.payments
  refine ⟨hs.log, fun w r row hrow => ?_, fun w r row row₀ hrow hrow₀ => ?_,
    fun id object hobject => (hs.placed id object hobject).rollback, fun w id hsaved => ?_⟩
  · have hrow := (hwritten w r).symm.trans hrow
    split at hrow
    · cases hrow
    · rename_i hw
      exact Locks.release_of_held (hs.held w r row hrow) hw
  · have hrow := (hwritten w r).symm.trans hrow
    split at hrow
    · cases hrow
    · exact hs.newer w r row row₀ hrow hrow₀
  · exact hs.saved_close (.inr rfl) hsaved

theorem Invariant.step {e : Event} (hs : Invariant s) (hfresh : s.Fresh e)
    (h : s.step e = some s') : Invariant s' := by
  cases e with
  | create worker id payment => exact hs.create h
  | hydrate worker id reference => exact hs.hydrate h
  | mutate id payment => exact hs.mutate h
  | start worker => exact hs.start h
  | save worker id now => exact hs.save hfresh h
  | commit worker => exact hs.commit h
  | rollback worker => exact hs.rollback h

theorem invariant_of_runsUnder {es : List Event} (h : RunsUnder step Fresh init es s) :
    Invariant s :=
  h.invariant (fun _ _ _ hs hfresh hstep => hs.step hfresh hstep) invariant_init

/-- In every run that never saves an orphaned object where the row stands at the
revision it carries: a transaction that commits has saved objects based on the last
committed row, and an object that reflects an older one is not saved. A save that the
condition excludes is based on an older row. -/
theorem stale_aggregates {es : List Event} (h : RunsUnder step Fresh init es s) :
    (∀ worker s', s.step (.commit worker) = some s' → ∀ id ∈ s.history.saved worker,
      ∃ object, s.state.objects id = some object ∧
        s.history.reflects id = (s.history.log object.reference).length ∧
        rowOf s.state.payments object.reference =
          (s.history.log object.reference).getLast?) ∧
    (∀ worker id now object s', s.state.objects id = some object →
      s.step (.save worker id now) = some s' → s.Fresh (.save worker id now) →
      s.history.reflects id ≠ (s.history.log object.reference).length →
        s.state.save worker id now = some (.error (.concurrentPayment object.reference)) ∧
          s' = s) ∧
    (∀ worker id now object result, s.state.objects id = some object →
      s.state.save worker id now = some (.ok result) →
      s.state.written worker object.reference = none → ¬ s.Fresh (.save worker id now) →
        s.history.reflects id < (s.history.log object.reference).length) := by
  have hs := invariant_of_runsUnder h
  refine ⟨fun worker s' _ id hsaved => ?_, fun worker id now object s' hobject hstep hfresh
    hstale => ?_, fun worker id now object result hobject hsave hunwritten hexcluded => ?_⟩
  · obtain ⟨hstanding, object, hobject⟩ := hs.saved worker id hsaved
    refine ⟨object, hobject, ?_, hs.log _⟩
    cases hs.placed id object hobject with
    | new h₁ => cases h₁.symm.trans hstanding
    | committed _ _ h₁ => cases h₁.symm.trans hstanding
    | tentative _ _ _ _ _ _ _ _ _ hreflects => exact hreflects
    | orphaned _ h₁ => cases h₁.symm.trans hstanding
  · obtain ⟨state, hstate, rfl⟩ := Option.map_eq_some_iff.mp hstep
    simp only [TransactionContext.step] at hstate
    split at hstate
    · rename_i row t writes object' hsave htransaction hobject'
      obtain ⟨object₁, haccepted⟩ := accepted_of_save hsave
      obtain rfl : object₁ = object := Option.some.inj (haccepted.present.symm.trans hobject)
      exact absurd (hs.based hfresh haccepted).1 hstale
    · rename_i error hsave
      cases hstate
      obtain ⟨object₁, hobject₁, rfl⟩ := error_of_save hsave
      obtain rfl : object₁ = object := Option.some.inj (hobject₁.symm.trans hobject)
      exact ⟨hsave, by simp only [after, hsave]⟩
    · cases hstate
  · obtain ⟨row, t⟩ := result
    obtain ⟨object₁, haccepted⟩ := accepted_of_save hsave
    obtain rfl : object₁ = object := Option.some.inj (haccepted.present.symm.trans hobject)
    simp only [Fresh, not_forall, ne_eq, not_not] at hexcluded
    obtain ⟨hstanding, object₂, row₀, hobject₂, hrow₀, hrevision⟩ := hexcluded
    obtain rfl : object₁ = object₂ := Option.some.inj (hobject.symm.trans hobject₂)
    rw [rowOf_view, hunwritten] at hrow₀
    cases hs.placed id object₁ hobject with
    | new h₁ => cases h₁.symm.trans hstanding
    | committed _ _ h₁ => cases h₁.symm.trans hstanding
    | tentative _ _ _ h₁ => cases h₁.symm.trans hstanding
    | orphaned version _ hversion _ hstale =>
        exact hstale row₀ hrow₀ (Option.some.inj (hrevision.symm.trans hversion))

def samplePayment (status : PaymentStatus) : Payment where
  reference := ⟨"pay_00000000000000000000000001", Eq.refl true⟩
  transactionId := "order-1"
  money := ⟨500, .XOF, Money.minimum_le_fiveHundred, Money.step_dvd_fiveHundred⟩
  source := ⟨"wlt_00000000000000000000000001", Eq.refl true⟩
  destination := ⟨"wlt_00000000000000000000000002", Eq.refl true⟩
  description := "Order 1"
  metadata := none
  status := status
  createdAt := 0
  updatedAt := 0
  failureReason := none
  debitTransactionReference := none
  creditTransactionReference := none
  refundTransactionReference := none
  completedAt := none
  events := []

def superseded (s : Observed) (worker id : ℕ) : Bool :=
  (s.state.objects id).all fun object =>
    (rowOf (s.state.view worker) object.reference).all fun row =>
      object.aggregate.revision != some row.version

/-- Only saves of orphaned objects are excluded, and not even all of them. -/
def isFresh (s : Observed) : Event → Bool
  | .save worker id _ => s.history.standing id != .orphaned || s.superseded worker id
  | _ => true

theorem fresh_of_isFresh {e : Event} (h : s.isFresh e = true) : s.Fresh e := by
  cases e with
  | save worker id now =>
      intro horphaned object row hobject hrow hrevision
      simp [isFresh, superseded, horphaned, hobject, hrow, hrevision] at h
  | _ => trivial

/-- Worker 0 commits a payment, saves it again in a transaction that rolls back, and
once more before anyone else has moved the row, which is refused. Then worker 1 reads
it and saves it as Declined. -/
def committedRun : List Event :=
  [.create 0 0 (samplePayment .pending), .start 0, .save 0 0 0, .commit 0,
    .start 0, .mutate 0 (samplePayment .processing), .save 0 0 0, .rollback 0,
    .start 0, .save 0 0 0, .rollback 0,
    .hydrate 1 1 "pay_00000000000000000000000001", .start 1,
    .mutate 1 (samplePayment .declined), .save 1 1 0]

theorem stale_aggregates_committedRun :
    ∃ s s', run step init committedRun = some s ∧ s.step (.commit 1) = some s' ∧
      s.history.standing 0 = .orphaned ∧
      ∃ object, s.state.objects 1 = some object ∧
        s.history.reflects 1 = (s.history.log object.reference).length := by
  have h : (run (guarded step fun s e => s.isFresh e = true) init committedRun).map
      (fun s => ((s.step (.commit 1)).isSome, s.history.standing 0, s.history.saved 1)) =
        some (true, .orphaned, [1]) := by
    decide +kernel
  obtain ⟨s, hguarded, hs⟩ := Option.map_eq_some_iff.mp h
  obtain ⟨hcommit, hs⟩ := Prod.mk.inj hs
  obtain ⟨hstanding, hsaved⟩ := Prod.mk.inj hs
  obtain ⟨s', hcommit⟩ := Option.isSome_iff_exists.mp hcommit
  have hunder : RunsUnder step Fresh init committedRun s :=
    runsUnder_of_guarded (fun _ _ => fresh_of_isFresh) hguarded
  obtain ⟨object, hobject, hreflects, -⟩ :=
    (stale_aggregates hunder).1 1 s' hcommit 1 (by rw [hsaved]; exact List.mem_singleton_self 1)
  exact ⟨s, s', hunder.run_eq_some, hcommit, hstanding, object, hobject, hreflects⟩

/-- The transaction in which worker 0 saved its object again rolls back. Worker 1
commits that version, and worker 0 saves its object once more. -/
def orphanedRun : List Event :=
  [.create 0 0 (samplePayment .pending), .start 0, .save 0 0 0, .commit 0,
    .start 0, .mutate 0 (samplePayment .processing), .save 0 0 0, .rollback 0,
    .hydrate 1 1 "pay_00000000000000000000000001", .start 1,
    .mutate 1 (samplePayment .declined), .save 1 1 0, .commit 1,
    .start 0, .save 0 0 0]

/-- A commit of Processing over a Declined that its object has never seen. -/
theorem orphanedRun_stale_aggregates :
    ∃ s s', run step init orphanedRun = some s ∧ s.step (.commit 0) = some s' ∧
      (∃ id ∈ s.history.saved 0, ∃ object, s.state.objects id = some object ∧
        s.history.reflects id ≠ (s.history.log object.reference).length) ∧
      s.state.payments.map (·.status) = [.declined] ∧
      s'.state.payments.map (·.status) = [.processing] := by
  have h : (run step init orphanedRun).map (fun s =>
      ((s.step (.commit 0)).map fun s' => s'.state.payments.map (·.status),
        s.state.payments.map (·.status), s.history.saved 0,
        (s.state.objects 0).map fun object =>
          (s.history.reflects 0, (s.history.log object.reference).length))) =
      some (some [.processing], [.declined], [0], some (1, 2)) := by
    decide +kernel
  obtain ⟨s, hrun, hs⟩ := Option.map_eq_some_iff.mp h
  obtain ⟨hcommit, hs⟩ := Prod.mk.inj hs
  obtain ⟨hbefore, hs⟩ := Prod.mk.inj hs
  obtain ⟨hsaved, hs⟩ := Prod.mk.inj hs
  obtain ⟨s', hcommit, hafter⟩ := Option.map_eq_some_iff.mp hcommit
  obtain ⟨object, hobject, hcounts⟩ := Option.map_eq_some_iff.mp hs
  obtain ⟨hreflects, hlength⟩ := Prod.mk.inj hcounts
  refine ⟨s, s', hrun, hcommit, ⟨0, ?_, object, hobject, ?_⟩, hbefore, hafter⟩
  · rw [hsaved]
    exact List.mem_singleton_self 0
  · rw [hreflects, hlength]
    decide

end Observed

end TransactionContext

end Payments

end Paynad
