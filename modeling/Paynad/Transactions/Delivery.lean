import Mathlib.Data.List.NodupEquivFin
import Paynad.Library.FixedWidth
import Paynad.Library.Possible
import Paynad.Payments.Protocol.RelayProgress
import Paynad.Transactions.Pipeline

/-!
# What is committed can still be recorded

A movement that a saga has handed over passes through the relay, the broker and the
consumers before the ledger has it, and each of them may stop at any moment. None of
that loses it: from every state the relay and the consumers can still bring every
message that passes validation into the ledger, one after the other.
-/

namespace Paynad

namespace Transactions

open Shared Transition

/-! ## A reference that no row has -/

def numberedReference (n : ℕ) : String :=
  "trx_" ++ String.ofList (FixedWidth.numeral 10 Nat.digitChar referenceBodyLength n [])

theorem digitChar_lt : ∀ i j, i < j → j < 10 → Nat.digitChar i < Nat.digitChar j := by
  have hdigits : ∀ j < 10, ∀ i < j, Nat.digitChar i < Nat.digitChar j := by decide
  exact fun i j hij hj => hdigits j hj i hij

theorem referencePattern_numbered (n : ℕ) :
    referencePattern .TRANSACTION (numberedReference n) = true := by
  have hfour : "trx_".toList.length = 4 := rfl
  have hchars : ∀ c ∈ FixedWidth.numeral 10 Nat.digitChar referenceBodyLength n [],
      isReferenceBodyChar c = true := by
    intro c hc
    have hdigits : ∀ k < 10, isReferenceBodyChar (Nat.digitChar k) = true := by decide
    rcases FixedWidth.mem_numeral (by decide) hc with ⟨k, hk, rfl⟩ | hnil
    · exact hdigits k hk
    · cases hnil
  simp only [referencePattern, numberedReference, String.toList_append, String.toList_ofList]
  rw [List.take_left' hfour, List.drop_left' hfour, FixedWidth.length_numeral]
  simp only [Bool.and_eq_true, beq_iff_eq, List.all_eq_true]
  exact ⟨⟨rfl, rfl⟩, hchars⟩

theorem numberedReference_ne {n m : ℕ} (h : n < m) (hm : m < 10 ^ referenceBodyLength) :
    numberedReference n ≠ numberedReference m := by
  intro heq
  have hlist := congrArg String.toList heq
  simp only [numberedReference, String.toList_append, String.toList_ofList] at hlist
  have hlt : FixedWidth.numeral 10 Nat.digitChar referenceBodyLength n [] <
      FixedWidth.numeral 10 Nat.digitChar referenceBodyLength m [] :=
    FixedWidth.numeral_lt digitChar_lt h hm
  rw [List.append_cancel_left hlist] at hlt
  exact List.lt_irrefl _ hlt

/-- A numbered reference is left as long as not all of them are taken. -/
theorem exists_numbered {texts : List String} (hroom : texts.length < 10 ^ referenceBodyLength) :
    ∃ n, numberedReference n ∉ texts := by
  by_contra hall
  rw [not_exists] at hall
  -- One more reference than there are texts.
  have hnodup : ((List.range (texts.length + 1)).map numberedReference).Nodup := by
    refine List.nodup_range.map_on fun n hn m hm heq => ?_
    rw [List.mem_range] at hn hm
    rcases Nat.lt_trichotomy n m with hlt | hlt | hlt
    · exact absurd heq (numberedReference_ne hlt (by omega))
    · exact hlt
    · exact absurd heq.symm (numberedReference_ne hlt (by omega))
  have hsubset : (List.range (texts.length + 1)).map numberedReference ⊆ texts := by
    intro reference hreference
    obtain ⟨n, -, rfl⟩ := List.mem_map.mp hreference
    exact not_not.mp (hall n)
  have hlength := (hnodup.subperm hsubset).length_le
  rw [List.length_map, List.length_range] at hlength
  omega

theorem exists_generated {rows : List Transaction}
    (hroom : rows.length < 10 ^ referenceBodyLength) :
    ∃ generated : Generated, ∀ row ∈ rows,
      row.id ≠ generated.id ∧ row.reference ≠ generated.reference := by
  obtain ⟨n, hid⟩ := @exists_numbered (rows.map (·.id)) (by rwa [List.length_map])
  obtain ⟨m, hreference⟩ := @exists_numbered (rows.map (·.reference)) (by rwa [List.length_map])
  exact ⟨⟨numberedReference n, numberedReference m, 0, referencePattern_numbered m⟩,
    fun row hrow => ⟨fun heq => hid (List.mem_map.mpr ⟨row, hrow, heq⟩),
      fun heq => hreference (List.mem_map.mpr ⟨row, hrow, heq⟩)⟩⟩

/-- The insertion stores a row that fits, under an id, a reference and a transaction id that
no row has. -/
theorem append_fresh {timestamps : Timestamps} {rows : List Transaction} {row : Transaction}
    (hstorable : timestamps.storable row.occurredAt = true) (hfits : row.fits = true)
    (hfresh : ∀ other ∈ rows, other.id ≠ row.id ∧ other.reference ≠ row.reference)
    (hnone : findByTransactionId rows row.transactionId = none) :
    append timestamps rows (some row) = .ok row := by
  have hid : (rows.any fun other => other.id = row.id) = false :=
    List.any_eq_false.mpr fun other hother => by simpa using (hfresh other hother).1
  have hreference : (rows.any fun other => other.reference = row.reference) = false :=
    List.any_eq_false.mpr fun other hother => by simpa using (hfresh other hother).2
  have htransactionId : (rows.any fun other => other.transactionId = row.transactionId) = false :=
    List.any_eq_false.mpr fun other hother => by
      simpa using Table.find_eq_none_iff.mp hnone other hother
  simp only [append, hstorable, hfits, hid, hreference, htransactionId, Bool.not_true,
    Bool.false_eq_true, if_false]

namespace Ledger

variable {timestamps : Timestamps} {s t : State} {e : Event} {es : List Event} {c : ℕ}
  {request : RecordTransactionRequest} {call : Call}

def State.Holds (s : State) (transactionId : String) : Prop :=
  ∃ row ∈ s.rows, row.transactionId = transactionId

def Event.advances : Event → Bool
  | .advance _ _ .none => true
  | _ => false

def Bounded (s : State) : Prop := ∃ n, ∀ c, n ≤ c → s.calls c = none

theorem bounded_init : Bounded init := ⟨0, fun _ _ => rfl⟩

theorem Bounded.step (hbounded : Bounded s) (h : step timestamps s e = some t) : Bounded t := by
  obtain ⟨n, hn⟩ := hbounded
  have hput : ∀ (c' : ℕ) (call : Call) c, max n (c' + 1) ≤ c → (s.put c' call).calls c = none :=
    fun c' call c hc => (put_calls_of_ne s call (by omega)).trans (hn c (by omega))
  cases step_cases h with
  | delivered c' _ _ _ _ hstate =>
      rw [hstate]
      exact ⟨_, hput c' _⟩
  | moved c' _ _ _ _ _ hstate =>
      rw [hstate]
      exact ⟨_, hput c' _⟩
  | appended c' _ _ _ _ _ _ _ _ _ _ _ hstate =>
      rw [hstate]
      exact ⟨_, hput c' _⟩

theorem State.Holds.step {transactionId : String} (hholds : s.Holds transactionId)
    (h : step timestamps s e = some t) : t.Holds transactionId := by
  obtain ⟨row, hrow, hid⟩ := hholds
  refine ⟨row, ?_, hid⟩
  cases step_cases h with
  | delivered _ _ _ _ _ hstate =>
      rw [hstate]
      exact hrow
  | moved _ _ _ _ _ _ hstate =>
      rw [hstate]
      exact hrow
  | appended _ _ _ _ _ _ _ _ _ _ _ _ hstate =>
      rw [hstate, State.rows, List.map_append]
      exact List.mem_append_left _ hrow

/-- A delivered request that can be stored is stored by its call, if it is not already. -/
theorem possible_recorded (hvalid : request.Valid timestamps) {instant : ℤ}
    (hparse : timestamps.parse request.occurredAt = some instant)
    (hstorable : timestamps.storable instant = true)
    (hcall : s.calls c = some ⟨.queue, request, .looking⟩)
    (hroom : s.rows.length < 10 ^ referenceBodyLength) :
    Possible (step timestamps) (fun e => e.advances = true)
      (fun t => t.Holds request.transactionId ∧ t.rows.length ≤ s.rows.length + 1) s := by
  obtain ⟨generated, hfresh⟩ := exists_generated hroom
  cases hfound : findByTransactionId s.rows request.transactionId with
  | some row =>
      exact .now ⟨⟨row, Table.mem_of_find hfound, Table.key_of_find hfound⟩, Nat.le_succ _⟩
  | none =>
      obtain ⟨row, hrow⟩ : ∃ row, Transaction.ofRequest timestamps request generated = some row := by
        rw [Transaction.ofRequest, hparse]
        exact ⟨_, rfl⟩
      obtain ⟨instant', hparse', hrow'⟩ := Option.map_eq_some_iff.mp hrow
      obtain rfl : instant' = instant := Option.some.inj (hparse'.symm.trans hparse)
      have hid := transactionId_ofRequest hrow
      have happend : append timestamps s.rows (some row) = .ok row := by
        refine append_fresh (hrow' ▸ hstorable) (fits_of_valid hvalid hrow) ?_ (hid ▸ hfound)
        exact fun other hother => hrow' ▸ hfresh other hother
      let s₁ : State := s.put c ⟨.queue, request, .appending⟩
      have hlooked : step timestamps s (.advance c generated .none) = some s₁ := by
        simp only [step, hcall, Stage.over, resume, hfound, Bool.false_eq_true, if_false,
          Option.toList_none, List.map_nil, List.append_nil]
        rfl
      let s₂ : State :=
        { s₁.put c ⟨.queue, request, .returned ⟨row, true⟩⟩ with
          appends := s.appends ++ [(c, row)] }
      have happended : step timestamps s₁ (.advance c generated .none) = some s₂ := by
        have hrows : s₁.rows = s.rows := rfl
        simp [step, Stage.over, resume, hrows, hrow, happend, s₁, s₂]
      have hrows : s₂.rows = s.rows ++ [row] := by simp [s₂, State.rows]
      refine .later _ rfl hlooked (.later _ rfl happended (.now ⟨⟨row, ?_, hid⟩, ?_⟩))
      · rw [hrows]
        exact List.mem_append_right _ (List.mem_singleton_self row)
      · rw [hrows, List.length_append, List.length_singleton]

end Ledger

namespace Pipeline

variable {unicode : Unicode} {timestamps : Timestamps} {s t : State} {e : Event}
  {m : Payments.OutboxMessage} {request : RecordTransactionRequest}
  {payments : Payments.Workers.State}

/-- What the relay, the broker and the consumers do among themselves. -/
def Event.carries : Event → Bool
  | .pay _ _ => false
  | .relay event => event.relays
  | .consume _ _ => true
  | .ledger event => event.advances

/-- The instant of a request is one that the database can store. -/
def Storable (timestamps : Timestamps) (request : RecordTransactionRequest) : Prop :=
  ∃ instant, timestamps.parse request.occurredAt = some instant ∧
    timestamps.storable instant = true

theorem parts_of_step (h : step unicode timestamps s e = some t) :
    (t.relay = s.relay ∨ ∃ event, Payments.OutboxRelay.step s.relay event = some t.relay) ∧
    (t.ledger = s.ledger ∨ ∃ event, Ledger.step timestamps s.ledger event = some t.ledger) ∧
    ((∀ event now, e ≠ .pay event now) → t.payments = s.payments) := by
  cases e with
  | pay event now =>
      obtain ⟨p, -, rfl⟩ := Option.map_eq_some_iff.mp h
      exact ⟨.inr ⟨.enqueue (committed s.payments p) now, rfl⟩, .inl rfl,
        fun hpay => absurd rfl (hpay event now)⟩
  | relay event =>
      cases event with
      | enqueue messages now => cases h
      | _ =>
          obtain ⟨r, hr, rfl⟩ := Option.map_eq_some_iff.mp h
          exact ⟨.inr ⟨_, hr⟩, .inl rfl, fun _ => rfl⟩
  | consume c n =>
      simp only [step] at h
      split at h
      · cases h
      · split_ifs at h
        split at h
        · obtain rfl := Option.some.inj h
          exact ⟨.inl rfl, .inl rfl, fun _ => rfl⟩
        · obtain ⟨l, hl, rfl⟩ := Option.map_eq_some_iff.mp h
          exact ⟨.inl rfl, .inr ⟨_, hl⟩, fun _ => rfl⟩
  | ledger event =>
      have hledger : (Ledger.step timestamps s.ledger event).map (fun ledger =>
          { s with ledger := ledger }) = some t := by
        cases event with
        | deliver c entry request =>
            cases entry with
            | queue => cases h
            | http => exact h
        | _ => exact h
      obtain ⟨l, hl, rfl⟩ := Option.map_eq_some_iff.mp hledger
      exact ⟨.inl rfl, .inr ⟨_, hl⟩, fun _ => rfl⟩

/-- Nothing has been lost on the way, and the sagas have stopped. -/
structure Underway (unicode : Unicode) (timestamps : Timestamps)
    (payments : Payments.Workers.State) (s : State) : Prop where
  sound : Sound unicode timestamps s
  acknowledged : Payments.OutboxRelay.Acknowledged s.relay
  bounded : Ledger.Bounded s.ledger
  stopped : s.payments = payments

theorem Underway.step (h : Underway unicode timestamps payments s)
    (hstep : step unicode timestamps s e = some t) :
    Underway unicode timestamps t.payments t := by
  obtain ⟨hrelay, hledger, -⟩ := parts_of_step hstep
  refine ⟨sound_step h.sound hstep, ?_, ?_, rfl⟩
  · rcases hrelay with heq | ⟨event, hevent⟩
    · exact heq ▸ h.acknowledged
    · exact h.acknowledged.step h.sound.relay hevent
  · rcases hledger with heq | ⟨event, hevent⟩
    · exact heq ▸ h.bounded
    · exact h.bounded.step hevent

theorem Underway.carried (h : Underway unicode timestamps payments s) (he : e.carries = true)
    (hstep : Pipeline.step unicode timestamps s e = some t) :
    Underway unicode timestamps payments t := by
  have hpayments := (parts_of_step hstep).2.2 (by rintro event now rfl; cases he)
  exact (hpayments.trans h.stopped) ▸ h.step hstep

theorem underway_of_reachable (h : Reachable (step unicode timestamps) init s) :
    Underway unicode timestamps s.payments s :=
  h.invariant (I := fun s => Underway unicode timestamps s.payments s)
    ⟨sound_init, Payments.OutboxRelay.acknowledged_init, Ledger.bounded_init, rfl⟩
    fun _ _ _ hs hstep => hs.step hstep

theorem step_relay {event : Payments.OutboxRelay.Event} (hevent : event.relays = true) :
    step unicode timestamps s (.relay event) =
      (Payments.OutboxRelay.step s.relay event).map fun relay => { s with relay := relay } := by
  cases event <;> first | rfl | cases hevent

/-- Every message of the outbox can still be brought to the queue. -/
theorem Underway.possible_queued (h : Underway unicode timestamps payments s)
    (hm : m ∈ payments.database.outbox) :
    Possible (Pipeline.step unicode timestamps) (fun e => e.carries = true)
      (fun t => Underway unicode timestamps payments t ∧ t.ledger = s.ledger ∧
        Payments.OutboxRelay.Queued t.relay m) s := by
  rw [← h.stopped, ← h.sound.outbox] at hm
  obtain ⟨row, hrow, rfl⟩ := List.mem_map.mp hm
  obtain ⟨id, hid⟩ := List.getElem?_of_mem hrow
  have hpossible : Possible (Pipeline.step unicode timestamps)
      (fun e => ∃ event : Payments.OutboxRelay.Event, e = .relay event ∧ event.relays = true)
      (fun t => Payments.OutboxRelay.Queued t.relay row.message) s := by
    refine Possible.lift Event.relay State.relay (fun x event r hevent hr => ?_)
      (Payments.OutboxRelay.possible_queued h.sound.relay h.acknowledged hid)
    exact ⟨⟨event, rfl, hevent⟩, { x with relay := r }, by rw [step_relay hevent, hr]; rfl, rfl⟩
  have hkept : ∀ x e y, (Underway unicode timestamps payments x ∧ x.ledger = s.ledger) →
      (∃ event : Payments.OutboxRelay.Event, e = .relay event ∧ event.relays = true) →
      Pipeline.step unicode timestamps x e = some y →
      Underway unicode timestamps payments y ∧ y.ledger = s.ledger := by
    rintro x _ y ⟨hx, hledger⟩ ⟨event, rfl, hevent⟩ hstep
    refine ⟨hx.carried (show (Event.relay event).carries = true from hevent) hstep, ?_⟩
    rw [step_relay hevent] at hstep
    obtain ⟨r, -, rfl⟩ := Option.map_eq_some_iff.mp hstep
    exact hledger
  refine ((hpossible.keep hkept ⟨h, rfl⟩).mono ?_).weaken ?_
  · rintro t ⟨hqueued, ht, hledger⟩
    exact ⟨ht, hledger, hqueued⟩
  · rintro _ ⟨event, rfl, hevent⟩
    exact hevent

theorem Underway.deliver (h : Underway unicode timestamps payments s)
    (hqueued : Payments.OutboxRelay.Queued s.relay m) (hasks : Asks unicode timestamps m request) :
    ∃ c n, Pipeline.step unicode timestamps s (.consume c n) =
      some { s with ledger := s.ledger.put c ⟨.queue, request, .looking⟩ } := by
  obtain ⟨n, hn, emission, hemission, htype, hpayload⟩ := hqueued
  obtain ⟨c, hc⟩ := h.bounded
  obtain ⟨hrecorded, entries, hentries, hvalid, hread⟩ := hasks
  obtain rfl := Json.obj.inj hentries
  have hconsumed : consumed unicode timestamps emission = some request := by
    rw [consumed, htype, hpayload, if_pos ⟨hrecorded, hvalid⟩, hread]
  refine ⟨c, n, ?_⟩
  simp only [Pipeline.step, hemission, if_pos hn, hconsumed, Ledger.step, hc c le_rfl, Option.map_some]

theorem step_advance {event : Ledger.Event} (hevent : event.advances = true) :
    step unicode timestamps s (.ledger event) =
      (Ledger.step timestamps s.ledger event).map fun ledger => { s with ledger := ledger } := by
  cases event with
  | deliver c entry request => cases hevent
  | _ => rfl

/-- Every message of the outbox that asks for a row can still get it. -/
theorem Underway.possible_recorded (h : Underway unicode timestamps payments s)
    (hm : m ∈ payments.database.outbox) (hasks : Asks unicode timestamps m request)
    (hstorable : Storable timestamps request)
    (hroom : s.ledger.rows.length < 10 ^ referenceBodyLength) :
    Possible (Pipeline.step unicode timestamps) (fun e => e.carries = true)
      (fun t => t.ledger.Holds request.transactionId ∧
        t.ledger.rows.length ≤ s.ledger.rows.length + 1) s := by
  obtain ⟨-, -, -, hvalid⟩ := says_of_passes hasks.2
  obtain ⟨instant, hparse, hinstant⟩ := hstorable
  refine (h.possible_queued hm).trans fun t ⟨ht, hledger, hqueued⟩ => ?_
  obtain ⟨c, n, hconsume⟩ := ht.deliver hqueued hasks
  let u : State := { t with ledger := t.ledger.put c ⟨.queue, request, .looking⟩ }
  have hrows : u.ledger.rows = s.ledger.rows := by
    rw [show u.ledger.rows = t.ledger.rows from rfl, hledger]
  have hpossible : Possible (Pipeline.step unicode timestamps) (fun e => e.carries = true)
      (fun t => t.ledger.Holds request.transactionId ∧
        t.ledger.rows.length ≤ u.ledger.rows.length + 1) u := by
    refine Possible.lift Event.ledger State.ledger (fun x event l hevent hl => ?_)
      (Ledger.possible_recorded hvalid hparse hinstant (Ledger.put_calls_self ..) (hrows ▸ hroom))
    exact ⟨hevent, { x with ledger := l }, by rw [step_advance hevent, hl]; rfl, rfl⟩
  exact .later (.consume c n) rfl hconsume (hrows ▸ hpossible)

/-- From every state the relay and the consumers alone can bring into the ledger every
message of the outbox that passes validation. -/
theorem Underway.possible_all (h : Underway unicode timestamps payments s)
    (hroom : s.ledger.rows.length + payments.database.outbox.length ≤ 10 ^ referenceBodyLength) :
    Possible (Pipeline.step unicode timestamps) (fun e => e.carries = true)
      (fun t => Underway unicode timestamps payments t ∧ ∀ m ∈ payments.database.outbox,
        ∀ request, Asks unicode timestamps m request → Storable timestamps request →
          t.ledger.Holds request.transactionId) s := by
  refine Possible.all (fun s => s.ledger.rows.length)
    (fun _ _ _ hs he hstep => hs.carried he hstep) ?_ ?_ h hroom
  · intro m s e t hs he hstep hgoal request hasks hstorable
    have hholds := hgoal request hasks hstorable
    rcases (parts_of_step hstep).2.1 with heq | ⟨event, hevent⟩
    · exact heq ▸ hholds
    · exact hholds.step hevent
  · intro m hm s hs hsize
    by_cases hasked : ∃ request, Asks unicode timestamps m request ∧ Storable timestamps request
    · obtain ⟨request, hasks, hstorable⟩ := hasked
      refine (hs.possible_recorded hm hasks hstorable hsize).mono fun t ⟨hholds, ht⟩ =>
        ⟨fun request' hasks' _ => ?_, ht⟩
      -- A payload reads as one request.
      obtain ⟨-, entries, hentries, -, hread⟩ := hasks
      obtain ⟨-, entries', hentries', -, hread'⟩ := hasks'
      obtain rfl := Json.obj.inj (hentries.symm.trans hentries')
      exact Option.some.inj (hread.symm.trans hread') ▸ hholds
    · exact .now ⟨fun request hasks hstorable => absurd ⟨request, hasks, hstorable⟩ hasked,
        Nat.le_succ _⟩

end Pipeline

end Transactions

end Paynad
