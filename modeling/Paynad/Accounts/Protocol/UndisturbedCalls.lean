import Paynad.Accounts.Protocol.Balances
import Mathlib.Data.Set.Finite.Lattice

/-!
# A movement that nothing disturbs

A call that runs from its first await to its answer while no other call takes a step,
on a wallet whose row no transaction holds, under a key that has no entry: it moves the
balance by its amount and appends its entry. What the next such call needs is there
again, so that the movements of a list follow each other (`run_movements`).
-/

namespace Paynad

namespace Accounts

open Shared Transition

def movementKey (c : ℕ) : String := "movement-" ++ c.repr

/-- No transaction holds the row of a wallet, and from `n` on calls and keys are unused. -/
structure Idle (s : State) (wallet : Wallet) (n : ℕ) : Prop where
  row : s.row wallet.id = some wallet
  reference : s.findByReference wallet.reference = some wallet
  unlocked : s.locks wallet.id = none
  calls : ∀ c, n ≤ c → s.calls c = none
  keys : ∀ c, n ≤ c → s.findByIdempotencyKey wallet.id (movementKey c) = none

variable {s t : State} {wallet : Wallet} {c n : ℕ} {call : Call} {stage stage' : Stage}
  {request : BalanceOperationRequest} {type : TransactionType} {trx : String}

theorem movementKey_injective : Function.Injective movementKey := by
  intro c c' h
  have hdigits : c.repr = c'.repr := by simpa [movementKey] using h
  have hlist := congrArg (fun text : String => Nat.ofDigitChars 10 text.toList 0) hdigits
  simpa [Nat.toList_repr] using hlist

theorem goTo_goTo : (s.goTo c call stage).goTo c { call with stage := stage } stage' =
    s.goTo c call stage' := by
  simp [State.goTo]

theorem step_goTo : Numbers.step (s.goTo c call stage) (.resume c trx) =
    Numbers.resume (s.goTo c call stage) c { call with stage := stage } trx := by
  rw [Numbers.step, goTo_calls_self]
  rfl

def settled (s : State) (c : ℕ) (call : Call) (wallet : Wallet) (trx : String) : State :=
  let version := wallet.move call.delta
  let entry := call.append version trx
  ((State.commit { s with locks := s.locks.acquire c wallet.id } version entry).unlock c).goTo
    c call (.done (.ok (.approved entry)))

def movement (c : ℕ) (reference : String) (request : BalanceOperationRequest) (trx : String) :
    TransactionType → List Event
  | .CREDIT => .credit c reference request :: List.replicate 7 (.resume c trx)
  | _ => .debit c reference request :: List.replicate 7 (.resume c trx)

theorem assertOperable_read (hactive : wallet.status = .ACTIVE)
    (hcurrency : wallet.currency = request.currency) :
    assertOperable wallet.read request = .ok () := by
  simp [assertOperable, Wallet.read, hactive, hcurrency]

theorem run_resumes (h : Idle s wallet n) (hreference : call.reference = wallet.reference)
    (hkey : call.request.transactionId = movementKey n)
    (haccepts : wallet.accepts call.delta call.request.currency = true) :
    run Numbers.step (s.goTo n call .reading) (List.replicate 7 (.resume n trx)) =
      some (settled s n call wallet trx) := by
  have hactive : wallet.status = .ACTIVE ∧ wallet.currency = call.request.currency := by
    simp only [Wallet.accepts, Bool.and_eq_true, decide_eq_true_eq] at haccepts
    exact haccepts.1
  have hnone : s.findByIdempotencyKey wallet.id call.request.transactionId = none := by
    rw [hkey]
    exact h.keys n le_rfl
  have havailable : s.locks.available n wallet.id = true :=
    Locks.available_of_free h.unlocked
  have hreading : Numbers.step (s.goTo n call .reading) (.resume n trx) =
      some (s.goTo n call (.looking wallet.read)) := by
    have hfind : (s.goTo n call .reading).findByReference call.reference = some wallet := by
      rw [hreference]
      exact h.reference
    simp only [step_goTo, Numbers.resume, hfind, goTo_goTo]
  have hlooking : Numbers.step (s.goTo n call (.looking wallet.read)) (.resume n trx) =
      some (s.goTo n call (.checking wallet.read)) := by
    have hfind : (s.goTo n call (.looking wallet.read)).findByIdempotencyKey wallet.read.id
        call.request.transactionId = none := hnone
    simp only [step_goTo, Numbers.resume, hfind, goTo_goTo]
  have hchecking : Numbers.step (s.goTo n call (.checking wallet.read)) (.resume n trx) =
      some (s.goTo n call (.moving wallet.read)) := by
    have hoperable := assertOperable_read hactive.1 hactive.2
    simp only [step_goTo, Numbers.resume, Accounts.resume, hoperable, goTo_goTo]
  have hmoving : Numbers.step (s.goTo n call (.moving wallet.read)) (.resume n trx) =
      some (State.goTo { s with locks := s.locks.acquire n wallet.id } n call
        (.appending (wallet.move call.delta))) := by
    have hrow : (s.goTo n call (.moving wallet.read)).row wallet.read.id = some wallet := h.row
    have hfree : (s.goTo n call (.moving wallet.read)).locks.available n wallet.id = true :=
      havailable
    have hdelta : Call.delta { call with stage := .moving wallet.read } = call.delta := rfl
    simp only [step_goTo, Numbers.resume, Accounts.resume, update, hrow, hdelta, haccepts,
      if_true, hfree]
    simp [State.goTo]
  have happending : Numbers.step (State.goTo { s with locks := s.locks.acquire n wallet.id } n
        call (.appending (wallet.move call.delta))) (.resume n trx) =
      some (State.goTo { s with locks := s.locks.acquire n wallet.id } n call
        (.committing (wallet.move call.delta) (call.append (wallet.move call.delta) trx))) := by
    have hfind : (State.goTo { s with locks := s.locks.acquire n wallet.id } n call
        (.appending (wallet.move call.delta))).findByIdempotencyKey
          (wallet.move call.delta).id call.request.transactionId = none := hnone
    simp only [step_goTo, Numbers.resume, hfind, goTo_goTo]
    rfl
  have hcommitting : Numbers.step (State.goTo { s with locks := s.locks.acquire n wallet.id } n
        call (.committing (wallet.move call.delta) (call.append (wallet.move call.delta) trx)))
        (.resume n trx) =
      some (((State.commit { s with locks := s.locks.acquire n wallet.id }
        (wallet.move call.delta) (call.append (wallet.move call.delta) trx)).unlock n).goTo n
          call (.settling (.ok (.approved (call.append (wallet.move call.delta) trx))))) := by
    simp only [step_goTo, Numbers.resume, Accounts.resume]
    simp [State.goTo, State.commit, State.unlock]
  simp only [List.replicate_succ, List.replicate_zero, run_cons, hreading, hlooking, hchecking,
    hmoving, happending, hcommitting, Option.bind_some, step_goTo, Numbers.resume,
    Accounts.resume, goTo_goTo, run_nil]
  rfl

theorem find_reference_modify {wallets : List Wallet} {version : Wallet}
    (h : Table.find Wallet.reference wallets wallet.reference = some wallet)
    (hid : version.id = wallet.id) (hreference : version.reference = wallet.reference) :
    Table.find Wallet.reference (Table.modify Wallet.id wallets version.id fun _ => version)
      wallet.reference = some version := by
  induction wallets with
  | nil => cases h
  | cons row wallets ih =>
      rw [Table.find_cons] at h
      rw [Table.modify, List.map_cons, Table.find_cons]
      by_cases hrow : row.id = version.id
      · rw [if_pos hrow, if_pos hreference]
      · rw [if_neg hrow]
        split_ifs at h ⊢ with heq
        · exact absurd ((congrArg Wallet.id (Option.some.inj h)).trans hid.symm) hrow
        · exact ih h

theorem idle_settled (h : Idle s wallet n) (hkey : call.request.transactionId = movementKey n) :
    Idle (settled s n call wallet trx) (wallet.move call.delta) (n + 1) where
  row := by
    have hself : (s.commit (wallet.move call.delta)
        (call.append (wallet.move call.delta) trx)).row (wallet.move call.delta).id =
          some (wallet.move call.delta) := row_commit_self _ ⟨wallet, h.row⟩
    exact hself
  reference := by
    have hfind : Table.find Wallet.reference (Table.modify Wallet.id s.wallets
        (wallet.move call.delta).id fun _ => wallet.move call.delta) wallet.reference =
          some (wallet.move call.delta) := find_reference_modify h.reference rfl rfl
    exact hfind
  unlocked := by
    have hheld : s.locks.acquire n wallet.id wallet.id = some n := Locks.acquire_self
    exact if_pos hheld
  calls c hc := by
    have hne : c ≠ n := by omega
    exact (goTo_calls_of_ne hne).trans (h.calls c (by omega))
  keys c hc := by
    have hne : movementKey n ≠ movementKey c := fun heq => by
      have := movementKey_injective heq
      omega
    have hother : (call.append (wallet.move call.delta) trx).key ≠
        (wallet.id, movementKey c) := by
      intro heq
      exact hne (hkey.symm.trans (congrArg Prod.snd heq))
    exact (Table.find_insert_of_ne hother).trans (h.keys c (by omega))

/-- A movement that nothing disturbs is applied, and leaves its entry. -/
theorem run_movement (trx : String) (h : Idle s wallet n) (htype : type = .CREDIT ∨ type = .DEBIT)
    (hkey : request.transactionId = movementKey n)
    (haccepts : wallet.accepts (delta request type) request.currency = true) :
    ∃ t, run Numbers.step s (movement n wallet.reference request trx type) = some t ∧
      Idle t (wallet.move (delta request type)) (n + 1) ∧
      t.entries = s.entries ++
        [Call.append ⟨wallet.reference, request, type, .reading⟩
          (wallet.move (delta request type)) trx] := by
  have hnone : s.calls n = none := h.calls n le_rfl
  refine ⟨settled s n ⟨wallet.reference, request, type, .reading⟩ wallet trx, ?_,
    idle_settled h hkey, rfl⟩
  have hstart : start s n wallet.reference request type =
      some (s.goTo n ⟨wallet.reference, request, type, .reading⟩ .reading) := by
    simp only [start, hnone]
  have hresumes : run Numbers.step
      (s.goTo n ⟨wallet.reference, request, type, .reading⟩ .reading)
      (List.replicate 7 (.resume n trx)) = _ := run_resumes h rfl hkey haccepts
  rcases htype with rfl | rfl
  · exact (run_cons_of_step hstart _).trans hresumes
  · exact (run_cons_of_step hstart _).trans hresumes

/-! ## Where movements can begin -/

/-- Only finitely many calls have begun. -/
theorem calls_bounded (h : Reachable step init s) : ∃ n, ∀ c, n ≤ c → s.calls c = none := by
  have hinv : Sound s ∧ ∃ n, ∀ c, n ≤ c → s.calls c = none := by
    refine h.invariant (I := fun s => Sound s ∧ ∃ n, ∀ c, n ≤ c → s.calls c = none)
      ⟨sound_init, 0, fun _ _ => rfl⟩ ?_
    intro s e t ⟨hsound, n, hn⟩ hstep
    obtain ⟨hsound', hframe⟩ := step_sound hsound hstep
    refine ⟨hsound', ?_⟩
    cases hcaller : e.caller with
    | none =>
        refine ⟨n, fun c hc => ?_⟩
        rw [(hframe.others c (by rw [hcaller]; simp)).2]
        exact hn c hc
    | some c' =>
        refine ⟨max n (c' + 1), fun c hc => ?_⟩
        have hne : c' ≠ c := by omega
        rw [(hframe.others c (by rw [hcaller]; simpa using hne)).2]
        exact hn c (by omega)
  exact hinv.2

theorem keys_bounded (entries : List LedgerEntry) (id : String) :
    ∃ n, ∀ c, n ≤ c → Table.find LedgerEntry.key entries (id, movementKey c) = none := by
  have hfinite : (Set.preimage movementKey {key | key ∈ entries.map fun entry =>
      entry.transactionId}).Finite :=
    (List.finite_toSet _).preimage movementKey_injective.injOn
  obtain ⟨n, hn⟩ := hfinite.bddAbove
  refine ⟨n + 1, fun c hc => Table.find_eq_none_iff.mpr fun entry he heq => ?_⟩
  have hle : c ≤ n := hn (List.mem_map.mpr ⟨entry, he, congrArg Prod.snd heq⟩)
  omega

theorem exists_idle (h : Reachable step init s) (hwallet : wallet ∈ s.wallets)
    (hunlocked : s.locks wallet.id = none) : ∃ n, Idle s wallet n := by
  have hbooks := (sound_of_reachable h).books
  obtain ⟨n, hn⟩ := calls_bounded h
  obtain ⟨m, hm⟩ := keys_bounded s.entries wallet.id
  exact ⟨max n m, hbooks.ids.find_of_mem hwallet, hbooks.references.find_of_mem hwallet,
    hunlocked, fun c hc => hn c (by omega), fun c hc => hm c (by omega)⟩

end Accounts

end Paynad
