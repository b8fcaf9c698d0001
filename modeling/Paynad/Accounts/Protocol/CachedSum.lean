import Paynad.Accounts.Protocol.Calls

/-!
# The balance is the cached sum of the ledger

`Sound` joins the books, the wallets about to be committed and the standings of
the calls. A step of a call is a write of its own followed by its next await
(`Moves`), and every write keeps the books.
-/

namespace Paynad

namespace Accounts

open Shared Transition

/-- The wallets of the transactions in progress: none is known yet, no two are alike. -/
structure Pending (wallets : List Wallet) (creations : List Creation) : Prop where
  ids : Table.Unique (fun creation : Creation => creation.wallet.id) creations
  references : Table.Unique (fun creation : Creation => creation.wallet.reference) creations
  fresh : ∀ creation ∈ creations, ∀ wallet ∈ wallets,
    wallet.id ≠ creation.wallet.id ∧ wallet.reference ≠ creation.wallet.reference
  openings : ∀ creation ∈ creations, Opening creation.wallet creation.opening

structure Sound (s : State) : Prop where
  books : Books s.wallets s.entries
  pending : Pending s.wallets s.creations
  types : ∀ c call, s.calls c = some call → call.type = .CREDIT ∨ call.type = .DEBIT
  calls : ∀ c call, s.calls c = some call → Standing s c call call.stage

variable {s t u : State} {c c' : ℕ} {call : Call} {stage : Stage} {id : String}
  {wallet version : Wallet} {entry : LedgerEntry} {wallets : List Wallet}
  {creations : List Creation} {creation : Creation} {session : ℕ}

/-! ## Wallets in creation -/

theorem Pending.empty : Pending [] [] where
  ids := .nil _
  references := .nil _
  fresh := by simp
  openings := by simp

theorem Pending.of_wallets {wallets' : List Wallet} (h : Pending wallets creations)
    (hsame : ∀ wallet ∈ wallets', ∃ wallet₀ ∈ wallets,
      wallet.id = wallet₀.id ∧ wallet.reference = wallet₀.reference) :
    Pending wallets' creations where
  ids := h.ids
  references := h.references
  fresh creation hcreation wallet hwallet := by
    obtain ⟨wallet₀, hwallet₀, hid, hreference⟩ := hsame wallet hwallet
    rw [hid, hreference]
    exact h.fresh creation hcreation wallet₀ hwallet₀
  openings := h.openings

theorem Pending.insert (h : Pending wallets creations)
    (hfresh : ∀ wallet ∈ wallets,
      wallet.id ≠ creation.wallet.id ∧ wallet.reference ≠ creation.wallet.reference)
    (hothers : ∀ other ∈ creations,
      other.wallet.id ≠ creation.wallet.id ∧ other.wallet.reference ≠ creation.wallet.reference)
    (hopening : Opening creation.wallet creation.opening) :
    Pending wallets (Table.insert creations creation) where
  ids := h.ids.insert (Table.find_eq_none_iff.mpr fun other ho => (hothers other ho).1)
  references := h.references.insert
    (Table.find_eq_none_iff.mpr fun other ho => (hothers other ho).2)
  fresh creation' hmem := by
    rcases List.mem_append.mp hmem with hmem | hmem
    · exact h.fresh creation' hmem
    · obtain rfl := List.mem_singleton.mp hmem
      exact hfresh
  openings creation' hmem := by
    rcases List.mem_append.mp hmem with hmem | hmem
    · exact h.openings creation' hmem
    · obtain rfl := List.mem_singleton.mp hmem
      exact hopening

theorem Pending.append (h : Pending wallets creations) (trx : String) :
    Pending wallets (Table.modify Creation.session creations session fun creation =>
      { creation with opening := some (openingEntry creation.wallet trx) }) := by
  have hold : ∀ creation ∈ Table.modify Creation.session creations session fun creation =>
        { creation with opening := some (openingEntry creation.wallet trx) },
      ∃ creation₀ ∈ creations, creation.wallet = creation₀.wallet ∧
        Opening creation.wallet creation.opening := by
    intro creation hcreation
    rcases Table.mem_modify hcreation with ⟨hmem, -⟩ | ⟨creation₀, hmem, -, rfl⟩
    · exact ⟨creation, hmem, rfl, h.openings creation hmem⟩
    · obtain ⟨hbalance, hreserved, -⟩ := h.openings creation₀ hmem
      refine ⟨creation₀, hmem, rfl, hbalance, hreserved, ?_⟩
      intro entry he
      exact ⟨trx, (Option.some.inj he).symm⟩
  have hwallets : (Table.modify Creation.session creations session fun creation =>
      { creation with opening := some (openingEntry creation.wallet trx) }).map
        Creation.wallet = creations.map Creation.wallet := Table.map_modify fun _ _ _ => rfl
  refine ⟨?_, ?_, ?_, ?_⟩
  · have hids := congrArg (List.map Wallet.id) hwallets
    simp only [List.map_map] at hids
    exact (congrArg List.Nodup hids).mpr h.ids
  · have hreferences := congrArg (List.map Wallet.reference) hwallets
    simp only [List.map_map] at hreferences
    exact (congrArg List.Nodup hreferences).mpr h.references
  · intro creation hcreation
    obtain ⟨creation₀, hmem, hwallet, -⟩ := hold creation hcreation
    rw [hwallet]
    exact h.fresh creation₀ hmem
  · intro creation hcreation
    obtain ⟨-, -, -, hopening⟩ := hold creation hcreation
    exact hopening

theorem Pending.drop (h : Pending wallets creations) (session : ℕ) :
    Pending wallets (creations.filter fun creation => creation.session ≠ session) where
  ids := h.ids.sublist (List.filter_sublist.map _)
  references := h.references.sublist (List.filter_sublist.map _)
  fresh creation hcreation := h.fresh creation (List.mem_of_mem_filter hcreation)
  openings creation hcreation := h.openings creation (List.mem_of_mem_filter hcreation)

theorem Pending.establish (h : Pending wallets creations) (hcreation : creation ∈ creations) :
    Pending (Table.insert wallets creation.wallet)
      (creations.filter fun other => other.session ≠ creation.session) := by
  have hrest := h.drop creation.session
  refine ⟨hrest.ids, hrest.references, ?_, hrest.openings⟩
  intro other hother wallet hwallet
  rcases List.mem_append.mp hwallet with hwallet | hwallet
  · exact hrest.fresh other hother wallet hwallet
  · obtain rfl := List.mem_singleton.mp hwallet
    obtain ⟨hmem, hsession⟩ := List.mem_filter.mp hother
    have hne : other ≠ creation := by
      rintro rfl
      simp at hsession
    refine ⟨fun hid => hne ?_, fun hreference => hne ?_⟩
    · exact List.inj_on_of_nodup_map h.ids hmem hcreation hid.symm
    · exact List.inj_on_of_nodup_map h.references hmem hcreation hreference.symm

/-! ## The steps of a call -/

/-- A call writes `u` over `s` on its way to `stage`. -/
structure Moves (s : State) (c : ℕ) (call : Call) (stage : Stage) (u : State) : Prop where
  grows : Grows s u
  keeps : ∀ c', c' ≠ c → Keeps c' s u
  books : Books u.wallets u.entries
  pending : Pending u.wallets u.creations
  calls : u.calls = s.calls
  standing : Standing u c call stage

theorem Moves.keep (hsound : Sound s) (h : Standing s c call stage) :
    Moves s c call stage s :=
  ⟨.refl s, fun _ _ _ _ hrow hlock => ⟨hrow, hlock, fun _ => rfl⟩, hsound.books,
    hsound.pending, rfl, h⟩

theorem Moves.lock (hsound : Sound s) {row : Wallet} (hrow : s.row id = some row)
    (hreference : row.reference = call.reference)
    (haccepts : row.accepts call.delta call.request.currency = true)
    (havailable : s.locks.available c row.id = true) :
    Moves s c call (.appending (row.move call.delta))
      { s with locks := s.locks.acquire c row.id } := by
  have hid : row.id = id := Table.key_of_find hrow
  refine ⟨⟨(Grows.refl s).rows, (Grows.refl s).entries⟩, fun _ _ => keeps_acquire havailable,
    hsound.books, hsound.pending, rfl, row, ?_, hreference, haccepts, rfl, ?_⟩
  · rw [← hid] at hrow
    exact hrow
  · exact Locks.acquire_self

theorem Moves.unlock (hsound : Sound s) (h : Standing (s.unlock c) c call stage) :
    Moves s c call stage (s.unlock c) :=
  ⟨⟨(Grows.refl s).rows, (Grows.refl s).entries⟩, fun _ hne => keeps_unlock hne,
    hsound.books, hsound.pending, rfl, h⟩

theorem entry_balanced (htype : call.type = .CREDIT ∨ call.type = .DEBIT) (version : Wallet)
    (trx : String) : (call.entry version trx).Balanced := by
  refine ⟨htype, ?_⟩
  have hdelta : (call.entry version trx).delta = call.delta := rfl
  rw [hdelta]
  simp [Call.entry]

theorem Moves.commit (hsound : Sound s) (htype : call.type = .CREDIT ∨ call.type = .DEBIT)
    (h : Standing s c call (.committing version entry)) :
    Moves s c call (.settling (.ok (.approved entry))) ((s.commit version entry).unlock c) := by
  obtain ⟨⟨row, hrow, hreference, haccepts, rfl, hlock⟩, ⟨trx, rfl⟩, hnone⟩ := h
  have hgrows : Grows s (s.commit (row.move call.delta) (call.entry (row.move call.delta) trx)) :=
    grows_commit hrow rfl
  refine ⟨⟨hgrows.rows, hgrows.entries⟩, ?_, ?_, ?_, rfl, ?_⟩
  · intro c' hne id row' hrow' hlock'
    have hkeeps : Keeps c' s
        (s.commit (row.move call.delta) (call.entry (row.move call.delta) trx)) :=
      keeps_commit hne hlock rfl
    obtain ⟨hrow'', hlock'', hentries⟩ := hkeeps id row' hrow' hlock'
    exact ⟨hrow'', Locks.release_of_held hlock'' hne, hentries⟩
  · refine hsound.books.record hrow haccepts hnone rfl ?_ rfl (entry_balanced htype _ _)
    simp [Call.entry, Wallet.move]
  · refine hsound.pending.of_wallets fun wallet hwallet => ?_
    rcases mem_rewrite hwallet with ⟨hold, -⟩ | rfl
    · exact ⟨wallet, hold, rfl, rfl⟩
    · exact ⟨row, Table.mem_of_find hrow, rfl, rfl⟩
  · intro response hresponse
    obtain rfl := Except.ok.inj hresponse
    refine ⟨_, ⟨row.id, ?_, ?_, ?_⟩, rfl⟩
    · refine ⟨row.move call.delta, ?_, hreference⟩
      exact row_commit_self (call.entry (row.move call.delta) trx) ⟨row, hrow⟩
    · exact findByIdempotencyKey_commit_self (row.move call.delta) hnone
    · simp [sameOperation, Call.entry]

theorem standing_error (s : State) (c : ℕ) (call : Call) (error : AppException) :
    Standing s c call (.settling (.error error)) := fun _ h => nomatch h

theorem truthful_replay (hknown : Known s call id)
    (hentry : s.findByIdempotencyKey id call.request.transactionId = some entry) :
    Truthful s call (replay entry call.request call.type) := by
  intro response hresponse
  obtain ⟨hsame, rfl⟩ := replay_ok hresponse
  exact ⟨entry, ⟨id, hknown, hentry, hsame⟩, rfl⟩

theorem known_of_findByReference (hsound : Sound s)
    (h : s.findByReference call.reference = some wallet) :
    Known s call wallet.id ∧ wallet.reference = call.reference :=
  ⟨⟨wallet, hsound.books.ids.find_of_mem (Table.mem_of_find h), Table.key_of_find h⟩,
    Table.key_of_find h⟩

theorem resume_moves (hsound : Sound s) (hcall : s.calls c = some call) {trx : String}
    (hresume : resume s c call trx = some t) :
    ∃ stage u, t = u.goTo c call stage ∧ Moves s c call stage u := by
  have hstanding := hsound.calls c call hcall
  unfold resume at hresume
  split at hresume
  case h_1 =>
    split at hresume
    · exact ⟨_, s, (Option.some.inj hresume).symm, .keep hsound (standing_error _ c call _)⟩
    · next wallet hwallet =>
        exact ⟨_, s, (Option.some.inj hresume).symm,
          .keep hsound (known_of_findByReference hsound hwallet)⟩
  case h_2 wallet hstage =>
    rw [hstage] at hstanding
    split at hresume
    · next replayed hreplayed =>
        exact ⟨_, s, (Option.some.inj hresume).symm,
          .keep hsound (truthful_replay hstanding.1 hreplayed)⟩
    · exact ⟨_, s, (Option.some.inj hresume).symm, .keep hsound hstanding⟩
  case h_3 wallet hstage =>
    rw [hstage] at hstanding
    split at hresume
    · exact ⟨_, s, (Option.some.inj hresume).symm, .keep hsound (standing_error _ c call _)⟩
    · exact ⟨_, s, (Option.some.inj hresume).symm, .keep hsound hstanding⟩
  case h_4 wallet hstage =>
    rw [hstage] at hstanding
    unfold update at hresume
    split at hresume
    · exact ⟨_, s, (Option.some.inj hresume).symm, .keep hsound hstanding⟩
    · next row hrow =>
        split_ifs at hresume with haccepts havailable
        · refine ⟨_, _, (Option.some.inj hresume).symm, .lock hsound hrow ?_ haccepts havailable⟩
          obtain ⟨row', hrow', hreference⟩ := hstanding.1
          obtain rfl : row = row' := Option.some.inj (hrow.symm.trans hrow')
          exact hreference
        · exact ⟨_, s, (Option.some.inj hresume).symm, .keep hsound hstanding⟩
  case h_5 => exact ⟨_, s, (Option.some.inj hresume).symm, .keep hsound trivial⟩
  case h_6 =>
    exact ⟨_, _, (Option.some.inj hresume).symm, .unlock hsound (standing_error _ c call _)⟩
  case h_7 version hstage =>
    rw [hstage] at hstanding
    split at hresume
    · next entry hentry =>
        exact ⟨_, s, (Option.some.inj hresume).symm,
          .keep hsound ⟨hstanding.known, entry, hentry⟩⟩
    · next hnone =>
        exact ⟨_, s, (Option.some.inj hresume).symm,
          .keep hsound ⟨hstanding, ⟨trx, rfl⟩, hnone⟩⟩
  case h_8 version entry hstage =>
    rw [hstage] at hstanding
    exact ⟨_, _, (Option.some.inj hresume).symm,
      .commit hsound (hsound.types c call hcall) hstanding⟩
  case h_9 walletId hstage =>
    rw [hstage] at hstanding
    exact ⟨_, _, (Option.some.inj hresume).symm, .unlock hsound hstanding⟩
  case h_10 walletId hstage =>
    rw [hstage] at hstanding
    split at hresume
    · next original horiginal =>
        exact ⟨_, s, (Option.some.inj hresume).symm,
          .keep hsound (truthful_replay hstanding.1 horiginal)⟩
    · exact ⟨_, s, (Option.some.inj hresume).symm, .keep hsound trivial⟩
  case h_11 outcome hstage =>
    rw [hstage] at hstanding
    exact ⟨_, s, (Option.some.inj hresume).symm, .keep hsound hstanding⟩
  case h_12 => cases hresume
  case h_13 => cases hresume

/-! ## The steps of the service -/

/-- What a step leaves to the calls that it is not a step of. -/
structure Frame (s : State) (e : Event) (t : State) : Prop where
  grows : Grows s t
  others : ∀ c, e.caller ≠ some c → Keeps c s t ∧ t.calls c = s.calls c

theorem Moves.sound (hsound : Sound s) (hcall : s.calls c = some call)
    (h : Moves s c call stage u) : Sound (u.goTo c call stage) := by
  refine ⟨h.books, h.pending, forall_goTo_calls ?_ fun c' call' _ hcall' => ?_,
    forall_goTo_calls ?_ fun c' call' hc hcall' => ?_⟩
  · exact hsound.types c call hcall
  · rw [h.calls] at hcall'
    exact hsound.types c' call' hcall'
  · rw [standing_goTo]
    have hstanding := h.standing
    cases stage <;> exact hstanding
  · rw [h.calls] at hcall'
    rw [standing_goTo]
    exact (hsound.calls c' call' hcall').mono h.grows (h.keeps c' hc)

theorem Moves.frame {e : Event} (h : Moves s c call stage u) (he : e.caller = some c) :
    Frame s e (u.goTo c call stage) where
  grows := h.grows.trans grows_goTo
  others c' hne := by
    have hc : c' ≠ c := fun heq => hne (heq ▸ he)
    refine ⟨fun id row hrow hlock => ?_, ?_⟩
    · obtain ⟨hrow', hlock', hentries⟩ := h.keeps c' hc id row hrow hlock
      exact ⟨hrow', hlock', hentries⟩
    · rw [goTo_calls_of_ne hc, h.calls]

theorem start_sound {reference : String} {request : BalanceOperationRequest}
    {type : TransactionType} (htype : type = .CREDIT ∨ type = .DEBIT) (hsound : Sound s)
    (h : start s c reference request type = some t) :
    Sound t ∧ ∀ e : Event, e.caller = some c → Frame s e t := by
  obtain ⟨-, rfl⟩ := start_eq h
  refine ⟨⟨hsound.books, hsound.pending,
    forall_goTo_calls htype fun c' call' _ => hsound.types c' call',
    forall_goTo_calls trivial fun c' call' _ hcall' => ?_⟩, fun e he => ⟨grows_goTo, ?_⟩⟩
  · rw [standing_goTo]
    exact hsound.calls c' call' hcall'
  · intro c' hne
    have hc : c' ≠ c := fun heq => hne (heq ▸ he)
    exact ⟨keeps_goTo, goTo_calls_of_ne hc⟩

theorem sound_of_frame {e : Event} (hsound : Sound s) (he : e.caller = none)
    (hframe : Frame s e t) (hbooks : Books t.wallets t.entries)
    (hpending : Pending t.wallets t.creations) : Sound t := by
  have hother : ∀ c, e.caller ≠ some c := fun c hc => nomatch he.symm.trans hc
  refine ⟨hbooks, hpending, fun c call hcall => ?_, fun c call hcall => ?_⟩
  · rw [(hframe.others c (hother c)).2] at hcall
    exact hsound.types c call hcall
  · obtain ⟨hkeeps, hcalls⟩ := hframe.others c (hother c)
    rw [hcalls] at hcall
    exact (hsound.calls c call hcall).mono hframe.grows hkeeps

theorem resumeCreate_sound {trx : String} (hsound : Sound s)
    (hcreation : s.creation session = some creation) :
    Sound (resumeCreate s creation trx) ∧
      Frame s (.resumeCreate session trx) (resumeCreate s creation trx) := by
  have hmem : creation ∈ s.creations := Table.mem_of_find hcreation
  unfold resumeCreate
  split_ifs with hopen
  · have hframe : Frame s (.resumeCreate session trx) { s with
        creations := Table.modify Creation.session s.creations creation.session fun creation =>
          { creation with opening := some (openingEntry creation.wallet trx) } } :=
      ⟨⟨(Grows.refl s).rows, (Grows.refl s).entries⟩, fun c _ =>
        ⟨fun _ _ hrow hlock => ⟨hrow, hlock, fun _ => rfl⟩, rfl⟩⟩
    exact ⟨sound_of_frame hsound rfl hframe hsound.books (hsound.pending.append trx), hframe⟩
  · have hfresh := hsound.pending.fresh creation hmem
    have hopening := hsound.pending.openings creation hmem
    have hforeign : ∀ id row, s.row id = some row → ∀ key,
        Table.find LedgerEntry.key creation.opening.toList (id, key) = none := by
      intro id row hrow key
      rw [Table.find_eq_none_iff]
      intro entry he heq
      obtain ⟨_, rfl⟩ := hopening.entry entry (Option.mem_toList.mp he)
      have hid : creation.wallet.id = id := congrArg Prod.fst heq
      exact (hfresh row (Table.mem_of_find hrow)).1 ((Table.key_of_find hrow).trans hid.symm)
    have hframe : Frame s (.resumeCreate session trx) { s.drop creation.session with
        wallets := Table.insert s.wallets creation.wallet
        entries := s.entries ++ creation.opening.toList } := by
      refine ⟨⟨?_, ?_⟩, fun c _ => ⟨?_, rfl⟩⟩
      · exact fun id row hrow => ⟨row, row_create hrow, rfl⟩
      · intro id key entry he
        refine findByIdempotencyKey_create.trans ?_
        rw [he]
        rfl
      · intro id row hrow hlock
        refine ⟨row_create hrow, hlock, fun key => findByIdempotencyKey_create.trans ?_⟩
        rw [hforeign id row hrow key, Option.or_none]
    refine ⟨sound_of_frame hsound rfl hframe ?_ (hsound.pending.establish hmem), hframe⟩
    exact hsound.books.create hopening (fun row hrow => (hfresh row hrow).1)
      (fun row hrow => (hfresh row hrow).2) hopen

/-- Every step keeps everything sound, and leaves the other calls what they know. -/
theorem step_sound (hsound : Sound s) {e : Event} (hstep : step s e = some t) :
    Sound t ∧ Frame s e t := by
  cases e with
  | credit c reference request =>
      obtain ⟨hsound', hframe⟩ := start_sound (.inl rfl) hsound hstep
      exact ⟨hsound', hframe _ rfl⟩
  | debit c reference request =>
      obtain ⟨hsound', hframe⟩ := start_sound (.inr rfl) hsound hstep
      exact ⟨hsound', hframe _ rfl⟩
  | resume c trx =>
      obtain ⟨call, hcall, hresume⟩ := Option.bind_eq_some_iff.mp hstep
      obtain ⟨stage, u, rfl, hmoves⟩ := resume_moves hsound hcall hresume
      exact ⟨hmoves.sound hsound hcall, hmoves.frame rfl⟩
  | abort c =>
      obtain ⟨call, hcall, habort⟩ := Option.bind_eq_some_iff.mp hstep
      split_ifs at habort
      obtain rfl := Option.some.inj habort
      have hmoves : Moves s c call .aborted (s.unlock c) := .unlock hsound trivial
      exact ⟨hmoves.sound hsound hcall, hmoves.frame rfl⟩
  | create session id reference request =>
      simp only [step] at hstep
      split_ifs at hstep with hfree
      obtain rfl := Option.some.inj hstep
      have hframe : Frame s (.create session id reference request) { s with
          creations := Table.insert s.creations
            ⟨session, openWallet id reference request, none⟩ } :=
        ⟨⟨(Grows.refl s).rows, (Grows.refl s).entries⟩, fun c _ =>
          ⟨fun _ _ hrow hlock => ⟨hrow, hlock, fun _ => rfl⟩, rfl⟩⟩
      simp only [State.free, Bool.and_eq_true, List.all_eq_true, decide_eq_true_eq] at hfree
      obtain ⟨⟨hwallets, hcreations⟩, -⟩ := hfree
      refine ⟨sound_of_frame hsound rfl hframe hsound.books ?_, hframe⟩
      refine hsound.pending.insert hwallets hcreations ⟨?_, rfl, by simp⟩
      cases hbalance : request.initialBalance with
      | none => simp [openWallet, hbalance]
      | some balance =>
          have hnonneg := (request.initialBalance_valid balance hbalance).1
          simpa [openWallet, hbalance] using hnonneg
  | resumeCreate session trx =>
      obtain ⟨creation, hcreation, rfl⟩ := Option.map_eq_some_iff.mp hstep
      exact resumeCreate_sound hsound hcreation
  | abortCreate session =>
      obtain ⟨creation, -, rfl⟩ := Option.map_eq_some_iff.mp hstep
      have hframe : Frame s (.abortCreate session) (s.drop session) :=
        ⟨⟨(Grows.refl s).rows, (Grows.refl s).entries⟩, fun c _ =>
          ⟨fun _ _ hrow hlock => ⟨hrow, hlock, fun _ => rfl⟩, rfl⟩⟩
      exact ⟨sound_of_frame hsound rfl hframe hsound.books (hsound.pending.drop session), hframe⟩
  | setStatus id status =>
      simp only [step] at hstep
      split_ifs at hstep with hlock
      obtain rfl := Option.some.inj hstep
      have hframe : Frame s (.setStatus id status) { s with
          wallets := Table.modify Wallet.id s.wallets id fun row =>
            { row with status := status } } := by
        refine ⟨⟨?_, fun _ _ _ he => he⟩, fun c _ => ⟨?_, rfl⟩⟩
        · intro id' row hrow
          obtain ⟨row', hrow', hreference, -⟩ := row_setStatus hrow
          exact ⟨row', hrow', hreference⟩
        · intro id' row hrow hlock'
          have hne : id' ≠ id := by
            rintro rfl
            cases hlock.symm.trans hlock'
          obtain ⟨row', hrow', -, hsame⟩ := row_setStatus hrow
          rw [hsame hne] at hrow'
          exact ⟨hrow', hlock', fun _ => rfl⟩
      refine ⟨sound_of_frame hsound rfl hframe (hsound.books.setStatus status) ?_, hframe⟩
      refine hsound.pending.of_wallets fun wallet hwallet => ?_
      rcases Table.mem_modify hwallet with ⟨hold, -⟩ | ⟨row, hold, -, rfl⟩
      · exact ⟨wallet, hold, rfl, rfl⟩
      · exact ⟨row, hold, rfl, rfl⟩

theorem sound_init : Sound init where
  books := .empty
  pending := .empty
  types _ _ h := nomatch h
  calls _ _ h := nomatch h

theorem sound_of_reachable (h : Reachable step init s) : Sound s :=
  h.invariant sound_init fun _ _ _ hsound hstep => (step_sound hsound hstep).1

/-- In every reachable state, the balance of a wallet is its credits less its debits,
what is available is not negative, every entry moves the balance by its amount, and the
entries in the order of their commits lead from zero to the balance. -/
theorem balance_is_cached_sum (h : Reachable step init s) :
    (∀ wallet ∈ s.wallets,
      wallet.balance =
        (((entriesOf s.entries wallet.id).filter fun entry =>
            entry.type = .CREDIT).map LedgerEntry.amount).sum -
          (((entriesOf s.entries wallet.id).filter fun entry =>
            entry.type = .DEBIT).map LedgerEntry.amount).sum ∧
      0 ≤ wallet.balance - wallet.reservedAmount ∧
      Running.Chained LedgerEntry.balanceBefore LedgerEntry.balanceAfter 0
        (entriesOf s.entries wallet.id) wallet.balance) ∧
    ∀ entry ∈ s.entries,
      (∃ wallet ∈ s.wallets, wallet.id = entry.walletId) ∧
      (entry.type = .CREDIT ∧ entry.balanceAfter = entry.balanceBefore + entry.amount ∨
        entry.type = .DEBIT ∧ entry.balanceAfter = entry.balanceBefore - entry.amount) := by
  have hbooks := (sound_of_reachable h).books
  refine ⟨fun wallet hwallet => ⟨hbooks.balance_eq hwallet, hbooks.available wallet hwallet,
    hbooks.explained wallet hwallet⟩, fun entry he => ⟨hbooks.owned entry he, ?_⟩⟩
  obtain ⟨htype, hafter⟩ := hbooks.balanced entry he
  rcases htype with htype | htype
  · exact .inl ⟨htype, by simpa [LedgerEntry.delta, htype] using hafter⟩
  · exact .inr ⟨htype, by simpa [LedgerEntry.delta, htype, sub_eq_add_neg] using hafter⟩

def sampleWallet : CreateWalletRequest where
  currency := "XOF"
  initialBalance := some 150
  initialBalance_valid balance hbalance := by
    obtain rfl := Option.some.inj hbalance
    decide

def sampleRequest : BalanceOperationRequest where
  transactionId := "pay_0001"
  amount := 100
  currency := "XOF"
  description := "Paiement"
  paymentReference := none
  amount_valid := isValidAmount_int.mpr (by decide)

def openRun : List Event :=
  [.create 0 "w1" "wlt_1" sampleWallet, .resumeCreate 0 "trx_0", .resumeCreate 0 ""]

def debitRun : List Event :=
  openRun ++ .debit 0 "wlt_1" sampleRequest :: List.replicate 7 (.resume 0 "trx_1")

theorem balance_is_cached_sum_debitRun :
    ∃ s, run step init debitRun = some s ∧
      (s.wallets.map Wallet.balance, s.entries.length) = (([50] : List ℤ), 2) ∧
      ∀ wallet ∈ s.wallets,
        Running.Chained LedgerEntry.balanceBefore LedgerEntry.balanceAfter 0
          (entriesOf s.entries wallet.id) wallet.balance := by
  have h : (run step init debitRun).map (fun s =>
      (s.wallets.map Wallet.balance, s.entries.length)) = some (([50] : List ℤ), 2) := by
    decide +kernel
  obtain ⟨s, hrun, hs⟩ := Option.map_eq_some_iff.mp h
  exact ⟨s, hrun, hs, fun wallet hwallet =>
    ((balance_is_cached_sum ⟨_, hrun⟩).1 wallet hwallet).2.2⟩

end Accounts

end Paynad
