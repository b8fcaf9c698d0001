import Paynad.Library.Table

/-!
# A service that applies a key at most once, behind an unreliable network

Requests are sent to a service that records at most one result for a key: a
second request under a recorded key is answered with the record. A request stays
in flight as long as it has not been served, whatever its client does meanwhile,
and an answer may never be read. The service may also refuse a request, except
when the key is recorded and no other request was ever sent under it.

A request is identified by its position in the history `sent`. A key is dead
when it has no record and nothing in flight could still give it one.
-/

structure Wire (ρ μ ν : Type*) where
  sent : List ρ
  inFlight : List ℕ
  answers : List (ℕ × (μ ⊕ ν))
  records : List μ

namespace Wire

variable {ρ μ ν κ : Type*} [DecidableEq κ]

def empty : Wire ρ μ ν := ⟨[], [], [], []⟩

def next (w : Wire ρ μ ν) : ℕ := w.sent.length

def send (w : Wire ρ μ ν) (r : ρ) : Wire ρ μ ν :=
  { w with sent := w.sent ++ [r], inFlight := w.next :: w.inFlight }

def request? (w : Wire ρ μ ν) (id : ℕ) : Option ρ :=
  if id ∈ w.inFlight then w.sent[id]? else none

def answer (w : Wire ρ μ ν) (id : ℕ) (a : μ ⊕ ν) : Wire ρ μ ν :=
  { w with inFlight := w.inFlight.filter (· ≠ id), answers := (id, a) :: w.answers }

/-- Serve a request with the record of its key, which is `m` when there is none yet. -/
def apply (recordKey : μ → κ) (w : Wire ρ μ ν) (id : ℕ) (m : μ) : Wire ρ μ ν :=
  match Table.find recordKey w.records (recordKey m) with
  | some recorded => w.answer id (.inl recorded)
  | none => { w.answer id (.inl m) with records := Table.insert w.records m }

def another (key : ρ → κ) (w : Wire ρ μ ν) (id : ℕ) (k : κ) : Bool :=
  (List.range w.sent.length).any fun other =>
    other ≠ id && (w.sent[other]?.map key) = some k

/-- The service may refuse: the key is not recorded, or another request was sent. -/
def refusable (key : ρ → κ) (recordKey : μ → κ) (w : Wire ρ μ ν) (id : ℕ) (k : κ) : Bool :=
  (Table.find recordKey w.records k).isNone || w.another key id k

def Sent (key : ρ → κ) (w : Wire ρ μ ν) (k : κ) : Prop := ∃ r ∈ w.sent, key r = k

def Recorded (recordKey : μ → κ) (w : Wire ρ μ ν) (k : κ) : Prop :=
  ∃ m ∈ w.records, recordKey m = k

def Pending (key : ρ → κ) (w : Wire ρ μ ν) (k : κ) : Prop :=
  ∃ id ∈ w.inFlight, ∃ r, w.sent[id]? = some r ∧ key r = k

/-- `k` is not recorded and nothing in flight can record it. -/
def Dead (key : ρ → κ) (recordKey : μ → κ) (w : Wire ρ μ ν) (k : κ) : Prop :=
  ¬ w.Recorded recordKey k ∧ ¬ w.Pending key k

/-- No request but `id` was sent under `k`. -/
def OnlySent (key : ρ → κ) (w : Wire ρ μ ν) (id : ℕ) (k : κ) : Prop :=
  ∀ other r, w.sent[other]? = some r → key r = k → other = id

/-- What holds of the wire in every run. `Origin` relates a request to the record
it gives rise to. -/
structure Sound (key : ρ → κ) (recordKey : μ → κ) (Origin : ρ → μ → Prop)
    (w : Wire ρ μ ν) : Prop where
  unique : Table.Unique recordKey w.records
  origin : ∀ m ∈ w.records, ∃ r ∈ w.sent, key r = recordKey m ∧ Origin r m
  inFlight : ∀ id ∈ w.inFlight, id < w.sent.length
  answered : ∀ id a, (id, a) ∈ w.answers → id ∉ w.inFlight ∧ id < w.sent.length
  recorded : ∀ id m, (id, .inl m) ∈ w.answers →
    m ∈ w.records ∧ ∀ r, w.sent[id]? = some r → key r = recordKey m
  refused : ∀ id v, (id, .inr v) ∈ w.answers → ∀ r, w.sent[id]? = some r →
    w.Recorded recordKey (key r) → ¬ w.OnlySent key id (key r)

section

variable {key : ρ → κ} {recordKey : μ → κ} {Origin : ρ → μ → Prop} {w : Wire ρ μ ν}

omit [DecidableEq κ] in
theorem sound_empty : Sound key recordKey Origin (empty : Wire ρ μ ν) := by
  refine ⟨.nil _, ?_, ?_, ?_, ?_, ?_⟩ <;> intro _ h <;> try intro h
  all_goals simp [empty] at h

theorem not_onlySent_of_another {id : ℕ} {k : κ} (h : w.another key id k = true) :
    ¬ w.OnlySent key id k := by
  obtain ⟨other, -, hother⟩ := List.any_eq_true.mp h
  simp only [ne_eq, Bool.and_eq_true, decide_eq_true_eq, Option.map_eq_some_iff] at hother
  obtain ⟨hne, r, hr, hk⟩ := hother
  exact fun honly => hne (honly other r hr hk)

omit [DecidableEq κ] in
theorem request?_eq_some {id : ℕ} {r : ρ} (h : w.request? id = some r) :
    id ∈ w.inFlight ∧ w.sent[id]? = some r := by
  unfold request? at h
  split at h
  · exact ⟨‹_›, h⟩
  · cases h

/-!
# Sending
-/

omit [DecidableEq κ] in
theorem getElem?_send {id : ℕ} {r r' : ρ} (h : (w.send r).sent[id]? = some r') :
    w.sent[id]? = some r' ∨ id = w.next ∧ r' = r := by
  simp only [send, List.getElem?_append] at h
  split at h
  · exact .inl h
  · rename_i hlt
    rw [List.getElem?_singleton] at h
    split at h
    · right
      exact ⟨by simp only [next]; omega, (Option.some.inj h).symm⟩
    · cases h

omit [DecidableEq κ] in
theorem getElem?_send_of_some {id : ℕ} {r r' : ρ} (h : w.sent[id]? = some r') :
    (w.send r).sent[id]? = some r' := by
  obtain ⟨hlt, -⟩ := List.getElem?_eq_some_iff.mp h
  simp only [send, List.getElem?_append, hlt, if_true]
  exact h

omit [DecidableEq κ] in
theorem getElem?_send_next (r : ρ) : (w.send r).sent[w.next]? = some r := by
  simp [send, next]

omit [DecidableEq κ] in
theorem sent_send {r : ρ} {k : κ} (h : (w.send r).Sent key k) :
    w.Sent key k ∨ key r = k := by
  obtain ⟨r', hr', hk⟩ := h
  rcases List.mem_append.mp hr' with hr' | hr'
  · exact .inl ⟨r', hr', hk⟩
  · rw [List.mem_singleton] at hr'
    exact .inr (hr' ▸ hk)

omit [DecidableEq κ] in
theorem Dead.send {r : ρ} {k : κ} (h : w.Dead key recordKey k) (hk : key r ≠ k) :
    (w.send r).Dead key recordKey k := by
  refine ⟨h.1, ?_⟩
  rintro ⟨id, hid, r', hr', hk'⟩
  rcases getElem?_send hr' with hr' | ⟨-, rfl⟩
  · rcases List.mem_cons.mp hid with rfl | hid
    · simp [next] at hr'
    · exact h.2 ⟨id, hid, r', hr', hk'⟩
  · exact hk hk'

omit [DecidableEq κ] in
theorem Sound.send (h : w.Sound key recordKey Origin) (r : ρ) :
    (w.send r).Sound key recordKey Origin := by
  have hlength : (w.send r).sent.length = w.sent.length + 1 := by simp [Wire.send]
  have hold : ∀ {id : ℕ} {r' : ρ}, id < w.sent.length → (w.send r).sent[id]? = some r' →
      w.sent[id]? = some r' := by
    intro id r' hlt hr'
    rcases getElem?_send hr' with hr' | ⟨rfl, -⟩
    · exact hr'
    · exact absurd hlt (Nat.lt_irrefl _)
  refine ⟨h.unique, ?_, ?_, ?_, ?_, ?_⟩
  · intro m hm
    obtain ⟨r', hr', horigin⟩ := h.origin m hm
    exact ⟨r', List.mem_append_left _ hr', horigin⟩
  · intro id hid
    rcases List.mem_cons.mp hid with rfl | hid
    · rw [hlength]
      exact Nat.lt_succ_self _
    · have := h.inFlight id hid
      omega
  · intro id a ha
    obtain ⟨hserved, hlt⟩ := h.answered id a ha
    refine ⟨fun hid => ?_, by omega⟩
    rcases List.mem_cons.mp hid with rfl | hid
    · exact absurd hlt (Nat.lt_irrefl _)
    · exact hserved hid
  · intro id m hm
    obtain ⟨hrecord, hkey⟩ := h.recorded id m hm
    exact ⟨hrecord, fun r' hr' => hkey r' (hold (h.answered _ _ hm).2 hr')⟩
  · intro id v hv r' hr' hrecorded honly
    refine h.refused id v hv r' (hold (h.answered _ _ hv).2 hr') hrecorded ?_
    exact fun other r'' hr'' hk => honly other r'' (getElem?_send_of_some hr'') hk

/-!
# Serving
-/

omit [DecidableEq κ] in
theorem Dead.answer {k : κ} (h : w.Dead key recordKey k) (id : ℕ) (a : μ ⊕ ν) :
    (w.answer id a).Dead key recordKey k := by
  refine ⟨h.1, ?_⟩
  rintro ⟨id', hid', hr⟩
  exact h.2 ⟨id', List.mem_of_mem_filter hid', hr⟩

omit [DecidableEq κ] in
theorem pending_of_request {id : ℕ} {r : ρ} (h : w.request? id = some r) :
    w.Pending key (key r) := by
  obtain ⟨hid, hr⟩ := request?_eq_some h
  exact ⟨id, hid, r, hr, rfl⟩

theorem apply_cases (recordKey : μ → κ) (w : Wire ρ μ ν) (id : ℕ) (m : μ) :
    (∃ recorded, recorded ∈ w.records ∧ recordKey recorded = recordKey m ∧
      w.apply recordKey id m = w.answer id (.inl recorded)) ∨
    (Table.find recordKey w.records (recordKey m) = none ∧
      w.apply recordKey id m =
        { w.answer id (.inl m) with records := Table.insert w.records m }) := by
  unfold apply
  cases hfind : Table.find recordKey w.records (recordKey m) with
  | some recorded =>
      exact .inl ⟨recorded, Table.mem_of_find hfind, Table.key_of_find hfind, rfl⟩
  | none => exact .inr ⟨rfl, rfl⟩

theorem answered_apply (recordKey : μ → κ) (w : Wire ρ μ ν) (id : ℕ) (m : μ) :
    id ∉ (w.apply recordKey id m).inFlight ∧
      ∃ m', Table.find Prod.fst (w.apply recordKey id m).answers id = some (id, .inl m') := by
  have hanswer : ∀ m', id ∉ (w.answer id (.inl m')).inFlight ∧
      Table.find Prod.fst (w.answer id (.inl m')).answers id = some (id, .inl m') := by
    intro m'
    exact ⟨fun hmem => by simpa using (List.mem_filter.mp hmem).2,
      by simp [answer, Table.find_cons]⟩
  rcases apply_cases recordKey w id m with ⟨m', -, -, heq⟩ | ⟨-, heq⟩ <;>
    rw [heq]
  · exact ⟨(hanswer m').1, m', (hanswer m').2⟩
  · exact ⟨(hanswer m).1, m, (hanswer m).2⟩

@[simp] theorem sent_apply (id : ℕ) (m : μ) : (w.apply recordKey id m).sent = w.sent := by
  unfold apply
  split <;> rfl

theorem mem_records_apply {id : ℕ} {m m' : μ} (h : m' ∈ w.records) :
    m' ∈ (w.apply recordKey id m).records := by
  rcases apply_cases recordKey w id m with ⟨_, -, -, heq⟩ | ⟨-, heq⟩
  · rw [heq]
    exact h
  · rw [heq]
    exact List.mem_append_left _ h

theorem Dead.apply {id : ℕ} {r : ρ} {m : μ} {k : κ} (h : w.Dead key recordKey k)
    (hr : w.request? id = some r) (hm : recordKey m = key r) :
    (w.apply recordKey id m).Dead key recordKey k := by
  rcases apply_cases recordKey w id m with ⟨_, -, -, heq⟩ | ⟨-, heq⟩
  · rw [heq]
    exact h.answer ..
  · rw [heq]
    refine ⟨?_, (h.answer id (.inl m)).2⟩
    rintro ⟨m', hm', hk⟩
    rcases List.mem_append.mp hm' with hm' | hm'
    · exact h.1 ⟨m', hm', hk⟩
    · rw [List.mem_singleton] at hm'
      subst hm'
      exact h.2 (hk ▸ hm ▸ pending_of_request hr)

omit [DecidableEq κ] in
/-- Answering with a record of the key, or with a refusal the service may give. -/
theorem Sound.answer (h : w.Sound key recordKey Origin) {id : ℕ} {r : ρ} {a : μ ⊕ ν}
    (hr : w.request? id = some r)
    (hinl : ∀ m, a = .inl m → m ∈ w.records ∧ key r = recordKey m)
    (hinr : ∀ v, a = .inr v → w.Recorded recordKey (key r) → ¬ w.OnlySent key id (key r)) :
    (w.answer id a).Sound key recordKey Origin := by
  obtain ⟨hid, hsent⟩ := request?_eq_some hr
  have hsame : ∀ {r' : ρ}, w.sent[id]? = some r' → r' = r :=
    fun hr' => Option.some.inj (hr'.symm.trans hsent)
  refine ⟨h.unique, h.origin, fun id' hid' => h.inFlight id' (List.mem_of_mem_filter hid'),
    ?_, ?_, ?_⟩
  · intro id' a' ha'
    rcases List.mem_cons.mp ha' with heq | ha'
    · obtain ⟨rfl, rfl⟩ := Prod.mk.inj heq
      exact ⟨fun hmem => by simpa using (List.mem_filter.mp hmem).2, h.inFlight id' hid⟩
    · obtain ⟨hserved, hlt⟩ := h.answered id' a' ha'
      exact ⟨fun hmem => hserved (List.mem_of_mem_filter hmem), hlt⟩
  · intro id' m hm
    rcases List.mem_cons.mp hm with heq | hm
    · obtain ⟨rfl, rfl⟩ := Prod.mk.inj heq
      obtain ⟨hrecord, hkey⟩ := hinl m rfl
      exact ⟨hrecord, fun r' hr' => hsame hr' ▸ hkey⟩
    · exact h.recorded id' m hm
  · intro id' v hv r' hr' hrecorded
    rcases List.mem_cons.mp hv with heq | hv
    · obtain ⟨rfl, rfl⟩ := Prod.mk.inj heq
      obtain rfl := hsame hr'
      exact hinr v rfl hrecorded
    · exact h.refused id' v hv r' hr' hrecorded

theorem Sound.apply (h : w.Sound key recordKey Origin) {id : ℕ} {r : ρ} {m : μ}
    (hr : w.request? id = some r) (hm : recordKey m = key r) (horigin : Origin r m) :
    (w.apply recordKey id m).Sound key recordKey Origin := by
  obtain ⟨hid, hsent⟩ := request?_eq_some hr
  rcases apply_cases recordKey w id m with
    ⟨recorded, hrecorded, hkey, heq⟩ | ⟨hnone, heq⟩
  · rw [heq]
    refine h.answer hr ?_ (fun v hv => nomatch hv)
    intro m' hm'
    cases hm'
    exact ⟨hrecorded, hm.symm.trans hkey.symm⟩
  · -- The new record is inserted first: answering with it is then a replay.
    have hinserted : ({ w with records := Table.insert w.records m } : Wire ρ μ ν).Sound
        key recordKey Origin := by
      refine ⟨h.unique.insert hnone, ?_, h.inFlight, h.answered, ?_, ?_⟩
      · intro m' hm'
        rcases List.mem_append.mp hm' with hm' | hm'
        · exact h.origin m' hm'
        · rw [List.mem_singleton] at hm'
          subst hm'
          exact ⟨r, List.mem_of_getElem? hsent, hm.symm, horigin⟩
      · intro id' m' hm'
        obtain ⟨hrecord, hkey⟩ := h.recorded id' m' hm'
        exact ⟨List.mem_append_left _ hrecord, hkey⟩
      · rintro id' v hv r' hr' ⟨m', hm', hk⟩ honly
        rcases List.mem_append.mp hm' with hm' | hm'
        · exact h.refused id' v hv r' hr' ⟨m', hm', hk⟩ honly
        · rw [List.mem_singleton] at hm'
          subst hm'
          -- The refused request was served, so it is not the one being applied.
          obtain rfl : id = id' := honly id r hsent (hm.symm.trans hk)
          exact (h.answered _ _ hv).1 hid
    rw [heq]
    refine hinserted.answer hr (a := .inl m) ?_ (fun v hv => nomatch hv)
    intro m' hm'
    cases hm'
    exact ⟨List.mem_append_right _ (List.mem_singleton_self _), hm.symm⟩

theorem Sound.refuse (h : w.Sound key recordKey Origin) {id : ℕ} {r : ρ} (v : ν)
    (hr : w.request? id = some r) (hrefusable : w.refusable key recordKey id (key r) = true) :
    (w.answer id (.inr v)).Sound key recordKey Origin := by
  refine h.answer hr (fun m hm => nomatch hm) ?_
  rintro v' - ⟨m, hm, hk⟩
  rcases Bool.or_eq_true _ _ ▸ hrefusable with hnone | hanother
  · rw [Option.isNone_iff_eq_none, Table.find_eq_none_iff] at hnone
    exact absurd hk (hnone m hm)
  · exact not_onlySent_of_another hanother

/-!
# What a refusal proves
-/

omit [DecidableEq κ] in
/-- Once the only request ever sent under a key has been refused, the key is dead. -/
theorem Sound.dead_of_refused (h : w.Sound key recordKey Origin) {id : ℕ} {v : ν} {r : ρ}
    (hv : (id, .inr v) ∈ w.answers) (hr : w.sent[id]? = some r)
    (honly : w.OnlySent key id (key r)) : w.Dead key recordKey (key r) := by
  refine ⟨fun hrecorded => h.refused id v hv r hr hrecorded honly, ?_⟩
  rintro ⟨id', hid', r', hr', hk⟩
  obtain rfl := honly id' r' hr' hk
  exact (h.answered _ _ hv).1 hid'

omit [DecidableEq κ] in
theorem Sound.dead_of_not_sent (h : w.Sound key recordKey Origin) {k : κ}
    (hk : ¬ w.Sent key k) : w.Dead key recordKey k := by
  refine ⟨?_, ?_⟩
  · rintro ⟨m, hm, hkm⟩
    obtain ⟨r, hr, hkr, -⟩ := h.origin m hm
    exact hk ⟨r, hr, hkr.trans hkm⟩
  · rintro ⟨id, -, r, hr, hkr⟩
    exact hk ⟨r, List.mem_of_getElem? hr, hkr⟩

end

end Wire
