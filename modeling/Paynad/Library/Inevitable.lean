import Mathlib.Tactic.Choose
import Paynad.Library.Transition

/-!
# What comes in the end, whatever the surroundings decide

One party takes the steps of a system: `next a s` is its step in the state `s`
when the surroundings decide `a`. `Inevitable next P s` says that from `s` on
there is always a next step, whatever the surroundings decide, until `P` holds.
Its composition rule chains the stages of a workflow, and `Inevitable.follow`
reads it along every sequence of decisions. Where other parties step in between, a
rank that the steps of the one party use up bounds how many of them a run can have.
-/

namespace Transition

variable {σ α : Type*} {next : α → σ → Option σ} {P Q : σ → Prop} {s : σ}

/-- Whatever the surroundings decide, the steps lead to a state where `P` holds. -/
inductive Inevitable (next : α → σ → Option σ) (P : σ → Prop) : σ → Prop
  | now {s : σ} (h : P s) : Inevitable next P s
  | later {s : σ} (after : α → σ) (hnext : ∀ a, next a s = some (after a))
      (hafter : ∀ a, Inevitable next P (after a)) : Inevitable next P s

namespace Inevitable

theorem step (h : ∀ a, ∃ s', next a s = some s' ∧ Inevitable next P s') :
    Inevitable next P s := by
  choose after hnext hafter using h
  exact .later after hnext hafter

/-- What comes after something inevitable is inevitable. -/
theorem trans (h : Inevitable next P s) (hQ : ∀ s, P s → Inevitable next Q s) :
    Inevitable next Q s := by
  induction h with
  | now h => exact hQ _ h
  | later after hnext _ ih => exact .later after hnext ih

theorem mono (h : Inevitable next P s) (hQ : ∀ s, P s → Q s) : Inevitable next Q s :=
  h.trans fun s hs => .now (hQ s hs)

/-- What the steps keep holds at the end. -/
theorem keep {I : σ → Prop} (hI : ∀ a s t, I s → next a s = some t → I t) (hs : I s)
    (h : Inevitable next P s) : Inevitable next (fun t => P t ∧ I t) s := by
  induction h with
  | now h => exact .now ⟨h, hs⟩
  | later after hnext _ ih => exact .later after hnext fun a => ih a (hI a _ _ hs (hnext a))

/-- What a part brings about alone, the whole brings about through it. -/
theorem lift {τ β : Type*} {next' : β → τ → Option τ} (decide : β → α) (whole : σ → τ)
    (hstep : ∀ b s t, next (decide b) s = some t → next' b (whole s) = some (whole t))
    (h : Inevitable next P s) : Inevitable next' (fun x => ∃ t, x = whole t ∧ P t) (whole s) := by
  induction h with
  | now h => exact .now ⟨_, rfl, h⟩
  | later after hnext _ ih =>
      exact .later (fun b => whole (after (decide b))) (fun b => hstep b _ _ (hnext (decide b)))
        fun b => ih (decide b)

end Inevitable

/-- `n` steps, under the decisions `around 0`, `around 1` and so on. -/
def follow (next : α → σ → Option σ) : (ℕ → α) → ℕ → σ → Option σ
  | _, 0, s => some s
  | around, n + 1, s => (next (around 0) s).bind (follow next (fun i => around (i + 1)) n)

/-- Every sequence of decisions leads to what is inevitable. -/
theorem Inevitable.follow (h : Inevitable next P s) (around : ℕ → α) :
    ∃ n s', follow next around n s = some s' ∧ P s' := by
  induction h generalizing around with
  | now h => exact ⟨0, _, rfl, h⟩
  | later after hnext _ ih =>
      obtain ⟨n, s', hfollow, hP⟩ := ih (around 0) fun i => around (i + 1)
      refine ⟨n + 1, s', ?_, hP⟩
      rw [Transition.follow, hnext]
      exact hfollow

/-- What comes as long as a rank goes down comes within as many steps as the rank allows. -/
theorem follow_of_rank {I : σ → Prop} (rank : σ → ℕ)
    (h : ∀ s, I s → ∀ a, ∃ t, next a s = some t ∧ (P t ∨ I t ∧ rank t < rank s))
    (hs : I s) (around : ℕ → α) :
    ∃ n ≤ rank s + 1, ∃ t, follow next around n s = some t ∧ P t := by
  induction hrank : rank s using Nat.strongRecOn generalizing s around with
  | _ r ih =>
      obtain ⟨t, ht, hgoal | ⟨hIt, hlt⟩⟩ := h s hs (around 0)
      · refine ⟨1, by omega, t, ?_, hgoal⟩
        rw [follow, ht]
        rfl
      · obtain ⟨n, hn, u, hfollow, hu⟩ :=
          ih (rank t) (hrank ▸ hlt) hIt (fun i => around (i + 1)) rfl
        refine ⟨n + 1, by omega, u, ?_, hu⟩
        rw [follow, ht]
        exact hfollow

/-- A run has no more steps of one party than the rank that each of them uses up. -/
theorem countP_add_rank_le {ε : Type*} {step : σ → ε → Option σ} {I : σ → Prop} {A : ε → Prop}
    {own : ε → Bool} {rank : σ → ℕ} (hI : ∀ s e s', I s → step s e = some s' → I s')
    (hrank : ∀ s e s', I s → A e → step s e = some s' → rank s' + (own e).toNat ≤ rank s)
    {s t : σ} {es : List ε} (h : run step s es = some t) (hA : ∀ e ∈ es, A e) (hs : I s) :
    es.countP own + rank t ≤ rank s := by
  induction es generalizing s with
  | nil =>
      obtain rfl : s = t := Option.some.inj h
      simp
  | cons e es ih =>
      obtain ⟨s', hs', hrest⟩ := Option.bind_eq_some_iff.mp h
      have hle := ih hrest (fun e he => hA e (List.mem_cons_of_mem _ he)) (hI s e s' hs hs')
      have hstep := hrank s e s' hs (hA e (List.mem_cons_self ..)) hs'
      rw [List.countP_cons]
      cases hown : own e <;> simp only [hown, Bool.toNat_false, Bool.toNat_true] at hstep <;>
        simp only [Bool.false_eq_true, if_true, if_false] <;> omega

end Transition
