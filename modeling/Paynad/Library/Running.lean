import Mathlib.Algebra.BigOperators.Group.List.Basic

/-!
# Running balances

A list of entries chains two balances when each entry starts from the balance
the one before it left. A chain grows at its end, and when every entry adds its
own change the last balance is the first one plus the sum of the changes.
-/

namespace Running

variable {ε α : Type*}

/-- The entries lead from one balance to another, each from where the last one ended. -/
def Chained (before after : ε → α) : α → List ε → α → Prop
  | a, [], b => a = b
  | a, e :: es, b => before e = a ∧ Chained before after (after e) es b

variable {before after : ε → α} {a b c : α} {e : ε} {es : List ε}

@[simp] theorem chained_nil : Chained before after a [] b ↔ a = b := Iff.rfl

@[simp] theorem chained_cons :
    Chained before after a (e :: es) b ↔
      before e = a ∧ Chained before after (after e) es b := Iff.rfl

/-- A chain is extended by an entry that starts where it ends. -/
theorem chained_concat :
    Chained before after a (es ++ [e]) c ↔
      Chained before after a es (before e) ∧ after e = c := by
  induction es generalizing a with
  | nil => simp [eq_comm]
  | cons e' es ih => simp [ih, and_assoc]

theorem Chained.sum [AddMonoid α] {delta : ε → α} (h : Chained before after a es b)
    (hdelta : ∀ e ∈ es, after e = before e + delta e) : b = a + (es.map delta).sum := by
  induction es generalizing a with
  | nil => simpa using Eq.symm h
  | cons e es ih =>
      obtain ⟨hbefore, hrest⟩ := h
      have hes : ∀ e' ∈ es, after e' = before e' + delta e' := fun e' he' =>
        hdelta e' (List.mem_cons_of_mem _ he')
      calc b = after e + (es.map delta).sum := ih hrest hes
        _ = before e + delta e + (es.map delta).sum := by
            rw [hdelta e (List.mem_cons_self ..)]
        _ = a + ((e :: es).map delta).sum := by
            rw [hbefore, List.map_cons, List.sum_cons, add_assoc]

end Running
