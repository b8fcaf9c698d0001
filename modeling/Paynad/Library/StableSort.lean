import Mathlib.Data.List.Sort

/-!
# Sorting twice

An insertion sort is stable: elements that its relation does not tell apart keep their
order. So a list that is sorted by one relation and then by another one is sorted by the
second, and by the first where the second does not tell.
-/

namespace StableSort

variable {α : Type*} {r s : α → α → Prop} {a b : α} {l : List α}

/-- In the order of `r`, and in that of `s` where `r` does not tell. -/
def Then (r s : α → α → Prop) (a b : α) : Prop := r a b ∧ (r b a → s a b)

instance [DecidableRel r] [DecidableRel s] : DecidableRel (Then r s) := fun a b =>
  inferInstanceAs (Decidable (r a b ∧ (r b a → s a b)))

theorem then_iff_of_rel (h : s a b) : Then r s a b ↔ r a b :=
  ⟨And.left, fun hr => ⟨hr, fun _ => h⟩⟩

theorem then_iff_of_not_rel [Std.Total r] (h : ¬ s a b) : Then r s a b ↔ ¬ r b a :=
  ⟨fun hthen hr => h (hthen.2 hr),
    fun hr => ⟨(Std.Total.total a b).resolve_right hr, fun hr' => absurd hr' hr⟩⟩

section

variable [DecidableRel r] [DecidableRel s]

theorem orderedInsert_congr (h : ∀ b ∈ l, r a b ↔ s a b) :
    l.orderedInsert r a = l.orderedInsert s a := by
  induction l with
  | nil => rfl
  | cons b l ih =>
      rw [List.orderedInsert_cons, List.orderedInsert_cons,
        ih fun c hc => h c (List.mem_cons_of_mem _ hc)]
      exact if_congr (h b (List.mem_cons_self ..)) rfl rfl

/-- An element that `s` puts after another one can be inserted before or after it. -/
theorem orderedInsert_comm [Std.Total r] [IsTrans α r] (hab : ¬ s a b) (l : List α) :
    (l.orderedInsert (Then r s) a).orderedInsert r b =
      (l.orderedInsert r b).orderedInsert (Then r s) a := by
  have hthen : Then r s a b ↔ ¬ r b a := then_iff_of_not_rel hab
  induction l with
  | nil =>
      by_cases hba : r b a <;> simp [hthen, hba]
  | cons c l ih =>
      by_cases hac : Then r s a c <;> by_cases hbc : r b c
      · by_cases hba : r b a <;> simp [hac, hbc, hthen, hba]
      · have hba : ¬ r b a := fun hba => hbc (IsTrans.trans b a c hba hac.1)
        simp [hac, hbc, hba]
      · have hba : r b a := by
          by_contra hba
          have hr : r a b := (Std.Total.total a b).resolve_right hba
          have hca (hca : r c a) : r b a := IsTrans.trans b c a hbc hca
          exact hac ⟨IsTrans.trans a b c hr hbc, fun h => absurd (hca h) hba⟩
        simp [hac, hbc, hthen, hba]
      · simp [hac, hbc, ih]

theorem insertionSort_orderedInsert [Std.Total r] [IsTrans α r] [IsTrans α s]
    (hl : l.Pairwise s) (a : α) :
    (l.orderedInsert s a).insertionSort r = (l.insertionSort r).orderedInsert (Then r s) a := by
  induction l with
  | nil => rfl
  | cons b l ih =>
      obtain ⟨hb, hl⟩ := List.pairwise_cons.mp hl
      by_cases hab : s a b
      · rw [List.orderedInsert_cons_of_le s l hab, List.insertionSort_cons]
        refine orderedInsert_congr fun c hc => (then_iff_of_rel ?_).symm
        rcases List.mem_cons.mp ((List.mem_insertionSort r).mp hc) with rfl | hc
        · exact hab
        · exact IsTrans.trans a b c hab (hb c hc)
      · rw [List.orderedInsert_of_not_le s l hab, List.insertionSort_cons, ih hl,
          List.insertionSort_cons]
        exact orderedInsert_comm hab _

/-- Sorting by `s` and then by `r` is sorting by `r`, and by `s` where `r` does not tell. -/
theorem insertionSort_insertionSort [Std.Total r] [IsTrans α r] [Std.Total s] [IsTrans α s]
    (l : List α) : (l.insertionSort s).insertionSort r = l.insertionSort (Then r s) := by
  induction l with
  | nil => rfl
  | cons a l ih =>
      rw [List.insertionSort_cons,
        insertionSort_orderedInsert (List.pairwise_insertionSort s l), ih, List.insertionSort_cons]

end

end StableSort
