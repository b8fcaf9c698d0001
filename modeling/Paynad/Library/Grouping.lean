import Mathlib.Algebra.BigOperators.Group.List.Basic
import Mathlib.Data.List.Nodup

/-!
# Sums over a table, group by group

A table whose rows all fall under a list of distinct keys is summed key by key, or by
owners that hold several keys each. The sum of a quantity over the whole table is then
read off the owners.
-/

namespace Grouping

variable {ρ κ ω M : Type*} [DecidableEq κ] [AddCommMonoid M]

omit [DecidableEq κ] in
theorem sum_map_filter (p : ρ → Prop) [DecidablePred p] (t : List ρ) (f : ρ → M) :
    ((t.filter p).map f).sum = (t.map fun r => if p r then f r else 0).sum := by
  rw [List.sum_map_ite]
  simp

theorem sum_map_ite_key {ks : List κ} (hks : ks.Nodup) {k : κ} (hk : k ∈ ks) (a : M) :
    (ks.map fun k' => if k = k' then a else 0).sum = a := by
  rw [List.sum_map_eq_nsmul_single k _ fun k' hne _ => if_neg hne.symm, if_pos rfl,
    List.count_eq_one_of_mem hks hk, one_nsmul]

theorem sum_map_keys {key : ρ → κ} {ks : List κ} (hks : ks.Nodup) {t : List ρ}
    (ht : ∀ r ∈ t, key r ∈ ks) (f : ρ → M) :
    (ks.map fun k => ((t.filter fun r => key r = k).map f).sum).sum = (t.map f).sum := by
  induction t with
  | nil => simp
  | cons r t ih =>
      have hshare : ∀ k, (((r :: t).filter fun r => key r = k).map f).sum =
          (if key r = k then f r else 0) + ((t.filter fun r => key r = k).map f).sum := by
        intro k
        by_cases h : key r = k <;> simp [h]
      simp only [hshare, List.sum_map_add, List.map_cons, List.sum_cons]
      rw [sum_map_ite_key hks (ht r (List.mem_cons_self ..)),
        ih fun r' hr' => ht r' (List.mem_cons_of_mem _ hr')]

theorem sum_map_owners {key : ρ → κ} {owners : List ω} {keysOf : ω → List κ}
    (hkeys : (owners.flatMap keysOf).Nodup) {t : List ρ}
    (ht : ∀ r ∈ t, ∃ o ∈ owners, key r ∈ keysOf o) (f : ρ → M) :
    (owners.map fun o => ((keysOf o).map fun k =>
        ((t.filter fun r => key r = k).map f).sum).sum).sum = (t.map f).sum := by
  rw [← sum_map_keys hkeys (fun r hr => List.mem_flatMap.mpr (ht r hr)) f]
  clear hkeys ht
  induction owners with
  | nil => rfl
  | cons o owners ih =>
      rw [List.flatMap_cons, List.map_append, List.sum_append, List.map_cons, List.sum_cons, ih]

end Grouping
