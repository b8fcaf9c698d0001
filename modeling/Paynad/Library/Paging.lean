import Mathlib.Data.List.Sort

/-!
# Pages of a table

The rows of a table, the largest keys first, are read in pages: a page skips some rows
and takes the next ones. The rank of a row says how many rows come before it; a row is on
the page that covers its rank, and rows that join the table only push it back.
-/

namespace Paging

variable {ρ κ : Type*} [LinearOrder κ] {key : ρ → κ} {rows more : List ρ} {row : ρ}
  {skip take : ℕ}

def ordered (key : ρ → κ) (rows : List ρ) : List ρ :=
  rows.mergeSort fun row row' => decide (key row' ≤ key row)

/-- `ORDER BY key DESC OFFSET skip LIMIT take`. -/
def page (key : ρ → κ) (rows : List ρ) (skip take : ℕ) : List ρ :=
  ((ordered key rows).drop skip).take take

def rank (key : ρ → κ) (rows : List ρ) (row : ρ) : ℕ :=
  rows.countP fun other => decide (key row < key other)

/-! ## The order -/

theorem ordered_perm (key : ρ → κ) (rows : List ρ) : (ordered key rows).Perm rows :=
  List.mergeSort_perm ..

@[simp] theorem length_ordered (key : ρ → κ) (rows : List ρ) :
    (ordered key rows).length = rows.length :=
  (ordered_perm key rows).length_eq

theorem ordered_pairwise (hunique : (rows.map key).Nodup) :
    (ordered key rows).Pairwise fun row row' => key row' < key row := by
  have hsorted : (ordered key rows).Pairwise fun row row' => decide (key row' ≤ key row) = true :=
    List.pairwise_mergeSort
      (fun a b c hab hbc => decide_eq_true ((of_decide_eq_true hbc).trans (of_decide_eq_true hab)))
      (fun a b => by simpa using le_total (key b) (key a)) rows
  have hdistinct : (ordered key rows).Pairwise fun row row' => key row ≠ key row' := by
    have hnodup := (((ordered_perm key rows).map key).nodup_iff).mpr hunique
    exact List.pairwise_map.mp hnodup
  refine (hsorted.and hdistinct).imp fun {row row'} h => ?_
  exact lt_of_le_of_ne (of_decide_eq_true h.1) h.2.symm

/-- In a strictly ordered list the rank of a row is its index. -/
theorem getElem?_rank {l : List ρ} (h : l.Pairwise fun row row' => key row' < key row)
    (hrow : row ∈ l) : l[rank key l row]? = some row := by
  induction l with
  | nil => cases hrow
  | cons first l ih =>
      obtain ⟨hfirst, hrest⟩ := List.pairwise_cons.mp h
      rcases List.mem_cons.mp hrow with rfl | hrow
      · have hzero : rank key (row :: l) row = 0 := by
          refine List.countP_eq_zero.mpr fun other hother => ?_
          rcases List.mem_cons.mp hother with rfl | hother
          · simp
          · simpa using (hfirst other hother).le
        rw [hzero]
        rfl
      · have hsucc : rank key (first :: l) row = rank key l row + 1 :=
          List.countP_cons_of_pos (decide_eq_true (hfirst row hrow))
        rw [hsucc, List.getElem?_cons_succ]
        exact ih hrest hrow

theorem getElem?_ordered (hunique : (rows.map key).Nodup) (hrow : row ∈ rows) :
    (ordered key rows)[rank key rows row]? = some row := by
  have hrank : rank key (ordered key rows) row = rank key rows row :=
    (ordered_perm key rows).countP_eq _
  rw [← hrank]
  exact getElem?_rank (ordered_pairwise hunique) ((ordered_perm key rows).mem_iff.mpr hrow)

/-! ## The pages -/

theorem rank_lt_length (hunique : (rows.map key).Nodup) (hrow : row ∈ rows) :
    rank key rows row < rows.length := by
  obtain ⟨hlt, -⟩ := List.getElem?_eq_some_iff.mp (getElem?_ordered hunique hrow)
  simpa using hlt

theorem mem_page (hunique : (rows.map key).Nodup) (hrow : row ∈ rows)
    (hskip : skip ≤ rank key rows row) (htake : rank key rows row < skip + take) :
    row ∈ page key rows skip take := by
  refine List.mem_of_getElem? (i := rank key rows row - skip) ?_
  rw [page, List.getElem?_take_of_lt (by omega), List.getElem?_drop, Nat.add_sub_cancel' hskip]
  exact getElem?_ordered hunique hrow

theorem length_page : (page key rows skip take).length = min take (rows.length - skip) := by
  simp [page]

theorem length_page_of_le_rank (hunique : (rows.map key).Nodup) (hrow : row ∈ rows)
    (h : skip + take ≤ rank key rows row) : (page key rows skip take).length = take := by
  have hlt := rank_lt_length hunique hrow
  rw [length_page]
  omega

theorem page_subperm (key : ρ → κ) (rows : List ρ) (skip take : ℕ) :
    (page key rows skip take).Subperm rows :=
  (((List.take_sublist ..).trans (List.drop_sublist ..)).subperm).trans
    (ordered_perm key rows).subperm

/-- A row that the first page leaves out comes after all the rows of a full page. -/
theorem first_page_of_notMem (hrow : row ∈ rows) (hnot : row ∉ page key rows 0 take) :
    (page key rows 0 take).length = take ∧ ∀ other ∈ page key rows 0 take, key row ≤ key other := by
  have hsorted : (ordered key rows).Pairwise fun row row' => decide (key row' ≤ key row) = true :=
    List.pairwise_mergeSort
      (fun a b c hab hbc => decide_eq_true ((of_decide_eq_true hbc).trans (of_decide_eq_true hab)))
      (fun a b => by simpa using le_total (key b) (key a)) rows
  have hsplit : page key rows 0 take ++ (ordered key rows).drop take = ordered key rows :=
    List.take_append_drop ..
  have hrest : row ∈ (ordered key rows).drop take := by
    have hmem : row ∈ ordered key rows := (ordered_perm key rows).mem_iff.mpr hrow
    rw [← hsplit] at hmem
    exact (List.mem_append.mp hmem).resolve_left hnot
  refine ⟨?_, fun other hother => ?_⟩
  · have hlt := List.length_pos_of_mem hrest
    rw [List.length_drop, length_ordered] at hlt
    rw [length_page]
    omega
  · rw [← hsplit, List.pairwise_append] at hsorted
    exact of_decide_eq_true (hsorted.2.2 other hother row hrest)

theorem rank_le_rank_append : rank key rows row ≤ rank key (rows ++ more) row := by
  rw [rank, rank, List.countP_append]
  exact Nat.le_add_right _ _

theorem take_append_page (key : ρ → κ) (rows : List ρ) (skip take : ℕ) :
    (ordered key rows).take skip ++ page key rows skip take =
      (ordered key rows).take (skip + take) :=
  (List.take_add ..).symm

end Paging
