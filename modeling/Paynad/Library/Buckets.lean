import Mathlib.Data.List.Count

/-!
# Limits with a bucket a key

A limiter puts every request of a window into the bucket of its key, and lets it through
while fewer requests than the limit are in the bucket before it. Of each bucket the first
requests go through, as many as the limit; all buckets together stay within it only when
there is nothing to limit or a single bucket.
-/

namespace Buckets

variable {ρ κ : Type*} [DecidableEq κ] {key : ρ → κ} {admits : List κ → κ → Bool}
  {limit : ℕ} {earlier : List κ} {rs : List ρ} {k : κ}

def Fills (limit : ℕ) (admits : List κ → κ → Bool) : Prop :=
  ∀ earlier k, admits earlier k = true ↔ earlier.count k < limit

def counting (limit : ℕ) (earlier : List κ) (k : κ) : Bool := decide (earlier.count k < limit)

/-- The requests that go through, after those that are in the buckets. -/
def through (key : ρ → κ) (admits : List κ → κ → Bool) : List κ → List ρ → List ρ
  | _, [] => []
  | earlier, r :: rs =>
      if admits earlier (key r) then
        r :: through key admits (earlier ++ [key r]) rs
      else
        through key admits (earlier ++ [key r]) rs

theorem fills_counting (limit : ℕ) : Fills limit (@counting κ _ limit) :=
  fun _ _ => decide_eq_true_iff

omit [DecidableEq κ] in
theorem through_sublist : (through key admits earlier rs).Sublist rs := by
  induction rs generalizing earlier with
  | nil => exact .slnil
  | cons r rs ih =>
      rw [through]
      split_ifs
      · exact ih.cons_cons r
      · exact ih.cons r

/-- Of a bucket, as many requests go through as there is room for. -/
theorem count_through (h : Fills limit admits) :
    ((through key admits earlier rs).map key).count k =
      min ((rs.map key).count k) (limit - earlier.count k) := by
  induction rs generalizing earlier with
  | nil => simp [through]
  | cons r rs ih =>
      rw [through]
      by_cases hk : key r = k
      · subst hk
        split_ifs with hthrough
        · have hroom := (h earlier (key r)).mp hthrough
          simp only [List.map_cons, List.count_cons_self, ih, List.count_append, List.count_nil]
          omega
        · have hfull : ¬ earlier.count (key r) < limit := mt (h earlier (key r)).mpr hthrough
          simp only [List.map_cons, List.count_cons_self, ih, List.count_append, List.count_nil]
          omega
      · -- The bucket is another one.
        split_ifs <;>
          simp only [List.map_cons, List.count_cons_of_ne hk, ih, List.count_append,
            List.count_nil] <;>
          omega

theorem count_add_count_le {k' : κ} {ks : List κ} (h : k ≠ k') :
    ks.count k + ks.count k' ≤ ks.length := by
  induction ks with
  | nil => simp
  | cons first ks ih =>
      simp only [List.count_cons, List.length_cons, beq_iff_eq]
      split_ifs with hfirst hfirst'
      · exact absurd (hfirst.symm.trans hfirst') h
      all_goals omega

/-- Without a bucket that runs over, everything goes through. -/
theorem length_through_of_forall_le (h : Fills limit admits)
    (hle : ∀ k, (rs.map key).count k ≤ limit) :
    (through key admits [] rs).length = rs.length := by
  have hperm : ((through key admits [] rs).map key).Perm (rs.map key) := by
    rw [List.perm_iff_count]
    intro k
    rw [count_through h, List.count_nil, Nat.sub_zero]
    exact Nat.min_eq_left (hle k)
  simpa using hperm.length_eq

/-- What goes through of one bucket is within the limit. -/
theorem length_through_of_forall_eq (h : Fills limit admits)
    (heq : ∀ r ∈ rs, ∀ r' ∈ rs, key r = key r') :
    (through key admits [] rs).length ≤ limit := by
  cases rs with
  | nil => exact Nat.zero_le _
  | cons r rs =>
      have hall : ∀ k ∈ (through key admits [] (r :: rs)).map key, key r = k := by
        intro k hk
        obtain ⟨r', hr', rfl⟩ := List.mem_map.mp hk
        exact heq r (List.mem_cons_self ..) r' (through_sublist.subset hr')
      have hcount := List.count_eq_length.mpr hall
      rw [count_through h, List.count_nil, Nat.sub_zero, List.length_map] at hcount
      rw [← hcount]
      exact Nat.min_le_right _ _

/-- All that goes through stays within the limit exactly when the limit is zero, or there
is nothing to refuse, or every request is in one bucket. -/
theorem length_through_le_iff (h : Fills limit admits) :
    (through key admits [] rs).length ≤ limit ↔
      limit = 0 ∨ rs.length ≤ limit ∨ ∀ r ∈ rs, ∀ r' ∈ rs, key r = key r' := by
  have hcount : ∀ k, ((through key admits [] rs).map key).count k =
      min ((rs.map key).count k) limit := by
    intro k
    rw [count_through h, List.count_nil, Nat.sub_zero]
  constructor
  · intro hwithin
    by_contra hnot
    simp only [not_or, Nat.not_le] at hnot
    obtain ⟨hlimit, hmany, hkeys⟩ := hnot
    by_cases hle : ∀ k, (rs.map key).count k ≤ limit
    · have := length_through_of_forall_le h hle
      omega
    · -- A bucket runs over, and another one lets a request through as well.
      obtain ⟨k, hk⟩ := not_forall.mp hle
      have hother : ∃ r ∈ rs, key r ≠ k := by
        by_contra hnone
        refine hkeys fun r hr r' hr' => ?_
        have hsame : ∀ r ∈ rs, key r = k := fun r hr =>
          not_not.mp fun hne => hnone ⟨r, hr, hne⟩
        rw [hsame r hr, hsame r' hr']
      obtain ⟨r, hr, hne⟩ := hother
      have hpos : 0 < (rs.map key).count (key r) :=
        List.count_pos_iff.mpr (List.mem_map_of_mem hr)
      have hsum : ((through key admits [] rs).map key).count k +
          ((through key admits [] rs).map key).count (key r) ≤
            ((through key admits [] rs).map key).length := count_add_count_le hne.symm
      rw [hcount, hcount, List.length_map] at hsum
      omega
  · rintro (rfl | hfew | heq)
    · by_contra hnot
      obtain ⟨r, hr⟩ := List.exists_mem_of_length_pos (Nat.pos_of_ne_zero fun hzero =>
        hnot (Nat.le_of_eq hzero))
      have hpos := List.count_pos_iff.mpr (List.mem_map_of_mem (f := key) hr)
      rw [hcount, Nat.min_zero] at hpos
      exact absurd hpos (Nat.lt_irrefl 0)
    · exact Nat.le_trans through_sublist.length_le hfew
    · exact length_through_of_forall_eq h heq

end Buckets
