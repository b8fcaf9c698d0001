import Mathlib.Data.List.Nodup
import Mathlib.Data.List.Perm.Basic

/-!
# Keyed tables

A table is a list of rows read through a key. `find` is the lookup by key,
`modify` rewrites the row of one key and `insert` appends a row. The lemmas say
what each of the two writes does to every lookup, so no later proof unfolds a
table; `Unique` is the content of a unique index.
-/

namespace Table

variable {ρ κ : Type*} [DecidableEq κ]

def find (key : ρ → κ) (t : List ρ) (k : κ) : Option ρ :=
  t.find? fun r => key r = k

def modify (key : ρ → κ) (t : List ρ) (k : κ) (f : ρ → ρ) : List ρ :=
  t.map fun r => if key r = k then f r else r

def insert (t : List ρ) (r : ρ) : List ρ := t ++ [r]

def Unique (key : ρ → κ) (t : List ρ) : Prop := (t.map key).Nodup

@[simp] theorem find_nil (key : ρ → κ) (k : κ) :
    find key [] k = none := rfl

theorem find_cons (key : ρ → κ) (r : ρ) (t : List ρ) (k : κ) :
    find key (r :: t) k = if key r = k then some r else find key t k := by
  by_cases h : key r = k <;> simp [find, h]

theorem key_of_find {key : ρ → κ} {t : List ρ} {k : κ} {r : ρ}
    (h : find key t k = some r) : key r = k := by
  simpa using List.find?_some h

theorem mem_of_find {key : ρ → κ} {t : List ρ} {k : κ} {r : ρ}
    (h : find key t k = some r) : r ∈ t :=
  List.mem_of_find?_eq_some h

theorem find_eq_none_iff {key : ρ → κ} {t : List ρ} {k : κ} :
    find key t k = none ↔ ∀ r ∈ t, key r ≠ k := by
  simp [find]

theorem find_insert (key : ρ → κ) (t : List ρ) (r : ρ) (k : κ) :
    find key (insert t r) k =
      (find key t k).or (if key r = k then some r else none) := by
  by_cases h : key r = k <;> simp [find, insert, h, List.find?_append]

theorem find_insert_of_find {key : ρ → κ} {t : List ρ} {k : κ} {r r' : ρ}
    (h : find key t k = some r) : find key (insert t r') k = some r := by
  rw [find_insert, h]
  rfl

theorem find_insert_of_ne {key : ρ → κ} {t : List ρ} {r : ρ} {k : κ}
    (h : key r ≠ k) : find key (insert t r) k = find key t k := by
  rw [find_insert, if_neg h, Option.or_none]

theorem find_insert_self {key : ρ → κ} {t : List ρ} {r : ρ}
    (h : find key t (key r) = none) :
    find key (insert t r) (key r) = some r := by
  rw [find_insert, h, if_pos rfl]
  rfl

theorem find_modify_self {key : ρ → κ} {f : ρ → ρ} {k : κ}
    (hf : ∀ r, key r = k → key (f r) = k) (t : List ρ) :
    find key (modify key t k f) k = (find key t k).map f := by
  induction t with
  | nil => rfl
  | cons r t ih =>
      simp only [modify, List.map_cons] at ih ⊢
      rw [find_cons, find_cons]
      by_cases h : key r = k
      · simp [h, hf r h]
      · simp [h, ih]

theorem find_modify_of_ne {key : ρ → κ} {f : ρ → ρ} {k k' : κ}
    (hf : ∀ r, key r = k → key (f r) = k) (hne : k' ≠ k) (t : List ρ) :
    find key (modify key t k f) k' = find key t k' := by
  induction t with
  | nil => rfl
  | cons r t ih =>
      simp only [modify, List.map_cons] at ih ⊢
      rw [find_cons, find_cons]
      by_cases h : key r = k
      · have hr : key r ≠ k' := fun h' => hne (h' ▸ h)
        have hfr : key (f r) ≠ k' := by
          rw [hf r h]
          exact hne.symm
        simp [h, hfr, hne.symm, ih]
      · simp [h, ih]

theorem mem_modify {key : ρ → κ} {f : ρ → ρ} {k : κ} {t : List ρ} {r : ρ}
    (h : r ∈ modify key t k f) :
    (r ∈ t ∧ key r ≠ k) ∨ ∃ r₀ ∈ t, key r₀ = k ∧ r = f r₀ := by
  obtain ⟨r₀, hr₀, rfl⟩ := List.mem_map.mp h
  by_cases hk : key r₀ = k
  · exact Or.inr ⟨r₀, hr₀, hk, by simp [hk]⟩
  · exact Or.inl ⟨by simpa [hk] using hr₀, by simp [hk]⟩

theorem map_modify {α : Type*} {key : ρ → κ} {f : ρ → ρ} {k : κ} {t : List ρ} {g : ρ → α}
    (h : ∀ r ∈ t, key r = k → g (f r) = g r) : (modify key t k f).map g = t.map g := by
  simp only [modify, List.map_map]
  refine List.map_congr_left fun r hr => ?_
  by_cases hk : key r = k
  · simp [hk, h r hr hk]
  · simp [hk]

omit [DecidableEq κ] in
theorem Unique.nil (key : ρ → κ) : Unique key [] := List.nodup_nil

theorem Unique.insert {key : ρ → κ} {t : List ρ} {r : ρ} (h : Unique key t)
    (hr : find key t (key r) = none) : Unique key (Table.insert t r) := by
  rw [find_eq_none_iff] at hr
  simp only [Unique, Table.insert, List.map_append, List.map_cons, List.map_nil]
  rw [List.nodup_append]
  refine ⟨h, by simp, ?_⟩
  intro k hk k' hk'
  obtain ⟨r', hr', rfl⟩ := List.mem_map.mp hk
  rw [List.mem_singleton.mp hk']
  exact hr r' hr'

theorem Unique.modify {key : ρ → κ} {t : List ρ} {k : κ} {f : ρ → ρ}
    (h : Unique key t) (hf : ∀ r, key r = k → key (f r) = k) :
    Unique key (Table.modify key t k f) := by
  rw [Unique, map_modify fun r _ hk => (hf r hk).trans hk.symm]
  exact h

/-- Under a unique index every stored row is the one its key looks up. -/
theorem Unique.find_of_mem {key : ρ → κ} {t : List ρ} (h : Unique key t)
    {r : ρ} (hr : r ∈ t) : find key t (key r) = some r := by
  induction t with
  | nil => simp at hr
  | cons r₀ t ih =>
      rw [find_cons]
      have hnodup := List.nodup_cons.mp h
      rcases List.mem_cons.mp hr with rfl | hmem
      · simp
      · have hne : key r₀ ≠ key r := fun heq =>
          hnodup.1 (List.mem_map.mpr ⟨r, hmem, heq.symm⟩)
        rw [if_neg hne]
        exact ih hnodup.2 hmem

theorem Unique.filter_key {key : ρ → κ} {t : List ρ} (h : Unique key t)
    (k : κ) : t.filter (fun r => key r = k) = (find key t k).toList := by
  induction t with
  | nil => rfl
  | cons r t ih =>
      obtain ⟨hr, ht⟩ := List.nodup_cons.mp h
      rw [find_cons, List.filter_cons]
      by_cases hk : key r = k
      · have hrest : t.filter (fun r => key r = k) = [] := by
          rw [List.filter_eq_nil_iff]
          intro r' hr' hk'
          exact hr (List.mem_map.mpr ⟨r', hr', by simpa [hk] using hk'⟩)
        simp [hk, hrest]
      · simp [hk, ih ht]

/-- Two tables with the same keys whose rows agree key by key agree up to their order. -/
theorem Unique.perm_map {β : Type*} {key : ρ → κ} {t t' : List ρ} (f : ρ → β)
    (h : Unique key t) (h' : Unique key t') (hkeys : ∀ k, k ∈ t.map key ↔ k ∈ t'.map key)
    (hrows : ∀ r ∈ t, ∀ r' ∈ t', key r = key r' → f r = f r') :
    (t.map f).Perm (t'.map f) := by
  have hread : ∀ r ∈ t, (find key t (key r)).map f = some (f r) := by
    intro r hr
    rw [h.find_of_mem hr]
    rfl
  have hread' : ∀ r' ∈ t', (find key t (key r')).map f = some (f r') := by
    intro r' hr'
    obtain ⟨r, hr, heq⟩ := List.mem_map.mp ((hkeys _).mpr (List.mem_map_of_mem hr'))
    rw [← heq, hread r hr, hrows r hr r' hr' heq]
  have hmap : ∀ l : List ρ, (∀ r ∈ l, (find key t (key r)).map f = some (f r)) →
      (l.map key).map (fun k => (find key t k).map f) = (l.map f).map some := by
    intro l hl
    rw [List.map_map, List.map_map]
    exact List.map_congr_left hl
  have hperm : (t.map key).Perm (t'.map key) :=
    (List.perm_ext_iff_of_nodup h h').mpr hkeys
  refine (List.map_perm_map_iff fun _ _ => Option.some.inj).mp ?_
  rw [← hmap t hread, ← hmap t' hread']
  exact hperm.map _

def put (key : ρ → κ) (t : List ρ) (r : ρ) : List ρ :=
  match find key t (key r) with
  | some _ => modify key t (key r) fun _ => r
  | none => insert t r

theorem find_put (key : ρ → κ) (t : List ρ) (r : ρ) (k : κ) :
    find key (put key t r) k = if key r = k then some r else find key t k := by
  unfold put
  by_cases hk : key r = k
  · subst hk
    rw [if_pos rfl]
    cases hfind : find key t (key r) with
    | some r₀ =>
        simp only
        rw [find_modify_self (fun _ _ => rfl), hfind]
        rfl
    | none => exact find_insert_self hfind
  · rw [if_neg hk]
    cases hfind : find key t (key r) with
    | some r₀ => exact find_modify_of_ne (fun _ _ => rfl) (Ne.symm hk) t
    | none => exact find_insert_of_ne hk

def merge (key : ρ → κ) (writes t : List ρ) : List ρ :=
  writes.foldr (fun r t => put key t r) t

/-- A key reads its latest write, or else what was stored before. -/
theorem find_merge (key : ρ → κ) (writes t : List ρ) (k : κ) :
    find key (merge key writes t) k = (find key writes k).or (find key t k) := by
  induction writes with
  | nil => rfl
  | cons r writes ih =>
      have hput : merge key (r :: writes) t = put key (merge key writes t) r := rfl
      rw [hput, find_put, find_cons, ih]
      by_cases hk : key r = k <;> simp [hk]

end Table
