import Mathlib.Data.List.Basic

/-!
# Unambiguous texts

A writer turns values into lists of symbols. A value is determined by its text when the
text, followed by nothing or by a symbol that stops it, cannot begin what is written for a
value of another meaning: a reader then knows the meaning and where the text ends. Texts
without a stop are their own meaning; sequences between closing symbols and separators are
determined item by item.
-/

namespace Unambiguous

variable {α β γ : Type*} {stop : γ → Prop} {text : α → List γ} {meaning : α → β}
  {rest rest' : List γ} {sep close : γ}

def Stops (stop : γ → Prop) : List γ → Prop
  | [] => True
  | c :: _ => stop c

@[simp] theorem stops_nil : Stops stop [] := trivial

@[simp] theorem stops_cons {c : γ} : Stops stop (c :: rest) ↔ stop c := Iff.rfl

/-- The text of `a` settles its meaning and where it ends. -/
def Determines (stop : γ → Prop) (text : α → List γ) (meaning : α → β) (a : α) : Prop :=
  ∀ b rest rest', Stops stop rest → Stops stop rest' → text a ++ rest = text b ++ rest' →
    meaning a = meaning b ∧ rest = rest'

/-- Two texts without a stop are cut at the same place. -/
theorem append_inj_of_stops {x y : List γ} (hx : ∀ c ∈ x, ¬ stop c) (hy : ∀ c ∈ y, ¬ stop c)
    (hrest : Stops stop rest) (hrest' : Stops stop rest') (h : x ++ rest = y ++ rest') :
    x = y ∧ rest = rest' := by
  induction x generalizing y with
  | nil =>
      cases y with
      | nil => exact ⟨rfl, h⟩
      | cons d y =>
          rw [List.nil_append] at h
          rw [h, List.cons_append, stops_cons] at hrest
          exact absurd hrest (hy d (List.mem_cons_self ..))
  | cons c x ih =>
      cases y with
      | nil =>
          rw [List.nil_append] at h
          rw [← h, List.cons_append, stops_cons] at hrest'
          exact absurd hrest' (hx c (List.mem_cons_self ..))
      | cons d y =>
          obtain ⟨rfl, htail⟩ := List.cons_eq_cons.mp h
          obtain ⟨rfl, hends⟩ := ih (fun c hc => hx c (List.mem_cons_of_mem _ hc))
            (fun c hc => hy c (List.mem_cons_of_mem _ hc)) htail
          exact ⟨rfl, hends⟩

/-- A run of codes, each settled whatever follows, is settled by the symbol that closes it. -/
theorem flatMap_close {code : α → List γ}
    (hcode : ∀ a b r r', code a ++ r = code b ++ r' → a = b ∧ r = r')
    (hclose : ∀ a r r', code a ++ r ≠ close :: r') {l l' : List α}
    (h : l.flatMap code ++ close :: rest = l'.flatMap code ++ close :: rest') :
    l = l' ∧ rest = rest' := by
  induction l generalizing l' with
  | nil =>
      cases l' with
      | nil => exact ⟨rfl, (List.cons_eq_cons.mp h).2⟩
      | cons b l' =>
          rw [List.flatMap_nil, List.nil_append, List.flatMap_cons, List.append_assoc] at h
          exact absurd h.symm (hclose b _ _)
  | cons a l ih =>
      rw [List.flatMap_cons, List.append_assoc] at h
      cases l' with
      | nil =>
          rw [List.flatMap_nil, List.nil_append] at h
          exact absurd h (hclose a _ _)
      | cons b l' =>
          rw [List.flatMap_cons, List.append_assoc] at h
          obtain ⟨rfl, htail⟩ := hcode a b _ _ h
          obtain ⟨rfl, hends⟩ := ih htail
          exact ⟨rfl, hends⟩

/-! ## Separated sequences -/

theorem intercalate_map_cons (a : α) (l : List α) :
    [sep].intercalate ((a :: l).map text) = text a ++ l.flatMap fun b => sep :: text b := by
  induction l generalizing a with
  | nil => simp
  | cons b l ih =>
      rw [List.map_cons, List.map_cons, List.intercalate_cons_cons, ← List.map_cons, ih,
        List.flatMap_cons]
      simp

theorem stops_tail (hsep : stop sep) (hclose : stop close) (l : List α) :
    Stops stop (l.flatMap (fun b => sep :: text b) ++ close :: rest) := by
  cases l with
  | nil => exact hclose
  | cons b l => exact hsep

theorem tail_close (hsep : stop sep) (hclose : stop close) (hne : sep ≠ close) {l l' : List α}
    (hl : ∀ a ∈ l, Determines stop text meaning a)
    (h : l.flatMap (fun b => sep :: text b) ++ close :: rest =
      l'.flatMap (fun b => sep :: text b) ++ close :: rest') :
    l.map meaning = l'.map meaning ∧ rest = rest' := by
  induction l generalizing l' with
  | nil =>
      cases l' with
      | nil => exact ⟨rfl, (List.cons_eq_cons.mp h).2⟩
      | cons b l' => exact absurd (List.cons_eq_cons.mp h).1.symm hne
  | cons a l ih =>
      cases l' with
      | nil => exact absurd (List.cons_eq_cons.mp h).1 hne
      | cons b l' =>
          simp only [List.flatMap_cons, List.cons_append, List.append_assoc, List.cons.injEq,
            true_and] at h
          obtain ⟨hmeaning, htail⟩ := hl a (List.mem_cons_self ..) b _ _
            (stops_tail hsep hclose l) (stops_tail hsep hclose l') h
          obtain ⟨hrest, hends⟩ := ih (fun a ha => hl a (List.mem_cons_of_mem _ ha)) htail
          exact ⟨by rw [List.map_cons, List.map_cons, hmeaning, hrest], hends⟩

/-- A sequence with separators is determined item by item, once it is closed. -/
theorem intercalate_close (hsep : stop sep) (hclose : stop close) (hne : sep ≠ close)
    (hopen : ∀ a r r', text a ++ r ≠ close :: r') {l l' : List α}
    (hl : ∀ a ∈ l, Determines stop text meaning a)
    (h : [sep].intercalate (l.map text) ++ close :: rest =
      [sep].intercalate (l'.map text) ++ close :: rest') :
    l.map meaning = l'.map meaning ∧ rest = rest' := by
  cases l with
  | nil =>
      cases l' with
      | nil => exact ⟨rfl, (List.cons_eq_cons.mp h).2⟩
      | cons b l' =>
          rw [intercalate_map_cons, List.append_assoc] at h
          exact absurd h.symm (hopen b _ _)
  | cons a l =>
      rw [intercalate_map_cons, List.append_assoc] at h
      cases l' with
      | nil => exact absurd h (hopen a _ _)
      | cons b l' =>
          rw [intercalate_map_cons, List.append_assoc] at h
          refine tail_close hsep hclose hne hl ?_
          simp only [List.flatMap_cons, List.cons_append, List.append_assoc, h]

end Unambiguous
