import Mathlib.Algebra.Order.Group.Nat
import Mathlib.Data.List.Nodup
import Mathlib.Data.List.Perm.Basic
import Mathlib.Data.List.Sort
import Paynad.Shared.Json

/-!
# What a JSON text says

Two JSON values that differ only in the order of the keys of their objects, at any depth,
say the same: `Json.meaning` reads an object as a function on names. A value is well formed
when the keys of each of its objects are distinct. Read by JavaScript, an object lists the
keys that are array indices first.
-/

namespace Paynad

namespace Shared

namespace Json

/-! ## Induction -/

theorem sizeOf_lt_of_mem_entries {entries : JsonObject} {entry : String × Json}
    (h : entry ∈ entries) : sizeOf entry.2 < sizeOf (obj entries) := by
  have hentry : sizeOf entry < sizeOf entries := List.sizeOf_lt_of_mem h
  obtain ⟨name, value⟩ := entry
  simp only [Prod.mk.sizeOf_spec, obj.sizeOf_spec] at hentry ⊢
  omega

theorem sizeOf_lt_of_mem_items {items : List Json} {item : Json} (h : item ∈ items) :
    sizeOf item < sizeOf (arr items) := by
  have hitem : sizeOf item < sizeOf items := List.sizeOf_lt_of_mem h
  simp only [arr.sizeOf_spec]
  omega

/-- A property of the items of an array and of the values of an object holds of both. -/
@[elab_as_elim]
theorem induction {P : Json → Prop} (null : P .null) (bool : ∀ value, P (.bool value))
    (num : ∀ value, P (.num value)) (str : ∀ value, P (.str value))
    (arr : ∀ items : List Json, (∀ item ∈ items, P item) → P (.arr items))
    (obj : ∀ entries : JsonObject, (∀ entry ∈ entries, P entry.2) → P (.obj entries))
    (value : Json) : P value :=
  match value with
  | .null => null
  | .bool value => bool value
  | .num value => num value
  | .str value => str value
  | .arr items => arr items fun item _ => induction null bool num str arr obj item
  | .obj entries => obj entries fun entry _ => induction null bool num str arr obj entry.2
  termination_by sizeOf value
  decreasing_by
    · exact sizeOf_lt_of_mem_items ‹_›
    · exact sizeOf_lt_of_mem_entries ‹_›

/-! ## The meaning of a value -/

inductive Value where
  | null
  | bool (value : Bool)
  | num (value : ℚ)
  | str (value : String)
  | arr (items : List Value)
  | obj (field : String → Option Value)

theorem mem_of_lookup {entries : JsonObject} {name : String} {value : Json}
    (h : entries.lookup name = some value) : (name, value) ∈ entries := by
  obtain ⟨before, after, rfl, -⟩ := List.lookup_eq_some_iff.mp h
  exact List.mem_append_right _ (List.mem_cons_self ..)

def meaning : Json → Value
  | .null => .null
  | .bool value => .bool value
  | .num value => .num value
  | .str value => .str value
  | .arr items => .arr (items.map meaning)
  | .obj entries => .obj fun name =>
      match _h : entries.lookup name with
      | none => none
      | some value => some (meaning value)
  termination_by value => sizeOf value
  decreasing_by
    · exact sizeOf_lt_of_mem_items ‹_›
    · exact sizeOf_lt_of_mem_entries (mem_of_lookup _h)

@[simp] theorem meaning_arr (items : List Json) :
    meaning (.arr items) = .arr (items.map meaning) := by
  rw [meaning]

@[simp] theorem meaning_obj (entries : JsonObject) :
    meaning (.obj entries) = .obj fun name => (entries.lookup name).map meaning := by
  rw [meaning]
  congr 1
  funext name
  split <;> next h => rw [h]; rfl

/-- The keys of every object are distinct. -/
def WellFormed : Json → Prop
  | .arr items => ∀ item ∈ items, WellFormed item
  | .obj entries => (entries.map Prod.fst).Nodup ∧ ∀ entry ∈ entries, WellFormed entry.2
  | _ => True
  termination_by value => sizeOf value
  decreasing_by
    · exact sizeOf_lt_of_mem_items ‹_›
    · exact sizeOf_lt_of_mem_entries ‹_›

@[simp] theorem wellFormed_arr {items : List Json} :
    WellFormed (.arr items) ↔ ∀ item ∈ items, WellFormed item := by
  rw [WellFormed]

@[simp] theorem wellFormed_obj {entries : JsonObject} :
    WellFormed (.obj entries) ↔
      (entries.map Prod.fst).Nodup ∧ ∀ entry ∈ entries, WellFormed entry.2 := by
  rw [WellFormed]

/-! ## Objects with distinct keys -/

section

variable {β : Type*} {entries entries' : List (String × β)} {name : String} {value value' : β}

theorem lookup_of_mem (hnodup : (entries.map Prod.fst).Nodup) (h : (name, value) ∈ entries) :
    entries.lookup name = some value := by
  induction entries with
  | nil => exact absurd h List.not_mem_nil
  | cons entry entries ih =>
      obtain ⟨name', value'⟩ := entry
      rw [List.map_cons, List.nodup_cons] at hnodup
      rcases List.mem_cons.mp h with heq | hmem
      · cases heq
        simp
      · have hne : name ≠ name' := by
          rintro rfl
          exact hnodup.1 (List.mem_map.mpr ⟨(name, value), hmem, rfl⟩)
        rw [List.lookup_cons, beq_false_of_ne hne]
        exact ih hnodup.2 hmem

theorem lookup_eq_some_iff_mem (hnodup : (entries.map Prod.fst).Nodup) :
    entries.lookup name = some value ↔ (name, value) ∈ entries := by
  refine ⟨fun h => ?_, lookup_of_mem hnodup⟩
  obtain ⟨before, after, rfl, -⟩ := List.lookup_eq_some_iff.mp h
  exact List.mem_append_right _ (List.mem_cons_self ..)

theorem lookup_perm (hnodup : (entries.map Prod.fst).Nodup) (h : entries.Perm entries')
    (name : String) : entries.lookup name = entries'.lookup name := by
  have hnodup' : (entries'.map Prod.fst).Nodup := (h.map Prod.fst).nodup_iff.mp hnodup
  refine Option.ext fun value => ?_
  rw [lookup_eq_some_iff_mem hnodup, lookup_eq_some_iff_mem hnodup', h.mem_iff]

/-- Objects with the same fields are permutations of each other. -/
theorem perm_of_lookup (hnodup : (entries.map Prod.fst).Nodup)
    (hnodup' : (entries'.map Prod.fst).Nodup)
    (h : ∀ name, entries.lookup name = entries'.lookup name) : entries.Perm entries' := by
  refine (List.perm_ext_iff_of_nodup (List.Nodup.of_map _ hnodup)
    (List.Nodup.of_map _ hnodup')).mpr ?_
  rintro ⟨name, value⟩
  rw [← lookup_eq_some_iff_mem hnodup, ← lookup_eq_some_iff_mem hnodup', h name]

theorem lookup_map {γ : Type*} (f : β → γ) (entries : List (String × β)) (name : String) :
    (entries.map fun entry => (entry.1, f entry.2)).lookup name =
      (entries.lookup name).map f := by
  induction entries with
  | nil => rfl
  | cons entry entries ih =>
      rw [List.map_cons, List.lookup_cons, List.lookup_cons, ih]
      cases name == entry.1 <;> rfl

/-- An object means the same with its entries in another order and its values written in
another way. -/
theorem meaning_obj_of_perm {entries entries' : JsonObject} {f : Json → Json}
    (hnodup : (entries.map Prod.fst).Nodup)
    (hperm : entries'.Perm (entries.map fun entry => (entry.1, f entry.2)))
    (hf : ∀ entry ∈ entries, (f entry.2).meaning = entry.2.meaning) :
    (Json.obj entries').meaning = (Json.obj entries).meaning := by
  have hnames : (entries.map fun entry => (entry.1, f entry.2)).map Prod.fst =
      entries.map Prod.fst := by
    rw [List.map_map]
    rfl
  have hnodup' : (entries'.map Prod.fst).Nodup := by
    rw [(hperm.map Prod.fst).nodup_iff, hnames]
    exact hnodup
  rw [meaning_obj, meaning_obj]
  congr 1
  funext name
  rw [lookup_perm hnodup' hperm, lookup_map, Option.map_map]
  cases hname : entries.lookup name with
  | none => rfl
  | some value => exact congrArg some (hf _ (mem_of_lookup hname))

end

/-! ## Own keys -/

/-- The array index that a name denotes: a canonical decimal below `2 ^ 32 - 1`. -/
def arrayIndex (name : String) : Option ℕ :=
  let index := name.toList.foldl (fun n c => 10 * n + (c.toNat - '0'.toNat)) 0
  if Nat.repr index = name ∧ index < 2 ^ 32 - 1 then some index else none

/-- The place of a name among the own keys of an object: array indices have places of
their own, and all other names share the last one. -/
def ownKeyRank (name : String) : ℕ := (arrayIndex name).getD (2 ^ 32 - 1)

/-- `Object.entries`: the array indices in ascending order, and then the other keys as they
were added. -/
def objectEntries (entries : JsonObject) : JsonObject :=
  entries.insertionSort fun left right => ownKeyRank left.1 ≤ ownKeyRank right.1

example : (objectEntries [("b", .null), ("10", .null), ("a", .null), ("01", .null),
    ("9", .null)]).map Prod.fst = ["9", "10", "b", "a", "01"] := by decide

theorem arrayIndex_eq_some {name : String} {index : ℕ} (h : arrayIndex name = some index) :
    Nat.repr index = name ∧ index < 2 ^ 32 - 1 := by
  simp only [arrayIndex, Option.ite_none_right_eq_some] at h
  obtain ⟨hindex, heq⟩ := h
  cases heq
  exact hindex

/-- Two names have one place exactly if they are the same, or no array indices. -/
theorem ownKeyRank_eq_iff {name name' : String} :
    ownKeyRank name = ownKeyRank name' ↔
      name = name' ∨ arrayIndex name = none ∧ arrayIndex name' = none := by
  unfold ownKeyRank
  cases h : arrayIndex name with
  | none =>
      cases h' : arrayIndex name' with
      | none => simp
      | some index' =>
          have hlt := (arrayIndex_eq_some h').2
          refine ⟨fun heq => absurd heq hlt.ne', ?_⟩
          rintro (rfl | ⟨-, hnone⟩)
          · cases h.symm.trans h'
          · cases hnone
  | some index =>
      obtain ⟨hname, hlt⟩ := arrayIndex_eq_some h
      cases h' : arrayIndex name' with
      | none =>
          refine ⟨fun heq => absurd heq hlt.ne, ?_⟩
          rintro (rfl | ⟨hnone, -⟩)
          · cases h'.symm.trans h
          · cases hnone
      | some index' =>
          obtain ⟨hname', -⟩ := arrayIndex_eq_some h'
          refine ⟨fun heq => .inl ?_, ?_⟩
          · rw [← hname, ← hname']
            exact congrArg Nat.repr heq
          · rintro (rfl | ⟨hnone, -⟩)
            · exact Option.some.inj (h.symm.trans h')
            · cases hnone

theorem mem_objectEntries {entries : JsonObject} {entry : String × Json} :
    entry ∈ objectEntries entries ↔ entry ∈ entries :=
  List.mem_insertionSort _

theorem objectEntries_perm (entries : JsonObject) : (objectEntries entries).Perm entries :=
  List.perm_insertionSort _ entries

end Json

end Shared

end Paynad
