import Mathlib.Data.Nat.Digits.Defs
import Paynad.Library.StableSort
import Paynad.Payments.Application.Canonicalise

/-!
# The order of keys and the canonical text

The sort of `canonicalise` is stable, and its comparison is a preorder only: two distinct
names that compare equal, such as two spellings of one accented letter, stay in the order in
which the object lists them. That is the order in which they were added, unless one of them
is an array index. Where no object has two other names that compare equal the text depends
on the meaning alone; where one has, turning every object around changes the text.
-/

namespace Paynad

namespace Payments

open Shared

variable {localeCompare : String → String → Ordering} {language : Language}

/-- No two names of one object compare equal, array indices apart. -/
def Distinguished (localeCompare : String → String → Ordering) : Json → Prop
  | .arr items => ∀ item ∈ items, Distinguished localeCompare item
  | .obj entries =>
      (∀ entry ∈ entries, ∀ entry' ∈ entries,
        Json.arrayIndex entry.1 = none → Json.arrayIndex entry'.1 = none →
        localeCompare entry.1 entry'.1 = .eq → entry.1 = entry'.1) ∧
      ∀ entry ∈ entries, Distinguished localeCompare entry.2
  | _ => True
  termination_by value => sizeOf value
  decreasing_by
    · exact Json.sizeOf_lt_of_mem_items ‹_›
    · exact Json.sizeOf_lt_of_mem_entries ‹_›

theorem distinguished_arr {items : List Json} :
    Distinguished localeCompare (.arr items) ↔
      ∀ item ∈ items, Distinguished localeCompare item := by
  rw [Distinguished]

theorem distinguished_obj {entries : JsonObject} :
    Distinguished localeCompare (.obj entries) ↔
      (∀ entry ∈ entries, ∀ entry' ∈ entries,
        Json.arrayIndex entry.1 = none → Json.arrayIndex entry'.1 = none →
        localeCompare entry.1 entry'.1 = .eq → entry.1 = entry'.1) ∧
      ∀ entry ∈ entries, Distinguished localeCompare entry.2 := by
  rw [Distinguished]

/-! ## Sorting entries -/

/-- By the comparison of the names, and by their places among the own keys where that
does not tell. -/
def keyCompare (localeCompare : String → String → Ordering) : String → String → Ordering :=
  compareLex localeCompare (compareOn Json.ownKeyRank)

instance [Std.TransCmp localeCompare] : Std.TransCmp (keyCompare localeCompare) :=
  inferInstanceAs (Std.TransCmp (compareLex localeCompare (compareOn Json.ownKeyRank)))

theorem keyCompare_eq_iff {name name' : String} :
    keyCompare localeCompare name name' = .eq ↔
      localeCompare name name' = .eq ∧
        (name = name' ∨ Json.arrayIndex name = none ∧ Json.arrayIndex name' = none) := by
  rw [keyCompare, compareLex, Ordering.then_eq_eq, compareOn, Nat.compare_eq_eq,
    Json.ownKeyRank_eq_iff]

abbrev NotAfter (localeCompare : String → String → Ordering) (left right : String × Json) : Prop :=
  (localeCompare left.1 right.1).isLE = true

instance [Std.TransCmp localeCompare] : Std.Total (NotAfter localeCompare) := by
  refine ⟨fun left right => ?_⟩
  unfold NotAfter
  have hswap : localeCompare left.1 right.1 = (localeCompare right.1 left.1).swap :=
    Std.OrientedCmp.eq_swap
  rw [hswap]
  cases localeCompare right.1 left.1 <;> simp

instance [Std.TransCmp localeCompare] : IsTrans (String × Json) (NotAfter localeCompare) :=
  ⟨fun _ _ _ h h' => Std.TransCmp.isLE_trans h h'⟩

theorem pairwise_sortEntries [Std.TransCmp localeCompare] (entries : JsonObject) :
    (sortEntries localeCompare entries).Pairwise (NotAfter localeCompare) :=
  List.pairwise_insertionSort (NotAfter localeCompare) entries

abbrev ListedBefore (left right : String × Json) : Prop :=
  Json.ownKeyRank left.1 ≤ Json.ownKeyRank right.1

theorem notAfter_keyCompare [Std.TransCmp localeCompare] (left right : String × Json) :
    StableSort.Then (NotAfter localeCompare) ListedBefore left right ↔
      NotAfter (keyCompare localeCompare) left right := by
  have hswap : localeCompare right.1 left.1 = (localeCompare left.1 right.1).swap :=
    Std.OrientedCmp.eq_swap
  rw [StableSort.Then, NotAfter, NotAfter, NotAfter, ListedBefore, keyCompare, compareLex,
    compareOn, Ordering.isLE_then_iff_and, hswap, Nat.isLE_compare]
  cases localeCompare left.1 right.1 <;> simp

/-- The entries that `Object.entries` lists, once sorted, are the entries sorted by names
and places. -/
theorem sortEntries_objectEntries [Std.TransCmp localeCompare] (entries : JsonObject) :
    sortEntries localeCompare (Json.objectEntries entries) =
      sortEntries (keyCompare localeCompare) entries := by
  have htrans : IsTrans (String × Json) ListedBefore := ⟨fun _ _ _ => le_trans⟩
  have htotal : Std.Total ListedBefore := ⟨fun _ _ => le_total _ _⟩
  have hsame := List.map_insertionSort (StableSort.Then (NotAfter localeCompare) ListedBefore)
    (NotAfter (keyCompare localeCompare)) id entries
    fun left _ right _ => notAfter_keyCompare left right
  rw [List.map_id, List.map_id] at hsame
  exact (StableSort.insertionSort_insertionSort entries).trans hsame

theorem sortEntries_perm (entries : JsonObject) :
    (sortEntries localeCompare entries).Perm entries :=
  List.perm_insertionSort _ entries

theorem sortEntries_map {f : String × Json → String × Json} (hf : ∀ entry, (f entry).1 = entry.1)
    (entries : JsonObject) :
    (sortEntries localeCompare entries).map f = sortEntries localeCompare (entries.map f) :=
  List.map_insertionSort _ _ f entries fun entry _ entry' _ => by rw [hf, hf]

theorem eq_of_name {entries : JsonObject} (hnodup : (entries.map Prod.fst).Nodup)
    {entry entry' : String × Json} (h : entry ∈ entries) (h' : entry' ∈ entries)
    (hname : entry.1 = entry'.1) : entry = entry' := by
  have hvalue : entries.lookup entry.1 = some entry.2 := Json.lookup_of_mem hnodup h
  rw [hname, Json.lookup_of_mem hnodup h'] at hvalue
  exact Prod.ext hname (Option.some.inj hvalue).symm

/-- Entries whose names the comparison tells apart are sorted in one way. -/
theorem sortEntries_eq_of_perm [Std.TransCmp localeCompare] {entries entries' : JsonObject}
    (hnodup : (entries.map Prod.fst).Nodup)
    (hnames : ∀ entry ∈ entries, ∀ entry' ∈ entries,
      localeCompare entry.1 entry'.1 = .eq → entry.1 = entry'.1)
    (hperm : entries.Perm entries') :
    sortEntries localeCompare entries = sortEntries localeCompare entries' := by
  refine List.Perm.eq_of_pairwise ?_ (pairwise_sortEntries entries)
    (pairwise_sortEntries entries')
    (((sortEntries_perm entries).trans hperm).trans (sortEntries_perm entries').symm)
  intro entry entry' h h' hle hge
  have hentry : entry ∈ entries := mem_sortEntries.mp h
  have hentry' : entry' ∈ entries := hperm.mem_iff.mpr (mem_sortEntries.mp h')
  have heq : localeCompare entry.1 entry'.1 = .eq := by
    unfold NotAfter at hle hge
    have hswap : localeCompare entry'.1 entry.1 = (localeCompare entry.1 entry'.1).swap :=
      Std.OrientedCmp.eq_swap
    rw [hswap] at hge
    cases hcompare : localeCompare entry.1 entry'.1 <;> simp [hcompare] at hle hge ⊢
  exact eq_of_name hnodup hentry hentry' (hnames entry hentry entry' hentry' heq)

/-! ## Names that are told apart -/

theorem arranged_obj_eq [Std.TransCmp localeCompare] (entries : JsonObject) :
    arranged localeCompare (.obj entries) =
      .obj (sortEntries (keyCompare localeCompare)
        (entries.map (arrangedEntry localeCompare))) := by
  rw [arranged_obj, sortEntries_objectEntries,
    sortEntries_map (f := arrangedEntry localeCompare) fun _ => rfl]

theorem map_fst_arrangedEntry (entries : JsonObject) :
    (entries.map (arrangedEntry localeCompare)).map Prod.fst = entries.map Prod.fst := by
  rw [List.map_map]
  rfl

theorem kind_eq_of_meaning {value value' : Json} (h : value.meaning = value'.meaning) :
    kind value = kind value' := by
  cases value <;> cases value' <;> first | rfl | simp [Json.meaning] at h

/-- Objects that mean the same have the same fields, arranged as their values are. -/
theorem lookup_arrangedEntry_eq {entries entries' : JsonObject}
    (h : (fun name => (entries.lookup name).map Json.meaning) =
      fun name => (entries'.lookup name).map Json.meaning)
    (hvalues : ∀ entry ∈ entries, ∀ entry' ∈ entries', entry.2.meaning = entry'.2.meaning →
      arranged localeCompare entry.2 = arranged localeCompare entry'.2) (name : String) :
    (entries.map (arrangedEntry localeCompare)).lookup name =
      (entries'.map (arrangedEntry localeCompare)).lookup name := by
  have hmeaning : (entries.lookup name).map Json.meaning =
      (entries'.lookup name).map Json.meaning := congrFun h name
  unfold arrangedEntry
  rw [Json.lookup_map, Json.lookup_map]
  cases hname : entries.lookup name with
  | none =>
      rw [hname, Option.map_none, eq_comm, Option.map_eq_none_iff] at hmeaning
      rw [hmeaning]
  | some value =>
      rw [hname, Option.map_some, eq_comm, Option.map_eq_some_iff] at hmeaning
      obtain ⟨value', hname', heq⟩ := hmeaning
      rw [hname']
      exact congrArg some (hvalues _ (Json.mem_of_lookup hname) _ (Json.mem_of_lookup hname')
        heq.symm)

theorem names_told {entries : JsonObject}
    (h : ∀ entry ∈ entries, ∀ entry' ∈ entries,
      Json.arrayIndex entry.1 = none → Json.arrayIndex entry'.1 = none →
      localeCompare entry.1 entry'.1 = .eq → entry.1 = entry'.1) :
    ∀ entry ∈ entries, ∀ entry' ∈ entries,
      keyCompare localeCompare entry.1 entry'.1 = .eq → entry.1 = entry'.1 := by
  intro entry hentry entry' hentry' heq
  obtain ⟨heq, hname | ⟨hnone, hnone'⟩⟩ := keyCompare_eq_iff.mp heq
  · exact hname
  · exact h entry hentry entry' hentry' hnone hnone' heq

/-- Without names that compare equal, the arrangement is a matter of the meaning. -/
theorem arranged_eq_of_meaning_eq [Std.TransCmp localeCompare] {value value' : Json}
    (hvalue : value.WellFormed) (hvalue' : value'.WellFormed)
    (hdistinguished : Distinguished localeCompare value)
    (h : value.meaning = value'.meaning) :
    arranged localeCompare value = arranged localeCompare value' := by
  induction value using Json.induction generalizing value' with
  | null =>
      have hkind := kind_eq_of_meaning h
      cases value' with
      | null => rfl
      | _ => cases hkind
  | bool value | num value | str value =>
      have hkind := kind_eq_of_meaning h
      cases value' <;> first | (simp only [Json.meaning] at h; cases h; rfl) | cases hkind
  | arr items ih =>
      have hkind := kind_eq_of_meaning h
      cases value' with
      | arr items' =>
          rw [Json.wellFormed_arr] at hvalue hvalue'
          rw [distinguished_arr] at hdistinguished
          rw [Json.meaning_arr, Json.meaning_arr, Json.Value.arr.injEq] at h
          rw [arranged_arr, arranged_arr, map_eq_map_of h fun item hitem item' hitem' heq =>
            ih item hitem (hvalue item hitem) (hvalue' item' hitem')
              (hdistinguished item hitem) heq]
      | _ => cases hkind
  | obj entries ih =>
      have hkind := kind_eq_of_meaning h
      cases value' with
      | obj entries' =>
          rw [Json.wellFormed_obj] at hvalue hvalue'
          rw [distinguished_obj] at hdistinguished
          rw [Json.meaning_obj, Json.meaning_obj, Json.Value.obj.injEq] at h
          have hlookup : ∀ name, (entries.map (arrangedEntry localeCompare)).lookup name =
              (entries'.map (arrangedEntry localeCompare)).lookup name :=
            lookup_arrangedEntry_eq h fun entry hentry entry' hentry' =>
              ih entry hentry (hvalue.2 entry hentry) (hvalue'.2 entry' hentry')
                (hdistinguished.2 entry hentry)
          have hperm := Json.perm_of_lookup (by rw [map_fst_arrangedEntry]; exact hvalue.1)
            (by rw [map_fst_arrangedEntry]; exact hvalue'.1) hlookup
          rw [arranged_obj_eq, arranged_obj_eq, sortEntries_eq_of_perm ?_ ?_ hperm]
          · rw [map_fst_arrangedEntry]
            exact hvalue.1
          · rintro _ hmem _ hmem'
            obtain ⟨entry, hentry, rfl⟩ := List.mem_map.mp hmem
            obtain ⟨entry', hentry', rfl⟩ := List.mem_map.mp hmem'
            exact names_told hdistinguished.1 entry hentry entry' hentry'
      | _ => cases hkind

/-! ## Names that compare equal -/

def flipped : Json → Json
  | .null => .null
  | .bool value => .bool value
  | .num value => .num value
  | .str value => .str value
  | .arr items => .arr (items.map flipped)
  | .obj entries =>
      .obj (entries.attach.map fun ⟨(name, entry), _⟩ => (name, flipped entry)).reverse
  termination_by value => sizeOf value
  decreasing_by
    · exact Json.sizeOf_lt_of_mem_items ‹_›
    · next hentry => exact Json.sizeOf_lt_of_mem_entries hentry

def flippedEntry (entry : String × Json) : String × Json := (entry.1, flipped entry.2)

theorem flipped_arr (items : List Json) : flipped (.arr items) = .arr (items.map flipped) := by
  rw [flipped]

theorem flipped_obj (entries : JsonObject) :
    flipped (.obj entries) = .obj (entries.map flippedEntry).reverse := by
  rw [flipped, ← List.attach_map_val (l := entries)]
  rfl

theorem map_fst_flippedEntry (entries : JsonObject) :
    (entries.map flippedEntry).reverse.map Prod.fst = (entries.map Prod.fst).reverse := by
  rw [List.map_reverse, List.map_map]
  rfl

theorem wellFormed_flipped {value : Json} (h : value.WellFormed) :
    (flipped value).WellFormed := by
  induction value using Json.induction with
  | null | bool value | num value | str value => simp [flipped, Json.WellFormed]
  | arr items ih =>
      rw [flipped_arr, Json.wellFormed_arr]
      rw [Json.wellFormed_arr] at h
      intro item hmem
      obtain ⟨item, hitem, rfl⟩ := List.mem_map.mp hmem
      exact ih item hitem (h item hitem)
  | obj entries ih =>
      rw [flipped_obj, Json.wellFormed_obj, map_fst_flippedEntry, List.nodup_reverse]
      rw [Json.wellFormed_obj] at h
      refine ⟨h.1, fun entry hmem => ?_⟩
      obtain ⟨entry, hentry, rfl⟩ := List.mem_map.mp (List.mem_reverse.mp hmem)
      exact ih entry hentry (h.2 entry hentry)

theorem meaning_flipped {value : Json} (h : value.WellFormed) :
    (flipped value).meaning = value.meaning := by
  induction value using Json.induction with
  | null | bool value | num value | str value => rw [flipped]
  | arr items ih =>
      rw [Json.wellFormed_arr] at h
      rw [flipped_arr, Json.meaning_arr, Json.meaning_arr, List.map_map]
      congr 1
      exact List.map_congr_left fun item hitem => ih item hitem (h item hitem)
  | obj entries ih =>
      rw [Json.wellFormed_obj] at h
      rw [flipped_obj]
      exact Json.meaning_obj_of_perm h.1 (List.reverse_perm (entries.map flippedEntry))
        fun entry hentry => ih entry hentry (h.2 entry hentry)

theorem not_pair_swap {names : List String} {a b : String} (hnodup : names.Nodup)
    (hab : [a, b].Sublist names) (hba : [b, a].Sublist names) : False := by
  induction names with
  | nil => cases hab
  | cons c names ih =>
      obtain ⟨hc, hnodup⟩ := List.nodup_cons.mp hnodup
      cases hab with
      | cons _ hab =>
          cases hba with
          | cons _ hba => exact ih hnodup hab hba
          | cons_cons _ hba => exact hc (hab.subset (by simp))
      | cons_cons _ hab =>
          cases hba with
          | cons _ hba => exact hc (hba.subset (by simp))
          | cons_cons _ hba => exact hc (hba.subset (by simp))

/-- Two names that compare equal are sorted as they came, so turning them around changes the
sorted list. -/
theorem sort_reverse_ne {names : List String} {a b : String} (hnodup : names.Nodup)
    (hab : [a, b].Sublist names) (hle : (localeCompare a b).isLE = true)
    (hge : (localeCompare b a).isLE = true) :
    names.insertionSort (fun left right => (localeCompare left right).isLE = true) ≠
      names.reverse.insertionSort fun left right => (localeCompare left right).isLE = true := by
  intro h
  have hsorted : [a, b].Sublist (names.insertionSort
      fun left right => (localeCompare left right).isLE = true) :=
    List.pair_sublist_insertionSort hle hab
  have hreverse : [b, a].Sublist names.reverse := by
    simpa using hab.reverse
  have hsorted' : [b, a].Sublist (names.insertionSort
      fun left right => (localeCompare left right).isLE = true) := by
    rw [h]
    exact List.pair_sublist_insertionSort hge hreverse
  exact not_pair_swap ((List.perm_insertionSort _ names).nodup_iff.mpr hnodup) hsorted hsorted'

theorem pair_sublist_of_mem {names : List String} {a b : String} (ha : a ∈ names)
    (hb : b ∈ names) (hne : a ≠ b) : [a, b].Sublist names ∨ [b, a].Sublist names := by
  obtain ⟨before, after, rfl⟩ := List.append_of_mem ha
  rcases List.mem_append.mp hb with hb | hb
  · exact .inr ((List.singleton_sublist.mpr hb).append
      (List.singleton_sublist.mpr (List.mem_cons_self ..)))
  · rcases List.mem_cons.mp hb with rfl | hb
    · exact absurd rfl hne
    · exact .inl (((List.singleton_sublist.mpr hb).cons_cons a).trans
        (List.sublist_append_right ..))

theorem names_told_apart [Std.TransCmp localeCompare] {names : List String}
    (hnodup : names.Nodup)
    (h : names.insertionSort (fun left right => (localeCompare left right).isLE = true) =
      names.reverse.insertionSort fun left right => (localeCompare left right).isLE = true)
    {a b : String} (ha : a ∈ names) (hb : b ∈ names) (heq : localeCompare a b = .eq) :
    a = b := by
  by_contra hne
  have heq' : localeCompare b a = .eq := Std.OrientedCmp.eq_symm heq
  rcases pair_sublist_of_mem ha hb hne with hab | hba
  · exact sort_reverse_ne hnodup hab (by rw [heq]; rfl) (by rw [heq']; rfl) h
  · exact sort_reverse_ne hnodup hba (by rw [heq']; rfl) (by rw [heq]; rfl) h

theorem map_fst_sortEntries (entries : JsonObject) :
    (sortEntries localeCompare entries).map Prod.fst =
      (entries.map Prod.fst).insertionSort
        fun left right => (localeCompare left right).isLE = true :=
  List.map_insertionSort _ _ Prod.fst entries fun _ _ _ _ => Iff.rfl

/-- A value that turning around does not rearrange has no names that compare equal. -/
theorem distinguished_of_arranged_flipped [Std.TransCmp localeCompare] {value : Json}
    (hvalue : value.WellFormed)
    (h : arranged localeCompare (flipped value) = arranged localeCompare value) :
    Distinguished localeCompare value := by
  induction value using Json.induction with
  | null | bool value | num value | str value => simp [Distinguished]
  | arr items ih =>
      rw [distinguished_arr]
      rw [Json.wellFormed_arr] at hvalue
      rw [flipped_arr, arranged_arr, arranged_arr, Json.arr.injEq, List.map_map,
        List.map_inj_left] at h
      exact fun item hitem => ih item hitem (hvalue item hitem) (h item hitem)
  | obj entries ih =>
      rw [distinguished_obj]
      rw [Json.wellFormed_obj] at hvalue
      rw [flipped_obj, arranged_obj_eq, arranged_obj_eq, Json.obj.injEq] at h
      constructor
      · intro entry hentry entry' hentry' hnone hnone' heq
        have hnames := congrArg (List.map Prod.fst) h
        rw [map_fst_sortEntries, map_fst_sortEntries, map_fst_arrangedEntry,
          map_fst_arrangedEntry, map_fst_flippedEntry] at hnames
        exact names_told_apart hvalue.1 hnames.symm (List.mem_map_of_mem hentry)
          (List.mem_map_of_mem hentry') (keyCompare_eq_iff.mpr ⟨heq, .inr ⟨hnone, hnone'⟩⟩)
      · intro entry hentry
        have hmem : arrangedEntry localeCompare entry ∈
            sortEntries (keyCompare localeCompare)
              (entries.map (arrangedEntry localeCompare)) :=
          mem_sortEntries.mpr (List.mem_map_of_mem hentry)
        rw [← h, mem_sortEntries] at hmem
        obtain ⟨turned, hturned, heq⟩ := List.mem_map.mp hmem
        obtain ⟨entry', hentry', rfl⟩ := List.mem_map.mp (List.mem_reverse.mp hturned)
        obtain ⟨hname, hsame⟩ := Prod.mk.inj heq
        obtain rfl : entry' = entry := eq_of_name hvalue.1 hentry' hentry hname
        exact ih entry' hentry (hvalue.2 entry' hentry) hsame

/-- The canonical text of a value does not depend on the order of its keys exactly when no
object in it has two distinct names that compare equal, neither of them an array index. -/
theorem canonicalise_invariant_iff {language : Language} (hlanguage : language.Documented)
    {value : Json} (hvalue : value.WellFormed) :
    (∀ value' : Json, value'.WellFormed → value'.meaning = value.meaning →
      canonicalise language value' = canonicalise language value) ↔
    Distinguished language.localeCompare value := by
  have : Std.TransCmp language.localeCompare := hlanguage.preorder
  constructor
  · intro h
    refine distinguished_of_arranged_flipped hvalue ((canonicalise_eq_iff hlanguage).mp ?_)
    exact h (flipped value) (wellFormed_flipped hvalue) (meaning_flipped hvalue)
  · intro hdistinguished value' hvalue' hmeaning
    exact (canonicalise_eq_iff hlanguage).mpr
      (arranged_eq_of_meaning_eq hvalue hvalue' hdistinguished hmeaning.symm).symm

/-! ## A language -/

def decimalText (n : ℕ) : List Char :=
  if n = 0 then ['0'] else (Nat.digits 10 n).reverse.map Nat.digitChar

def plainNumberText (value : ℚ) : String :=
  String.ofList ((if value.num < 0 then ['-'] else []) ++ (decimalText value.num.natAbs ++
    if value.den = 1 then [] else 'e' :: decimalText value.den))

/-- The accented letter is spelled out, and a joiner of no width is left out. -/
def decomposed (text : String) : List Char :=
  text.toList.flatMap fun c =>
    if c = '\u00e9' then ['e', '\u0301'] else if c = '\u200d' then [] else [c]

/-- A language that compares texts by code points, once decomposed. -/
def plainLanguage : Language :=
  ⟨plainNumberText, fun left right => compare (decomposed left) (decomposed right)⟩

theorem isDigit_of_mem_decimalText {n : ℕ} {c : Char} (h : c ∈ decimalText n) :
    c.isDigit = true := by
  unfold decimalText at h
  split_ifs at h
  · simp_all
  · obtain ⟨digit, hdigit, rfl⟩ := List.mem_map.mp h
    have hlt : digit < 10 := Nat.digits_lt_base (by decide) (List.mem_reverse.mp hdigit)
    have hall : ∀ d < 10, (Nat.digitChar d).isDigit = true := by decide
    exact hall digit hlt

theorem decimalText_ne_nil (n : ℕ) : decimalText n ≠ [] := by
  unfold decimalText
  split_ifs with hn
  · exact List.cons_ne_nil _ _
  · simpa [Nat.digits_eq_nil_iff_eq_zero] using hn

theorem ofDigits_decimalText (n : ℕ) :
    Nat.ofDigits 10 ((decimalText n).reverse.map fun c => c.toNat - 48) = n := by
  unfold decimalText
  split_ifs with hn
  · subst hn
    rfl
  · have hdigits : (Nat.digits 10 n).map ((fun c : Char => c.toNat - 48) ∘ Nat.digitChar) =
        Nat.digits 10 n := by
      have hvalue : ∀ d < 10, (Nat.digitChar d).toNat - 48 = d := by decide
      exact (List.map_congr_left fun digit hdigit =>
        hvalue digit (Nat.digits_lt_base (by decide) hdigit)).trans (List.map_id _)
    rw [← List.map_reverse, List.reverse_reverse, List.map_map, hdigits, Nat.ofDigits_digits]

theorem decimalText_injective : Function.Injective decimalText := by
  intro n m h
  rw [← ofDigits_decimalText n, h, ofDigits_decimalText]

def fractionText (value : ℚ) : List Char :=
  if value.den = 1 then [] else 'e' :: decimalText value.den

theorem den_eq_of_fractionText {value value' : ℚ} (h : fractionText value = fractionText value') :
    value.den = value'.den := by
  unfold fractionText at h
  split_ifs at h with hden hden' hden'
  · rw [hden, hden']
  · exact decimalText_injective (List.cons_eq_cons.mp h).2

theorem unsigned_inj {value value' : ℚ}
    (h : decimalText value.num.natAbs ++ fractionText value =
      decimalText value'.num.natAbs ++ fractionText value') :
    value.num.natAbs = value'.num.natAbs ∧ value.den = value'.den := by
  have hdigits (n : ℕ) : ∀ c ∈ decimalText n, ¬ c = 'e' := by
    rintro c hc rfl
    exact absurd (isDigit_of_mem_decimalText hc) (by decide)
  have hstops (value : ℚ) : Unambiguous.Stops (· = 'e') (fractionText value) := by
    unfold fractionText
    split_ifs <;> simp
  obtain ⟨hnum, hfraction⟩ := Unambiguous.append_inj_of_stops (hdigits _) (hdigits _)
    (hstops value) (hstops value') h
  exact ⟨decimalText_injective hnum, den_eq_of_fractionText hfraction⟩

theorem decimalText_append_ne (n : ℕ) (rest rest' : List Char) :
    decimalText n ++ rest ≠ '-' :: rest' := by
  obtain ⟨c, digits, htext⟩ := List.exists_cons_of_ne_nil (decimalText_ne_nil n)
  rw [htext]
  intro h
  obtain ⟨rfl, -⟩ := List.cons_eq_cons.mp h
  exact absurd (isDigit_of_mem_decimalText (htext ▸ List.mem_cons_self ..)) (by decide)

theorem plainNumberText_injective : Function.Injective plainNumberText := by
  intro value value' h
  unfold plainNumberText at h
  rw [String.ofList_inj] at h
  change _ ++ (_ ++ fractionText value) = _ ++ (_ ++ fractionText value') at h
  split_ifs at h with hsign hsign' hsign'
  · obtain ⟨hnum, hden⟩ := unsigned_inj (List.cons_eq_cons.mp h).2
    exact Rat.ext (by omega) hden
  · exact absurd h.symm (decimalText_append_ne _ _ _)
  · exact absurd h (decimalText_append_ne _ _ _)
  · obtain ⟨hnum, hden⟩ := unsigned_inj h
    exact Rat.ext (by omega) hden

theorem plainLanguage_documented : plainLanguage.Documented where
  injective := plainNumberText_injective
  nonempty value := by
    simp only [plainLanguage, plainNumberText, String.toList_ofList]
    simp [decimalText_ne_nil]
  lexical value c hc := by
    simp only [plainLanguage, plainNumberText, String.toList_ofList] at hc
    have hdigit {n : ℕ} (h : c ∈ decimalText n) : isNumberChar c = true := by
      rw [isNumberChar, isDigit_of_mem_decimalText h, Bool.true_or]
    rcases List.mem_append.mp hc with hc | hc
    · split_ifs at hc
      · obtain rfl := List.mem_singleton.mp hc
        decide
      · exact absurd hc List.not_mem_nil
    · rcases List.mem_append.mp hc with hc | hc
      · exact hdigit hc
      · split_ifs at hc
        · exact absurd hc List.not_mem_nil
        · rcases List.mem_cons.mp hc with rfl | hc
          · decide
          · exact hdigit hc
  preorder :=
    { eq_swap {_ _} :=
        @Std.OrientedCmp.eq_swap (List Char) compare _ _ _
      isLE_trans {_ _ _} :=
        @Std.TransCmp.isLE_trans (List Char) compare _ _ _ _ }

/-- Two orders of one body have one text, though two of its names compare equal: one of
them is an array index. -/
theorem canonicalise_invariant_iff_plainLanguage :
    plainLanguage.localeCompare "1" "1\u200d" = .eq ∧
      canonicalise plainLanguage (.obj [("a", .null), ("1\u200d", .num 2), ("1", .num 1)]) =
        canonicalise plainLanguage (.obj [("1", .num 1), ("1\u200d", .num 2), ("a", .null)]) := by
  have hvalue : (Json.obj [("1", .num 1), ("1\u200d", .num 2), ("a", .null)]).WellFormed := by
    simp [Json.WellFormed]
  refine ⟨by decide,
    (canonicalise_invariant_iff plainLanguage_documented hvalue).mpr ?_ _ ?_ ?_⟩
  · have hnames : ∀ name ∈ ["1", "1\u200d", "a"], ∀ name' ∈ ["1", "1\u200d", "a"],
        Json.arrayIndex name = none → Json.arrayIndex name' = none →
        plainLanguage.localeCompare name name' = .eq → name = name' := by decide
    refine distinguished_obj.mpr ⟨fun entry hentry entry' hentry' => ?_, fun entry hentry => ?_⟩
    · exact hnames _ (List.mem_map_of_mem hentry) _ (List.mem_map_of_mem hentry')
    · simp only [List.mem_cons, List.not_mem_nil, or_false] at hentry
      rcases hentry with rfl | rfl | rfl <;> simp [Distinguished]
  · simp [Json.WellFormed]
  · rw [Json.meaning_obj, Json.meaning_obj]
    congr 1
    funext name
    exact congrArg _ (Json.lookup_perm (by decide) (List.reverse_perm _).symm name)

/-! ## Two spellings of one name -/

def composedFirst : JsonObject := [("\u00e9", .str "1"), ("e\u0301", .str "2")]

theorem arranged_of_eq {name name' : String} (value value' : Json)
    (hname : Json.arrayIndex name = none) (hname' : Json.arrayIndex name' = none)
    (h : localeCompare name name' = .eq) :
    arranged localeCompare (.obj [(name, value), (name', value')]) =
      .obj [(name, arranged localeCompare value), (name', arranged localeCompare value')] := by
  have hplaces : Json.ownKeyRank name ≤ Json.ownKeyRank name' :=
    (Json.ownKeyRank_eq_iff.mpr (.inr ⟨hname, hname'⟩)).le
  have hlisted : Json.objectEntries [(name, value), (name', value')] =
      [(name, value), (name', value')] :=
    List.Pairwise.insertionSort_eq (List.pairwise_pair.mpr hplaces)
  have hsorted : sortEntries localeCompare [(name, value), (name', value')] =
      [(name, value), (name', value')] :=
    List.Pairwise.insertionSort_eq (List.pairwise_pair.mpr (by rw [h]; rfl))
  rw [arranged_obj, hlisted, hsorted]
  rfl

/-- A comparison that takes the two spellings for equal leaves them in either order. -/
theorem canonicalise_spellings_ne (hlanguage : language.Documented)
    (heq : language.localeCompare "\u00e9" "e\u0301" = .eq) :
    canonicalise language (.obj composedFirst) ≠
      canonicalise language (.obj composedFirst.reverse) := by
  have : Std.TransCmp language.localeCompare := hlanguage.preorder
  have hcomposed : Json.arrayIndex "\u00e9" = none := by decide
  have hspelled : Json.arrayIndex "e\u0301" = none := by decide
  intro h
  have harranged := (canonicalise_eq_iff hlanguage).mp h
  unfold composedFirst at harranged
  rw [List.reverse_cons, List.reverse_singleton, List.singleton_append,
    arranged_of_eq _ _ hcomposed hspelled heq,
    arranged_of_eq _ _ hspelled hcomposed (Std.OrientedCmp.eq_symm heq), Json.obj.injEq]
    at harranged
  have hnames : ["\u00e9", "e\u0301"] = ["e\u0301", "\u00e9"] :=
    congrArg (List.map Prod.fst) harranged
  exact absurd hnames (by decide)

theorem key_order_changes_text :
    ¬ ∀ language : Language, language.Documented →
      language.localeCompare "\u00e9" "e\u0301" = .eq →
      ∀ value value' : Json, value.WellFormed → value'.WellFormed →
        value.meaning = value'.meaning →
        canonicalise language value = canonicalise language value' := by
  intro h
  refine canonicalise_spellings_ne plainLanguage_documented (by decide) (h plainLanguage
    plainLanguage_documented (by decide) _ _ ?_ ?_ ?_)
  · simp [composedFirst, Json.WellFormed]
  · simp [composedFirst, Json.WellFormed]
  · rw [Json.meaning_obj, Json.meaning_obj]
    congr 1
    funext name
    rw [Json.lookup_perm (by decide) (List.reverse_perm _).symm]

end Payments

end Paynad
