import Mathlib.Data.List.Sort
import Paynad.Library.Unambiguous
import Paynad.Shared.JsonValue

/-!
# The canonical text of a request

`canonicalise` writes a JSON value as one text, the keys of every object in the order of
`localeCompare`. The text can be read back in one way only, so it tells apart what differs
by more than the order of keys (`meaning_eq_of_canonicalise_eq`). The sort is stable: keys
that compare equal are written in the order in which `Object.entries` lists them.
-/

namespace Paynad

namespace Payments

open Shared Unambiguous

/-- What `canonicalise` takes from the language: `JSON.stringify` on numbers, and
`String.prototype.localeCompare`. -/
structure Language where
  numberText : ℚ → String
  localeCompare : String → String → Ordering

def isNumberChar (c : Char) : Bool := c.isDigit || ['-', '+', '.', 'e'].contains c

/-- What is relied on: numbers have texts of their own, and the comparison is a total
preorder. -/
structure Language.Documented (language : Language) : Prop where
  injective : Function.Injective language.numberText
  nonempty : ∀ value, (language.numberText value).toList ≠ []
  lexical : ∀ value, ∀ c ∈ (language.numberText value).toList, isNumberChar c = true
  preorder : Std.TransCmp language.localeCompare

/-- A character inside a string, as `JSON.stringify` writes it. -/
def escape (c : Char) : List Char :=
  if c = '"' then ['\\', '"']
  else if c = '\\' then ['\\', '\\']
  else if c = '\x08' then ['\\', 'b']
  else if c = '\t' then ['\\', 't']
  else if c = '\n' then ['\\', 'n']
  else if c = '\x0c' then ['\\', 'f']
  else if c = '\r' then ['\\', 'r']
  else if c.toNat < 0x20 then
    ['\\', 'u', '0', '0', Nat.digitChar (c.toNat / 16), Nat.digitChar (c.toNat % 16)]
  else [c]

def quote (text : String) : String :=
  String.ofList ('"' :: text.toList.flatMap escape ++ ['"'])

def sortEntries (localeCompare : String → String → Ordering) (entries : JsonObject) :
    JsonObject :=
  entries.insertionSort fun left right => (localeCompare left.1 right.1).isLE = true

theorem mem_sortEntries {localeCompare : String → String → Ordering} {entries : JsonObject}
    {entry : String × Json} : entry ∈ sortEntries localeCompare entries ↔ entry ∈ entries :=
  List.mem_insertionSort _

theorem mem_written {localeCompare : String → String → Ordering} {entries : JsonObject}
    {entry : String × Json} :
    entry ∈ sortEntries localeCompare (Json.objectEntries entries) ↔ entry ∈ entries :=
  mem_sortEntries.trans Json.mem_objectEntries

/-- No entry of a JSON object is `undefined`, so none is filtered out. -/
def canonicalise (language : Language) : Json → String
  | .null => "null"
  | .bool value => if value then "true" else "false"
  | .num value => language.numberText value
  | .str value => quote value
  | .arr items => "[" ++ ",".intercalate (items.map (canonicalise language)) ++ "]"
  | .obj entries =>
      "\x7b" ++ ",".intercalate
        ((sortEntries language.localeCompare (Json.objectEntries entries)).attach.map
          fun ⟨(name, entry), _⟩ => quote name ++ ":" ++ canonicalise language entry) ++ "\x7d"
  termination_by value => sizeOf value
  decreasing_by
    · exact Json.sizeOf_lt_of_mem_items ‹_›
    · next hentry => exact Json.sizeOf_lt_of_mem_entries (mem_written.mp hentry)

theorem canonicalise_obj (language : Language) (entries : JsonObject) :
    canonicalise language (.obj entries) =
      "\x7b" ++ ",".intercalate
        ((sortEntries language.localeCompare (Json.objectEntries entries)).map fun entry =>
          quote entry.1 ++ ":" ++ canonicalise language entry.2) ++ "\x7d" := by
  rw [canonicalise, ← List.attach_map_val
    (l := sortEntries language.localeCompare (Json.objectEntries entries))]

/-! ## The text, character by character -/

def stop (c : Char) : Prop := c = ',' ∨ c = ']' ∨ c = '}'

def text (language : Language) (value : Json) : List Char :=
  (canonicalise language value).toList

def entryText (language : Language) (entry : String × Json) : List Char :=
  (quote entry.1).toList ++ ':' :: text language entry.2

variable {language : Language}

theorem quote_toList (name : String) :
    (quote name).toList = '"' :: name.toList.flatMap escape ++ ['"'] :=
  String.toList_ofList

theorem text_arr (items : List Json) :
    text language (.arr items) =
      '[' :: [','].intercalate (items.map (text language)) ++ [']'] := by
  simp [text, canonicalise, String.toList_append, String.toList_intercalate, Function.comp_def]
  rfl

theorem text_obj (entries : JsonObject) :
    text language (.obj entries) =
      '{' :: [','].intercalate
        ((sortEntries language.localeCompare (Json.objectEntries entries)).map
          (entryText language)) ++ ['}'] := by
  simp [text, canonicalise_obj, String.toList_append, String.toList_intercalate,
    Function.comp_def]
  rfl

/-! ### Strings -/

def hexValue (c : Char) : ℕ := if c.isDigit then c.toNat - 48 else c.toNat - 87

/-- The first character of the inside of a string, and what follows it. -/
def unescape : List Char → Option (Char × List Char)
  | '\\' :: '"' :: rest => some ('"', rest)
  | '\\' :: '\\' :: rest => some ('\\', rest)
  | '\\' :: 'b' :: rest => some ('\x08', rest)
  | '\\' :: 't' :: rest => some ('\t', rest)
  | '\\' :: 'n' :: rest => some ('\n', rest)
  | '\\' :: 'f' :: rest => some ('\x0c', rest)
  | '\\' :: 'r' :: rest => some ('\r', rest)
  | '\\' :: 'u' :: '0' :: '0' :: high :: low :: rest =>
      some (Char.ofNat (16 * hexValue high + hexValue low), rest)
  | c :: rest => some (c, rest)
  | [] => none

theorem hexValue_digitChar :
    ∀ n < 0x20, 16 * hexValue (Nat.digitChar (n / 16)) + hexValue (Nat.digitChar (n % 16)) = n := by
  decide

theorem unescape_escape (c : Char) (rest : List Char) :
    unescape (escape c ++ rest) = some (c, rest) := by
  unfold escape
  split_ifs with _ hsolidus _ _ _ _ _ hcontrol <;> try subst c
  · rfl
  · rfl
  · rfl
  · rfl
  · rfl
  · rfl
  · rfl
  · have hvalue := hexValue_digitChar c.toNat hcontrol
    simp only [List.cons_append, List.nil_append, unescape, hvalue, Char.ofNat_toNat]
  · simp [unescape, hsolidus]

theorem escape_append_inj (c d : Char) (rest rest' : List Char)
    (h : escape c ++ rest = escape d ++ rest') : c = d ∧ rest = rest' := by
  have hread := congrArg unescape h
  rw [unescape_escape, unescape_escape] at hread
  exact Prod.mk.inj (Option.some.inj hread)

theorem escape_append_ne (c : Char) (rest rest' : List Char) :
    escape c ++ rest ≠ '"' :: rest' := by
  unfold escape
  split_ifs with hquote <;> simp
  exact fun h => absurd h hquote

theorem quote_append_inj {name name' : String} {rest rest' : List Char}
    (h : (quote name).toList ++ rest = (quote name').toList ++ rest') :
    name = name' ∧ rest = rest' := by
  rw [quote_toList, quote_toList] at h
  simp only [List.cons_append, List.append_assoc, List.nil_append, List.cons.injEq,
    true_and] at h
  obtain ⟨hname, hrest⟩ := flatMap_close escape_append_inj escape_append_ne h
  exact ⟨String.toList_inj.mp hname, hrest⟩

/-! ### First characters -/

def starts : Json → Char → Prop
  | .null, c => c = 'n'
  | .bool _, c => c = 't' ∨ c = 'f'
  | .num _, c => isNumberChar c = true
  | .str _, c => c = '"'
  | .arr _, c => c = '['
  | .obj _, c => c = '{'

theorem text_starts (hlanguage : language.Documented) (value : Json) :
    ∃ c rest, text language value = c :: rest ∧ starts value c := by
  cases value with
  | null => exact ⟨'n', _, by simp [text, canonicalise]; rfl, rfl⟩
  | bool value =>
      cases value with
      | true => exact ⟨'t', _, by simp [text, canonicalise]; rfl, .inl rfl⟩
      | false => exact ⟨'f', _, by simp [text, canonicalise]; rfl, .inr rfl⟩
  | num value =>
      obtain ⟨c, rest, htext⟩ := List.exists_cons_of_ne_nil (hlanguage.nonempty value)
      refine ⟨c, rest, by rw [text, canonicalise, htext], hlanguage.lexical value c ?_⟩
      rw [htext]
      exact List.mem_cons_self ..
  | str value => exact ⟨'"', _, by rw [text, canonicalise, quote_toList]; rfl, rfl⟩
  | arr items => exact ⟨'[', _, text_arr items, rfl⟩
  | obj entries => exact ⟨'{', _, text_obj entries, rfl⟩

inductive Kind where
  | null
  | bool
  | num
  | str
  | arr
  | obj

def kind : Json → Kind
  | .null => .null
  | .bool _ => .bool
  | .num _ => .num
  | .str _ => .str
  | .arr _ => .arr
  | .obj _ => .obj

theorem kind_eq_of_starts {value value' : Json} {c : Char} (h : starts value c)
    (h' : starts value' c) : kind value = kind value' := by
  cases value <;> cases value' <;> simp only [starts] at h h' <;>
    first
    | rfl
    | (subst h; simp [isNumberChar] at h')
    | (subst h'; simp [isNumberChar] at h)
    | (rcases h with rfl | rfl <;> simp [isNumberChar] at h')
    | (rcases h' with rfl | rfl <;> simp [isNumberChar] at h)

theorem kind_eq_of_text (hlanguage : language.Documented) {value value' : Json}
    {rest rest' : List Char} (h : text language value ++ rest = text language value' ++ rest') :
    kind value = kind value' := by
  obtain ⟨c, tail, htext, hstarts⟩ := text_starts hlanguage value
  obtain ⟨c', tail', htext', hstarts'⟩ := text_starts hlanguage value'
  rw [htext, htext'] at h
  obtain ⟨rfl, -⟩ := List.cons_eq_cons.mp h
  exact kind_eq_of_starts hstarts hstarts'

theorem not_starts_of_stop {value : Json} {c : Char} (hc : stop c) : ¬ starts value c := by
  rcases hc with rfl | rfl | rfl <;> cases value <;> simp [starts, isNumberChar]

theorem text_append_ne (hlanguage : language.Documented) {close : Char} (hclose : stop close)
    (value : Json) (rest rest' : List Char) :
    text language value ++ rest ≠ close :: rest' := by
  obtain ⟨c, tail, htext, hstarts⟩ := text_starts hlanguage value
  rw [htext]
  intro h
  obtain ⟨rfl, -⟩ := List.cons_eq_cons.mp h
  exact not_starts_of_stop hclose hstarts

theorem entryText_append_ne (entry : String × Json) (rest rest' : List Char) :
    entryText language entry ++ rest ≠ '}' :: rest' := by
  rw [entryText, quote_toList]
  exact fun h => absurd (List.cons_eq_cons.mp h).1 (by decide)

/-! ## The text settles the value, up to the order of its keys -/

/-- The value with the entries of every object in the order in which they are written. -/
def arranged (localeCompare : String → String → Ordering) : Json → Json
  | .null => .null
  | .bool value => .bool value
  | .num value => .num value
  | .str value => .str value
  | .arr items => .arr (items.map (arranged localeCompare))
  | .obj entries =>
      .obj ((sortEntries localeCompare (Json.objectEntries entries)).attach.map
        fun ⟨(name, entry), _⟩ => (name, arranged localeCompare entry))
  termination_by value => sizeOf value
  decreasing_by
    · exact Json.sizeOf_lt_of_mem_items ‹_›
    · next hentry => exact Json.sizeOf_lt_of_mem_entries (mem_written.mp hentry)

def arrangedEntry (localeCompare : String → String → Ordering) (entry : String × Json) :
    String × Json :=
  (entry.1, arranged localeCompare entry.2)

variable {localeCompare : String → String → Ordering}

theorem arranged_arr (items : List Json) :
    arranged localeCompare (.arr items) = .arr (items.map (arranged localeCompare)) := by
  rw [arranged]

theorem arranged_obj (entries : JsonObject) :
    arranged localeCompare (.obj entries) =
      .obj ((sortEntries localeCompare (Json.objectEntries entries)).map
        (arrangedEntry localeCompare)) := by
  rw [arranged, ← List.attach_map_val
    (l := sortEntries localeCompare (Json.objectEntries entries))]
  rfl

theorem determines_entry {entry : String × Json}
    (h : Determines stop (text language) (arranged language.localeCompare) entry.2) :
    Determines stop (entryText language) (arrangedEntry language.localeCompare) entry := by
  intro entry' rest rest' hrest hrest' heq
  simp only [entryText, List.append_assoc, List.cons_append] at heq
  obtain ⟨hname, htail⟩ := quote_append_inj heq
  obtain ⟨hvalue, hends⟩ := h entry'.2 rest rest' hrest hrest' (List.cons_eq_cons.mp htail).2
  exact ⟨Prod.ext hname hvalue, hends⟩

theorem not_stop_of_isNumberChar {c : Char} (h : isNumberChar c = true) : ¬ stop c := by
  rintro (rfl | rfl | rfl) <;> exact absurd h (by decide)

theorem not_stop_of_text_bool {value : Bool} {c : Char}
    (h : c ∈ text language (.bool value)) : ¬ stop c := by
  cases value with
  | true =>
      have hc : c ∈ ['t', 'r', 'u', 'e'] := by simpa [text, canonicalise] using h
      rintro (rfl | rfl | rfl) <;> exact absurd hc (by decide)
  | false =>
      have hc : c ∈ ['f', 'a', 'l', 's', 'e'] := by simpa [text, canonicalise] using h
      rintro (rfl | rfl | rfl) <;> exact absurd hc (by decide)

theorem determines (hlanguage : language.Documented) (value : Json) :
    Determines stop (text language) (arranged language.localeCompare) value := by
  induction value using Json.induction with
  | null =>
      intro value' rest rest' hrest hrest' h
      have hkind := kind_eq_of_text hlanguage h
      cases value' with
      | null => exact ⟨rfl, List.append_cancel_left h⟩
      | _ => cases hkind
  | bool value =>
      intro value' rest rest' hrest hrest' h
      have hkind := kind_eq_of_text hlanguage h
      cases value' with
      | bool value' =>
          obtain ⟨htext, hends⟩ := append_inj_of_stops (fun c => not_stop_of_text_bool)
            (fun c => not_stop_of_text_bool) hrest hrest' h
          refine ⟨?_, hends⟩
          cases value <;> cases value' <;> simp_all [text, canonicalise]
      | _ => cases hkind
  | num value =>
      intro value' rest rest' hrest hrest' h
      have hkind := kind_eq_of_text hlanguage h
      cases value' with
      | num value' =>
          simp only [text, canonicalise] at h
          obtain ⟨htext, hends⟩ := append_inj_of_stops
            (fun c hc => not_stop_of_isNumberChar (hlanguage.lexical value c hc))
            (fun c hc => not_stop_of_isNumberChar (hlanguage.lexical value' c hc)) hrest hrest' h
          rw [hlanguage.injective (String.toList_inj.mp htext)]
          exact ⟨rfl, hends⟩
      | _ => cases hkind
  | str value =>
      intro value' rest rest' hrest hrest' h
      have hkind := kind_eq_of_text hlanguage h
      cases value' with
      | str value' =>
          simp only [text, canonicalise] at h
          obtain ⟨rfl, hends⟩ := quote_append_inj h
          exact ⟨rfl, hends⟩
      | _ => cases hkind
  | arr items ih =>
      intro value' rest rest' hrest hrest' h
      have hkind := kind_eq_of_text hlanguage h
      cases value' with
      | arr items' =>
          rw [text_arr, text_arr] at h
          simp only [List.cons_append, List.append_assoc, List.nil_append, List.cons.injEq,
            true_and] at h
          obtain ⟨hitems, hends⟩ := intercalate_close (show stop ',' from .inl rfl)
            (.inr (.inl rfl)) (by decide) (text_append_ne hlanguage (.inr (.inl rfl))) ih h
          exact ⟨by rw [arranged_arr, arranged_arr, hitems], hends⟩
      | _ => cases hkind
  | obj entries ih =>
      intro value' rest rest' hrest hrest' h
      have hkind := kind_eq_of_text hlanguage h
      cases value' with
      | obj entries' =>
          rw [text_obj, text_obj] at h
          simp only [List.cons_append, List.append_assoc, List.nil_append, List.cons.injEq,
            true_and] at h
          obtain ⟨hentries, hends⟩ := intercalate_close (show stop ',' from .inl rfl)
            (.inr (.inr rfl)) (by decide) entryText_append_ne
            (fun entry hentry => determines_entry (ih entry (mem_written.mp hentry))) h
          exact ⟨by rw [arranged_obj, arranged_obj, hentries], hends⟩
      | _ => cases hkind

theorem map_eq_map_of {α β γ : Type*} {f : α → β} {g : α → γ} {l l' : List α}
    (h : l.map f = l'.map f) (hfg : ∀ a ∈ l, ∀ b ∈ l', f a = f b → g a = g b) :
    l.map g = l'.map g := by
  induction l generalizing l' with
  | nil =>
      cases l' with
      | nil => rfl
      | cons b l' => cases h
  | cons a l ih =>
      cases l' with
      | nil => cases h
      | cons b l' =>
          obtain ⟨hhead, htail⟩ := List.cons_eq_cons.mp h
          rw [List.map_cons, List.map_cons,
            hfg a (List.mem_cons_self ..) b (List.mem_cons_self ..) hhead,
            ih htail fun a ha b hb =>
              hfg a (List.mem_cons_of_mem _ ha) b (List.mem_cons_of_mem _ hb)]

/-- The text of a value that is arranged: the entries are written as they stand. -/
def plainText (language : Language) : Json → List Char
  | .arr items => '[' :: [','].intercalate (items.map (plainText language)) ++ [']']
  | .obj entries =>
      '{' :: [','].intercalate (entries.attach.map fun ⟨(name, entry), _⟩ =>
        (quote name).toList ++ ':' :: plainText language entry) ++ ['}']
  | value => text language value
  termination_by value => sizeOf value
  decreasing_by
    · exact Json.sizeOf_lt_of_mem_items ‹_›
    · next hentry => exact Json.sizeOf_lt_of_mem_entries hentry

theorem plainText_arr (items : List Json) :
    plainText language (.arr items) =
      '[' :: [','].intercalate (items.map (plainText language)) ++ [']'] := by
  rw [plainText]

theorem plainText_obj (entries : JsonObject) :
    plainText language (.obj entries) =
      '{' :: [','].intercalate (entries.map fun entry =>
        (quote entry.1).toList ++ ':' :: plainText language entry.2) ++ ['}'] := by
  rw [plainText, ← List.attach_map_val (l := entries)]

theorem plainText_arranged (value : Json) :
    plainText language (arranged language.localeCompare value) = text language value := by
  induction value using Json.induction with
  | null | bool value | num value | str value => simp only [arranged, plainText]
  | arr items ih =>
      have hitems : items.map (plainText language ∘ arranged language.localeCompare) =
          items.map (text language) := List.map_congr_left ih
      rw [arranged_arr, plainText_arr, text_arr, List.map_map, hitems]
  | obj entries ih =>
      rw [arranged_obj, plainText_obj, text_obj, List.map_map]
      congr 3
      refine List.map_congr_left fun entry hentry => ?_
      have hvalue := ih entry (mem_written.mp hentry)
      rw [Function.comp_apply, entryText, arrangedEntry, hvalue]

theorem text_of_arranged {value value' : Json}
    (h : arranged language.localeCompare value = arranged language.localeCompare value') :
    text language value = text language value' := by
  rw [← plainText_arranged value, h, plainText_arranged]

/-- Two values have one text exactly when they are the same once arranged. -/
theorem canonicalise_eq_iff (hlanguage : language.Documented) {value value' : Json} :
    canonicalise language value = canonicalise language value' ↔
      arranged language.localeCompare value = arranged language.localeCompare value' := by
  constructor
  · intro h
    have htext : text language value ++ [] = text language value' ++ [] := by
      rw [text, text, h]
    exact (determines hlanguage value value' [] [] trivial trivial htext).1
  · exact fun h => String.toList_inj.mp (text_of_arranged h)

/-! ## What is told apart -/

/-- Arranging changes nothing but the order of keys. -/
theorem meaning_arranged {value : Json} (hvalue : value.WellFormed) :
    (arranged localeCompare value).meaning = value.meaning := by
  induction value using Json.induction with
  | null | bool value | num value | str value => rw [arranged]
  | arr items ih =>
      rw [Json.wellFormed_arr] at hvalue
      rw [arranged_arr, Json.meaning_arr, Json.meaning_arr, List.map_map]
      congr 1
      exact List.map_congr_left fun item hitem => ih item hitem (hvalue item hitem)
  | obj entries ih =>
      rw [Json.wellFormed_obj] at hvalue
      have hperm : (sortEntries localeCompare (Json.objectEntries entries)).Perm entries :=
        (List.perm_insertionSort _ _).trans (Json.objectEntries_perm entries)
      rw [arranged_obj]
      exact Json.meaning_obj_of_perm hvalue.1 (hperm.map (arrangedEntry localeCompare))
        fun entry hentry => ih entry hentry (hvalue.2 entry hentry)

/-- Values of one canonical text are the same up to the order of the keys of objects. -/
theorem meaning_eq_of_canonicalise_eq (hlanguage : language.Documented) {value value' : Json}
    (hvalue : value.WellFormed) (hvalue' : value'.WellFormed)
    (h : canonicalise language value = canonicalise language value') :
    value.meaning = value'.meaning := by
  have hmeaning : (arranged language.localeCompare value).meaning = value.meaning :=
    meaning_arranged hvalue
  have hmeaning' : (arranged language.localeCompare value').meaning = value'.meaning :=
    meaning_arranged hvalue'
  rw [← hmeaning, ← hmeaning', (canonicalise_eq_iff hlanguage).mp h]

end Payments

end Paynad
