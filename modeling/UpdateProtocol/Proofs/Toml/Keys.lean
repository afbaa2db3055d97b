import UpdateProtocol.Proofs.Lists
import UpdateProtocol.Toml.Document

/-!
# Keys of configuration documents

However deep a table stands in a document, it does not have a key twice.  Every step that makes or
extends a table keeps this (`Draft.Keeps`), so it holds of all that is read (`wellKeyed_of_parse`).
-/

namespace UpdateProtocol.Toml

/-! ### Values and entries -/

/-- A value in which no table has a key twice. -/
inductive Value.WellKeyed : Value → Prop
  | string (text : String) : WellKeyed (.string text)
  | integer (number : Int) : WellKeyed (.integer number)
  | float (number : Binary64) : WellKeyed (.float number)
  | boolean (value : Bool) : WellKeyed (.boolean value)
  | moment : WellKeyed .moment
  | array {origin : ArrayOrigin} {items : List Value} (h : ∀ item ∈ items, WellKeyed item) :
      WellKeyed (.array origin items)
  | table {origin : TableOrigin} {entries : List (String × Value)}
      (once : (entries.map Prod.fst).Nodup) (values : ∀ entry ∈ entries, WellKeyed entry.2) :
      WellKeyed (.table origin entries)

/-- Entries without a key that stands twice, here or in a table among the values. -/
structure Entries.WellKeyed (entries : Entries) : Prop where
  once : (entries.map Prod.fst).Nodup
  values : ∀ entry ∈ entries, entry.2.WellKeyed

theorem Value.wellKeyed_table_iff {origin : TableOrigin} {entries : Entries} :
    (Value.table origin entries).WellKeyed ↔ entries.WellKeyed :=
  ⟨fun | .table once values => ⟨once, values⟩, fun ⟨once, values⟩ => .table once values⟩

theorem Value.wellKeyed_array_iff {origin : ArrayOrigin} {items : List Value} :
    (Value.array origin items).WellKeyed ↔ ∀ item ∈ items, item.WellKeyed :=
  ⟨fun | .array h => h, .array⟩

namespace Entries

variable {entries : Entries} {key : String} {value : Value}

theorem wellKeyed_nil : WellKeyed [] := ⟨.nil, by simp⟩

theorem mem_of_lookup (h : entries.lookup key = some value) : (key, value) ∈ entries := by
  obtain ⟨before, after, rfl, -⟩ := List.lookup_eq_some_iff.1 h
  simp

theorem WellKeyed.of_lookup (h : entries.WellKeyed) (hlookup : entries.lookup key = some value) :
    value.WellKeyed :=
  h.values _ (mem_of_lookup hlookup)

theorem WellKeyed.concat (h : entries.WellKeyed) (hkey : entries.lookup key = none)
    (hvalue : value.WellKeyed) : WellKeyed (entries ++ [(key, value)]) := by
  constructor
  · rw [List.map_append, List.nodup_append]
    refine ⟨h.once, by simp, fun other hother last hlast e => ?_⟩
    rw [e, List.mem_singleton.1 hlast] at hother
    exact lookup_eq_none_iff_not_mem.1 hkey hother
  · exact List.forall_mem_append.2 ⟨h.values, List.forall_mem_singleton.2 hvalue⟩

theorem map_fst_replace (entries : Entries) (key : String) (value : Value) :
    (entries.replace key value).map Prod.fst = entries.map Prod.fst := by
  simp only [replace, List.map_map]
  refine List.map_congr_left fun entry _ => ?_
  by_cases hkey : entry.1 = key <;> simp [hkey]

theorem WellKeyed.replace (h : entries.WellKeyed) (hvalue : value.WellKeyed) :
    (entries.replace key value).WellKeyed := by
  constructor
  · rw [map_fst_replace]
    exact h.once
  · intro entry hentry
    obtain ⟨old, hold, rfl⟩ := List.mem_map.1 hentry
    split
    · exact hvalue
    · exact h.values old hold

theorem WellKeyed.erase (h : entries.WellKeyed) (key : String) : (entries.erase key).WellKeyed :=
  ⟨h.once.sublist (List.filter_sublist.map _),
    fun entry hentry => h.values entry (List.mem_filter.1 hentry).1⟩

theorem lookup_erase (entries : Entries) (key : String) :
    (entries.erase key).lookup key = none := by
  rw [List.lookup_eq_none_iff]
  intro entry hentry
  exact bne_comm.trans (List.mem_filter.1 hentry).2

end Entries

/-! ### Making tables -/

namespace Draft

/-- An edit after which no key stands twice if none did before. -/
def Keeps (edit : Draft → Option Draft) : Prop :=
  ∀ {draft draft' : Draft}, draft.entries.WellKeyed → edit draft = some draft' →
    draft'.entries.WellKeyed

theorem wellKeyed_toValue {draft : Draft} (h : draft.entries.WellKeyed) :
    draft.toValue.WellKeyed :=
  Value.wellKeyed_table_iff.2 h

theorem keeps_editAt {dotted : Bool} {edit : Draft → Option Draft} (hedit : Keeps edit)
    (path : List String) : Keeps (editAt dotted edit path) := by
  induction path with
  | nil => exact hedit
  | cons key path ih =>
    intro draft draft' h hdraft
    rw [editAt] at hdraft
    split at hdraft
    · next hlookup =>
      obtain ⟨inner, hinner, e⟩ := Option.bind_eq_some_iff.1 hdraft
      cases e
      exact h.concat hlookup (wellKeyed_toValue (ih Entries.wellKeyed_nil hinner))
    · next origin entries hlookup =>
      split at hdraft
      · obtain ⟨inner, hinner, e⟩ := Option.bind_eq_some_iff.1 hdraft
        cases e
        have hentries := Value.wellKeyed_table_iff.1 (h.of_lookup hlookup)
        exact h.replace (wellKeyed_toValue (ih hentries hinner))
      · cases hdraft
    · next items hlookup =>
      have hitems := Value.wellKeyed_array_iff.1 (h.of_lookup hlookup)
      split at hdraft
      · next origin entries hlast =>
        obtain ⟨inner, hinner, e⟩ := Option.bind_eq_some_iff.1 hdraft
        cases e
        have hentries := Value.wellKeyed_table_iff.1 (hitems _ (List.mem_of_getLast? hlast))
        refine h.replace (Value.wellKeyed_array_iff.2 ?_)
        simp only [List.forall_mem_append, List.forall_mem_singleton]
        exact ⟨fun item hitem => hitems item (List.dropLast_sublist _ |>.subset hitem),
          wellKeyed_toValue (ih hentries hinner)⟩
      · cases hdraft
    · cases hdraft

theorem keeps_add {value : Value} (hvalue : value.WellKeyed) (key : String) :
    Keeps (add key value) := by
  intro draft draft' h hdraft
  rw [add] at hdraft
  split at hdraft
  · cases hdraft
  · next hlookup =>
    cases hdraft
    exact h.concat hlookup hvalue

theorem keeps_addEntry {entry : Entry} (hvalue : entry.value.WellKeyed) :
    Keeps (fun draft => draft.addEntry entry) := by
  refine keeps_editAt (fun {draft draft'} h hdraft => ?_) entry.path
  split at hdraft
  · exact keeps_add hvalue entry.key h hdraft
  · cases hdraft

theorem keeps_addEntries {entries : List Entry}
    (hvalues : ∀ entry ∈ entries, entry.value.WellKeyed) :
    Keeps (fun draft => draft.addEntries entries) := by
  induction entries with
  | nil =>
    intro draft draft' h hdraft
    cases hdraft
    exact h
  | cons entry entries ih =>
    obtain ⟨hentry, hentries⟩ := List.forall_mem_cons.1 hvalues
    intro draft draft' h hdraft
    obtain ⟨middle, hmiddle, hdraft⟩ := Option.bind_eq_some_iff.1 hdraft
    exact ih hentries (keeps_addEntry hentry h hmiddle) hdraft

theorem keeps_openTable {entries : List Entry} (hvalues : ∀ entry ∈ entries, entry.value.WellKeyed)
    (key : String) : Keeps (openTable key entries) := by
  intro draft draft' h hdraft
  rw [openTable] at hdraft
  split at hdraft
  · next hlookup =>
    obtain ⟨table, htable, e⟩ := Option.bind_eq_some_iff.1 hdraft
    cases e
    exact h.concat hlookup
      (wellKeyed_toValue (keeps_addEntries hvalues Entries.wellKeyed_nil htable))
  · next before hlookup =>
    obtain ⟨table, htable, e⟩ := Option.bind_eq_some_iff.1 hdraft
    cases e
    have hbefore := Value.wellKeyed_table_iff.1 (h.of_lookup hlookup)
    exact (h.erase key).concat (Entries.lookup_erase _ key)
      (wellKeyed_toValue (keeps_addEntries hvalues hbefore htable))
  · cases hdraft

theorem keeps_appendTable {entries : List Entry}
    (hvalues : ∀ entry ∈ entries, entry.value.WellKeyed) (key : String) :
    Keeps (appendTable key entries) := by
  intro draft draft' h hdraft
  obtain ⟨table, htable, hdraft⟩ := Option.bind_eq_some_iff.1 hdraft
  have hvalue := wellKeyed_toValue (keeps_addEntries hvalues Entries.wellKeyed_nil htable)
  split at hdraft
  · next hlookup =>
    cases hdraft
    exact h.concat hlookup (Value.wellKeyed_array_iff.2 (List.forall_mem_singleton.2 hvalue))
  · next items hlookup =>
    cases hdraft
    have hitems := Value.wellKeyed_array_iff.1 (h.of_lookup hlookup)
    refine h.replace (Value.wellKeyed_array_iff.2 ?_)
    exact List.forall_mem_append.2 ⟨hitems, List.forall_mem_singleton.2 hvalue⟩
  · cases hdraft

theorem keeps_addSection {part : Section}
    (hvalues : ∀ entry ∈ part.entries, entry.value.WellKeyed) :
    Keeps (fun document => document.addSection part) := by
  refine keeps_editAt (fun {draft draft'} h hdraft => ?_) part.header.path
  split at hdraft
  · exact keeps_appendTable hvalues _ h hdraft
  · exact keeps_openTable hvalues _ h hdraft

theorem keeps_addSections {sections : List Section}
    (hvalues : ∀ part ∈ sections, ∀ entry ∈ part.entries, entry.value.WellKeyed) :
    Keeps (fun document => sections.foldlM addSection document) := by
  induction sections with
  | nil =>
    intro draft draft' h hdraft
    cases hdraft
    exact h
  | cons part sections ih =>
    obtain ⟨hpart, hsections⟩ := List.forall_mem_cons.1 hvalues
    intro draft draft' h hdraft
    obtain ⟨middle, hmiddle, hdraft⟩ := Option.bind_eq_some_iff.1 hdraft
    exact ih hsections (keeps_addSection hpart h hmiddle) hdraft

end Draft

theorem wellKeyed_of_tableOfEntries {entries : List Entry} {value : Value}
    (hvalues : ∀ entry ∈ entries, entry.value.WellKeyed) (h : tableOfEntries entries = some value) :
    value.WellKeyed := by
  obtain ⟨draft, hdraft, e⟩ := Option.bind_eq_some_iff.1 h
  cases e
  exact Draft.wellKeyed_toValue (Draft.keeps_addEntries hvalues Entries.wellKeyed_nil hdraft)

theorem wellKeyed_of_tableOfSections {entries : List Entry} {sections : List Section}
    {table : Entries} (hentries : ∀ entry ∈ entries, entry.value.WellKeyed)
    (hsections : ∀ part ∈ sections, ∀ entry ∈ part.entries, entry.value.WellKeyed)
    (h : tableOfSections entries sections = some table) : table.WellKeyed := by
  obtain ⟨first, hfirst, h⟩ := Option.bind_eq_some_iff.1 h
  obtain ⟨last, hlast, e⟩ := Option.bind_eq_some_iff.1 h
  cases e
  exact Draft.keeps_addSections hsections
    (Draft.keeps_addEntries hentries Entries.wellKeyed_nil hfirst) hlast

/-! ### Reading values -/

/-- A function that reads only values in which no key stands twice. -/
def ReadsWellKeyed (read : Reads Value) : Prop :=
  ∀ {rest rest' : Rest} {value : Value}, read rest = some (value, rest') → value.WellKeyed

theorem wellKeyed_of_integer? {negative : Bool} {magnitude : Nat} {value : Value}
    (h : integer? negative magnitude = some value) : value.WellKeyed := by
  rw [integer?] at h
  split at h <;> split at h <;> cases h <;> exact .integer _

theorem wellKeyed_of_float? {negative : Bool} {digits : List Nat} {exponent : Int} {value : Value}
    (h : float? negative digits exponent = some value) : value.WellKeyed := by
  rw [float?] at h
  split at h
  · cases h
  · cases h
    exact .float _

theorem readsWellKeyed_afterMantissa (negative : Bool) (mantissa : List Nat) (places : Nat) :
    ReadsWellKeyed (afterMantissa negative mantissa places) := by
  intro rest rest' value h
  unfold afterMantissa at h
  split at h
  case h_1 | h_2 =>
    obtain ⟨found, -, h⟩ := Option.bind_eq_some_iff.1 h
    obtain ⟨number, hnumber, e⟩ := Option.bind_eq_some_iff.1 h
    cases e
    exact wellKeyed_of_float? hnumber
  case h_3 =>
    obtain ⟨number, hnumber, e⟩ := Option.bind_eq_some_iff.1 h
    cases e
    exact wellKeyed_of_float? hnumber

theorem readsWellKeyed_decimal : ReadsWellKeyed decimal := by
  intro rest rest' value h
  obtain ⟨whole, -, h⟩ := Option.bind_eq_some_iff.1 h
  simp only at h
  split at h
  · obtain ⟨fraction, -, h⟩ := Option.bind_eq_some_iff.1 h
    exact readsWellKeyed_afterMantissa _ _ _ h
  · exact readsWellKeyed_afterMantissa _ _ _ h
  · exact readsWellKeyed_afterMantissa _ _ _ h
  · obtain ⟨number, hnumber, e⟩ := Option.bind_eq_some_iff.1 h
    cases e
    exact wellKeyed_of_integer? hnumber

theorem readsWellKeyed_inBase (base : Nat) : ReadsWellKeyed (inBase base) := by
  intro rest rest' value h
  obtain ⟨found, -, h⟩ := Option.bind_eq_some_iff.1 h
  obtain ⟨number, hnumber, e⟩ := Option.bind_eq_some_iff.1 h
  cases e
  exact wellKeyed_of_integer? hnumber

theorem readsWellKeyed_number : ReadsWellKeyed number := by
  intro rest rest' value h
  unfold number at h
  split at h
  case h_1 | h_2 | h_3 => exact readsWellKeyed_inBase _ h
  case h_4 =>
    split at h
    · cases h
      exact .float _
    · cases h
      exact .float _
    · exact readsWellKeyed_decimal h

theorem readsWellKeyed_moment : ReadsWellKeyed moment := by
  intro rest rest' value h
  have hmoment : value = .moment := by
    rw [moment] at h
    split at h
    · obtain ⟨found, -, e⟩ := Option.map_eq_some_iff.1 h
      cases e
      rfl
    · repeat' split at h
      all_goals cases h; rfl
  exact hmoment ▸ .moment

theorem readsWellKeyed_scalar : ReadsWellKeyed scalar := by
  intro rest rest' value h
  unfold scalar at h
  split at h
  case h_1 | h_2 =>
    obtain ⟨found, -, e⟩ := Option.map_eq_some_iff.1 h
    cases e
    exact .string _
  case h_3 | h_4 =>
    cases h
    exact .boolean _
  case h_5 =>
    split at h
    · next found hmoment =>
      cases h
      exact readsWellKeyed_moment hmoment
    · exact readsWellKeyed_number h

section Nested

variable {read : Reads Value} (hread : ReadsWellKeyed read)

include hread

theorem wellKeyed_of_arrayItems {fuel : Nat} {items found : List Value} {rest rest' : Rest}
    (hitems : ∀ item ∈ items, item.WellKeyed)
    (h : arrayItems read fuel items rest = some (found, rest')) :
    ∀ item ∈ found, item.WellKeyed := by
  induction fuel generalizing items rest with
  | zero => cases h
  | succ fuel ih =>
    obtain ⟨first, -, h⟩ := Option.bind_eq_some_iff.1 h
    split at h
    · cases h
      exact fun item hitem => hitems item (List.mem_reverse.1 hitem)
    · obtain ⟨⟨item, last⟩, hitem, h⟩ := Option.bind_eq_some_iff.1 h
      have hcons : ∀ other ∈ item :: items, other.WellKeyed :=
        List.forall_mem_cons.2 ⟨hread hitem, hitems⟩
      obtain ⟨next, -, h⟩ := Option.bind_eq_some_iff.1 h
      split at h
      · exact ih hcons h
      · cases h
        exact fun item hitem => hcons item (List.mem_reverse.1 hitem)
      · cases h

theorem wellKeyed_of_entry {rest rest' : Rest} {found : Entry}
    (h : entry read rest = some (found, rest')) : found.value.WellKeyed := by
  obtain ⟨⟨⟨path, key⟩, last⟩, -, h⟩ := Option.bind_eq_some_iff.1 h
  obtain ⟨after, -, h⟩ := Option.bind_eq_some_iff.1 h
  obtain ⟨⟨value, last⟩, hvalue, e⟩ := Option.bind_eq_some_iff.1 h
  cases e
  exact hread hvalue

theorem wellKeyed_of_tableEntries {fuel : Nat} {entries found : List Entry} {rest rest' : Rest}
    (hentries : ∀ entry ∈ entries, entry.value.WellKeyed)
    (h : tableEntries read fuel entries rest = some (found, rest')) :
    ∀ entry ∈ found, entry.value.WellKeyed := by
  induction fuel generalizing entries rest with
  | zero => cases h
  | succ fuel ih =>
    obtain ⟨⟨next, last⟩, hnext, h⟩ := Option.bind_eq_some_iff.1 h
    have hcons : ∀ other ∈ next :: entries, other.value.WellKeyed :=
      List.forall_mem_cons.2 ⟨wellKeyed_of_entry hread hnext, hentries⟩
    simp only at h
    split at h
    · exact ih hcons h
    · cases h
      exact fun entry hentry => hcons entry (List.mem_reverse.1 hentry)
    · cases h

end Nested

theorem readsWellKeyed_value (depth : Nat) : ReadsWellKeyed (value depth) := by
  induction depth with
  | zero =>
    intro rest rest' found h
    unfold value at h
    split at h
    · next hdepth => cases hdepth
    · next hdepth => cases hdepth
    · cases h
    · cases h
    · exact readsWellKeyed_scalar h
  | succ depth ih =>
    intro rest rest' found h
    unfold value at h
    split at h
    · next hdepth =>
      cases hdepth
      obtain ⟨⟨items, last⟩, hitems, e⟩ := Option.bind_eq_some_iff.1 h
      cases e
      exact .array (wellKeyed_of_arrayItems ih (by simp) hitems)
    · next hdepth =>
      cases hdepth
      split at h
      · cases h
        exact Value.wellKeyed_table_iff.2 Entries.wellKeyed_nil
      · obtain ⟨⟨entries, last⟩, hentries, h⟩ := Option.bind_eq_some_iff.1 h
        obtain ⟨table, htable, e⟩ := Option.bind_eq_some_iff.1 h
        cases e
        exact wellKeyed_of_tableOfEntries (wellKeyed_of_tableEntries ih (by simp) hentries) htable
    · cases h
    · cases h
    · exact readsWellKeyed_scalar h

/-! ### Reading documents -/

/-- Parts of a document without a value in which a key stands twice. -/
structure Parts.WellKeyed (parts : Parts) : Prop where
  entries : ∀ entry ∈ parts.entries, entry.value.WellKeyed
  sections : ∀ part ∈ parts.sections, ∀ entry ∈ part.entries, entry.value.WellKeyed

theorem Parts.WellKeyed.addEntry {parts : Parts} (h : parts.WellKeyed) {entry : Entry}
    (hentry : entry.value.WellKeyed) : (parts.addEntry entry).WellKeyed := by
  obtain ⟨entries, sections⟩ := parts
  obtain ⟨hentries, hsections⟩ := h
  cases sections with
  | nil => exact ⟨List.forall_mem_cons.2 ⟨hentry, hentries⟩, hsections⟩
  | cons last sections =>
    obtain ⟨hlast, hothers⟩ := List.forall_mem_cons.1 hsections
    exact ⟨hentries,
      List.forall_mem_cons.2 ⟨List.forall_mem_cons.2 ⟨hentry, hlast⟩, hothers⟩⟩

theorem wellKeyed_of_lines {fuel : Nat} {parts found : Parts} {rest : Rest} (h : parts.WellKeyed)
    (hlines : lines fuel parts rest = some found) : found.WellKeyed := by
  induction fuel generalizing parts rest with
  | zero => cases hlines
  | succ fuel ih =>
    unfold lines at hlines
    split at hlines
    · cases hlines
      exact h
    · obtain ⟨last, -, hlines⟩ := Option.bind_eq_some_iff.1 hlines
      exact ih h hlines
    · exact ih h hlines
    · obtain ⟨last, -, hlines⟩ := Option.bind_eq_some_iff.1 hlines
      exact ih h hlines
    · obtain ⟨⟨next, last⟩, -, hlines⟩ := Option.bind_eq_some_iff.1 hlines
      obtain ⟨after, -, hlines⟩ := Option.bind_eq_some_iff.1 hlines
      have hopened : Parts.WellKeyed { parts with sections := ⟨next, []⟩ :: parts.sections } :=
        ⟨h.entries, List.forall_mem_cons.2 ⟨by simp, h.sections⟩⟩
      exact ih hopened hlines
    · obtain ⟨⟨next, last⟩, hnext, hlines⟩ := Option.bind_eq_some_iff.1 hlines
      obtain ⟨after, -, hlines⟩ := Option.bind_eq_some_iff.1 hlines
      exact ih (h.addEntry (wellKeyed_of_entry (readsWellKeyed_value _) hnext)) hlines

/-- No table of a document has a key twice. -/
theorem wellKeyed_of_parse {text : List Char} {entries : Entries}
    (h : parse text = some entries) : entries.WellKeyed := by
  obtain ⟨parts, hparts, h⟩ := Option.bind_eq_some_iff.1 h
  have hparts := wellKeyed_of_lines ⟨by simp, by simp⟩ hparts
  refine wellKeyed_of_tableOfSections (fun entry hentry => ?_) (fun part hpart entry hentry => ?_) h
  · exact hparts.entries entry (List.mem_reverse.1 hentry)
  · obtain ⟨found, hfound, rfl⟩ := List.mem_map.1 hpart
    exact hparts.sections found (List.mem_reverse.1 hfound) entry (List.mem_reverse.1 hentry)

end UpdateProtocol.Toml
