import UpdateProtocol.Proofs.Lists
import UpdateProtocol.Proofs.Toml.Spelling

/-!
# Writing values

The ways of writing texts, truth values, and arrays and tables in place, with every choice of
quotes, escapes, blanks, comments, line ends and trailing commas.  Whatever the choice, the value is
read (`Written.readsAs`).
-/

namespace UpdateProtocol.Toml

/-! ### Values -/

/-- The ways of writing a text or a truth value. -/
inductive ScalarWritten : Value → List Char → Prop
  | string {text : String} {raw : List Char} (h : Quoted text raw) :
      ScalarWritten (.string text) raw
  | yes : ScalarWritten (.boolean true) ['t', 'r', 'u', 'e']
  | no : ScalarWritten (.boolean false) ['f', 'a', 'l', 's', 'e']

section Nested

variable (W : Value → List Char → Prop)

/-- The ways of writing the items of an array, with its last bracket, when `W` gives those of an
item.  A comma may follow the last item. -/
inductive ItemsWritten : List Value → List Char → Prop
  | nil {filler : List Char} (h : Filler filler) : ItemsWritten [] (filler ++ [']'])
  | last {item : Value} {before raw after : List Char} (hbefore : Filler before) (h : W item raw)
      (hafter : Filler after) : ItemsWritten [item] (before ++ (raw ++ (after ++ [']'])))
  | cons {item : Value} {items : List Value} {before raw after more : List Char}
      (hbefore : Filler before) (h : W item raw) (hafter : Filler after)
      (hmore : ItemsWritten items more) :
      ItemsWritten (item :: items) (before ++ (raw ++ (after ++ ',' :: more)))

/-- The ways of writing an entry on one line. -/
inductive EntryWritten : String × Value → List Char → Prop
  | entry {key : String} {value : Value} {name before after raw : List Char}
      (hkey : KeySpells key name) (hbefore : IsBlanks before) (hafter : IsBlanks after)
      (h : W value raw) : EntryWritten (key, value) (name ++ (before ++ '=' :: (after ++ raw)))

/-- The ways of writing the entries of a table between braces, with its last brace. -/
inductive EntriesWritten : Entries → List Char → Prop
  | last {entry : String × Value} {before raw after : List Char} (hbefore : IsBlanks before)
      (h : EntryWritten W entry raw) (hafter : IsBlanks after) :
      EntriesWritten [entry] (before ++ (raw ++ (after ++ ['}'])))
  | cons {entry : String × Value} {entries : Entries} {before raw after more : List Char}
      (hbefore : IsBlanks before) (h : EntryWritten W entry raw) (hafter : IsBlanks after)
      (hmore : EntriesWritten entries more) :
      EntriesWritten (entry :: entries) (before ++ (raw ++ (after ++ ',' :: more)))

/-- The ways of writing an array or a table in place. -/
inductive NestedWritten : Value → List Char → Prop
  | array {items : List Value} {raw : List Char} (h : ItemsWritten W items raw) :
      NestedWritten (.array .complete items) ('[' :: raw)
  | empty {blanks : List Char} (h : IsBlanks blanks) :
      NestedWritten (.table .complete []) ('{' :: (blanks ++ ['}']))
  | table {entries : Entries} {raw : List Char} (once : (entries.map Prod.fst).Nodup)
      (h : EntriesWritten W entries raw) : NestedWritten (.table .complete entries) ('{' :: raw)

end Nested

/-- The ways of writing a value with at most `depth` arrays and tables inside each other. -/
def Written : Nat → Value → List Char → Prop
  | 0 => ScalarWritten
  | depth + 1 => fun value raw => ScalarWritten value raw ∨ NestedWritten (Written depth) value raw

/-! ### Existence -/

theorem ScalarWritten.written {v : Value} {raw : List Char} (h : ScalarWritten v raw)
    (depth : Nat) : Written depth v raw := by
  cases depth with
  | zero => exact h
  | succ depth => exact .inl h

theorem exists_written_string (depth : Nat) (text : String) :
    ∃ raw, Written depth (.string text) raw := by
  obtain ⟨raw, hraw⟩ := exists_quoted text
  exact ⟨raw, (ScalarWritten.string hraw).written depth⟩

theorem exists_written_boolean (depth : Nat) (flag : Bool) :
    ∃ raw, Written depth (.boolean flag) raw := by
  cases flag with
  | true => exact ⟨_, ScalarWritten.yes.written depth⟩
  | false => exact ⟨_, ScalarWritten.no.written depth⟩

section Parts

variable {W : Value → List Char → Prop}

theorem exists_itemsWritten {items : List Value} (h : ∀ item ∈ items, ∃ raw, W item raw) :
    ∃ raw, ItemsWritten W items raw := by
  induction items with
  | nil => exact ⟨_, .nil (.blanks isBlanks_nil)⟩
  | cons item items ih =>
    obtain ⟨⟨raw, hraw⟩, hitems⟩ := List.forall_mem_cons.1 h
    obtain ⟨more, hmore⟩ := ih hitems
    exact ⟨_, .cons (.blanks isBlanks_nil) hraw (.blanks isBlanks_nil) hmore⟩

theorem exists_entryWritten {entry : String × Value} (h : ∃ raw, W entry.2 raw) :
    ∃ raw, EntryWritten W entry raw := by
  obtain ⟨raw, hraw⟩ := h
  obtain ⟨name, hname⟩ := exists_keySpells entry.1
  exact ⟨_, .entry hname isBlanks_nil isBlanks_nil hraw⟩

theorem exists_entriesWritten {entries : Entries} (hne : entries ≠ [])
    (h : ∀ entry ∈ entries, ∃ raw, W entry.2 raw) : ∃ raw, EntriesWritten W entries raw := by
  induction entries with
  | nil => exact absurd rfl hne
  | cons entry entries ih =>
    obtain ⟨hentry, hentries⟩ := List.forall_mem_cons.1 h
    obtain ⟨raw, hraw⟩ := exists_entryWritten hentry
    by_cases hlast : entries = []
    · subst hlast
      exact ⟨_, .last isBlanks_nil hraw isBlanks_nil⟩
    · obtain ⟨more, hmore⟩ := ih hlast hentries
      exact ⟨_, .cons isBlanks_nil hraw isBlanks_nil hmore⟩

end Parts

/-! ### Reading values -/

/-- An entry whose key has one part. -/
def plainEntry (entry : String × Value) : Entry :=
  ⟨[], entry.1, entry.2⟩

theorem addEntry_plain {draft : Draft} {entry : String × Value}
    (h : draft.entries.lookup entry.1 = none) :
    draft.addEntry (plainEntry entry) =
      some { draft with entries := draft.entries ++ [entry] } := by
  simp [Draft.addEntry, Draft.editAt, Draft.add, plainEntry, h]

/-- Entries with different keys make a table in their order. -/
theorem addEntries_plain {origin : TableOrigin} {before entries : Entries}
    (once : ((before ++ entries).map Prod.fst).Nodup) :
    Draft.addEntries ⟨origin, before⟩ (entries.map plainEntry) =
      some ⟨origin, before ++ entries⟩ := by
  induction entries generalizing before with
  | nil => simp [Draft.addEntries]
  | cons entry entries ih =>
    have hkey : before.lookup entry.1 = none := by
      rw [lookup_eq_none_iff_not_mem]
      rw [List.map_append, List.map_cons, List.nodup_append] at once
      exact fun hmem => once.2.2 _ hmem _ (by simp) rfl
    rw [List.append_cons] at once
    rw [Draft.addEntries, List.map_cons, List.foldlM_cons, addEntry_plain hkey,
      List.append_cons before entry entries]
    exact ih once

theorem addEntries_empty {origin : TableOrigin} {entries : Entries}
    (once : (entries.map Prod.fst).Nodup) :
    Draft.addEntries ⟨origin, []⟩ (entries.map plainEntry) = some ⟨origin, entries⟩ :=
  addEntries_plain once

theorem tableOfEntries_plain {entries : Entries} (once : (entries.map Prod.fst).Nodup) :
    tableOfEntries (entries.map plainEntry) = some (.table .complete entries) := by
  rw [tableOfEntries, addEntries_empty once]
  rfl

/-- The text begins neither with a filler nor with the last bracket of an array. -/
def BeginsValue (raw : List Char) : Prop :=
  ∃ c more, raw = c :: more ∧ isSolid c = true ∧ c ≠ ']'

/-- The text is read as the value, wherever a string may end. -/
structure ReadsAs (read : Reads Value) (value : Value) (raw : List Char) : Prop where
  begins : BeginsValue raw
  reads : ∀ {rest : Rest}, EndsString rest → read (raw ++ rest) = some (value, rest)

theorem ReadsAs.dropBlanks_append {read : Reads Value} {value : Value} {raw : List Char}
    (h : ReadsAs read value raw) (rest : Rest) : dropBlanks (raw ++ rest) = raw ++ rest := by
  obtain ⟨c, more, rfl, hc, -⟩ := h.begins
  exact dropBlanks_cons (by simp_all [isSolid]) _

theorem ScalarWritten.begins {value : Value} {raw : List Char} (h : ScalarWritten value raw) :
    BeginsValue raw := by
  cases h with
  | string h => cases h <;> exact ⟨_, _, rfl, rfl, by decide⟩
  | yes | no => exact ⟨_, _, rfl, rfl, by decide⟩

theorem ScalarWritten.reads {value : Value} {raw : List Char} (h : ScalarWritten value raw)
    {rest : Rest} (hrest : EndsString rest) : scalar (raw ++ rest) = some (value, rest) := by
  cases h with
  | string h =>
    have hscalar : scalar (raw ++ rest) =
        (Toml.string (raw ++ rest)).map fun found => (.string found.1, found.2) := by
      cases h <;> rfl
    rw [hscalar, string_of_quoted h hrest]
    rfl
  | yes | no => rfl

theorem ScalarWritten.readsAs {v : Value} {raw : List Char} (h : ScalarWritten v raw)
    (depth : Nat) : ReadsAs (value depth) v raw := by
  refine ⟨h.begins, fun {rest} hrest => ?_⟩
  rw [← h.reads hrest]
  cases h with
  | string h => cases h <;> cases depth <;> rfl
  | yes | no => cases depth <;> rfl

section Nested

variable {W : Value → List Char → Prop} {read : Reads Value}
  (hread : ∀ {value : Value} {raw : List Char}, W value raw → ReadsAs read value raw)

include hread

/-- After an item a comma goes on and a bracket ends. -/
theorem arrayItems_item {item : Value} {before raw after : List Char} (hbefore : Filler before)
    (h : W item raw) (hafter : Filler after) {fuel : Nat} {rest : Rest} {c : Char}
    (hc : c = ',' ∨ c = ']')
    (hfuel : (before ++ (raw ++ (after ++ c :: rest))).length < fuel + 1)
    (collected : List Value) :
    arrayItems read (fuel + 1) collected (before ++ (raw ++ (after ++ c :: rest))) =
      if c = ',' then arrayItems read fuel (item :: collected) rest
      else some ((item :: collected).reverse, rest) := by
  have hitem := hread h
  obtain ⟨first, more, rfl, hfirst, hne⟩ := hitem.begins
  have hsolid : isSolid c = true := by rcases hc with rfl | rfl <;> rfl
  have hends : EndsString (after ++ c :: rest) := by
    refine hafter.endsString ?_
    rcases hc with rfl | rfl <;> exact endsString_cons (by decide) (by decide) _
  rw [List.cons_append] at hfuel ⊢
  rw [arrayItems, dropFiller_of_filler hbefore hfirst hfuel]
  simp only [Option.bind_eq_bind, Option.bind_some]
  split
  · simp_all
  · rw [← List.cons_append, hitem.reads hends]
    simp only [Option.bind_some]
    rw [dropFiller_of_filler hafter hsolid (by simp at hfuel ⊢; omega)]
    rcases hc with rfl | rfl <;> rfl

/-- The fuel lasts if it exceeds the text that is left, because an item that is not the last one
takes at least its comma. -/
theorem ItemsWritten.reads {items : List Value} {raw : List Char} (h : ItemsWritten W items raw)
    {fuel : Nat} {rest : Rest} (hfuel : (raw ++ rest).length < fuel) (collected : List Value) :
    arrayItems read fuel collected (raw ++ rest) = some (collected.reverse ++ items, rest) := by
  obtain ⟨fuel, rfl⟩ : ∃ before, fuel = before + 1 := ⟨fuel - 1, by omega⟩
  induction h generalizing fuel collected with
  | nil hfiller =>
    rw [List.append_assoc, List.singleton_append] at hfuel ⊢
    rw [arrayItems, dropFiller_of_filler hfiller rfl hfuel]
    simp
  | last hbefore h hafter =>
    simp only [List.append_assoc, List.singleton_append] at hfuel ⊢
    rw [arrayItems_item hread hbefore h hafter (.inr rfl) hfuel]
    simp
  | cons hbefore h hafter hmore ih =>
    simp only [List.append_assoc, List.cons_append] at hfuel ⊢
    rw [arrayItems_item hread hbefore h hafter (.inl rfl) hfuel, if_pos rfl]
    obtain ⟨fuel, rfl⟩ : ∃ before, fuel = before + 1 := ⟨fuel - 1, by simp at hfuel; omega⟩
    rw [ih _ fuel (by simp at hfuel ⊢; omega)]
    simp

theorem EntryWritten.reads {entry : String × Value} {raw : List Char}
    (h : EntryWritten W entry raw) {before : List Char} (hbefore : IsBlanks before) {rest : Rest}
    (hrest : EndsString rest) :
    Toml.entry read (before ++ (raw ++ rest)) = some (plainEntry entry, rest) := by
  cases h with
  | entry hkey hequals hafter hvalue =>
    simp only [List.append_assoc, List.cons_append]
    rw [Toml.entry, key_of_spells hkey hbefore hequals (.inl rfl)]
    simp only [Option.bind_eq_bind, Option.bind_some, exactly, beq_self_eq_true, if_true,
      dropBlanks_append hafter, (hread hvalue).dropBlanks_append, (hread hvalue).reads hrest]
    rfl

/-- After an entry a comma goes on and a brace ends. -/
theorem tableEntries_entry {entry : String × Value} {before raw after : List Char}
    (hbefore : IsBlanks before) (h : EntryWritten W entry raw) (hafter : IsBlanks after)
    {rest : Rest} {c : Char} (hc : c = ',' ∨ c = '}') (fuel : Nat) (collected : List Entry) :
    tableEntries read (fuel + 1) collected (before ++ (raw ++ (after ++ c :: rest))) =
      if c = ',' then tableEntries read fuel (plainEntry entry :: collected) rest
      else some ((plainEntry entry :: collected).reverse, rest) := by
  have hblank : isBlank c = false := by rcases hc with rfl | rfl <;> rfl
  have hends : EndsString (after ++ c :: rest) := by
    refine hafter.endsString ?_
    rcases hc with rfl | rfl <;> exact endsString_cons (by decide) (by decide) _
  rw [tableEntries, h.reads hread hbefore hends]
  simp only [Option.bind_eq_bind, Option.bind_some, dropBlanks_append hafter,
    dropBlanks_cons hblank]
  rcases hc with rfl | rfl <;> rfl

theorem EntriesWritten.reads {entries : Entries} {raw : List Char}
    (h : EntriesWritten W entries raw) {fuel : Nat} {rest : Rest}
    (hfuel : (raw ++ rest).length < fuel) (collected : List Entry) :
    tableEntries read fuel collected (raw ++ rest) =
      some (collected.reverse ++ entries.map plainEntry, rest) := by
  obtain ⟨fuel, rfl⟩ : ∃ before, fuel = before + 1 := ⟨fuel - 1, by omega⟩
  induction h generalizing fuel collected with
  | last hbefore h hafter =>
    simp only [List.append_assoc, List.singleton_append]
    rw [tableEntries_entry hread hbefore h hafter (.inr rfl)]
    simp
  | cons hbefore h hafter hmore ih =>
    simp only [List.append_assoc, List.cons_append] at hfuel ⊢
    rw [tableEntries_entry hread hbefore h hafter (.inl rfl), if_pos rfl]
    obtain ⟨fuel, rfl⟩ : ∃ before, fuel = before + 1 := ⟨fuel - 1, by simp at hfuel; omega⟩
    rw [ih _ fuel (by simp at hfuel ⊢; omega)]
    simp

end Nested

theorem EntryWritten.exists_cons {W : Value → List Char → Prop} {entry : String × Value}
    {raw : List Char} (h : EntryWritten W entry raw) :
    ∃ c more, raw = c :: more ∧ isKeyStart c = true := by
  obtain ⟨hkey, -, -, -⟩ := h
  obtain ⟨c, more, rfl, hc⟩ := hkey.exists_cons
  exact ⟨c, _, rfl, hc⟩

/-- The blanks before its first entry are no part of a table, which does not end there. -/
theorem EntriesWritten.exists_dropBlanks {W : Value → List Char → Prop} {entries : Entries}
    {raw : List Char} (h : EntriesWritten W entries raw) :
    ∃ c more, (∀ rest, dropBlanks (raw ++ rest) = c :: more ++ rest) ∧ c ≠ '}' ∧
      EntriesWritten W entries (c :: more) := by
  cases h with
  | last hbefore h hafter =>
    obtain ⟨c, more, rfl, hc⟩ := h.exists_cons
    refine ⟨c, _, fun rest => ?_, ne_of_isKeyStart hc rfl, .last isBlanks_nil h hafter⟩
    rw [List.append_assoc, dropBlanks_append hbefore]
    exact dropBlanks_cons (isBlank_of_isKeyStart hc) _
  | cons hbefore h hafter hmore =>
    obtain ⟨c, more, rfl, hc⟩ := h.exists_cons
    refine ⟨c, _, fun rest => ?_, ne_of_isKeyStart hc rfl,
      .cons isBlanks_nil h hafter hmore⟩
    rw [List.append_assoc, dropBlanks_append hbefore]
    exact dropBlanks_cons (isBlank_of_isKeyStart hc) _

theorem NestedWritten.readsAs {W : Value → List Char → Prop} {depth : Nat} {v : Value}
    {raw : List Char}
    (hread : ∀ {v : Value} {raw : List Char}, W v raw → ReadsAs (value depth) v raw)
    (h : NestedWritten W v raw) : ReadsAs (value (depth + 1)) v raw := by
  cases h with
  | array h =>
    refine ⟨⟨_, _, rfl, rfl, by decide⟩, fun {rest} _ => ?_⟩
    rw [List.cons_append, value, h.reads hread (Nat.lt_succ_self _)]
    rfl
  | empty h =>
    refine ⟨⟨_, _, rfl, rfl, by decide⟩, fun {rest} _ => ?_⟩
    rw [List.cons_append, List.append_assoc, value, dropBlanks_append h]
    rfl
  | table once h =>
    refine ⟨⟨_, _, rfl, rfl, by decide⟩, fun {rest} _ => ?_⟩
    obtain ⟨c, more, hdrop, hc, h⟩ := h.exists_dropBlanks
    rw [List.cons_append, value, hdrop]
    split
    · simp_all
    · rw [h.reads hread (Nat.lt_succ_self _)]
      simp only [Option.bind_eq_bind, Option.bind_some, List.reverse_nil, List.nil_append,
        tableOfEntries_plain once]

/-- However a value is written, it is read. -/
theorem Written.readsAs {depth : Nat} {v : Value} {raw : List Char} (h : Written depth v raw) :
    ReadsAs (value depth) v raw := by
  induction depth generalizing v raw with
  | zero => exact ScalarWritten.readsAs h 0
  | succ depth ih =>
    rcases h with h | h
    · exact h.readsAs _
    · exact h.readsAs ih

end UpdateProtocol.Toml
