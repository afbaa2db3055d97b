import UpdateProtocol.Proofs.Toml.Values

/-!
# Writing documents

A document is a list of statements: entries, and headers of the tables of an array.  Each stands on
a line of its own, among blanks, comments and empty lines.  However the document is written, it is
read as the table that its statements make (`parse_of_written`).
-/

namespace UpdateProtocol.Toml

/-! ### Lines -/

/-- What a line may state. -/
inductive Statement where
  | entry (entry : String × Value)
  /-- A table is opened in the array of this name. -/
  | header (name : String)

/-- The ways of writing a statement. -/
inductive StatementWritten : Statement → List Char → Prop
  | entry {entry : String × Value} {raw : List Char}
      (h : EntryWritten (Written (maxNesting - 1)) entry raw) : StatementWritten (.entry entry) raw
  | header {name : String} {before raw after : List Char} (hbefore : IsBlanks before)
      (h : KeySpells name raw) (hafter : IsBlanks after) :
      StatementWritten (.header name) ('[' :: '[' :: (before ++ (raw ++ (after ++ [']', ']']))))

/-- The ways of writing a line, without its end: it has a statement or not, and a comment or not. -/
inductive LineWritten : List Statement → List Char → Prop
  | blank {blanks remark : List Char} (hblanks : IsBlanks blanks) (hremark : Remark remark) :
      LineWritten [] (blanks ++ remark)
  | statement {statement : Statement} {before raw after remark : List Char}
      (hbefore : IsBlanks before) (h : StatementWritten statement raw) (hafter : IsBlanks after)
      (hremark : Remark remark) :
      LineWritten [statement] (before ++ (raw ++ (after ++ remark)))

/-- The ways of writing some lines.  The last one has no end. -/
inductive LinesWritten : List Statement → List Char → Prop
  | last {statements : List Statement} {raw : List Char} (h : LineWritten statements raw) :
      LinesWritten statements raw
  | cons {statements others : List Statement} {raw lineEnd more : List Char}
      (h : LineWritten statements raw) (hend : LineEnd lineEnd) (hmore : LinesWritten others more) :
      LinesWritten (statements ++ others) (raw ++ (lineEnd ++ more))

/-- The ways of writing a document, which may begin with a byte order mark. -/
inductive DocumentWritten : List Statement → List Char → Prop
  | plain {statements : List Statement} {raw : List Char} (h : LinesWritten statements raw) :
      DocumentWritten statements raw
  | marked {statements : List Statement} {raw : List Char} (h : LinesWritten statements raw) :
      DocumentWritten statements ('\ufeff' :: raw)

theorem exists_linesWritten {statements : List Statement}
    (h : ∀ statement ∈ statements, ∃ raw, StatementWritten statement raw) :
    ∃ raw, LinesWritten statements raw := by
  induction statements with
  | nil => exact ⟨_, .last (.blank isBlanks_nil .nothing)⟩
  | cons statement statements ih =>
    obtain ⟨⟨raw, hraw⟩, hstatements⟩ := List.forall_mem_cons.1 h
    obtain ⟨more, hmore⟩ := ih hstatements
    exact ⟨_, .cons (.statement isBlanks_nil hraw isBlanks_nil .nothing) .feed hmore⟩

/-- What a statement adds to the parts of a document. -/
def Parts.take (parts : Parts) : Statement → Parts
  | .entry entry => parts.addEntry (plainEntry entry)
  | .header name => { parts with sections := ⟨⟨[], name, true⟩, []⟩ :: parts.sections }

/-! ### Reading lines -/

theorem header_of_spells {name : String} {before raw after : List Char} (hbefore : IsBlanks before)
    (h : KeySpells name raw) (hafter : IsBlanks after) (rest : Rest) :
    header ('[' :: '[' :: (before ++ (raw ++ (after ++ ']' :: ']' :: rest)))) =
      some (⟨[], name, true⟩, rest) := by
  rw [header, key_of_spells h hbefore hafter (.inr rfl)]
  rfl

theorem StatementWritten.length_pos {statement : Statement} {raw : List Char}
    (h : StatementWritten statement raw) : 0 < raw.length := by
  cases h with
  | header => simp
  | entry h =>
    obtain ⟨c, more, rfl, -⟩ := h.exists_cons
    simp

/-- A statement is taken, and its line must end after it. -/
theorem lines_statement {statement : Statement} {before raw rest : List Char}
    (hbefore : IsBlanks before) (h : StatementWritten statement raw) (hrest : EndsString rest)
    (fuel : Nat) (parts : Parts) :
    lines (fuel + 1) parts (before ++ (raw ++ rest)) =
      (endLine? rest).bind (lines fuel (parts.take statement)) := by
  rw [lines, dropBlanks_append hbefore]
  cases h with
  | header hblanks h hafter =>
    simp only [List.cons_append, List.append_assoc, List.nil_append]
    rw [dropBlanks_cons rfl]
    simp only [header_of_spells hblanks h hafter]
    rfl
  | entry h =>
    have hentry := h.reads Written.readsAs isBlanks_nil hrest
    obtain ⟨c, more, rfl, hc⟩ := h.exists_cons
    have hsharp : c ≠ '#' := ne_of_isKeyStart hc rfl
    have hfeed : c ≠ '\n' := ne_of_isKeyStart hc rfl
    have hreturn : c ≠ '\r' := ne_of_isKeyStart hc rfl
    have hbracket : c ≠ '[' := ne_of_isKeyStart hc rfl
    rw [List.nil_append, List.cons_append] at hentry
    rw [List.cons_append, dropBlanks_cons (isBlank_of_isKeyStart hc)]
    split
    · next heq => cases heq
    · next heq => exact absurd (List.cons.inj heq).1 hsharp
    · next heq => exact absurd (List.cons.inj heq).1 hfeed
    · next heq => exact absurd (List.cons.inj heq).1 hreturn
    · next heq => exact absurd (List.cons.inj heq).1 hbracket
    · rw [hentry]
      rfl

/-- Nothing is taken from a line that has no statement. -/
theorem lines_blank {blanks remark : List Char} (hblanks : IsBlanks blanks)
    (hremark : Remark remark) {lineEnd : List Char} (hend : LineEnd lineEnd) (fuel : Nat)
    (parts : Parts) (rest : Rest) :
    lines (fuel + 1) parts (blanks ++ (remark ++ (lineEnd ++ rest))) = lines fuel parts rest := by
  rw [lines, dropBlanks_append hblanks]
  cases hremark with
  | nothing => cases hend <;> rfl
  | comment htext =>
    have hline := endLine?_append isBlanks_nil (.comment htext) hend rest
    rw [List.nil_append] at hline
    rw [List.cons_append] at hline ⊢
    rw [dropBlanks_cons rfl]
    simp only [hline]
    rfl

theorem LineWritten.lines_eq {statements : List Statement} {raw lineEnd : List Char}
    (h : LineWritten statements raw) (hend : LineEnd lineEnd) (fuel : Nat) (parts : Parts)
    (rest : Rest) :
    lines (fuel + 1) parts (raw ++ (lineEnd ++ rest)) =
      lines fuel (statements.foldl Parts.take parts) rest := by
  cases h with
  | blank hblanks hremark =>
    rw [List.append_assoc, lines_blank hblanks hremark hend]
    rfl
  | statement hbefore h hafter hremark =>
    have hends := hafter.endsString (hremark.endsString (hend.endsString rest))
    simp only [List.append_assoc]
    rw [lines_statement hbefore h hends, endLine?_append hafter hremark hend]
    rfl

theorem LineWritten.lines_last {statements : List Statement} {raw : List Char}
    (h : LineWritten statements raw) {fuel : Nat} (hfuel : raw.length < fuel) (parts : Parts) :
    lines fuel parts raw = some (statements.foldl Parts.take parts) := by
  obtain ⟨fuel, rfl⟩ : ∃ before, fuel = before + 1 := ⟨fuel - 1, by omega⟩
  cases h with
  | @blank blanks _ hblanks hremark =>
    cases hremark with
    | nothing =>
      rw [lines, dropBlanks_append hblanks]
      rfl
    | comment htext =>
      obtain ⟨fuel, rfl⟩ : ∃ before, fuel = before + 1 := ⟨fuel - 1, by simp at hfuel; omega⟩
      have hline := endLine?_eq_nil isBlanks_nil (.comment htext)
      rw [List.nil_append] at hline
      rw [lines, dropBlanks_append hblanks, dropBlanks_cons rfl]
      simp only [hline]
      rfl
  | @statement statement before raw after remark hbefore h hafter hremark =>
    have hends := hafter.endsString (hremark.endsString endsString_nil)
    rw [List.append_nil] at hends
    have hpos := h.length_pos
    obtain ⟨fuel, rfl⟩ : ∃ before, fuel = before + 1 := ⟨fuel - 1, by simp at hfuel; omega⟩
    rw [lines_statement hbefore h hends, endLine?_eq_nil hafter hremark]
    rfl

/-- Lines give the parts that their statements add up to. -/
theorem LinesWritten.lines_eq {statements : List Statement} {raw : List Char}
    (h : LinesWritten statements raw) {fuel : Nat} (hfuel : raw.length < fuel) (parts : Parts) :
    lines fuel parts raw = some (statements.foldl Parts.take parts) := by
  induction h generalizing fuel parts with
  | last h => exact h.lines_last hfuel parts
  | cons h hend hmore ih =>
    obtain ⟨fuel, rfl⟩ : ∃ before, fuel = before + 1 := ⟨fuel - 1, by omega⟩
    rw [h.lines_eq hend, List.foldl_append]
    refine ih ?_ _
    cases hend <;> simp at hfuel <;> omega

/-- The table that the parts of a document make. -/
def Parts.table (parts : Parts) : Option Entries :=
  tableOfSections parts.entries.reverse (parts.sections.reverse.map fun part =>
    { part with entries := part.entries.reverse })

theorem lines_byteOrderMark (fuel : Nat) (parts : Parts) (rest : Rest) :
    lines fuel parts ('\ufeff' :: rest) = none := by
  cases fuel <;> rfl

/-- A document makes the table of its statements, with or without a byte order mark. -/
theorem DocumentWritten.parse_eq {statements : List Statement} {text : List Char}
    (h : DocumentWritten statements text) :
    parse text = (statements.foldl Parts.take {}).table := by
  cases h with
  | marked h =>
    rw [parse]
    simp only [h.lines_eq (Nat.lt_succ_self _)]
    rfl
  | plain h =>
    have hlines := h.lines_eq (Nat.lt_succ_self _) {}
    unfold parse
    split
    · -- No line begins with the mark, so there is none to drop here.
      rw [lines_byteOrderMark] at hlines
      cases hlines
    · simp only [hlines]
      rfl

/-! ### The table of a document -/

/-- A header and the entries below it. -/
def tableStatements (name : String) (table : Entries) : List Statement :=
  .header name :: table.map .entry

/-- The table that statements make: the entries without a header, and behind them the array of the
tables with one, if there are any.  No key stands twice. -/
inductive Makes : List Statement → Entries → Prop
  | settings {entries : Entries} (once : (entries.map Prod.fst).Nodup) :
      Makes (entries.map .entry) entries
  | tables {settings : Entries} {name : String} {tables : List Entries}
      (once : (settings.map Prod.fst).Nodup) (hname : name ∉ settings.map Prod.fst)
      (each : ∀ table ∈ tables, (table.map Prod.fst).Nodup) (hne : tables ≠ []) :
      Makes (settings.map .entry ++ tables.flatMap (tableStatements name))
        (settings ++ [(name, .array .headers (tables.map (.table .header)))])

/-- A table with a header, as a section. -/
def tableSection (name : String) (table : Entries) : Section :=
  ⟨⟨[], name, true⟩, table.map plainEntry⟩

theorem foldl_take_entries (entries : Entries) (before : List Entry) :
    (entries.map Statement.entry).foldl Parts.take ⟨before, []⟩ =
      ⟨(entries.map plainEntry).reverse ++ before, []⟩ := by
  induction entries generalizing before with
  | nil => rfl
  | cons entry entries ih =>
    rw [List.map_cons, List.foldl_cons, Parts.take, Parts.addEntry, ih]
    simp

theorem foldl_take_below (entries : Entries) (before : List Entry) (last : Section)
    (sections : List Section) :
    (entries.map Statement.entry).foldl Parts.take ⟨before, last :: sections⟩ =
      ⟨before, { last with entries := (entries.map plainEntry).reverse ++ last.entries } ::
        sections⟩ := by
  induction entries generalizing last with
  | nil => rfl
  | cons entry entries ih =>
    rw [List.map_cons, List.foldl_cons, Parts.take, Parts.addEntry, ih]
    simp

theorem foldl_take_tables (name : String) (tables : List Entries) (before : List Entry)
    (sections : List Section) :
    (tables.flatMap (tableStatements name)).foldl Parts.take ⟨before, sections⟩ =
      ⟨before, (tables.map fun table =>
        { tableSection name table with entries := (table.map plainEntry).reverse }).reverse ++
          sections⟩ := by
  induction tables generalizing sections with
  | nil => rfl
  | cons table tables ih =>
    rw [List.flatMap_cons, List.foldl_append, tableStatements, List.foldl_cons, Parts.take,
      foldl_take_below, ih]
    simp [tableSection]

section Tables

variable {settings : Entries} {name : String} (hname : name ∉ settings.map Prod.fst)

include hname

theorem addSection_first {table : Entries} (once : (table.map Prod.fst).Nodup)
    (origin : TableOrigin) :
    Draft.addSection ⟨origin, settings⟩ (tableSection name table) =
      some ⟨origin, settings ++ [(name, .array .headers [.table .header table])]⟩ := by
  have hlookup : settings.lookup name = none := lookup_eq_none_iff_not_mem.2 hname
  simp [Draft.addSection, Draft.editAt, Draft.appendTable, tableSection, addEntries_empty once,
    hlookup, Draft.toValue]

theorem addSection_next {table : Entries} (once : (table.map Prod.fst).Nodup)
    (origin : TableOrigin) (items : List Value) :
    Draft.addSection ⟨origin, settings ++ [(name, .array .headers items)]⟩
        (tableSection name table) =
      some ⟨origin, settings ++ [(name, .array .headers (items ++ [.table .header table]))]⟩ := by
  have hlookup : (settings ++ [(name, Value.array .headers items)]).lookup name =
      some (.array .headers items) := by
    rw [List.lookup_append, lookup_eq_none_iff_not_mem.2 hname]
    simp
  have hreplace : ∀ value : Value,
      Entries.replace (settings ++ [(name, Value.array .headers items)]) name value =
        settings ++ [(name, value)] := by
    intro value
    have hsettings : ∀ entry ∈ settings, ¬(entry.1 == name) = true := fun entry hentry =>
      fun e => hname (List.mem_map.2 ⟨entry, hentry, eq_of_beq e⟩)
    rw [Entries.replace, List.map_append, List.map_congr_left fun entry hentry =>
      if_neg (hsettings entry hentry), List.map_id']
    simp
  simp [Draft.addSection, Draft.editAt, Draft.appendTable, tableSection, addEntries_empty once,
    hlookup, Draft.toValue, hreplace]

theorem addSections_next {tables : List Entries}
    (each : ∀ table ∈ tables, (table.map Prod.fst).Nodup) (origin : TableOrigin)
    (items : List Value) :
    (tables.map (tableSection name)).foldlM Draft.addSection
        ⟨origin, settings ++ [(name, .array .headers items)]⟩ =
      some ⟨origin, settings ++
        [(name, .array .headers (items ++ tables.map (.table .header)))]⟩ := by
  induction tables generalizing items with
  | nil => simp
  | cons table tables ih =>
    obtain ⟨htable, htables⟩ := List.forall_mem_cons.1 each
    have hrest := ih htables (items ++ [.table .header table])
    rw [← List.append_cons] at hrest
    rw [List.map_cons, List.foldlM_cons, addSection_next hname htable]
    exact hrest

theorem tableOfSections_tables {tables : List Entries} (once : (settings.map Prod.fst).Nodup)
    (each : ∀ table ∈ tables, (table.map Prod.fst).Nodup) (hne : tables ≠ []) :
    tableOfSections (settings.map plainEntry) (tables.map (tableSection name)) =
      some (settings ++ [(name, .array .headers (tables.map (.table .header)))]) := by
  obtain ⟨table, tables, rfl⟩ := List.exists_cons_of_ne_nil hne
  obtain ⟨htable, htables⟩ := List.forall_mem_cons.1 each
  rw [tableOfSections, addEntries_empty once, List.map_cons]
  simp only [Option.bind_eq_bind, Option.bind_some, List.foldlM_cons,
    addSection_first hname htable, addSections_next hname htables]
  rfl

end Tables

/-- However a document is written, it is read as the table that its statements make. -/
theorem parse_of_written {statements : List Statement} {text : List Char} {entries : Entries}
    (h : DocumentWritten statements text) (hmakes : Makes statements entries) :
    parse text = some entries := by
  rw [h.parse_eq]
  cases hmakes with
  | settings once =>
    rw [foldl_take_entries]
    simp [Parts.table, tableOfSections, addEntries_empty once]
  | tables once hname each hne =>
    rw [List.foldl_append, foldl_take_entries, foldl_take_tables,
      ← tableOfSections_tables hname once each hne]
    simp only [Parts.table, List.append_nil, List.reverse_reverse, List.map_map, Function.comp_def]
    rfl

end UpdateProtocol.Toml
