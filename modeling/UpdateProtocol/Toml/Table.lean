import UpdateProtocol.Toml.Value

/-!
# From entries to tables

A document is a list of sections: entries without a header, then headers with the entries below
them.  A key may be given once, a table opened once, and what is complete stays as it is.
-/

namespace UpdateProtocol.Toml

/-- An entry: a dotted key, its last part apart, and its value. -/
structure Entry where
  path : List String
  key : String
  value : Value

/-- A header: a dotted name, its last part apart, between one or two pairs of brackets. -/
structure Header where
  path : List String
  key : String
  repeated : Bool

/-- A header and the entries below it. -/
structure Section where
  header : Header
  entries : List Entry

/-- A table while it is being made. -/
structure Draft where
  origin : TableOrigin
  entries : Entries

/-- The table as it stands. -/
def Draft.toValue (draft : Draft) : Value :=
  .table draft.origin draft.entries

/-- Whether a path may lead into a table of this origin.  A dotted key may only lead into tables
without a header. -/
def TableOrigin.admits (origin : TableOrigin) (dotted : Bool) : Bool :=
  match origin with
  | .complete => false
  | .header => !dotted
  | .implied | .dotted => true

/-- Edit the table at a path, making the tables on the way.  An array of tables stands for its last
one. -/
def Draft.editAt (dotted : Bool) (edit : Draft → Option Draft) :
    List String → Draft → Option Draft
  | [], draft => edit draft
  | key :: path, draft =>
      match draft.entries.lookup key with
      | none => do
          let inner ← editAt dotted edit path ⟨if dotted then .dotted else .implied, []⟩
          some { draft with entries := draft.entries ++ [(key, inner.toValue)] }
      | some (.table origin entries) =>
          if origin.admits dotted then do
            let inner ← editAt dotted edit path ⟨origin, entries⟩
            some { draft with entries := draft.entries.replace key inner.toValue }
          else none
      | some (.array .headers items) =>
          match items.getLast? with
          | some (.table origin entries) => do
              let inner ← editAt dotted edit path ⟨origin, entries⟩
              let items := items.dropLast ++ [inner.toValue]
              some { draft with entries := draft.entries.replace key (.array .headers items) }
          | _ => none
      | some _ => none

/-- Add a key that a table does not have yet. -/
def Draft.add (key : String) (value : Value) (draft : Draft) : Option Draft :=
  match draft.entries.lookup key with
  | some _ => none
  | none => some { draft with entries := draft.entries ++ [(key, value)] }

/-- Add an entry.  A dotted key adds only to a table that dotted keys have made. -/
def Draft.addEntry (draft : Draft) (entry : Entry) : Option Draft :=
  draft.editAt true (fun inner =>
    if entry.path.isEmpty || inner.origin == .dotted then inner.add entry.key entry.value
    else none) entry.path

/-- Add entries one after the other. -/
def Draft.addEntries (draft : Draft) (entries : List Entry) : Option Draft :=
  entries.foldlM Draft.addEntry draft

/-- The table that entries between braces make. -/
def tableOfEntries (entries : List Entry) : Option Value := do
  some (← Draft.addEntries ⟨.complete, []⟩ entries).toValue

/-- Open the table of a header inside its parent, with the entries that follow.  A table may be
opened that was implied before; then it moves to the end of its parent. -/
def Draft.openTable (key : String) (entries : List Entry) (parent : Draft) : Option Draft :=
  match parent.entries.lookup key with
  | none => do
      let table ← Draft.addEntries ⟨.header, []⟩ entries
      some { parent with entries := parent.entries ++ [(key, table.toValue)] }
  | some (.table .implied before) => do
      let table ← Draft.addEntries ⟨.header, before⟩ entries
      some { parent with entries := parent.entries.erase key ++ [(key, table.toValue)] }
  | some _ => none

/-- Add a table to an array of tables, with the entries that follow its header. -/
def Draft.appendTable (key : String) (entries : List Entry) (parent : Draft) : Option Draft := do
  let table ← Draft.addEntries ⟨.header, []⟩ entries
  match parent.entries.lookup key with
  | none =>
      let array := Value.array .headers [table.toValue]
      some { parent with entries := parent.entries ++ [(key, array)] }
  | some (.array .headers items) =>
      let array := Value.array .headers (items ++ [table.toValue])
      some { parent with entries := parent.entries.replace key array }
  | some _ => none

/-- Add a section to a document. -/
def Draft.addSection (document : Draft) (part : Section) : Option Draft :=
  let edit := if part.header.repeated then Draft.appendTable else Draft.openTable
  document.editAt false (edit part.header.key part.entries) part.header.path

/-- The table that a document makes. -/
def tableOfSections (entries : List Entry) (sections : List Section) : Option Entries := do
  let document ← Draft.addEntries ⟨.header, []⟩ entries
  let document ← sections.foldlM Draft.addSection document
  some document.entries

end UpdateProtocol.Toml
