import UpdateProtocol.Toml.Number
import UpdateProtocol.Toml.Table

/-!
# Configuration documents

`parse` reads a whole document and makes its table.  It gives nothing when the document is not
well-formed, gives a key twice, or opens a table twice.
-/

namespace UpdateProtocol.Toml

/-! ### Values -/

/-- The text after blanks, comments and line ends, as they may stand between the items of an array.
A comment must be followed by a line end. -/
def dropFiller : Nat → Rest → Option Rest
  | 0, _ => none
  | fuel + 1, rest =>
      match dropBlanks rest with
      | '#' :: rest => do dropFiller fuel (← lineEnd? (dropComment rest))
      | '\n' :: rest => dropFiller fuel rest
      | '\r' :: rest => do dropFiller fuel (← lineEnd? ('\r' :: rest))
      | rest => some rest

/-- The items of an array and the text after its bracket, when `read` reads an item.  Collected
items stand in reverse order. -/
def arrayItems (read : Reads Value) : Nat → List Value → Reads (List Value)
  | 0, _, _ => none
  | fuel + 1, items, rest => do
      match ← dropFiller (fuel + 1) rest with
      | ']' :: rest => some (items.reverse, rest)
      | rest =>
          let (item, rest) ← read rest
          match ← dropFiller (fuel + 1) rest with
          | ',' :: rest => arrayItems read fuel (item :: items) rest
          | ']' :: rest => some ((item :: items).reverse, rest)
          | _ => none

/-- An entry without the end of its line, when `read` reads a value. -/
def entry (read : Reads Value) (rest : Rest) : Option (Entry × Rest) := do
  let ((path, key), rest) ← key rest
  let (value, rest) ← read (dropBlanks (← exactly '=' rest))
  some (⟨path, key, value⟩, rest)

/-- The entries of a table between braces and the text after its brace. -/
def tableEntries (read : Reads Value) : Nat → List Entry → Reads (List Entry)
  | 0, _, _ => none
  | fuel + 1, entries, rest => do
      let (next, rest) ← entry read rest
      match dropBlanks rest with
      | ',' :: rest => tableEntries read fuel (next :: entries) rest
      | '}' :: rest => some ((next :: entries).reverse, rest)
      | _ => none

/-- A value that holds no other values. -/
def scalar (rest : Rest) : Option (Value × Rest) :=
  match rest with
  | '"' :: _ | '\'' :: _ => (string rest).map (fun (text, rest) => (.string text, rest))
  | 't' :: 'r' :: 'u' :: 'e' :: rest => some (.boolean true, rest)
  | 'f' :: 'a' :: 'l' :: 's' :: 'e' :: rest => some (.boolean false, rest)
  | rest =>
      match moment rest with
      | some found => some found
      | none => number rest

/-- The number of arrays and tables that a value stays below in nesting. -/
def maxNesting : Nat := 80

/-- A value with at most `depth` arrays and tables inside each other. -/
def value (depth : Nat) (rest : Rest) : Option (Value × Rest) :=
  match rest, depth with
  | '[' :: rest, depth + 1 => do
      let (items, rest) ← arrayItems (value depth) (rest.length + 1) [] rest
      some (.array .complete items, rest)
  | '{' :: rest, depth + 1 => do
      match dropBlanks rest with
      | '}' :: rest => some (.table .complete [], rest)
      | rest =>
          let (entries, rest) ← tableEntries (value depth) (rest.length + 1) [] rest
          some (← tableOfEntries entries, rest)
  | '[' :: _, 0 | '{' :: _, 0 => none
  | rest, _ => scalar rest

/-! ### Documents -/

/-- A header and the text after its brackets. -/
def header : Reads Header
  | '[' :: '[' :: rest => do
      let ((path, key), rest) ← key rest
      some (⟨path, key, true⟩, ← exactly ']' (← exactly ']' rest))
  | '[' :: rest => do
      let ((path, key), rest) ← key rest
      some (⟨path, key, false⟩, ← exactly ']' rest)
  | _ => none

/-- The parts of a document: entries without a header, and sections.  Both, and the entries of a
section, stand in reverse order. -/
structure Parts where
  entries : List Entry := []
  sections : List Section := []

/-- Add an entry to the last section, if there is one. -/
def Parts.addEntry (parts : Parts) (entry : Entry) : Parts :=
  match parts.sections with
  | [] => { parts with entries := entry :: parts.entries }
  | last :: sections =>
      { parts with sections := { last with entries := entry :: last.entries } :: sections }

/-- Read the lines of a document. -/
def lines : Nat → Parts → Rest → Option Parts
  | 0, _, _ => none
  | fuel + 1, parts, rest =>
      match dropBlanks rest with
      | [] => some parts
      | '#' :: rest => do lines fuel parts (← endLine? ('#' :: rest))
      | '\n' :: rest => lines fuel parts rest
      | '\r' :: rest => do lines fuel parts (← lineEnd? ('\r' :: rest))
      | '[' :: rest => do
          let (next, rest) ← header ('[' :: rest)
          let parts := { parts with sections := ⟨next, []⟩ :: parts.sections }
          lines fuel parts (← endLine? rest)
      | rest => do
          let (next, rest) ← entry (value (maxNesting - 1)) rest
          lines fuel (parts.addEntry next) (← endLine? rest)

/-- The table of a document, which may begin with a byte order mark. -/
def parse (text : List Char) : Option Entries := do
  let text := match text with
    | '\ufeff' :: text => text
    | text => text
  let parts ← lines (text.length + 1) {} text
  let sections := parts.sections.reverse.map (fun part =>
    { part with entries := part.entries.reverse })
  tableOfSections parts.entries.reverse sections

end UpdateProtocol.Toml
