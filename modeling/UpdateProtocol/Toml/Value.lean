import UpdateProtocol.Decimal.Binary64

/-!
# Values of configuration documents

A table keeps its entries in the order in which they were made.  Tables and arrays remember how
they came about, because that decides whether a later part of the document may add to them.
-/

namespace UpdateProtocol.Toml

/-- How a table came about. -/
inductive TableOrigin where
  /-- Written between braces: complete. -/
  | complete
  /-- Opened by a header of its own. -/
  | header
  /-- Implied by the header of a table inside it. -/
  | implied
  /-- Implied by a dotted key. -/
  | dotted
  deriving DecidableEq, Repr

/-- How an array came about. -/
inductive ArrayOrigin where
  /-- Written between brackets: complete. -/
  | complete
  /-- Made of tables with headers. -/
  | headers
  deriving DecidableEq, Repr

/-- What a key can stand for. -/
inductive Value where
  | string (text : String)
  | integer (number : Int)
  | float (number : Binary64)
  | boolean (value : Bool)
  /-- A date, a time, or both. -/
  | moment
  | array (origin : ArrayOrigin) (items : List Value)
  | table (origin : TableOrigin) (entries : List (String × Value))
  deriving Repr

/-- The entries of a table. -/
abbrev Entries := List (String × Value)

/-- Replace the value of a key. -/
def Entries.replace (entries : Entries) (key : String) (value : Value) : Entries :=
  entries.map (fun entry => if entry.1 == key then (key, value) else entry)

/-- The entries without a key. -/
def Entries.erase (entries : Entries) (key : String) : Entries :=
  entries.filter (fun entry => entry.1 != key)

end UpdateProtocol.Toml
