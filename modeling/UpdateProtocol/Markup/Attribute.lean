import UpdateProtocol.Markup.Error
import UpdateProtocol.Markup.Token

/-!
# Attributes

The attributes of a tag are read one character at a time.  A fault does not end the reading: after
a name without an equals sign it goes on with the next name, and after a value that is not quoted
or belongs to a repeated name with the next blank.
-/

namespace UpdateProtocol.Markup

/-- An attribute as it is written, references unresolved. -/
structure Attribute where
  name : List Char
  value : List Char
  deriving DecidableEq, Repr

/-- What the reader of attributes is inside of.  Collected characters stand in reverse order. -/
inductive AttributeReader.Mode where
  | between
  | name (start : Nat) (collected : List Char)
  | afterName (start : Nat) (name : List Char)
  | beforeValue (name : List Char)
  | value (name : List Char) (quote : Char) (collected : List Char)
  | skipping
  deriving DecidableEq, Repr

/-- The state of the reader: its position in bytes, the names it has met with their positions, and
what it has found, latest first. -/
structure AttributeReader where
  mode : AttributeReader.Mode := .between
  position : Nat
  seen : List (List Char × Nat) := []
  found : List (Except AttributeError Attribute) := []

namespace AttributeReader

/-- Note what has been found and go on inside of something else. -/
def emit (reader : AttributeReader) (mode : Mode) (item : Except AttributeError Attribute) :
    AttributeReader :=
  { reader with mode, found := item :: reader.found }

/-- A name has been read up to its equals sign.  If `unique` is set it must be a new one. -/
def named (unique : Bool) (reader : AttributeReader) (start : Nat) (name : List Char) :
    AttributeReader :=
  if unique then
    match reader.seen.lookup name with
    | some previous => reader.emit .skipping (.error (.duplicated start previous))
    | none => { reader with mode := .beforeValue name, seen := (name, start) :: reader.seen }
  else { reader with mode := .beforeValue name }

/-- The effect of a character on all but the position. -/
def read (unique : Bool) (reader : AttributeReader) (c : Char) : AttributeReader :=
  match reader.mode with
  | .between =>
      if Text.isBlank c then reader else { reader with mode := .name reader.position [c] }
  | .name start collected =>
      if c == '=' then reader.named unique start collected.reverse
      else if Text.isBlank c then { reader with mode := .afterName start collected.reverse }
      else { reader with mode := .name start (c :: collected) }
  | .afterName start name =>
      if c == '=' then reader.named unique start name
      else if Text.isBlank c then reader
      else reader.emit (.name reader.position [c]) (.error (.missingEquals reader.position))
  | .beforeValue name =>
      if c == '"' || c == '\'' then { reader with mode := .value name c [] }
      else if Text.isBlank c then reader
      else reader.emit .skipping (.error (.unquotedValue reader.position))
  | .value name quote collected =>
      if c == quote then reader.emit .between (.ok ⟨name, collected.reverse⟩)
      else { reader with mode := .value name quote (c :: collected) }
  | .skipping => if Text.isBlank c then { reader with mode := .between } else reader

/-- Read one character. -/
def step (unique : Bool) (reader : AttributeReader) (c : Char) : AttributeReader :=
  { reader.read unique c with position := reader.position + c.utf8Size }

/-- What the reader has found when the tag ends. -/
def finish (reader : AttributeReader) : List (Except AttributeError Attribute) :=
  match reader.mode with
  | .between | .skipping => reader.found.reverse
  | .name _ _ | .afterName _ _ =>
      (.error (.missingEquals reader.position) :: reader.found).reverse
  | .beforeValue _ => (.error (.missingValue reader.position) :: reader.found).reverse
  | .value _ quote _ => (.error (.missingQuote reader.position quote) :: reader.found).reverse

end AttributeReader

/-- The attributes of a tag in order, with the faults among them.  If `unique` is set a repeated
name is a fault. -/
def Tag.attributes (tag : Tag) (unique : Bool) : List (Except AttributeError Attribute) :=
  ((tag.content.drop tag.name.length).foldl (AttributeReader.step unique)
    { position := Text.byteLength tag.name }).finish

end UpdateProtocol.Markup
