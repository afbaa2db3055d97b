import UpdateProtocol.Text.Blank

/-!
# Tokens

A document is a sequence of texts and tags.  Comments, processing instructions and declarations
leave no token, but they end the text before them.
-/

namespace UpdateProtocol.Markup

/-- What stands between the angle brackets of a start tag: the name and, after the first blank,
the attributes. -/
structure Tag where
  content : List Char
  deriving DecidableEq, Repr

/-- The name of a tag with any qualifier. -/
def Tag.name (tag : Tag) : List Char :=
  tag.content.takeWhile (fun c => !Text.isBlank c)

/-- The part of a name after its qualifier. -/
def localName (name : List Char) : List Char :=
  match name.dropWhile (· != ':') with
  | [] => name
  | _ :: rest => rest

/-- The qualifier of a name, if it has one. -/
def qualifier? (name : List Char) : Option (List Char) :=
  if name.contains ':' then some (name.takeWhile (· != ':')) else none

/-- A piece of a document. -/
inductive Token where
  /-- Text as it is written, references unresolved. -/
  | text (raw : List Char)
  /-- The content of a character data section. -/
  | cdata (content : List Char)
  | doctype
  | start (tag : Tag)
  | finish (name : List Char)
  deriving DecidableEq, Repr

end UpdateProtocol.Markup
