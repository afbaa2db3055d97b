import UpdateProtocol.Element.Basic
import UpdateProtocol.Markup.Source

/-!
# Reading elements

An element is read in the order of the document.  First come its attributes, then its children;
names count without their qualifiers, and what the type does not know is passed over.

The members of a list need not stand together.  When the first one is met, all elements of the
same full name up to the end of the parent are read as members, the elements between them are set
aside, and when the list is complete these are read as the rest of the parent.
-/

namespace UpdateProtocol

/-- Why a document is not the message it should be. -/
inductive SchemaError where
  | markup (error : Markup.Error)
  /-- A text stands where an element of this type is expected. -/
  | strayText (text : List Char) (expected : ElementType)
  | invalidFlag (text : List Char)
  | invalidSize (text : List Char)
  | duplicateField (key : String)
  | missingField (key : String)
  /-- An element stands where only text may be. -/
  | strayElement (name : List Char)
  deriving DecidableEq, Repr

/-- The wording of a refusal. -/
def SchemaError.message : SchemaError → String
  | markup error => error.message
  | strayText text expected =>
      "invalid type: string " ++ Text.quoted text ++ ", expected " ++ expected.label
  | invalidFlag text => "invalid value: string " ++ Text.quoted text ++ ", expected a boolean"
  | invalidSize text => "invalid type: string " ++ Text.quoted text ++ ", expected u64"
  | duplicateField key => "duplicate field `" ++ key ++ "`"
  | missingField key => "missing field `" ++ key ++ "`"
  | strayElement name => "unexpected `Event::Start(" ++ Text.bytesQuoted name ++ ")`"

/-- The fault of a document that ends inside an element. -/
def SchemaError.unclosed (name : List Char) : SchemaError :=
  markup (.structural (.missingEndTag name))

instance : MonadLift (Except Markup.Error) (Except SchemaError) :=
  ⟨Except.mapError .markup⟩

/-- The truth value of a text. -/
def Value.readFlag (text : List Char) : Option Bool :=
  match String.ofList text with
  | "1" | "t" | "T" | "TRUE" | "true" | "True" => some true
  | "0" | "f" | "F" | "FALSE" | "false" | "False" => some false
  | _ => none

/-- The number that decimal digits stand for. -/
def Value.readDigits (digits : List Char) : Option Nat :=
  if digits.isEmpty || !digits.all Char.isDigit then none
  else some (digits.foldl (fun n c => n * 10 + (c.toNat - '0'.toNat)) 0)

/-- The number of bytes in a text: digits after an optional plus sign, below 2 ^ 64. -/
def Value.readSize (text : List Char) : Option UInt64 :=
  let digits := match text with
    | '+' :: digits => digits
    | digits => digits
  match Value.readDigits digits with
  | some n => if n < UInt64.size then some (UInt64.ofNat n) else none
  | none => none

/-- The value of a text whose references are resolved. -/
def Form.read (form : Form) (text : List Char) : Except SchemaError Value :=
  match form with
  | .text => .ok (.text (String.ofList text))
  | .flag =>
      match Value.readFlag text with
      | some value => .ok (.flag value)
      | none => .error (.invalidFlag text)
  | .size =>
      match Value.readSize text with
      | some bytes => .ok (.size bytes)
      | none => .error (.invalidSize text)

/-- The value of an attribute as it is written.  A number has no references. -/
def Form.readAttribute (form : Form) (raw : List Char) : Except SchemaError Value :=
  match form with
  | .size => Form.size.read raw
  | form => do
      let text ← ((Markup.resolve raw).mapError Markup.Error.reference : Except Markup.Error _)
      form.read text

namespace Element

/-- What has been read of an element.  Attributes and children stand in reverse order; `seen` holds
the keys of the fields met so far, among them those that are marked as absent. -/
structure Draft where
  seen : List String := []
  attributes : List (String × Value) := []
  children : List Element := []

namespace Draft

/-- Note that a field has been met.  It may be met once. -/
def meet (draft : Draft) (field : Field) : Except SchemaError Draft :=
  if draft.seen.contains field.key then .error (.duplicateField field.key)
  else .ok { draft with seen := field.key :: draft.seen }

/-- Add the value of an attribute. -/
def addAttribute (draft : Draft) (type : AttributeType) (value : Value) : Draft :=
  { draft with attributes := (type.name, value) :: draft.attributes }

/-- Add a child. -/
def addChild (draft : Draft) (child : Element) : Draft :=
  { draft with children := child :: draft.children }

/-- Add children that stand in reverse order. -/
def addChildren (draft : Draft) (children : List Element) : Draft :=
  { draft with children := children ++ draft.children }

/-- The element, if nothing required is missing. -/
def finish (draft : Draft) (type : ElementType) : Except SchemaError Element :=
  match type.attributes.find? (fun attr =>
      attr.required && !draft.seen.contains (Field.attr attr).key) with
  | some attr => .error (.missingField (Field.attr attr).key)
  | none => .ok (Element.mk type draft.attributes.reverse draft.children.reverse)

end Draft

/-- The key of an attribute.  Namespace declarations keep their full names. -/
def attributeKey (name : List Char) : String :=
  "@" ++ String.ofList (if isDeclaration name then name else Markup.localName name)
where
  isDeclaration (name : List Char) : Bool :=
    "xmlns".toList.isPrefixOf name &&
      (match name.drop 5 with
        | [] => true
        | c :: _ => c == ':')

/-- Read the attributes of a tag. -/
def readAttributes (type : ElementType) (draft : Draft) :
    List (Except Markup.AttributeError Markup.Attribute) → Except SchemaError Draft
  | [] => .ok draft
  | .error error :: _ => .error (.markup (.attr error))
  | .ok attr :: rest =>
      match type.field? (attributeKey attr.name) with
      | some (.attr known) => do
          let draft ← draft.meet (.attr known)
          let value ← known.form.readAttribute attr.value
          readAttributes type (draft.addAttribute known value) rest
      | _ => readAttributes type draft rest

open Markup (Item Source Tag)

/-- Read the text of an element whose start tag has been read, up to its end tag.  It may hold
nothing else. -/
def readContent (name : List Char) (source : Source) : Except SchemaError (List Char × Source) := do
  match ← source.next with
  | (.text text, source) =>
      match ← source.next with
      | (.finish _, source) => .ok (text, source)
      | (.start tag, _) => .error (.strayElement tag.name)
      | _ => .error (.unclosed name)
  | (.finish _, source) => .ok ([], source)
  | (.start tag, _) => .error (.strayElement tag.name)
  | (.eof, _) => .error (.unclosed name)

/-- Whether an element that comes next is marked as absent, by itself or by its parent. -/
def isAbsent (source : Source) (parent tag : Tag) : Bool :=
  source.unread.scopeAhead.marksNil parent || source.unread.scopeAhead.marksNil tag

mutual

/-- Read an element whose start tag has been read. -/
def readElement (fuel : Nat) (type : ElementType) (tag : Tag) (source : Source) :
    Except SchemaError (Element × Source) :=
  match fuel with
  | 0 => .error (.unclosed tag.name)
  | fuel + 1 => do
      let draft ← readAttributes type {} (tag.attributes true)
      readChildren fuel type tag draft source

/-- Read the rest of an element. -/
def readChildren (fuel : Nat) (type : ElementType) (tag : Tag) (draft : Draft) (source : Source) :
    Except SchemaError (Element × Source) :=
  match fuel with
  | 0 => .error (.unclosed tag.name)
  | fuel + 1 => do
      let (item, source) ← source.peek
      match item with
      | .text _ => do
          let (_, source) ← source.next
          readChildren fuel type tag draft source
      | .finish _ => do
          let (_, source) ← source.next
          .ok (← draft.finish type, source)
      | .eof => .error (.unclosed tag.name)
      | .start next =>
          match type.field? (String.ofList (Markup.localName next.name)) with
          | none => do
              let (_, source) ← source.next
              let source ← source.skip next.name
              readChildren fuel type tag draft source
          | some (.attr known) => do
              let draft ← draft.meet (.attr known)
              let absent := known.nullable && isAbsent source tag next
              let (_, source) ← source.next
              if absent then
                let source ← source.skip next.name
                readChildren fuel type tag draft source
              else
                let (text, source) ← readContent next.name source
                let value ← known.form.read text
                readChildren fuel type tag (draft.addAttribute known value) source
          | some (.child known) => do
              let draft ← draft.meet (.child known)
              let absent := known.isNullable && isAbsent source tag next
              let (_, source) ← source.next
              if absent then
                let source ← source.skip next.name
                readChildren fuel type tag draft source
              else
                let (child, source) ← readElement fuel known next source
                readChildren fuel type tag (draft.addChild child) source
          | some (.member known) => do
              let draft ← draft.meet (.member known)
              let (members, source) ← readMembers fuel known tag next.name [] [] source
              readChildren fuel type tag (draft.addChildren members) source

/-- Read the members of a list, which have the given name, up to the end of their parent.  Members
and the items set aside stand in reverse order. -/
def readMembers (fuel : Nat) (type : ElementType) (parent : Tag) (name : List Char)
    (members : List Element) (aside : List Item) (source : Source) :
    Except SchemaError (List Element × Source) :=
  match fuel with
  | 0 => .error (.unclosed parent.name)
  | fuel + 1 => do
      let (item, source) ← source.peek
      match item with
      | .text text => .error (.strayText text type)
      | .finish _ => .ok (members, source.putBack aside)
      | .eof => .error (.unclosed parent.name)
      | .start next => do
          let (_, source) ← source.next
          if next.name == name then
            let (member, source) ← readElement fuel type next source
            readMembers fuel type parent name (member :: members) aside source
          else
            let (aside, source) ← Source.takeElement next.name fuel 0 (.start next :: aside) source
            readMembers fuel type parent name members aside source

end

/-- Read the element that a document consists of. -/
def read (type : ElementType) (source : Source) : Except SchemaError Element := do
  match ← source.next with
  | (.start tag, source) => do
      let (element, _) ← readElement (3 * source.size + 3) type tag source
      .ok element
  | (.text text, _) => .error (.strayText text type)
  | (_, _) => .error (.unclosed [])

end Element

end UpdateProtocol
