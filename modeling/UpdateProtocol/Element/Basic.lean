import UpdateProtocol.Element.Type
import UpdateProtocol.Markup.Reference

/-!
# Elements

An element carries values for some of its attributes and some children.  This is the common form
of all messages: `Element.write` gives its text, `Element.read` in another module reads it back.
-/

namespace UpdateProtocol

/-- The value of an attribute. -/
inductive Value where
  | text (content : String)
  | flag (value : Bool)
  | size (bytes : UInt64)
  deriving DecidableEq, Repr

/-- A value as it is written before escaping. -/
def Value.spelling : Value → String
  | text content => content
  | flag true => "1"
  | flag false => "0"
  | size bytes => toString bytes.toNat

/-- An element of some type. -/
inductive Element where
  | mk (type : ElementType) (attributes : List (String × Value)) (children : List Element)
  deriving Repr

namespace Element

/-- The type of an element. -/
def type : Element → ElementType
  | mk type _ _ => type

/-- The attributes with a value, in order. -/
def attributes : Element → List (String × Value)
  | mk _ attributes _ => attributes

/-- The children in order. -/
def children : Element → List Element
  | mk _ _ children => children

/-- The value of an attribute. -/
def value? (element : Element) (name : String) : Option Value :=
  element.attributes.lookup name

/-- The text of an attribute, if it has one. -/
def text? (element : Element) (name : String) : Option String :=
  match element.value? name with
  | some (.text content) => some content
  | _ => none

/-- The text of an attribute, empty by default. -/
def text (element : Element) (name : String) : String :=
  (element.text? name).getD ""

/-- The truth value of an attribute, false by default. -/
def flag (element : Element) (name : String) : Bool :=
  match element.value? name with
  | some (.flag value) => value
  | _ => false

/-- The number of bytes in an attribute, zero by default. -/
def size (element : Element) (name : String) : UInt64 :=
  match element.value? name with
  | some (.size bytes) => bytes
  | _ => 0

/-- The children of a type in order. -/
def members (element : Element) (type : ElementType) : List Element :=
  element.children.filter (fun child => child.type == type)

/-- The first child of a type. -/
def child? (element : Element) (type : ElementType) : Option Element :=
  element.children.find? (fun child => child.type == type)

/-- Append a text to a document with the characters escaped that would end a value or begin
markup. -/
def writeEscaped (out : String) (text : String) : String :=
  text.toList.foldl (fun out c => out ++ Markup.escapeChar c) out

/-- Append an attribute. -/
def writeAttribute (out : String) (attr : String × Value) : String :=
  writeEscaped (out ++ " " ++ attr.1 ++ "=\"") attr.2.spelling ++ "\""

mutual

/-- Append an element.  Without children it is a single tag. -/
def write (out : String) : Element → String
  | mk type attributes children =>
      let out := attributes.foldl writeAttribute (out ++ "<" ++ type.tag)
      match children with
      | [] => out ++ "/>"
      | _ => writeAll (out ++ ">") children ++ "</" ++ type.tag ++ ">"

/-- Append elements one after the other. -/
def writeAll (out : String) : List Element → String
  | [] => out
  | child :: children => writeAll (write out child) children

end

/-- The text of an element. -/
def render (element : Element) : String :=
  element.write ""

end Element

end UpdateProtocol
