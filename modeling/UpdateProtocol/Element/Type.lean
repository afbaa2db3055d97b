/-!
# Types of elements

Fifteen types of elements make up a document.  For each of them this table says which attributes
and which child elements it knows; everything else in an element is ignored.  Reading and writing
follow the table.
-/

namespace UpdateProtocol

/-- How the value of an attribute is read. -/
inductive Form where
  /-- A text, references resolved. -/
  | text
  /-- A truth value, references resolved. -/
  | flag
  /-- A number of bytes, written in digits. -/
  | size
  deriving DecidableEq, Repr

/-- An attribute that a type of elements knows. -/
structure AttributeType where
  name : String
  form : Form := .text
  /-- The element is refused without it. -/
  required : Bool := false
  /-- Its value may be marked as absent. -/
  nullable : Bool := false
  deriving DecidableEq, Repr

/-- The types of elements that messages consist of. -/
inductive ElementType where
  | request
  | response
  | os
  | daystart
  | app
  | ping
  | event
  | updateCheck
  | urls
  | url
  | manifest
  | packages
  | package
  | actions
  | action
  deriving DecidableEq, Repr

namespace ElementType

/-- The name of the elements of a type. -/
def tag : ElementType → String
  | request => "request"
  | response => "response"
  | os => "os"
  | daystart => "daystart"
  | app => "app"
  | ping => "ping"
  | event => "event"
  | updateCheck => "updatecheck"
  | urls => "urls"
  | url => "url"
  | manifest => "manifest"
  | packages => "packages"
  | package => "package"
  | actions => "actions"
  | action => "action"

/-- What messages call a type. -/
def label : ElementType → String
  | request => "struct Request"
  | response => "struct Response"
  | os => "struct Os"
  | daystart => "struct DayStart"
  | app => "struct App"
  | ping => "struct Ping"
  | event => "struct Event"
  | updateCheck => "struct UpdateCheck"
  | urls => "struct Urls"
  | url => "struct Url"
  | manifest => "struct Manifest"
  | packages | actions => "struct OwnedGroup"
  | package => "struct Package"
  | action => "struct Action"

/-- The attributes of a type in the order in which they are written. -/
def attributes : ElementType → List AttributeType
  | request =>
      [⟨"protocol", .text, false, false⟩, ⟨"version", .text, false, false⟩,
        ⟨"ismachine", .text, false, false⟩, ⟨"sessionid", .text, false, false⟩,
        ⟨"userid", .text, false, false⟩, ⟨"installsource", .text, false, false⟩,
        ⟨"testsource", .text, false, false⟩, ⟨"requestid", .text, false, false⟩,
        ⟨"updaterversion", .text, false, false⟩]
  | response => [⟨"protocol", .text, false, false⟩, ⟨"server", .text, false, false⟩]
  | os =>
      [⟨"platform", .text, false, false⟩, ⟨"version", .text, false, false⟩,
        ⟨"sp", .text, false, false⟩, ⟨"arch", .text, false, false⟩]
  | daystart => [⟨"elapsed_seconds", .text, false, false⟩]
  | app =>
      [⟨"appid", .text, false, false⟩, ⟨"version", .text, false, false⟩,
        ⟨"nextversion", .text, false, false⟩, ⟨"lang", .text, false, false⟩,
        ⟨"client", .text, false, false⟩, ⟨"installage", .text, false, false⟩,
        ⟨"status", .text, false, true⟩, ⟨"track", .text, false, false⟩,
        ⟨"from_track", .text, false, false⟩, ⟨"bootid", .text, false, false⟩,
        ⟨"machineid", .text, false, false⟩, ⟨"oem", .text, false, false⟩]
  | ping => [⟨"r", .text, false, false⟩, ⟨"status", .text, false, false⟩]
  | event =>
      [⟨"eventtype", .text, true, false⟩, ⟨"eventresult", .text, true, false⟩,
        ⟨"previousversion", .text, false, false⟩, ⟨"errorcode", .text, false, false⟩,
        ⟨"status", .text, false, false⟩]
  | updateCheck =>
      [⟨"targetversionprefix", .text, false, false⟩, ⟨"status", .text, false, true⟩]
  | urls | packages | actions => []
  | url => [⟨"codebase", .text, false, false⟩]
  | manifest => [⟨"version", .text, true, false⟩]
  | package =>
      [⟨"hash", .text, true, false⟩, ⟨"name", .text, true, false⟩, ⟨"size", .size, true, false⟩,
        ⟨"required", .flag, false, false⟩]
  | action =>
      [⟨"event", .text, true, false⟩, ⟨"ChromeOSVersion", .text, false, false⟩,
        ⟨"sha256", .text, false, false⟩, ⟨"needsadmin", .flag, false, false⟩,
        ⟨"IsDelta", .flag, false, false⟩, ⟨"DisablePayloadBackoff", .flag, false, false⟩,
        ⟨"MetadataSignatureRsa", .text, false, false⟩, ⟨"MetadataSize", .text, false, false⟩,
        ⟨"deadline", .text, false, false⟩]

/-- The types of the children that an element has at most once. -/
def children : ElementType → List ElementType
  | request => [os]
  | response => [daystart]
  | app => [ping, updateCheck]
  | updateCheck => [urls, manifest]
  | manifest => [packages, actions]
  | _ => []

/-- The type of the children that an element has any number of times. -/
def member? : ElementType → Option ElementType
  | request | response => some app
  | app => some event
  | urls => some url
  | packages => some package
  | actions => some action
  | _ => none

/-- Whether an element may be marked as absent. -/
def isNullable : ElementType → Bool
  | os | ping | updateCheck | urls | manifest => true
  | _ => false

end ElementType

/-- A part of an element that its type knows. -/
inductive Field where
  | attr (type : AttributeType)
  | child (type : ElementType)
  | member (type : ElementType)
  deriving DecidableEq, Repr

/-- The name under which messages and elements refer to a field: an at sign marks an attribute. -/
def Field.key : Field → String
  | attr type => "@" ++ type.name
  | child type => type.tag
  | member type => type.tag

/-- The fields of a type. -/
def ElementType.fields (type : ElementType) : List Field :=
  type.attributes.map .attr ++ type.children.map .child ++ type.member?.toList.map .member

/-- The field of a type with a key. -/
def ElementType.field? (type : ElementType) (key : String) : Option Field :=
  type.fields.find? (fun field => field.key == key)

end UpdateProtocol
