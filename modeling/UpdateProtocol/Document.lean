import UpdateProtocol.Element.Read
import UpdateProtocol.Message.Element
import UpdateProtocol.Text.Utf8

/-!
# Documents

A message is encoded as the text of its element and decoded from the bytes of a document.  What a
document may have before its root does not matter.  What follows the root is no part of the message.
Still, the tag that comes next has been looked at when the children of the root that were set aside
are read, and the qualifiers that it declares are in scope for them.
-/

namespace UpdateProtocol

/-! ### Encoding -/

/-- The text of a request. -/
def Request.encode (request : Request) : String :=
  request.toElement.render

/-- The text of a response. -/
def Response.encode (response : Response) : String :=
  response.toElement.render

/-- The declaration that a complete document begins with. -/
def documentHeader : String :=
  "<?xml version=\"1.0\" encoding=\"UTF-8\"?>\n"

/-- A request as a complete document. -/
def Request.document (request : Request) : String :=
  documentHeader ++ request.encode

/-- A response as a complete document. -/
def Response.document (response : Response) : String :=
  documentHeader ++ response.encode

/-! ### Decoding -/

/-- The greatest size of a document in bytes. -/
def maxDocumentSize : Nat := 4 * 1024 * 1024

/-- Why a document is refused.  The cases stand in the order in which they are looked for. -/
inductive DecodeError where
  | tooLarge
  | notText (error : Text.Utf8Error)
  /-- A fault of the markup before the root or in its start tag. -/
  | malformed (error : Markup.SyntaxError)
  | empty
  | unexpectedRoot (expected : ElementType) (found : List Char)
  | schema (error : SchemaError)
  deriving DecidableEq, Repr

/-- The wording of a refusal. -/
def DecodeError.message : DecodeError → String
  | tooLarge => "document too large"
  | notText error => "document is not UTF-8: " ++ error.message
  | malformed error => "xml syntax error: " ++ error.message
  | empty => "document has no root element"
  | unexpectedRoot expected found =>
      "expected <" ++ expected.tag ++ "> root, found <" ++ String.ofList found ++ ">"
  | schema error => "schema error: " ++ error.message

/-- Read the tokens of a document as an element of the expected type. -/
def Element.ofTokens (type : ElementType) (document : Markup.Tokens) :
    Except DecodeError Element :=
  match document.root with
  | .error error => .error (.malformed error)
  | .ok none => .error .empty
  | .ok (some tag) =>
      let found := Markup.localName tag.name
      if found == type.tag.toList then (Element.read type document.source).mapError .schema
      else .error (.unexpectedRoot type found)

/-- Read the bytes of a document as an element of the expected type. -/
def Element.decode (type : ElementType) (bytes : ByteArray) : Except DecodeError Element :=
  if maxDocumentSize < bytes.size then .error .tooLarge
  else
    match Text.Utf8.decode bytes with
    | .error error => .error (.notText error)
    | .ok text => Element.ofTokens type (Markup.Tokens.ofText text.toList)

/-- Decode a request. -/
def Request.decode (bytes : ByteArray) : Except DecodeError Request :=
  (Element.decode .request bytes).map Request.ofElement

/-- Decode a response. -/
def Response.decode (bytes : ByteArray) : Except DecodeError Response :=
  (Element.decode .response bytes).map Response.ofElement

end UpdateProtocol
