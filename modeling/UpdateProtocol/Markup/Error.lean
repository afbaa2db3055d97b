import UpdateProtocol.Text.Quoted

/-!
# Faults of markup

The ways in which a text fails to be markup, and their wording.
-/

namespace UpdateProtocol.Markup

/-- A fault in the structure of a document. -/
inductive SyntaxError where
  | unknownDeclaration
  | unclosedInstruction
  | unclosedComment
  | unclosedDoctype
  | unclosedCdata
  | unclosedTag
  | namelessDoctype
  | missingEndTag (name : List Char)
  | unmatchedEndTag (name : List Char)
  | mismatchedEndTag (expected found : List Char)
  deriving DecidableEq, Repr

/-- The wording of a fault in the structure. -/
def SyntaxError.message : SyntaxError → String
  | unknownDeclaration => "syntax error: unknown or missed symbol in markup"
  | unclosedInstruction =>
      "syntax error: processing instruction or xml declaration not closed: " ++
        "`?>` not found before end of input"
  | unclosedComment => "syntax error: comment not closed: `-->` not found before end of input"
  | unclosedDoctype => "syntax error: DOCTYPE not closed: `>` not found before end of input"
  | unclosedCdata => "syntax error: CDATA not closed: `]]>` not found before end of input"
  | unclosedTag => "syntax error: tag not closed: `>` not found before end of input"
  | namelessDoctype =>
      "ill-formed document: `<!DOCTYPE>` declaration does not contain a name of a document type"
  | missingEndTag name =>
      "ill-formed document: start tag not closed: `</" ++ String.ofList name ++
        ">` not found before end of input"
  | unmatchedEndTag name =>
      "ill-formed document: close tag `</" ++ String.ofList name ++
        ">` does not match any open tag"
  | mismatchedEndTag expected found =>
      "ill-formed document: expected `</" ++ String.ofList expected ++ ">`, but `</" ++
        String.ofList found ++ ">` was found"

/-- A fault in the attributes of a tag.  Positions count bytes from the start of its name. -/
inductive AttributeError where
  | missingEquals (position : Nat)
  | missingValue (position : Nat)
  | unquotedValue (position : Nat)
  | missingQuote (position : Nat) (quote : Char)
  | duplicated (position previous : Nat)
  deriving DecidableEq, Repr

/-- The wording of a fault in the attributes. -/
def AttributeError.message : AttributeError → String
  | missingEquals position =>
      at_ position ++ "attribute key must be directly followed by `=` or space"
  | missingValue position => at_ position ++ "`=` must be followed by an attribute value"
  | unquotedValue position => at_ position ++ "attribute value must be enclosed in `\"` or `'`"
  | missingQuote position quote =>
      at_ position ++ "missing closing quote `" ++ quote.toString ++ "` in attribute value"
  | duplicated position previous =>
      at_ position ++ "duplicated attribute, previous declaration at position " ++
        toString previous
where
  at_ (position : Nat) : String :=
    "error while parsing attribute: position " ++ toString position ++ ": "

/-- A number that does not refer to a character. -/
inductive NumberError where
  | signed
  | empty
  | invalidDigit
  | tooLarge
  | notCharacter (number : Nat)
  | zero
  deriving DecidableEq, Repr

/-- The wording of a fault in a number. -/
def NumberError.message : NumberError → String
  | signed => "unexpected number sign"
  | empty => "cannot parse integer from empty string"
  | invalidDigit => "invalid digit found in string"
  | tooLarge => "number too large to fit in target type"
  | notCharacter number => "`" ++ toString number ++ "` is not a valid codepoint"
  | zero => "0x0 character is not permitted in XML"

/-- A fault in a reference.  Positions count bytes of the text it stands in. -/
inductive ReferenceError where
  | unterminated (start stop : Nat)
  | unknownName (start stop : Nat) (name : List Char)
  | number (error : NumberError)
  deriving DecidableEq, Repr

/-- The wording of a fault in a reference. -/
def ReferenceError.message : ReferenceError → String
  | unterminated start stop =>
      "Error while escaping character at range " ++ toString start ++ ".." ++ toString stop ++
        ": Cannot find ';' after '&'"
  | unknownName start stop name =>
      "at " ++ toString start ++ ".." ++ toString stop ++ ": unrecognized entity `" ++
        String.ofList name ++ "`"
  | number error => "invalid character reference: " ++ error.message

/-- A namespace declaration that touches the two reserved namespaces. -/
inductive NamespaceError where
  | xmlRebound (uri : List Char)
  | xmlnsRebound (uri : List Char)
  | boundToXml (qualifier : List Char)
  | boundToXmlns (qualifier : List Char)
  deriving DecidableEq, Repr

/-- The namespace of the qualifier `xml`. -/
def xmlUri : String := "http://www.w3.org/XML/1998/namespace"

/-- The namespace of the qualifier `xmlns`. -/
def xmlnsUri : String := "http://www.w3.org/2000/xmlns/"

/-- The wording of a faulty namespace declaration. -/
def NamespaceError.message : NamespaceError → String
  | xmlRebound uri => bound "xml" (Text.bytesQuoted uri)
  | xmlnsRebound uri => bound "xmlns" (Text.bytesQuoted uri)
  | boundToXml qualifier => bound (Text.bytesQuoted qualifier) xmlUri
  | boundToXmlns qualifier => bound (Text.bytesQuoted qualifier) xmlnsUri
where
  bound (qualifier uri : String) : String :=
    "the namespace prefix '" ++ qualifier ++ "' cannot be bound to '" ++ uri ++ "'"

/-- Any fault that markup can have. -/
inductive Error where
  | structural (error : SyntaxError)
  | attr (error : AttributeError)
  | reference (error : ReferenceError)
  | namespaces (error : NamespaceError)
  deriving DecidableEq, Repr

/-- The wording of any fault. -/
def Error.message : Error → String
  | structural error => error.message
  | attr error => error.message
  | reference error => error.message
  | namespaces error => error.message

end UpdateProtocol.Markup
