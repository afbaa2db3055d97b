import UpdateProtocol.Markup.Error
import UpdateProtocol.Markup.Token

/-!
# From text to tokens

The lexer reads one character at a time and never looks back, so the tokens of a text are a fold
over its characters and the tokens read so far do not depend on what follows.  It also keeps the
names of the open elements: an end tag must repeat the innermost one.
-/

namespace UpdateProtocol.Markup

/-- What the lexer is inside of.  Collected characters stand in reverse order. -/
inductive Lexer.Mode where
  | text (collected : List Char)
  /-- After `<`. -/
  | bracket
  /-- After `<!`. -/
  | declaration
  | comment (collected : List Char)
  | cdata (collected : List Char)
  /-- In a document type declaration, inside `depth` nested brackets. -/
  | doctype (depth : Nat) (collected : List Char)
  | instruction (collected : List Char)
  /-- In a tag and, if `quote` is given, in a value between such quotes. -/
  | tag (quote : Option Char) (collected : List Char)
  | failed (error : SyntaxError)
  deriving DecidableEq, Repr

/-- The state of the lexer: names of the open elements, innermost first, and tokens, latest
first. -/
structure Lexer where
  mode : Lexer.Mode := .text []
  names : List (List Char) := []
  tokens : List Token := []
  deriving DecidableEq, Repr

namespace Lexer

/-- Stop at a fault, keeping the tokens read so far. -/
def fail (lexer : Lexer) (error : SyntaxError) : Lexer :=
  { lexer with mode := .failed error }

/-- Continue with text after markup that leaves no token. -/
def resume (lexer : Lexer) : Lexer :=
  { lexer with mode := .text [] }

/-- Continue with text after a token. -/
def emit (lexer : Lexer) (token : Token) : Lexer :=
  { lexer with mode := .text [], tokens := token :: lexer.tokens }

/-- The text collected before markup or the end, if there is any. -/
def flush (lexer : Lexer) (collected : List Char) : List Token :=
  match collected with
  | [] => lexer.tokens
  | _ => .text collected.reverse :: lexer.tokens

/-- A comment is closed by `-->` once it holds both of its dashes twice. -/
def closeComment (lexer : Lexer) (collected : List Char) : Lexer :=
  match collected with
  | '-' :: '-' :: _ :: _ :: _ =>
      if "--".toList.isPrefixOf collected.reverse then lexer.resume
      else lexer.fail .unclosedComment
  | _ => { lexer with mode := .comment ('>' :: collected) }

/-- A character data section is closed by `]]>`. -/
def closeCdata (lexer : Lexer) (collected : List Char) : Lexer :=
  match collected with
  | ']' :: ']' :: content =>
      if "[CDATA[".toList.isPrefixOf content.reverse then
        lexer.emit (.cdata (content.reverse.drop 7))
      else lexer.fail .unclosedCdata
  | _ => { lexer with mode := .cdata ('>' :: collected) }

/-- A document type declaration has its keyword in any case and a name. -/
def closeDoctype (lexer : Lexer) (collected : List Char) : Lexer :=
  let content := collected.reverse
  if (content.take 7).map Char.toLower == "doctype".toList then
    if (content.drop 7).all Text.isBlank then lexer.fail .namelessDoctype
    else lexer.emit .doctype
  else lexer.fail .unclosedDoctype

/-- A processing instruction is closed by `?>`. -/
def closeInstruction (lexer : Lexer) (collected : List Char) : Lexer :=
  match collected with
  | ['?'] => lexer.fail .unclosedInstruction
  | '?' :: _ => lexer.resume
  | _ => { lexer with mode := .instruction ('>' :: collected) }

/-- The name in an end tag, without the blanks after it. -/
def endName (content : List Char) : List Char :=
  if content.all Text.isBlank then content else Text.trimEnd content

/-- An end tag closes the innermost open element. -/
def closeElement (lexer : Lexer) (found : List Char) : Lexer :=
  match lexer.names with
  | [] => lexer.fail (.unmatchedEndTag found)
  | expected :: names =>
      if found == expected then { lexer with names }.emit (.finish found)
      else lexer.fail (.mismatchedEndTag expected found)

/-- A tag that begins with a slash is an end tag; one that ends with a slash stands for a start tag
and its end tag. -/
def closeTag (lexer : Lexer) (collected : List Char) : Lexer :=
  match collected.reverse with
  | '/' :: content => lexer.closeElement (endName content)
  | content =>
      match collected with
      | '/' :: shorter =>
          let tag : Tag := ⟨shorter.reverse⟩
          (lexer.emit (.start tag)).emit (.finish tag.name)
      | _ =>
          let tag : Tag := ⟨content⟩
          { lexer with names := tag.name :: lexer.names }.emit (.start tag)

/-- Read one more character of a tag. -/
def stepTag (lexer : Lexer) (quote : Option Char) (collected : List Char) (c : Char) : Lexer :=
  match quote with
  | none =>
      if c == '>' then lexer.closeTag collected
      else
        let quote := if c == '"' || c == '\'' then some c else none
        { lexer with mode := .tag quote (c :: collected) }
  | some q => { lexer with mode := .tag (if c == q then none else some q) (c :: collected) }

/-- Read one character. -/
def step (lexer : Lexer) (c : Char) : Lexer :=
  match lexer.mode with
  | .text collected =>
      if c == '<' then { lexer with mode := .bracket, tokens := lexer.flush collected }
      else { lexer with mode := .text (c :: collected) }
  | .bracket =>
      if c == '!' then { lexer with mode := .declaration }
      else if c == '?' then { lexer with mode := .instruction ['?'] }
      else lexer.stepTag none [] c
  | .declaration =>
      if c == '-' then { lexer with mode := .comment ['-'] }
      else if c == '[' then { lexer with mode := .cdata ['['] }
      else if c == 'D' || c == 'd' then { lexer with mode := .doctype 0 [c] }
      else lexer.fail .unknownDeclaration
  | .comment collected =>
      if c == '>' then lexer.closeComment collected
      else { lexer with mode := .comment (c :: collected) }
  | .cdata collected =>
      if c == '>' then lexer.closeCdata collected
      else { lexer with mode := .cdata (c :: collected) }
  | .doctype depth collected =>
      if c == '>' then
        match depth with
        | 0 => lexer.closeDoctype collected
        | depth + 1 => { lexer with mode := .doctype depth (c :: collected) }
      else
        let depth := if c == '<' then depth + 1 else depth
        { lexer with mode := .doctype depth (c :: collected) }
  | .instruction collected =>
      if c == '>' then lexer.closeInstruction collected
      else { lexer with mode := .instruction (c :: collected) }
  | .tag quote collected => lexer.stepTag quote collected c
  | .failed _ => lexer

end Lexer

/-- The tokens of a document up to its end or its first fault. -/
structure Tokens where
  tokens : List Token
  fault : Option SyntaxError
  deriving DecidableEq, Repr

/-- What the lexer has read when the text ends. -/
def Lexer.finish (lexer : Lexer) : Tokens :=
  match lexer.mode with
  | .text collected => ⟨(lexer.flush collected).reverse, none⟩
  | .bracket | .tag _ _ => ⟨lexer.tokens.reverse, some .unclosedTag⟩
  | .declaration => ⟨lexer.tokens.reverse, some .unknownDeclaration⟩
  | .comment _ => ⟨lexer.tokens.reverse, some .unclosedComment⟩
  | .cdata _ => ⟨lexer.tokens.reverse, some .unclosedCdata⟩
  | .doctype _ _ => ⟨lexer.tokens.reverse, some .unclosedDoctype⟩
  | .instruction _ => ⟨lexer.tokens.reverse, some .unclosedInstruction⟩
  | .failed error => ⟨lexer.tokens.reverse, some error⟩

/-- A text without the byte order mark it may begin with. -/
def dropMark : List Char → List Char
  | '\ufeff' :: text => text
  | text => text

/-- The tokens of a text. -/
def Tokens.ofText (text : List Char) : Tokens :=
  ((dropMark text).foldl Lexer.step {}).finish

/-- The first start tag of a document, or the fault that stands before it. -/
def Tokens.root (document : Tokens) : Except SyntaxError (Option Tag) :=
  match document.tokens.findSome? tag? with
  | some tag => .ok (some tag)
  | none =>
      match document.fault with
      | some error => .error error
      | none => .ok none
where
  tag? : Token → Option Tag
    | .start tag => some tag
    | _ => none

end UpdateProtocol.Markup
