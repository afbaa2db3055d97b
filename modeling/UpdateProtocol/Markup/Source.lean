import UpdateProtocol.Markup.Lexer
import UpdateProtocol.Markup.Reference
import UpdateProtocol.Markup.Scope

/-!
# Reading a document item by item

An item is a start tag, an end tag, a text or the end of the document.  A text is made of adjacent
texts and character data sections with the references of the former resolved; blanks beside a tag
do not belong to it.  A fault is met when reading reaches it, never before.

A source gives the items in order.  Items that were set aside can be put back in front, to be read
again.
-/

namespace UpdateProtocol.Markup

/-- One step of reading a document. -/
inductive Item where
  | start (tag : Tag)
  | finish (name : List Char)
  | text (content : List Char)
  | eof
  deriving DecidableEq, Repr

/-- The part of a document that has not been read.  `trim` holds where the blanks that a text
begins with do not belong to it. -/
structure Remainder where
  tokens : List Token
  fault : Option SyntaxError
  trim : Bool := true
  scope : Scope := {}
  deriving DecidableEq, Repr

/-- Items to be read again, then the rest of the document. -/
structure Source where
  replay : List Item := []
  unread : Remainder
  deriving DecidableEq, Repr

/-- Whether the next token belongs to the same text. -/
def textFollows : List Token → Bool
  | .text _ :: _ | .cdata _ :: _ => true
  | _ => false

/-- The rest of a text: the content of the tokens that belong to it, added in reverse order to what
is collected, and the tokens after it. -/
def readText (collected : List Char) : List Token → Except Error (List Char × List Token)
  | .text raw :: tokens => do
      let content ← (resolve (if textFollows tokens then raw else Text.trimEnd raw)).mapError
        .reference
      readText (content.reverse ++ collected) tokens
  | .cdata content :: tokens => readText (content.reverse ++ collected) tokens
  | tokens => .ok (collected.reverse, tokens)

namespace Remainder

/-- Replace the tokens after a text has been read. -/
def afterText (rest : Remainder) (tokens : List Token) : Remainder :=
  { rest with tokens, trim := false, scope := rest.scope.settle }

/-- Whether a text is not there at all once its blanks are trimmed. -/
def isVoid (rest : Remainder) (raw : List Char) : Bool :=
  rest.trim && raw.all Text.isBlank

/-- The next item, when the remaining tokens are the given ones. -/
def nextFrom (rest : Remainder) : List Token → Except Error (Item × Remainder)
  | [] =>
      match rest.fault with
      | some error => .error (.structural error)
      | none => .ok (.eof, { rest with tokens := [], trim := true, scope := rest.scope.settle })
  | .doctype :: tokens => { rest with trim := true, scope := rest.scope.settle }.nextFrom tokens
  | .start tag :: tokens =>
      match rest.scope.enter tag with
      | (scope, none) => .ok (.start tag, { rest with tokens, trim := true, scope })
      | (_, some error) => .error (.namespaces error)
  | .finish name :: tokens =>
      .ok (.finish name, { rest with tokens, trim := true, scope := rest.scope.finish })
  | .cdata content :: tokens => do
      let (content, tokens) ← readText content.reverse tokens
      .ok (.text content, rest.afterText tokens)
  | .text raw :: tokens =>
      if rest.isVoid raw then { rest with scope := rest.scope.settle }.nextFrom tokens
      else do
        let raw := if rest.trim then Text.trimStart raw else raw
        let (content, tokens) ← readText [] (.text raw :: tokens)
        .ok (.text content, rest.afterText tokens)

/-- The next item and what remains after it. -/
def next (rest : Remainder) : Except Error (Item × Remainder) :=
  rest.nextFrom rest.tokens

/-- The rest of a document without the blank text it begins with. -/
def dropVoid (rest : Remainder) : List Token → Remainder
  | .text raw :: tokens =>
      if rest.isVoid raw then { rest with scope := rest.scope.settle }.dropVoid tokens
      else { rest with tokens := .text raw :: tokens }
  | tokens => { rest with tokens }

/-- The scope once the token after the last item has been looked at. -/
def scopeAhead (rest : Remainder) : Scope :=
  let rest := rest.dropVoid rest.tokens
  match rest.tokens with
  | .start tag :: _ => (rest.scope.enter tag).1
  | _ => rest.scope.settle

/-- The tokens after the end tag that closes an element of this name, `depth` elements of the same
name inside it being open. -/
def skipFrom (name : List Char) (depth : Nat) : List Token → Option (List Token)
  | [] => none
  | .start tag :: tokens =>
      if tag.name == name then skipFrom name (depth + 1) tokens else skipFrom name depth tokens
  | .finish found :: tokens =>
      if found == name then
        match depth with
        | 0 => some tokens
        | depth + 1 => skipFrom name depth tokens
      else skipFrom name depth tokens
  | _ :: tokens => skipFrom name depth tokens

/-- The fault of a document that ends inside an element. -/
def unclosed (rest : Remainder) (name : List Char) : Error :=
  .structural (rest.fault.getD (.missingEndTag name))

/-- Pass over the tokens up to the end tag of an open element.  Its scope is not left, so the end
tag of the element around it leaves this one's instead. -/
def skipTokens (rest : Remainder) (name : List Char) (tokens : List Token) :
    Except Error Remainder :=
  match skipFrom name 0 tokens with
  | some tokens => .ok { rest with tokens }
  | none => .error (rest.unclosed name)

/-- Pass over the rest of an element whose start tag has been read.  The token after the start tag
is looked at first, so a scope that it opens and a blank that it allows are seen. -/
def skip (rest : Remainder) (name : List Char) : Except Error Remainder :=
  let rest := rest.dropVoid rest.tokens
  match rest.tokens with
  | [] => .error (rest.unclosed name)
  | .start tag :: tokens =>
      match rest.scope.enter tag with
      | (_, some error) => .error (.namespaces error)
      | (scope, none) => do
          let rest := { rest with trim := true, scope }
          let rest ← rest.skipTokens name tokens
          if tag.name == name then rest.skipTokens name rest.tokens else .ok rest
  | .finish found :: tokens =>
      let rest := { rest with trim := true, scope := rest.scope.finish }
      if found == name then .ok { rest with tokens } else rest.skipTokens name tokens
  | .doctype :: tokens =>
      { rest with trim := true, scope := rest.scope.settle }.skipTokens name tokens
  | .text _ :: tokens | .cdata _ :: tokens =>
      { rest with trim := false, scope := rest.scope.settle }.skipTokens name tokens

/-- Pass over the rest of several nested elements of one name. -/
def skipNested (rest : Remainder) (name : List Char) : Nat → Except Error Remainder
  | 0 => rest.skip name
  | depth + 1 => do (← rest.skip name).skipNested name depth

end Remainder

namespace Source

/-- The next item and the source after it. -/
def next (source : Source) : Except Error (Item × Source) :=
  match source.replay with
  | item :: replay => .ok (item, { source with replay })
  | [] => do
      let (item, unread) ← source.unread.next
      .ok (item, ⟨[], unread⟩)

/-- The next item, which stays in front. -/
def peek (source : Source) : Except Error (Item × Source) :=
  match source.replay with
  | item :: _ => .ok (item, source)
  | [] => do
      let (item, unread) ← source.unread.next
      .ok (item, ⟨[item], unread⟩)

/-- Pass over the rest of an element of this name whose start tag has been read, `depth` elements
of the same name inside it being open, when the items to read again are the given ones. -/
def skipFrom (unread : Remainder) (name : List Char) (depth : Nat) :
    List Item → Except Error Source
  | [] => do .ok ⟨[], ← unread.skipNested name depth⟩
  | .start tag :: replay =>
      if tag.name == name then skipFrom unread name (depth + 1) replay
      else skipFrom unread name depth replay
  | .finish found :: replay =>
      if found == name then
        match depth with
        | 0 => .ok ⟨replay, unread⟩
        | depth + 1 => skipFrom unread name depth replay
      else skipFrom unread name depth replay
  | _ :: replay => skipFrom unread name depth replay

/-- Pass over the rest of an element of this name whose start tag has been read. -/
def skip (source : Source) (name : List Char) : Except Error Source :=
  skipFrom source.unread name 0 source.replay

/-- A bound on the number of items a source can give. -/
def size (source : Source) : Nat :=
  source.replay.length + source.unread.tokens.length + 1

/-- The items of an element up to the end tag that closes it, `depth` elements of the same name
inside it being open, added in front of the given ones in reverse order.  They end with the
document if that comes first. -/
def takeElement (name : List Char) : Nat → Nat → List Item → Source →
    Except Error (List Item × Source)
  | 0, _, taken, source => .ok (taken, source)
  | fuel + 1, depth, taken, source => do
      let (item, source) ← source.next
      let taken := item :: taken
      match item with
      | .start tag =>
          takeElement name fuel (if tag.name == name then depth + 1 else depth) taken source
      | .finish found =>
          if found == name then
            match depth with
            | 0 => .ok (taken, source)
            | depth + 1 => takeElement name fuel depth taken source
          else takeElement name fuel depth taken source
      | .text _ => takeElement name fuel depth taken source
      | .eof => .ok (taken, source)

/-- Put items that were set aside, in reverse order, in front of a source. -/
def putBack (source : Source) (aside : List Item) : Source :=
  { source with replay := aside.reverse ++ source.replay }

end Source

/-- The source that gives all items of a document. -/
def Tokens.source (document : Tokens) : Source :=
  { unread := { tokens := document.tokens, fault := document.fault } }

end UpdateProtocol.Markup
