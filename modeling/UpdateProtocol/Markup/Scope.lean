import UpdateProtocol.Markup.Attribute

/-!
# Namespaces in scope

A tag may bind qualifiers to namespaces for the element it opens.  The reader knows the bindings of
the elements it is inside of, and forgets those of an element when it reads on after its end.  An
element that it passes over is never left, so what is bound there holds on until enough elements
around it have ended.
The only namespace with a meaning here is that of instances: there the attribute `nil` marks an
element as absent.
-/

namespace UpdateProtocol.Markup

/-- A qualifier bound to a namespace by an element at some level. -/
structure Binding where
  qualifier : List Char
  uri : List Char
  level : Nat
  deriving DecidableEq, Repr

/-- The bindings in scope, innermost first, at a level of nesting.  `ended` holds after an end tag
whose element is not left yet. -/
structure Scope where
  level : Nat := 0
  bindings : List Binding := []
  ended : Bool := false
  deriving DecidableEq, Repr

namespace Scope

/-- Forget the bindings of the innermost element. -/
def leave (scope : Scope) : Scope :=
  { scope with
    level := scope.level - 1
    bindings := scope.bindings.dropWhile (fun binding => scope.level - 1 < binding.level) }

/-- Leave the element whose end tag has been read, as happens when reading goes on. -/
def settle (scope : Scope) : Scope :=
  if scope.ended then { scope.leave with ended := false } else scope

/-- The scope after an end tag. -/
def finish (scope : Scope) : Scope :=
  { scope.settle with ended := true }

/-- The qualifier that an attribute of this name binds. -/
def declared? (name : List Char) : Option (List Char) :=
  if "xmlns:".toList.isPrefixOf name then some (name.drop 6) else none

/-- The scope with one more binding.  The reserved qualifiers keep their namespaces, and no other
qualifier, not even an empty one, may be bound to these; otherwise an empty qualifier binds nothing
that a name could use. -/
def bind (scope : Scope) (qualifier uri : List Char) : Except NamespaceError Scope :=
  if qualifier = "xml".toList then
    if uri = xmlUri.toList then .ok scope else .error (.xmlRebound uri)
  else if qualifier = "xmlns".toList then .error (.xmlnsRebound uri)
  else if uri = xmlUri.toList then .error (.boundToXml qualifier)
  else if uri = xmlnsUri.toList then .error (.boundToXmlns qualifier)
  else if qualifier = [] then .ok scope
  else .ok { scope with bindings := ⟨qualifier, uri, scope.level⟩ :: scope.bindings }

/-- The bindings that attributes add, up to the first fault among them.  A faulty declaration is
reported beside the scope as it is before it. -/
def declare (scope : Scope) :
    List (Except AttributeError Attribute) → Scope × Option NamespaceError
  | .ok attr :: rest =>
      match declared? attr.name with
      | none => scope.declare rest
      | some qualifier =>
          match scope.bind qualifier attr.value with
          | .ok scope => scope.declare rest
          | .error error => (scope, some error)
  | _ => (scope, none)

/-- The scope after a start tag. -/
def enter (scope : Scope) (tag : Tag) : Scope × Option NamespaceError :=
  let scope := scope.settle
  { scope with level := scope.level + 1 }.declare (tag.attributes false)

/-- The namespace of a qualifier. -/
def lookup (scope : Scope) (qualifier : List Char) : Option (List Char) :=
  (scope.bindings.find? (fun binding => binding.qualifier == qualifier)).map Binding.uri

/-- The namespace of instances. -/
def instanceUri : String := "http://www.w3.org/2001/XMLSchema-instance"

/-- Whether an attribute marks its element as absent. -/
def isNil (scope : Scope) (attr : Attribute) : Bool :=
  localName attr.name == "nil".toList &&
    (attr.value == "1".toList || attr.value == "true".toList) &&
    (qualifier? attr.name).any (fun qualifier =>
      scope.lookup qualifier == some instanceUri.toList)

/-- Whether some attribute of a tag marks its element as absent. -/
def marksNil (scope : Scope) (tag : Tag) : Bool :=
  (tag.attributes true).any fun
    | .ok attr => scope.isNil attr
    | .error _ => false

end Scope

end UpdateProtocol.Markup
