import UpdateProtocol.Text.Quoted
import UpdateProtocol.Vocabulary.Lifecycle

/-!
# Event arguments

An event is named on the command line as `TYPE:RESULT`.  The first colon separates the two tokens,
and neither may be empty.
-/

namespace UpdateProtocol

/-- The codes of an event named on the command line. -/
structure EventArgument where
  eventType : Code EventType
  result : Code EventResult
  deriving DecidableEq, Repr

/-- A text that does not name an event. -/
structure EventArgument.Malformed where
  text : String
  deriving DecidableEq, Repr

/-- The wording of the refusal, which quotes the text. -/
def EventArgument.Malformed.message (e : EventArgument.Malformed) : String :=
  "expected TYPE:RESULT, got " ++ Text.quoted e.text.toList

/-- Read an event argument. -/
def EventArgument.parse (s : String) : Except EventArgument.Malformed EventArgument :=
  match s.toList.span (· != ':') with
  | (eventType@(_ :: _), ':' :: result@(_ :: _)) =>
      .ok ⟨.ofToken (String.ofList eventType), .ofToken (String.ofList result)⟩
  | _ => .error ⟨s⟩

end UpdateProtocol
