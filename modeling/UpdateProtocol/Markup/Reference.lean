import UpdateProtocol.Markup.Error
import UpdateProtocol.Text.Blank

/-!
# References

In texts and values an ampersand begins a reference, which ends with a semicolon: five names, or
the number of a character in base ten or, after `x`, sixteen.  `escape` writes a value so that
`resolve` reads it back.
-/

namespace UpdateProtocol.Markup

/-- The value of a digit in a base up to sixteen. -/
def digit? (base : Nat) (c : Char) : Option Nat :=
  let value :=
    if '0' ≤ c && c ≤ '9' then some (c.toNat - '0'.toNat)
    else if 'a' ≤ c && c ≤ 'f' then some (c.toNat - 'a'.toNat + 10)
    else if 'A' ≤ c && c ≤ 'F' then some (c.toNat - 'A'.toNat + 10)
    else none
  value.filter (· < base)

/-- The number that digits stand for, if it fits in 32 bits. -/
def number (base : Nat) (digits : List Char) : Except NumberError Nat :=
  match digits with
  | [] => .error .empty
  | '+' :: _ | '-' :: _ => .error .signed
  | _ => digits.foldlM (fun n c =>
      match digit? base c with
      | none => .error .invalidDigit
      | some d => if n * base + d < UInt32.size then .ok (n * base + d) else .error .tooLarge) 0

/-- The character with a number. -/
def characterOf (number : Nat) : Except NumberError Char :=
  if number = 0 then .error .zero
  else if h : number.isValidChar then .ok (Char.ofNatAux number h)
  else .error (.notCharacter number)

/-- The character that a numeric reference names, without its number sign. -/
def numericReference (digits : List Char) : Except NumberError Char := do
  match digits with
  | 'x' :: digits => characterOf (← number 16 digits)
  | _ => characterOf (← number 10 digits)

/-- The character that a reference names.  `start` and `stop` enclose its name. -/
def reference (start stop : Nat) (name : List Char) : Except ReferenceError Char :=
  match name with
  | '#' :: digits => (numericReference digits).mapError .number
  | _ =>
      match String.ofList name with
      | "lt" => .ok '<'
      | "gt" => .ok '>'
      | "amp" => .ok '&'
      | "apos" => .ok '\''
      | "quot" => .ok '"'
      | _ => .error (.unknownName start stop name)

/-- The state of resolving a text: characters so far in reverse order, the position in bytes, and
inside a reference its start and the reverse of its name. -/
structure Resolver where
  resolved : List Char := []
  position : Nat := 0
  pending : Option (Nat × List Char) := none
  deriving DecidableEq, Repr

/-- Read one character of a text of `length` bytes. -/
def Resolver.step (length : Nat) (resolver : Resolver) (c : Char) :
    Except ReferenceError Resolver :=
  let next := { resolver with position := resolver.position + c.utf8Size }
  match resolver.pending with
  | none =>
      if c == '&' then .ok { next with pending := some (resolver.position, []) }
      else .ok { next with resolved := c :: resolver.resolved }
  | some (start, name) =>
      if c == ';' then do
        let char ← reference (start + 1) resolver.position name.reverse
        .ok { next with resolved := char :: resolver.resolved, pending := none }
      else if c == '&' then .error (.unterminated start length)
      else .ok { next with pending := some (start, c :: name) }

/-- A text with its references replaced by the characters they name. -/
def resolve (text : List Char) : Except ReferenceError (List Char) := do
  let resolver ← text.foldlM (Resolver.step (Text.byteLength text)) {}
  match resolver.pending with
  | none => .ok resolver.resolved.reverse
  | some (start, _) => .error (.unterminated start (Text.byteLength text))

/-- A character as it is written in a value between double quotes. -/
def escapeChar (c : Char) : String :=
  match c with
  | '&' => "&amp;"
  | '<' => "&lt;"
  | '>' => "&gt;"
  | '"' => "&quot;"
  | c => c.toString

end UpdateProtocol.Markup
