/-!
# Characters, strings and keys of configuration documents

A reading function takes the text that is left and gives what it has read with the text after it,
or nothing if the text does not begin as it should.
-/

namespace UpdateProtocol.Toml

/-- What is left of a document. -/
abbrev Rest := List Char

/-- A function that reads a value at the beginning of a text. -/
abbrev Reads (α : Type) := Rest → Option (α × Rest)

/-- Space and tab. -/
def isBlank (c : Char) : Bool :=
  c == ' ' || c == '\t'

/-- A text without the blanks it begins with. -/
def dropBlanks (rest : Rest) : Rest :=
  rest.dropWhile isBlank

/-- A character that may stand in comments and literal strings: a tab or no control character. -/
def isPlain (c : Char) : Bool :=
  c == '\t' || (' ' ≤ c && c != '\x7f')

/-- The text after a line end, if it begins with one. -/
def lineEnd? : Rest → Option Rest
  | '\n' :: rest => some rest
  | '\r' :: '\n' :: rest => some rest
  | _ => none

/-- The text after a comment. -/
def dropComment (rest : Rest) : Rest :=
  rest.dropWhile isPlain

/-- The text after the end of a line, which blanks and a comment may precede. -/
def endLine? (rest : Rest) : Option Rest :=
  let rest := dropBlanks rest
  let rest := match rest with
    | '#' :: rest => dropComment rest
    | rest => rest
  match rest with
  | [] => some []
  | rest => lineEnd? rest

/-! ### Strings -/

/-- The value of a hexadecimal digit. -/
def hexDigit? (c : Char) : Option Nat :=
  if '0' ≤ c && c ≤ '9' then some (c.toNat - '0'.toNat)
  else if 'a' ≤ c && c ≤ 'f' then some (c.toNat - 'a'.toNat + 10)
  else if 'A' ≤ c && c ≤ 'F' then some (c.toNat - 'A'.toNat + 10)
  else none

/-- The character whose number is written in hexadecimal digits. -/
def numberedChar? (digits : List Char) : Option Char := do
  let number ← digits.foldlM (fun n c => (hexDigit? c).map (n * 16 + ·)) 0
  if h : number.isValidChar then some (Char.ofNatAux number h) else none

/-- The character that a letter stands for after a backslash. -/
def escaped? (c : Char) : Option Char :=
  match c with
  | 'b' => some '\x08'
  | 't' => some '\t'
  | 'n' => some '\n'
  | 'f' => some '\x0c'
  | 'r' => some '\r'
  | '"' => some '"'
  | '\\' => some '\\'
  | _ => none

/-- The rest of a string between double quotes.  Collected characters stand in reverse order. -/
def basicString (collected : List Char) : Reads String
  | '"' :: rest => some (String.ofList collected.reverse, rest)
  | '\\' :: 'u' :: a :: b :: c :: d :: rest =>
      match numberedChar? [a, b, c, d] with
      | some char => basicString (char :: collected) rest
      | none => none
  | '\\' :: 'U' :: a :: b :: c :: d :: e :: f :: g :: h :: rest =>
      match numberedChar? [a, b, c, d, e, f, g, h] with
      | some char => basicString (char :: collected) rest
      | none => none
  | '\\' :: c :: rest =>
      match escaped? c with
      | some char => basicString (char :: collected) rest
      | none => none
  | c :: rest => if isPlain c && c != '\\' then basicString (c :: collected) rest else none
  | [] => none

/-- The rest of a string between single quotes, in which nothing is escaped. -/
def literalString (collected : List Char) : Reads String
  | '\'' :: rest => some (String.ofList collected.reverse, rest)
  | c :: rest => if isPlain c then literalString (c :: collected) rest else none
  | [] => none

/-- Where a string of several lines stands: in its text, or after a backslash that joins lines,
before or after the first line end. -/
inductive Joining where
  | no
  | before
  | after
  deriving DecidableEq

/-- The rest of a string between three double quotes.  Up to two quotes before the last three belong
to it. -/
def basicLines (joining : Joining) (collected : List Char) : Reads String
  | ' ' :: rest =>
      if joining = .no then basicLines .no (' ' :: collected) rest
      else basicLines joining collected rest
  | '\t' :: rest =>
      if joining = .no then basicLines .no ('\t' :: collected) rest
      else basicLines joining collected rest
  | '\n' :: rest =>
      if joining = .no then basicLines .no ('\n' :: collected) rest
      else basicLines .after collected rest
  | '\r' :: '\n' :: rest =>
      if joining = .no then basicLines .no ('\n' :: collected) rest
      else basicLines .after collected rest
  | '"' :: '"' :: '"' :: rest =>
      if joining = .before then none
      else match rest with
        | '"' :: '"' :: rest => some (String.ofList ('"' :: '"' :: collected).reverse, rest)
        | '"' :: rest => some (String.ofList ('"' :: collected).reverse, rest)
        | rest => some (String.ofList collected.reverse, rest)
  | '\\' :: 'u' :: a :: b :: c :: d :: rest =>
      if joining = .before then none
      else match numberedChar? [a, b, c, d] with
        | some char => basicLines .no (char :: collected) rest
        | none => none
  | '\\' :: 'U' :: a :: b :: c :: d :: e :: f :: g :: h :: rest =>
      if joining = .before then none
      else match numberedChar? [a, b, c, d, e, f, g, h] with
        | some char => basicLines .no (char :: collected) rest
        | none => none
  | '\\' :: c :: rest =>
      if joining = .before then none
      else match escaped? c with
        | some char => basicLines .no (char :: collected) rest
        | none =>
            if isBlank c || c == '\n' || c == '\r' then basicLines .before collected (c :: rest)
            else none
  | c :: rest =>
      if joining != .before && isPlain c && c != '\\' then basicLines .no (c :: collected) rest
      else none
  | [] => none

/-- The rest of a string between three single quotes. -/
def literalLines (collected : List Char) : Reads String
  | '\'' :: '\'' :: '\'' :: rest =>
      match rest with
      | '\'' :: '\'' :: rest => some (String.ofList ('\'' :: '\'' :: collected).reverse, rest)
      | '\'' :: rest => some (String.ofList ('\'' :: collected).reverse, rest)
      | rest => some (String.ofList collected.reverse, rest)
  | '\r' :: '\n' :: rest => literalLines ('\n' :: collected) rest
  | c :: rest => if isPlain c || c == '\n' then literalLines (c :: collected) rest else none
  | [] => none

/-- The text without the line end it may begin with. -/
def dropLineEnd (rest : Rest) : Rest :=
  (lineEnd? rest).getD rest

/-- A string of one line. -/
def lineString : Reads String
  | '"' :: rest => basicString [] rest
  | '\'' :: rest => literalString [] rest
  | _ => none

/-- A string. -/
def string : Reads String
  | '"' :: '"' :: '"' :: rest => basicLines .no [] (dropLineEnd rest)
  | '\'' :: '\'' :: '\'' :: rest => literalLines [] (dropLineEnd rest)
  | rest => lineString rest

/-! ### Keys -/

/-- A character of a key without quotes. -/
def isKeyChar (c : Char) : Bool :=
  ('a' ≤ c && c ≤ 'z') || ('A' ≤ c && c ≤ 'Z') || ('0' ≤ c && c ≤ '9') || c == '-' || c == '_'

/-- One part of a key. -/
def keyPart (rest : Rest) : Option (String × Rest) :=
  match rest with
  | '"' :: _ | '\'' :: _ => lineString rest
  | _ =>
      match rest.span isKeyChar with
      | ([], _) => none
      | (key, rest) => some (String.ofList key, rest)

/-- The parts of a key in reverse order, separated by dots and any blanks. -/
def keyParts : Nat → List String → Reads (List String)
  | 0, _, _ => none
  | fuel + 1, parts, rest => do
      let (part, rest) ← keyPart (dropBlanks rest)
      match dropBlanks rest with
      | '.' :: rest => keyParts fuel (part :: parts) rest
      | rest => some (part :: parts, rest)

/-- The number of parts that a key stays below. -/
def maxKeyParts : Nat := 80

/-- A key: its parts before the last, and the last. -/
def key (rest : Rest) : Option ((List String × String) × Rest) := do
  match ← keyParts maxKeyParts [] rest with
  | (last :: path, rest) =>
      if path.length + 1 < maxKeyParts then some ((path.reverse, last), rest) else none
  | ([], _) => none

end UpdateProtocol.Toml
