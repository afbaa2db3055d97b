import UpdateProtocol.Text.Invisible

/-!
# Quoted texts

Messages show a foreign text between double quotes.  `quoted` writes characters that leave no mark
as escapes; `bytesQuoted` writes every byte outside printable ASCII as a number.
-/

namespace UpdateProtocol.Text

/-- The digits of a number in base sixteen, in lower case. -/
def hex (n : Nat) : String :=
  String.ofList (Nat.toDigits 16 n)

/-- A character as it stands inside a quoted text. -/
def quotedChar (c : Char) : String :=
  match c with
  | '\x00' => "\\0"
  | '\t' => "\\t"
  | '\n' => "\\n"
  | '\r' => "\\r"
  | '"' => "\\\""
  | '\\' => "\\\\"
  | c => if isInvisible c then "\\u\x7b" ++ hex c.toNat ++ "\x7d" else c.toString

/-- A text between double quotes, with escapes for what could not be seen. -/
def quoted (s : List Char) : String :=
  s.foldl (fun out c => out ++ quotedChar c) "\"" ++ "\""

/-- A byte as it stands inside a quoted byte string. -/
def quotedByte (b : UInt8) : String :=
  if b == 34 then "\\\""
  else if 32 ≤ b && b ≤ 126 then (Char.ofNat b.toNat).toString
  else "0x" ++ (hex b.toNat).toUpper

/-- The bytes of a text between double quotes. -/
def bytesQuoted (s : List Char) : String :=
  s.foldl (fun out c => (String.utf8EncodeChar c).foldl (fun out b => out ++ quotedByte b) out)
    "\"" ++ "\""

end UpdateProtocol.Text
