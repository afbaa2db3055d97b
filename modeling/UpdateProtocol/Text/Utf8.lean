/-!
# UTF-8

`Utf8.decode` reads a byte sequence as text or says where it stops being one: at which byte, and
after how many bytes of a character the fault shows.
-/

namespace UpdateProtocol.Text

/-- Where a byte sequence stops being text.  `length` is the number of bytes that no character
begins with, or `none` when the sequence ends inside a character. -/
structure Utf8Error where
  index : Nat
  length : Option Nat
  deriving DecidableEq, Repr

namespace Utf8Error

/-- The wording of a fault. -/
def message (e : Utf8Error) : String :=
  match e.length with
  | some n =>
      "invalid utf-8 sequence of " ++ toString n ++ " bytes from index " ++ toString e.index
  | none => "incomplete utf-8 byte sequence from index " ++ toString e.index

end Utf8Error

namespace Utf8

/-- What the first byte of a longer character asks of the next: a range, and how many tail bytes
follow. -/
def lead (b : UInt8) : Option (UInt8 × UInt8 × Nat) :=
  if 0xc2 ≤ b && b ≤ 0xdf then some (0x80, 0xbf, 0)
  else if b == 0xe0 then some (0xa0, 0xbf, 1)
  else if b == 0xed then some (0x80, 0x9f, 1)
  else if 0xe1 ≤ b && b ≤ 0xef then some (0x80, 0xbf, 1)
  else if b == 0xf0 then some (0x90, 0xbf, 2)
  else if 0xf1 ≤ b && b ≤ 0xf3 then some (0x80, 0xbf, 2)
  else if b == 0xf4 then some (0x80, 0x8f, 2)
  else none

/-- Where the reading stands: between characters, or inside one after `seen` of its bytes with the
range of the next byte and the number of tails after it. -/
inductive State where
  | between (index : Nat)
  | inside (index seen : Nat) (low high : UInt8) (tails : Nat)
  | failed (error : Utf8Error)
  deriving DecidableEq, Repr

/-- Read one byte. -/
def State.step : State → UInt8 → State
  | between index, b =>
      if b < 0x80 then between (index + 1)
      else match lead b with
        | some (low, high, tails) => inside index 1 low high tails
        | none => failed ⟨index, some 1⟩
  | inside index seen low high tails, b =>
      if low ≤ b && b ≤ high then
        match tails with
        | 0 => between (index + seen + 1)
        | tails + 1 => inside index (seen + 1) 0x80 0xbf tails
      else failed ⟨index, some seen⟩
  | failed error, _ => failed error

/-- The first fault of a byte sequence. -/
def fault? (bytes : List UInt8) : Option Utf8Error :=
  match bytes.foldl State.step (.between 0) with
  | .between _ => none
  | .inside index _ _ _ _ => some ⟨index, none⟩
  | .failed error => some error

/-- The text of a byte sequence, or its first fault. -/
def decode (bytes : ByteArray) : Except Utf8Error String :=
  match String.fromUTF8? bytes with
  | some text => .ok text
  | none => .error ((fault? bytes.toList).getD ⟨bytes.size, none⟩)

end Utf8

end UpdateProtocol.Text
