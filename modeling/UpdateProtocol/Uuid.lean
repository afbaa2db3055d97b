import UpdateProtocol.Text.Quoted

/-!
# Unique ids

A unique id is made of sixteen random bytes, of which six bits are fixed to mark it as random.
-/

namespace UpdateProtocol.Uuid

/-- A byte as two hexadecimal digits. -/
def hexByte (b : UInt8) : String :=
  Text.hex (b.toNat / 16) ++ Text.hex (b.toNat % 16)

/-- The sixteen bytes with the marks of a random id. -/
def mark (bytes : List UInt8) : List UInt8 :=
  (bytes.modify 6 (fun b => b % 16 + 0x40)).modify 8 (fun b => b % 64 + 0x80)

/-- The text of the id made of random bytes. -/
def text (bytes : List UInt8) : String :=
  let digits := (mark bytes).map hexByte
  let group (start count : Nat) : String := String.join ((digits.drop start).take count)
  "-".intercalate [group 0 4, group 4 2, group 6 2, group 8 2, group 10 6]

end UpdateProtocol.Uuid
