import UpdateProtocol.Decimal.Binary64

/-!
# Shortest decimal texts

A floating-point number is written with the fewest decimal digits that read back as the same
number; of several such texts the nearest one is taken, and of two equally near ones the one
further from zero.  The text is positional at any magnitude.
-/

namespace UpdateProtocol.Binary64

/-- The numbers around `mantissa * 2 ^ exponent` that are rounded to it, in quarters of a unit of
the mantissa: the bounds, which belong to the range if the mantissa is even. -/
structure Neighbourhood where
  low : Nat
  value : Nat
  high : Nat
  exponent : Int
  closed : Bool

/-- Below a power of two the next number is half as far away. -/
def neighbourhood (mantissa : Nat) (exponent : Int) : Neighbourhood where
  low := 4 * mantissa - (if mantissa = Nat.pow 2 52 ∧ minExponent < exponent then 1 else 2)
  value := 4 * mantissa
  high := 4 * mantissa + 2
  exponent := exponent - 2
  closed := mantissa % 2 = 0

/-- Both sides of a comparison of `quarters * 2 ^ e` with `digits * 10 ^ place` as natural
numbers. -/
def sides (quarters : Nat) (e : Int) (digits : Nat) (place : Int) : Nat × Nat :=
  let (left, right) := scale quarters digits e
  if 0 ≤ place then (left, right * Nat.pow 10 place.toNat)
  else (left * Nat.pow 10 (-place).toNat, right)

namespace Neighbourhood

/-- Whether `digits * 10 ^ place` is rounded to the number. -/
def holds (range : Neighbourhood) (digits : Nat) (place : Int) : Bool :=
  let low := sides range.low range.exponent digits place
  let high := sides range.high range.exponent digits place
  if range.closed then low.1 ≤ low.2 && high.2 ≤ high.1 else low.1 < low.2 && high.2 < high.1

/-- The number's integral part in units of `10 ^ place`. -/
def quotient (range : Neighbourhood) (place : Int) : Nat :=
  let (value, unit) := sides range.value range.exponent 1 place
  value / unit

/-- Whether the number is at least as near to `digits + 1` as to `digits` in units of
`10 ^ place`. -/
def reachesHalf (range : Neighbourhood) (digits : Nat) (place : Int) : Bool :=
  let (value, unit) := sides range.value range.exponent 1 place
  unit ≤ 2 * (value - digits * unit)

/-- The place of the first decimal digit of the number, which lies between the given ones. -/
def leadingPlace (range : Neighbourhood) : Nat → Int → Int
  | 0, place => place
  | fuel + 1, place =>
      if 1 ≤ range.quotient place then place else range.leadingPlace fuel (place - 1)

/-- The best text with a last digit at a place, if one is rounded to the number. -/
def candidate? (range : Neighbourhood) (place : Int) : Option Nat :=
  let digits := range.quotient place
  match range.holds digits place, range.holds (digits + 1) place with
  | true, true => some (if range.reachesHalf digits place then digits + 1 else digits)
  | true, false => some digits
  | false, true => some (digits + 1)
  | false, false => none

/-- The first place from the given one downwards at which a text ends that reads back. -/
def shortestFrom (range : Neighbourhood) : Nat → Int → Nat × Int
  | 0, place => (range.quotient place, place)
  | fuel + 1, place =>
      match range.candidate? place with
      | some digits => (digits, place)
      | none => range.shortestFrom fuel (place - 1)

end Neighbourhood

/-- The digits of the shortest decimal that reads back as `mantissa * 2 ^ exponent`, and the place
of the last of them.  The search begins above the first digit of the number, because the number may
lie just below a power of ten that reads back. -/
def shortest (mantissa : Nat) (exponent : Int) : Nat × Int :=
  if mantissa = 0 then (0, 0)
  else
    let range := neighbourhood mantissa exponent
    range.shortestFrom 19 (range.leadingPlace 640 309 + 1)

/-- The positional text of `digits * 10 ^ place`, with at least one digit on each side of the
point. -/
def positional (digits : Nat) (place : Int) : String :=
  let text := Nat.toDigits 10 digits
  if 0 ≤ place then
    String.ofList (text ++ List.replicate (if digits = 0 then 0 else place.toNat) '0') ++ ".0"
  else
    let count := (-place).toNat
    let text := List.replicate (count + 1 - text.length) '0' ++ text
    String.ofList (text.take (text.length - count)) ++ "." ++
      String.ofList (text.drop (text.length - count))

/-- The text of a floating-point number. -/
def text : Binary64 → String
  | nan => "NaN"
  | infinite negative => (if negative then "-" else "") ++ "inf"
  | finite negative mantissa exponent =>
      let (digits, place) := shortest mantissa exponent
      (if negative then "-" else "") ++ positional digits place

example : (ofDecimal false 15 (-1)).text = "1.5" := by decide +kernel

example : (ofDecimal false 1 (-1)).text = "0.1" := by decide +kernel

example : (ofDecimal false 1 (-7)).text = "0.0000001" := by decide +kernel

example : (ofDecimal false 112589990684262425 (-2)).text = "1125899906842624.3" := by
  decide +kernel

example : (ofDecimal true 0 0).text = "-0.0" := by decide +kernel

example : (ofDecimal false 123456789012345678 0).text = "123456789012345680.0" := by
  decide +kernel

example : (ofDecimal false 5 (-324)).text =
    "0." ++ String.ofList (List.replicate 323 '0') ++ "5" := by
  decide +kernel

end UpdateProtocol.Binary64
