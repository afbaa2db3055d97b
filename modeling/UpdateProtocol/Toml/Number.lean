import UpdateProtocol.Toml.Text
import UpdateProtocol.Toml.Value

/-!
# Numbers, dates and times

Digits may be separated by single underscores.  Whole numbers fit in 64 bits with a sign; dates and
times must exist.
-/

namespace UpdateProtocol.Toml

/-! ### Numbers -/

/-- The value of a digit in a base up to sixteen. -/
def digit? (base : Nat) (c : Char) : Option Nat :=
  (hexDigit? c).filter (· < base)

/-- The digits of a run and the text after it.  Collected digits stand in reverse order. -/
def moreDigits (base : Nat) (collected : List Nat) : Rest → List Nat × Rest
  | '_' :: c :: rest =>
      match digit? base c with
      | some d => moreDigits base (d :: collected) rest
      | none => (collected.reverse, '_' :: c :: rest)
  | c :: rest =>
      match digit? base c with
      | some d => moreDigits base (d :: collected) rest
      | none => (collected.reverse, c :: rest)
  | [] => (collected.reverse, [])

/-- A run of digits. -/
def digits (base : Nat) : Reads (List Nat)
  | c :: rest =>
      match digit? base c with
      | some d => some (moreDigits base [d] rest)
      | none => none
  | [] => none

/-- The number that digits stand for. -/
def ofDigits (base : Nat) (digits : List Nat) : Nat :=
  digits.foldl (fun n d => n * base + d) 0

/-- A run of decimal digits that does not begin with zero unless it is zero. -/
def wholeDigits : Reads (List Nat)
  | '0' :: rest => some ([0], rest)
  | rest => digits 10 rest

/-- Whether a sign is a minus, and the text after it. -/
def sign : Rest → Bool × Rest
  | '-' :: rest => (true, rest)
  | '+' :: rest => (false, rest)
  | rest => (false, rest)

/-- The whole number of a sign and an absolute value, if it fits in 64 bits. -/
def integer? (negative : Bool) (magnitude : Nat) : Option Value :=
  if negative then if magnitude ≤ Nat.pow 2 63 then some (.integer (-magnitude)) else none
  else if magnitude < Nat.pow 2 63 then some (.integer magnitude) else none

/-- A floating-point number.  It may be too small to be told from negative infinity, but not too
large. -/
def float? (negative : Bool) (digits : List Nat) (exponent : Int) : Option Value :=
  match Binary64.ofDecimal negative (ofDigits 10 digits) exponent with
  | .infinite false => none
  | number => some (.float number)

/-- The part of a floating-point number after its letter. -/
def exponent (rest : Rest) : Option (Int × Rest) := do
  let (negative, rest) := sign rest
  let (ds, rest) ← digits 10 rest
  let magnitude : Int := ofDigits 10 ds
  some (if negative then -magnitude else magnitude, rest)

/-- The rest of a floating-point number after the digits of its mantissa, of which `places` follow
the point. -/
def afterMantissa (negative : Bool) (mantissa : List Nat) (places : Nat) (rest : Rest) :
    Option (Value × Rest) :=
  match rest with
  | 'e' :: rest | 'E' :: rest => do
      let (e, rest) ← exponent rest
      some (← float? negative mantissa (e - places), rest)
  | rest => do some (← float? negative mantissa (-places), rest)

/-- A decimal number. -/
def decimal (rest : Rest) : Option (Value × Rest) := do
  let (negative, rest) := sign rest
  let (whole, rest) ← wholeDigits rest
  match rest with
  | '.' :: rest => do
      let (fraction, rest) ← digits 10 rest
      afterMantissa negative (whole ++ fraction) fraction.length rest
  | 'e' :: _ | 'E' :: _ => afterMantissa negative whole 0 rest
  | rest => some (← integer? negative (ofDigits 10 whole), rest)

/-- A whole number in another base. -/
def inBase (base : Nat) (rest : Rest) : Option (Value × Rest) := do
  let (ds, rest) ← digits base rest
  some (← integer? false (ofDigits base ds), rest)

/-- A number. -/
def number (rest : Rest) : Option (Value × Rest) :=
  match rest with
  | '0' :: 'x' :: rest => inBase 16 rest
  | '0' :: 'o' :: rest => inBase 8 rest
  | '0' :: 'b' :: rest => inBase 2 rest
  | rest =>
      match sign rest with
      | (negative, 'i' :: 'n' :: 'f' :: rest) => some (.float (.infinite negative), rest)
      | (_, 'n' :: 'a' :: 'n' :: rest) => some (.float .nan, rest)
      | _ => decimal rest

/-! ### Dates and times -/

/-- A number of exactly `count` decimal digits within bounds. -/
def fixed (count low high : Nat) (rest : Rest) : Option (Nat × Rest) := do
  let ds ← (rest.take count).mapM (digit? 10)
  let n := ofDigits 10 ds
  if ds.length = count ∧ low ≤ n ∧ n ≤ high then some (n, rest.drop count) else none

/-- The text after a certain character. -/
def exactly (c : Char) : Rest → Option Rest
  | d :: rest => if d == c then some rest else none
  | [] => none

/-- Whether a year is a leap year: every fourth one, but of the full hundreds only every fourth. -/
def isLeapYear (year : Nat) : Bool :=
  year % 4 == 0 && (year % 100 != 0 || year % 400 == 0)

/-- The number of days in a month of a year. -/
def daysInMonth (year month : Nat) : Nat :=
  if month = 2 then if isLeapYear year then 29 else 28
  else if month = 4 ∨ month = 6 ∨ month = 9 ∨ month = 11 then 30
  else 31

/-- The text after a date. -/
def afterDate (rest : Rest) : Option Rest := do
  let (year, rest) ← fixed 4 0 9999 rest
  let (month, rest) ← fixed 2 1 12 (← exactly '-' rest)
  let (_, rest) ← fixed 2 1 (daysInMonth year month) (← exactly '-' rest)
  some rest

/-- The text after the fraction of a second, if there is one. -/
def afterFraction (rest : Rest) : Rest :=
  match rest with
  | '.' :: c :: more => if c.isDigit then more.dropWhile Char.isDigit else rest
  | _ => rest

/-- The text after a time of day. -/
def afterTime (rest : Rest) : Option Rest := do
  let (_, rest) ← fixed 2 0 23 rest
  let (_, rest) ← fixed 2 0 59 (← exactly ':' rest)
  let (_, rest) ← fixed 2 0 60 (← exactly ':' rest)
  some (afterFraction rest)

/-- The text after the distance from universal time, if there is one. -/
def afterOffset (rest : Rest) : Rest :=
  match rest with
  | 'Z' :: rest | 'z' :: rest => rest
  | '+' :: more | '-' :: more =>
      (do
        let (_, more) ← fixed 2 0 23 more
        let (_, more) ← fixed 2 0 59 (← exactly ':' more)
        some more).getD rest
  | rest => rest

/-- A date, a time, or both. -/
def moment (rest : Rest) : Option (Value × Rest) :=
  match afterDate rest with
  | none => (afterTime rest).map (fun rest => (.moment, rest))
  | some rest =>
      match rest with
      | 'T' :: more | 't' :: more | ' ' :: more =>
          match afterTime more with
          | some rest => some (.moment, afterOffset rest)
          | none => some (.moment, rest)
      | rest => some (.moment, rest)

end UpdateProtocol.Toml
