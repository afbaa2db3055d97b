/-!
# Binary floating-point numbers

Numbers with 53 binary digits, as they result from rounding a decimal number to the nearest one, a
half to the even neighbour.  All arithmetic is exact arithmetic of natural numbers.
-/

namespace UpdateProtocol

/-- A floating-point number.  A finite one has the absolute value `mantissa * 2 ^ exponent`. -/
inductive Binary64 where
  | nan
  | infinite (negative : Bool)
  | finite (negative : Bool) (mantissa : Nat) (exponent : Int)
  deriving DecidableEq, Repr

namespace Binary64

/-- The number `n / d` as a fraction of natural numbers, with `n * 2 ^ e` for `n`. -/
def scale (n d : Nat) (e : Int) : Nat × Nat :=
  if 0 ≤ e then (n * Nat.pow 2 e.toNat, d) else (n, d * Nat.pow 2 (-e).toNat)

/-- A quotient rounded to the nearest number, a half to the even one. -/
def roundDiv (n d : Nat) : Nat :=
  let q := n / d
  let r := n % d
  if 2 * r < d then q
  else if 2 * r = d then (if q % 2 = 0 then q else q + 1)
  else q + 1

/-- The least exponent. -/
def minExponent : Int := -1074

/-- The greatest exponent. -/
def maxExponent : Int := 971

/-- The number nearest to the positive fraction `n / d`. -/
def ofFraction (negative : Bool) (n d : Nat) : Binary64 :=
  let guess : Int := max minExponent ((n.log2 : Int) - d.log2 - 53)
  let (n', d') := scale n d (-guess)
  let exponent := if n' / d' < Nat.pow 2 53 then guess else guess + 1
  let (n', d') := scale n d (-exponent)
  let mantissa := roundDiv n' d'
  let (mantissa, exponent) :=
    if mantissa < Nat.pow 2 53 then (mantissa, exponent) else (Nat.pow 2 52, exponent + 1)
  if exponent ≤ maxExponent then finite negative mantissa exponent else infinite negative

/-- The number of decimal digits of a natural number. -/
def decimalLength (n : Nat) : Nat :=
  (Nat.toDigits 10 n).length

/-- The number nearest to `digits * 10 ^ exponent`. -/
def ofDecimal (negative : Bool) (digits : Nat) (exponent : Int) : Binary64 :=
  let magnitude := exponent + decimalLength digits
  if digits = 0 ∨ magnitude < -330 then finite negative 0 minExponent
  else if 310 < magnitude then infinite negative
  else if 0 ≤ exponent then ofFraction negative (digits * Nat.pow 10 exponent.toNat) 1
  else ofFraction negative digits (Nat.pow 10 (-exponent).toNat)

end Binary64

end UpdateProtocol
