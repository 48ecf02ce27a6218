import Reckoner.Binary64.Nearest

/-!
# Decimal — a number written in base ten

A `Decimal` is `digits · 10 ^ exponent`.  Every finite double is exactly one of these, since a half is five tenths
(`ofMagnitude`); the other way a decimal is read as the double next to it (`toFloat`).  `positional` writes a decimal
out digit by digit, never with an exponent, and `read?` takes such a text apart again.
-/
namespace Reckoner

/-- The number `digits · 10 ^ exponent`. -/
structure Decimal where
  digits : Nat
  exponent : Int
deriving DecidableEq, Repr

namespace Decimal

def ratio (d : Decimal) : Nat × Nat := (d.digits * Nat.pow 10 d.exponent.toNat, Nat.pow 10 (-d.exponent).toNat)

def nearestBits (d : Decimal) : Nat := Binary64.nearestBits d.ratio.1 d.ratio.2

def toFloat (d : Decimal) : Float := Binary64.nearest d.ratio.1 d.ratio.2

/-- **The size of a double, digit for digit**: `m / 2 ^ k` is `m · 5 ^ k / 10 ^ k`. -/
def ofMagnitude (m : Binary64.Magnitude) : Decimal :=
  ⟨m.mantissa * Nat.pow 2 m.exponent.toNat * Nat.pow 5 (-m.exponent).toNat, min m.exponent 0⟩

/-- The same number with no zero at the end of its digits; zero itself has exponent zero. -/
def trim (d : Decimal) : Decimal :=
  if d.digits = 0 then ⟨0, 0⟩
  else if d.digits % 10 = 0 then trim ⟨d.digits / 10, d.exponent + 1⟩
  else d
termination_by d.digits
decreasing_by omega

/-- **The decimal written out**: the whole part, and behind a point as many digits as the exponent calls for. -/
def positional (d : Decimal) : List Char :=
  let places := (-d.exponent).toNat
  let units := d.digits * Nat.pow 10 d.exponent.toNat
  let whole := Nat.toDigits 10 (units / Nat.pow 10 places)
  if places = 0 then whole
  else whole ++ '.' :: (Nat.toDigits 10 (units % Nat.pow 10 places)).leftpad places '0'

/-- **A written decimal, read**: digits with at most one point among them, and at least one digit. -/
def read? (text : List Char) : Option Decimal :=
  let whole := text.takeWhile (· != '.')
  let fraction := (text.dropWhile (· != '.')).drop 1
  let digits := whole ++ fraction
  if digits.all Char.isDigit && !digits.isEmpty then
    some ⟨Nat.ofDigitChars 10 digits 0, -fraction.length⟩
  else none

end Decimal
end Reckoner
