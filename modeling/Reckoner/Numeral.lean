import Reckoner.Decimal.Shortest
import Reckoner.Decimal.Fixed

/-!
# Numeral — the texts of a number

Three texts are written for a double.  `plain` gives the shortest digits that read back, always written out in full;
it is what messages and token lists show, with `-0` for negative zero.  `shown` is what a user sees as a result: zero
has no sign, and a number of places may be asked for (`shownTo`).  `result` is the number of a record, with a fraction
or an exponent.  A numeral is read by `read?`.
-/
namespace Reckoner
namespace Numeral

/-- Texts that stand for the doubles that are no finite numbers; `none` for the others. -/
def nonFinite? (x : Float) : Option (List Char) :=
  if x.isNaN then some "NaN".toList
  else if x.isInf then some (if Binary64.isNegative x then "-inf".toList else "inf".toList)
  else none

def sign (x : Float) : List Char := if Binary64.isNegative x then ['-'] else []

/-- The shortest digits of a finite double. -/
def digits (tie : Tie) (x : Float) : Decimal := (Decimal.ofMagnitude (Binary64.magnitude x)).shortest tie

/-- **The number in full**: the shortest digits that read back, half way cases upwards, and no exponent ever. -/
def plainChars (x : Float) : List Char :=
  (nonFinite? x).getD (sign x ++ (digits .up x).positional)

/-- The number in full, as messages and token lists show it. -/
def plain (x : Float) : String := .ofList (plainChars x)

def unsignedZero (x : Float) : Float := if x == 0 then 0 else x

def shown (x : Float) : String := plain (unsignedZero x)

/-- The text of a number with places: no sign on a zero. -/
def fixedChars (negative : Bool) (f : Decimal.Fixed) : List Char :=
  if f.digits = 0 then ['0']
  else (if negative then ['-'] else []) ++ f.toDecimal.positional

/-- A finite double as a number with places, if it fits one. -/
def fixed? (x : Float) : Option Decimal.Fixed :=
  if x.isFinite then Decimal.Fixed.ofMagnitude? (Binary64.magnitude x) else none

/-- **A result with at most `places` places**, zeros at their end dropped.  What does not fit a number with places,
and what is no finite number, is written in full. -/
def shownTo (places : Nat) (x : Float) : String :=
  match fixed? x with
  | some f => .ofList (fixedChars (Binary64.isNegative x) (f.round places).trim)
  | none => plain x

def display (places : Option Nat) (x : Float) : String :=
  match places with
  | none => shown x
  | some n => shownTo n x

/-- The power of ten of a decimal's first digit. -/
def order (d : Decimal) : Int := (Nat.toDigits 10 d.digits).length - 1 + d.exponent

/-- Digits with a point behind the first, and the power of ten with its sign. -/
def scientific (d : Decimal) : List Char :=
  let mantissa := match Nat.toDigits 10 d.digits with
    | first :: second :: rest => first :: '.' :: second :: rest
    | written => written
  let power := order d
  mantissa ++ 'e' :: (if power < 0 then '-' else '+') :: Nat.toDigits 10 power.natAbs

/-- **The number of a record**: with a fraction while its first digit stands between `10 ^ -5` and `10 ^ 15`, and with
an exponent outside. -/
def resultChars (d : Decimal) : List Char :=
  if -5 ≤ order d ∧ order d ≤ 15 then
    if 0 ≤ d.exponent then d.positional ++ ['.', '0'] else d.positional
  else scientific d

/-- The number of a record; there is none for NaN and the infinities. -/
def result? (x : Float) : Option (List Char) :=
  if x.isFinite then some (sign x ++ resultChars (digits .toEven x)) else none

/-- The double next to a numeral's value; `none` for a text that is no numeral. -/
def read? (text : List Char) : Option Float := (Decimal.read? text).map Decimal.toFloat

end Numeral
end Reckoner
