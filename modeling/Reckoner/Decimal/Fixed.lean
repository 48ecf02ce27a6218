import Reckoner.Decimal.Basic

/-!
# Decimal.Fixed — numbers with a limited number of places

A `Fixed` is `digits / 10 ^ scale` with digits below `2 ^ 96` and a scale of at most 28.  `ofMagnitude?` brings a
double into that form: whole numbers exactly or not at all, everything else by halving once per binary place, then
cutting the scale to 28 and the digits to about fifteen.  `round` keeps a given number of places, a half going away
from zero.
-/
namespace Reckoner
namespace Decimal

/-- The number `digits / 10 ^ scale`. -/
structure Fixed where
  digits : Nat
  scale : Nat
deriving DecidableEq, Repr

namespace Fixed

def capacity : Nat := Nat.pow 2 96

def maxScale : Nat := 28

/-- Digits from which on a number with places gives one up. -/
def precise : Nat := Nat.pow 2 52

/-- **Half of it**: exactly while another digit fits, and rounded down from there on. -/
def halve (f : Fixed) : Fixed :=
  if f.digits % 2 = 0 then ⟨f.digits / 2, f.scale⟩
  else if 5 * f.digits < capacity then ⟨5 * f.digits, f.scale + 1⟩
  else ⟨f.digits / 2, f.scale⟩

def halves (f : Fixed) : Nat → Fixed
  | 0 => f
  | count + 1 => f.halve.halves count

/-- Digits given up until the scale fits, a half rounded up each time; a number that runs out of digits is zero. -/
def limitScale (digits : Nat) : Nat → Fixed
  | 0 => ⟨digits, 0⟩
  | scale + 1 =>
    if scale + 1 ≤ maxScale then ⟨digits, scale + 1⟩
    else if digits / 10 = 0 then ⟨0, 0⟩
    else limitScale ((digits + 5) / 10) scale

/-- Places given up until the digits are few enough, a half rounded up each time. -/
def limitDigits (digits : Nat) : Nat → Fixed
  | 0 => ⟨digits, 0⟩
  | scale + 1 =>
    if digits < precise then ⟨digits, scale + 1⟩
    else limitDigits ((digits + 5) / 10) scale

def trimZeros (digits : Nat) : Nat → Fixed
  | 0 => ⟨digits, 0⟩
  | scale + 1 => if digits % 10 = 0 then trimZeros (digits / 10) scale else ⟨digits, scale + 1⟩

/-- The same number without zeros at the end of its places. -/
def trim (f : Fixed) : Fixed := trimZeros f.digits f.scale

/-- **A double as a number with places**; `none` for a whole number that has too many digits. -/
def ofMagnitude? (m : Binary64.Magnitude) : Option Fixed :=
  if 0 ≤ m.exponent then
    let whole := m.mantissa * Nat.pow 2 m.exponent.toNat
    if whole < capacity then some ⟨whole, 0⟩ else none
  else
    let halved := (Fixed.mk m.mantissa 0).halves (-m.exponent).toNat
    let scaled := limitScale halved.digits halved.scale
    some (limitDigits scaled.digits scaled.scale).trim

/-- At most `places` places, a half rounded up. -/
def round (f : Fixed) (places : Nat) : Fixed :=
  if f.scale ≤ places then f
  else
    let unit := Nat.pow 10 (f.scale - places)
    ⟨(2 * f.digits + unit) / (2 * unit), places⟩

def toDecimal (f : Fixed) : Decimal := ⟨f.digits, -f.scale⟩

end Fixed
end Decimal
end Reckoner
