/-!
# Binary64 — the exact size of a double

A finite double is `± mantissa · 2 ^ exponent` with a mantissa below `2 ^ 53`.  This module reads that pair off the
bit pattern, in natural numbers, so that everything said later about the digits of a number is said in exact
arithmetic.
-/
namespace Reckoner
namespace Binary64

/-- The bit pattern of positive infinity: the first one that stands for no finite number. -/
def infinityBits : Nat := 0x7ff0000000000000

/-- The bit pattern of `x` with the sign bit cleared. -/
def magnitudeBits (x : Float) : Nat := x.toBits.toNat % Nat.pow 2 63

/-- The sign bit.  It tells `-0` from `0`; for a NaN it means nothing. -/
def isNegative (x : Float) : Bool := Nat.pow 2 63 ≤ x.toBits.toNat

/-- The size of a finite double: `mantissa · 2 ^ exponent`. -/
structure Magnitude where
  mantissa : Nat
  exponent : Int
deriving DecidableEq, Repr

/-- **Reading a size off its bits.**  The eleven bits above the fraction say which power of two the fraction counts;
when they are zero the number is subnormal and the fraction has no implicit leading one. -/
def Magnitude.ofBits (bits : Nat) : Magnitude :=
  if bits / Nat.pow 2 52 = 0 then ⟨bits, -1074⟩
  else ⟨Nat.pow 2 52 + bits % Nat.pow 2 52, (bits / Nat.pow 2 52 : Nat) - 1075⟩

def magnitude (x : Float) : Magnitude := .ofBits (magnitudeBits x)

/-- The size as a natural number, if it is one. -/
def Magnitude.toNat? (m : Magnitude) : Option Nat :=
  let unit := Nat.pow 2 (-m.exponent).toNat
  if m.mantissa % unit = 0 then some (m.mantissa / unit * Nat.pow 2 m.exponent.toNat) else none

def isInteger (x : Float) : Bool := (magnitude x).toNat?.isSome

/-- A finite `x` is an odd whole number. -/
def isOddInteger (x : Float) : Bool := (magnitude x).toNat?.any (· % 2 == 1)

end Binary64
end Reckoner
