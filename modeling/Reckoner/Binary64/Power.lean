import Reckoner.Binary64.Basic

/-!
# Binary64.Power — powers and roots of doubles

Every case that the IEEE standard fixes for `pow` is decided here: powers of one and zeroth powers, NaN, the
infinities and the zeros, and the sign of a power of a negative number.  Only the size of a power of a positive finite
base is left to the platform, in `positivePower`.  A root is the power with the reciprocal exponent.
-/
namespace Reckoner
namespace Binary64

/-- The result that stands for "no number". -/
def notANumber : Float := 0 / 0

def infinity : Float := 1 / 0

def negateIf (negative : Bool) (x : Float) : Float := if negative then -x else x

/-- The size of a power of a positive finite base.  A power of a positive base is never negative and never NaN; the
guard says so without a word about how the platform computes it. -/
def positivePower (base exponent : Float) : Float :=
  let size := Float.pow base exponent
  if 0 ≤ size then size else 0

/-- A power with an infinite exponent: the base's size alone decides whether it vanishes, grows or stays. -/
def infinitePower (size : Float) (negative : Bool) : Float :=
  if size == 1 then 1
  else if decide (size < 1) != negative then 0
  else infinity

/-- **`x` to the power `y`.**  A negative finite base with an exponent that is no whole number has no real power; an
odd exponent keeps the sign of the base, every other one drops it. -/
def power (x y : Float) : Float :=
  if y == 0 || x == 1 then 1
  else if x.isNaN || y.isNaN then notANumber
  else if y.isInf then infinitePower x.abs (isNegative y)
  else if x == 0 || x.isInf then
    negateIf (isNegative x && isOddInteger y) (if (x == 0) != isNegative y then 0 else infinity)
  else if isNegative x && !isInteger y then notANumber
  else negateIf (isNegative x && isOddInteger y) (positivePower x.abs y)

/-- The root of `y` of degree `x`. -/
def root (x y : Float) : Float := power y (1 / x)

end Binary64
end Reckoner
