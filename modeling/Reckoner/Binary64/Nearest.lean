import Reckoner.Binary64.Basic

/-!
# Binary64.Nearest — the double next to a quotient

`nearest num den` is the double closest to `num / den`, a tie going to the even mantissa, with gradual underflow below
`2 ^ -1022` and infinity past the largest double.  The work is one exact division: the exponent is settled first
(`log2Ratio`), then the quotient is counted in units of that power of two and rounded (`divideToEven`).
-/
namespace Reckoner
namespace Binary64

/-- **The binary order of a quotient**: for positive numbers the `e` with `2 ^ e ≤ num / den < 2 ^ (e + 1)`. -/
def log2Ratio (num den : Nat) : Int :=
  let e : Int := num.log2 - den.log2
  if num * Nat.pow 2 (-e).toNat < den * Nat.pow 2 e.toNat then e - 1 else e

/-- The whole number closest to `num / den`; of two equally close ones the even one. -/
def divideToEven (num den : Nat) : Nat :=
  let whole := num / den
  let rest := num % den
  if 2 * rest < den then whole
  else if den < 2 * rest then whole + 1
  else whole + whole % 2

/-- **The bits of the double next to `num / den`.**  A mantissa that rounds up to `2 ^ 53` carries into the exponent
field by plain addition, and whatever passes the largest finite pattern is infinity. -/
def nearestBits (num den : Nat) : Nat :=
  if num = 0 then 0
  else
    let exponent := max (log2Ratio num den - 52) (-1074)
    let mantissa := divideToEven (num * Nat.pow 2 (-exponent).toNat) (den * Nat.pow 2 exponent.toNat)
    min ((exponent + 1074).toNat * Nat.pow 2 52 + mantissa) infinityBits

def nearest (num den : Nat) : Float := .ofBits (.ofNat (nearestBits num den))

end Binary64
end Reckoner
