import Reckoner.Decimal.Basic

/-!
# Decimal.Shortest — the fewest digits that read back

Cutting digits off an exact decimal leaves it between two neighbours on a coarser grid.  `shortest` takes the coarsest
grid on which one of the two still reads as the same double; if both do it takes the nearer, and an exact tie goes as
`Tie` says.  Cutting off nothing always reads back, so the search ends there.
-/
namespace Reckoner

/-- Where a number half way between two neighbours goes. -/
inductive Tie where
  | up
  | toEven
deriving DecidableEq, Repr

namespace Decimal

/-- The lower neighbour of `exact` on the grid without its last `cut` digits, or the one above it. -/
def neighbour (exact : Decimal) (cut : Nat) (above : Bool) : Decimal :=
  ⟨exact.digits / Nat.pow 10 cut + above.toNat, exact.exponent + cut⟩

/-- The upper neighbour is nearer, or equally near and preferred. -/
def roundsUp (tie : Tie) (exact : Decimal) (cut : Nat) : Bool :=
  match compare (2 * (exact.digits % Nat.pow 10 cut)) (Nat.pow 10 cut) with
  | .lt => false
  | .gt => true
  | .eq => tie == .up || exact.digits / Nat.pow 10 cut % 2 == 1

/-- The neighbour to take on one grid, if any of the two reads as the double with these bits. -/
def onGrid? (tie : Tie) (bits : Nat) (exact : Decimal) (cut : Nat) : Option Decimal :=
  let reads (above : Bool) : Bool := (exact.neighbour cut above).nearestBits == bits
  match reads false, reads true with
  | true, true => some (exact.neighbour cut (exact.roundsUp tie cut))
  | true, false => some (exact.neighbour cut false)
  | false, true => some (exact.neighbour cut true)
  | false, false => none

/-- The first hit when ever fewer digits are cut off. -/
def firstHit (tie : Tie) (bits : Nat) (exact : Decimal) : Nat → Decimal
  | 0 => exact
  | cut + 1 => (onGrid? tie bits exact (cut + 1)).getD (firstHit tie bits exact cut)

/-- **The shortest decimal that reads as the same double as `exact`**, without zeros at its end. -/
def shortest (tie : Tie) (exact : Decimal) : Decimal :=
  (firstHit tie exact.nearestBits exact (Nat.toDigits 10 exact.digits).length).trim

end Decimal
end Reckoner
