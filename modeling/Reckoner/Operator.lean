import Reckoner.Binary64.Power

/-!
# Operator — the six binary operations

An operator has a rank, which says how tightly it binds, a symbol, and a meaning on doubles.  The arithmetic is plain:
a quotient by zero is an infinity and an even root of a negative number is NaN; whether such a value is an error is
decided by whoever asked for it.
-/
namespace Reckoner

/-- How tightly something binds: operands not at all, exponents most. -/
inductive Rank where
  | operand
  | additive
  | multiplicative
  | exponent
deriving DecidableEq, Repr

inductive Operator where
  | add
  | subtract
  | multiply
  | divide
  | power
  | root
deriving DecidableEq, Repr

namespace Operator

def rank : Operator → Rank
  | add | subtract => .additive
  | multiply | divide => .multiplicative
  | power | root => .exponent

def symbol : Operator → Char
  | add => '+'
  | subtract => '-'
  | multiply => '*'
  | divide => '/'
  | power => '^'
  | root => 'v'

/-- The operators that can also be read as a sign in front of a number. -/
def isSign (op : Operator) : Bool := op.rank == .additive

/-- The operators whose result may be no real number although both operands are finite. -/
def isExponential (op : Operator) : Bool := op.rank == .exponent

/-- **The meaning of an operator.**  The degree of a root stands on its left. -/
def apply : Operator → Float → Float → Float
  | add, x, y => x + y
  | subtract, x, y => x - y
  | multiply, x, y => x * y
  | divide, x, y => x / y
  | power, x, y => Binary64.power x y
  | root, x, y => Binary64.root x y

end Operator
end Reckoner
