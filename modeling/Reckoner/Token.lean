import Reckoner.Operator
import Reckoner.Numeral

/-!
# Token — the units a line is made of

Numbers, operators, the square root prefix, brackets, and the reference to the last answer.  A token list is written
with one space between its tokens (`Token.dump`); only the square root prefix has a symbol that can be chosen.
-/
namespace Reckoner

/-- One unit of a line. -/
inductive Token where
  | number (value : Float)
  | op (operator : Operator)
  | squareRoot
  | opening
  | closing
  | answer
deriving BEq, DecidableEq, Repr

/-- The symbol of the square root prefix unless another is chosen. -/
def defaultRootSymbol : Char := '√'

namespace Token

/-- The rank of a token; brackets and the square root prefix have none. -/
def rank? : Token → Option Rank
  | number _ | answer => some .operand
  | op operator => some operator.rank
  | squareRoot | opening | closing => none

def operator? : Token → Option Operator
  | op operator => some operator
  | _ => none

def isOperator (t : Token) : Bool := t.operator?.isSome

def isSign (t : Token) : Bool := t.operator?.any Operator.isSign

def isNumber : Token → Bool
  | number _ => true
  | _ => false

/-- A token as it is written, with the given symbol for the square root prefix. -/
def textWith (root : Char) : Token → String
  | number value => Numeral.plain value
  | op operator => operator.symbol.toString
  | squareRoot => root.toString
  | opening => "("
  | closing => ")"
  | answer => "a"

def text (t : Token) : String := t.textWith defaultRootSymbol

/-- **A token list written out**, a space between any two tokens. -/
def dumpWith (root : Char) (ts : List Token) : String := " ".intercalate (ts.map (textWith root))

def dump (ts : List Token) : String := dumpWith defaultRootSymbol ts

end Token
end Reckoner
