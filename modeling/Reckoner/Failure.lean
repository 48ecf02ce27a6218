import Reckoner.Token

/-!
# Failure — why a line has no value

Each constructor is one cause.  `kind` sorts the causes into the three that a user is told apart, `detail` words the
cause, and `message` puts the kind in front of it.
-/
namespace Reckoner

/-- The three kinds of failure a user can see. -/
inductive FailureKind where
  | syntaxError
  | rootOfNegative
  | unknown
deriving DecidableEq, Repr

namespace FailureKind

def text : FailureKind → String
  | syntaxError => "SYNTAX ERROR"
  | rootOfNegative => "ROOT OF NEGATIVE ERROR"
  | unknown => "UNKNOWN ERROR"

def lead : FailureKind → String
  | syntaxError => "Syntax error: "
  | rootOfNegative => "Root of negative: "
  | unknown => "Unknown error: "

end FailureKind

/-- Why a line, or a part of it, has no value. -/
inductive Failure where
  /-- A run of digits and separators that is no number. -/
  | malformedNumber (literal : List Char) (position : Nat)
  /-- Nothing on the line means anything. -/
  | noTokens
  | emptyExpression
  /-- An operator with nothing on its left at the very beginning. -/
  | cannotStart (operator : Operator)
  | cannotFollow (first second : Operator)
  /-- An operator with nothing on its right at the very end. -/
  | cannotEnd (operator : Operator)
  /-- Several values and no operator left to join them. -/
  | missingOperator (tokens : List Token)
  | missingOperand (operator : Operator)
  /-- A lone token that has no value. -/
  | notValue (token : Token)
  | unopenedBracket
  | unclosedBracket
  /-- A power or root of finite numbers that is no real number. -/
  | noRealResult (x : Float) (operator : Operator) (y : Float)
  | divisionByZero (x : Float)
  /-- A step whose result is NaN or infinite. -/
  | stepNotFinite (x : Float) (operator : Operator) (y : Float)
  /-- A final value that is NaN or infinite. -/
  | valueNotFinite (value : Float)
  /-- A position picked as an operator that holds none. -/
  | noOperatorAt (position : Nat)
  /-- A reference to the last answer that nothing was put in place of. -/
  | unboundAnswer
  /-- A stretch of tokens that does not lie in its list. -/
  | outOfRange (start stop : Nat)
deriving DecidableEq, Repr

namespace Failure

def kind : Failure → FailureKind
  | malformedNumber .. | noTokens | emptyExpression | cannotStart _ | cannotFollow .. | cannotEnd _
  | missingOperator _ | missingOperand _ | notValue _ | unopenedBracket | unclosedBracket => .syntaxError
  | noRealResult .. => .rootOfNegative
  | divisionByZero _ | stepNotFinite .. | valueNotFinite _ | noOperatorAt _ | unboundAnswer
  | outOfRange .. => .unknown

def step (x : Float) (operator : Operator) (y : Float) : String :=
  Numeral.plain x ++ " " ++ operator.symbol.toString ++ " " ++ Numeral.plain y

/-- **The cause in words.** -/
def detail : Failure → String
  | malformedNumber literal position =>
    "malformed number '" ++ String.ofList literal ++ "' at position " ++ toString position
  | noTokens => "no tokens in input"
  | emptyExpression => "empty expression"
  | cannotStart operator => "expression cannot start with '" ++ operator.symbol.toString ++ "'"
  | cannotFollow first second =>
    "operator '" ++ second.symbol.toString ++ "' cannot follow '" ++ first.symbol.toString ++ "'"
  | cannotEnd operator => "expression cannot end with '" ++ operator.symbol.toString ++ "'"
  | missingOperator tokens => "missing operator in '" ++ Token.dump tokens ++ "'"
  | missingOperand operator => "operator '" ++ operator.symbol.toString ++ "' is missing an operand"
  | notValue token => "'" ++ token.text ++ "' is not a value"
  | unopenedBracket => "closing bracket without an opening bracket"
  | unclosedBracket => "unclosed bracket"
  | noRealResult x operator y => step x operator y ++ " has no real result"
  | divisionByZero x => "division of " ++ Numeral.plain x ++ " by zero"
  | stepNotFinite x operator y => step x operator y ++ " is not a finite number"
  | valueNotFinite value => Numeral.plain value ++ " is not a finite number"
  | noOperatorAt position => "no operator at position " ++ toString position
  | unboundAnswer => "answer reference was never bound"
  | outOfRange start stop => "no tokens from " ++ toString start ++ " to " ++ toString stop

/-- The cause in words, its kind in front. -/
def message (f : Failure) : String := f.kind.lead ++ f.detail

end Failure
end Reckoner
