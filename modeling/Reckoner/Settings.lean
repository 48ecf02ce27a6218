import Reckoner.Token
import Reckoner.Text.Blank

/-!
# Settings — what can be chosen

The symbol of the square root prefix, and whether values that are no finite numbers are refused.  A symbol that a line
already reads as something else, or passes over as white space, is not accepted.
-/
namespace Reckoner

/-- What can be chosen about reading and evaluating. -/
structure Settings where
  rootSymbol : Char := defaultRootSymbol
  /-- NaN and infinite values are failures. -/
  domainChecks : Bool := true
deriving DecidableEq, Repr

namespace Settings

/-- Characters other than digits that a line gives a meaning to. -/
def reserved : List Char := ['.', ',', '+', '-', '*', '/', '^', 'v', '(', ')', 'a']

/-- A character that cannot be the square root symbol. -/
def isReserved (c : Char) : Bool := c.isDigit || Text.isBlank c || reserved.contains c

/-- **Settings that a line can be read with.** -/
def isValid (s : Settings) : Bool := !isReserved s.rootSymbol

def reservedMessage (c : Char) : String :=
  "'" ++ c.toString ++ "' cannot be the square root symbol, it already has a meaning"

end Settings
end Reckoner
