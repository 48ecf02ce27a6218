import Reckoner.Line
import Reckoner.Group
import Reckoner.Settings

/-!
# Calculator — lines evaluated one after another

A calculator keeps its settings and the last answer, which is zero at first.  A line that has a value makes it the
last answer; a line that fails changes nothing.
-/
namespace Reckoner

/-- A calculator between two lines. -/
structure Calculator where
  settings : Settings := {}
  lastAnswer : Float := 0

namespace Calculator

/-- A calculator that nothing has been evaluated with. -/
def new (settings : Settings) : Calculator := ⟨settings, 0⟩

def reset (c : Calculator) : Calculator := { c with lastAnswer := 0 }

/-- **The value of a line**, with the last answer bound before anything is evaluated. -/
def outcome (c : Calculator) (line : String) : Except Failure Float :=
  match Line.tokens c.settings.rootSymbol line with
  | .error f => .error f
  | .ok ts => Group.resolve c.settings.domainChecks (Token.bindAnswer c.lastAnswer ts)

/-- The calculator after an outcome: only a value is remembered. -/
def after (c : Calculator) : Except Failure Float → Calculator
  | .ok value => { c with lastAnswer := value }
  | .error _ => c

/-- **One line evaluated.** -/
def evaluate (c : Calculator) (line : String) : Except Failure Float × Calculator :=
  let outcome := c.outcome line
  (outcome, c.after outcome)

/-- An outcome in one line of text: the number, or the kind of failure. -/
def outcomeText (places : Option Nat) : Except Failure Float → String
  | .ok value => Numeral.display places value
  | .error f => f.kind.text

def evaluateText (c : Calculator) (line : String) : String × Calculator :=
  let (outcome, next) := c.evaluate line
  (outcomeText none outcome, next)

end Calculator
end Reckoner
