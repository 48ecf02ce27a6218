import Reckoner.Settings

/-!
# Refusal — why a run did not go through

Unlike a line without a value, which is part of what a run prints, a refusal ends the run.
-/
namespace Reckoner

/-- Why a run ended early or did not begin. -/
inductive Refusal where
  /-- The symbol chosen for the square root prefix already means something. -/
  | reservedSymbol (symbol : Char)
  | unreadable
  | unknownTopic (name : String)
deriving DecidableEq, Repr

namespace Refusal

def cause? : Refusal → Option String
  | reservedSymbol symbol => some (Settings.reservedMessage symbol)
  | unreadable => some "stream did not contain valid UTF-8"
  | unknownTopic _ => none

/-- **A refusal in words.** -/
def message : Refusal → String
  | reservedSymbol symbol => "Invalid configuration: " ++ Settings.reservedMessage symbol
  | unreadable => "IO error: stream did not contain valid UTF-8"
  | unknownTopic name =>
    "Unknown category: '" ++ name ++ "'\nRun 'tally docs' to see available categories."

end Refusal
end Reckoner
