import Reckoner.Text.Quoted
import Reckoner.Calculator

/-!
# Record — an outcome on one line of JSON

A record of a value names the text it is displayed with, the line it came from and the number; a record of a failure
names the cause, the kind and the line.  The keys stand in alphabetical order and nothing stands between the parts.
-/
namespace Reckoner

/-- What is written down about one evaluated line. -/
inductive Record where
  | value (input : String) (value : Float) (display : String)
  | failure (input : String) (kind : FailureKind) (detail : String)

namespace Record

/-- The record of an outcome. -/
def ofOutcome (places : Option Nat) (input : String) : Except Failure Float → Record
  | .ok x => .value input x (Numeral.display places x)
  | .error f => .failure input f.kind f.detail

/-- A key, and a value that is already written. -/
def member (key : String) (written : List Char) : List Char := Text.quoted key.toList ++ ':' :: written

def object (members : List (List Char)) : List Char :=
  '\x7b' :: ([','].intercalate members ++ ['\x7d'])

def string (s : String) : List Char := Text.quoted s.toList

/-- The number of a record; where there is none, `null` stands. -/
def number (x : Float) : List Char := (Numeral.result? x).getD "null".toList

/-- **The text of a record.** -/
def chars : Record → List Char
  | value input x display =>
    object [member "display" (string display), member "input" (string input), member "result" (number x)]
  | failure input kind detail =>
    object [member "detail" (string detail), member "error" (string kind.text), member "input" (string input)]

def text (r : Record) : String := .ofList r.chars

end Record
end Reckoner
